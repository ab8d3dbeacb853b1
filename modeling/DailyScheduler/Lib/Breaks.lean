import DailyScheduler.Lib.Steps

set_option autoImplicit false

/-! # Programs that may be interrupted

A program that talks to another party fails when the connection breaks. `p.broken x (some n)` is `p`
with the step number `n` and all later ones replaced by the exception `x`; what every step of `p` does,
every step of it does.
-/

namespace AtomicProg

variable {σ ε ξ α β : Type}

namespace Prog

/-- The program is interrupted before the step with the number `n`, and raises `x` there. -/
def cut (x : ξ) : Prog σ ε ξ α → Nat → Prog σ ε ξ α
  | .ret a, _ => .ret a
  | .raise y, _ => .raise y
  | .act _ _ _, 0 => .raise x
  | .act f e k, n + 1 => .act f e fun s => (k s).cut x n

/-- A program that may be interrupted. -/
def broken (x : ξ) (breaks : Option Nat) (p : Prog σ ε ξ α) : Prog σ ε ξ α :=
  match breaks with
  | none => p
  | some n => p.cut x n

variable {R : σ → σ → List ε → Prop} {Q : α → Prop} {p : Prog σ ε ξ α}

theorem Steps.cut (h : p.Steps R Q) (x : ξ) (n : Nat) : (p.cut x n).Steps R Q := by
  induction p generalizing n with
  | ret a => exact h
  | raise y => trivial
  | act f e k ih =>
      cases n with
      | zero => trivial
      | succ n => exact fun s => ⟨(h s).1, ih s (h s).2 n⟩

theorem Steps.broken (h : p.Steps R Q) (x : ξ) (breaks : Option Nat) :
    (p.broken x breaks).Steps R Q := by
  cases breaks with
  | none => exact h
  | some n => exact h.cut x n

/-- What follows a program matters only for the values that it returns. -/
theorem Steps.bind_congr {q q' : α → Prog σ ε ξ β} (h : p.Steps R Q) (hq : ∀ a, Q a → q a = q' a) :
    (p >>= q) = (p >>= q') := by
  induction p with
  | ret a => exact hq a h
  | raise x => rfl
  | act f e k ih => exact congrArg (Prog.act f e) (funext fun s => ih s (h s).2)

end Prog

/-- What is safe among others is safe alone. -/
theorem Side.Safe.run {τ : Type} {S : Side σ ε τ} {Q : α → Config σ τ → Prop}
    {X : ξ → Config σ τ → Prop} {p : Prog σ ε ξ α} {c : Config σ τ} (h : S.Safe Q X p c) {a : α}
    (ha : (p.run c.1).val = .ok a) : ∃ t, Q a ((p.run c.1).state, t) := by
  induction p generalizing c with
  | ret b =>
      cases ha
      exact ⟨c.2, h c (S.rely_refl c)⟩
  | raise x => cases ha
  | act f e k ih => exact ih c.1 (h c (S.rely_refl c)).2 ha

end AtomicProg
