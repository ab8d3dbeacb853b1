import DailyScheduler.Lib.Prog

set_option autoImplicit false

/-! # Programs that never raise

Whatever states a program finds, it ends with a value: its exceptions are handed over as values.
-/

namespace AtomicProg

namespace Prog

variable {σ ε ξ α β : Type}

def Returns : Prog σ ε ξ α → Prop
  | .ret _ => True
  | .raise _ => False
  | .act _ _ k => ∀ s, Returns (k s)

namespace Returns

variable {p : Prog σ ε ξ α}

theorem bind {q : α → Prog σ ε ξ β} (h : p.Returns) (hq : ∀ a, (q a).Returns) : (p >>= q).Returns := by
  induction p with
  | ret a => exact hq a
  | raise x => exact h.elim
  | act f e k ih =>
      intro s
      exact ih s (h s)

/-- An exception becomes a value. -/
theorem attempt (p : Prog σ ε ξ α) : p.attempt.Returns := by
  induction p with
  | ret a => trivial
  | raise x => trivial
  | act f e k ih =>
      intro s
      exact ih s

theorem read (g : σ → α) : (Prog.read g : Prog σ ε ξ α).Returns := fun _ => trivial

theorem write (f : σ → σ) : (Prog.write f : Prog σ ε ξ Unit).Returns := fun _ => trivial

theorem emit (e : ε) : (Prog.emit e : Prog σ ε ξ Unit).Returns := fun _ => trivial

theorem ite {b : Prop} [Decidable b] {p q : Prog σ ε ξ α} (hp : b → p.Returns) (hq : ¬ b → q.Returns) :
    (if b then p else q).Returns := by
  by_cases hb : b
  · rw [if_pos hb]
    exact hp hb
  · rw [if_neg hb]
    exact hq hb

/-- A run of such a program. -/
theorem run (h : p.Returns) (s : σ) : ∃ a, (p.run s).val = .ok a := by
  induction p generalizing s with
  | ret a => exact ⟨a, rfl⟩
  | raise x => exact h.elim
  | act f e k ih => exact ih s (h s) (f s)

end Returns

end Prog

end AtomicProg
