import DailyScheduler.Lib.Steps

set_option autoImplicit false

/-! # Weakest preconditions

`p.wp Q X s` says that `p`, run alone from `s`, ends in a state where `Q` holds of the value it returns,
or `X` of what it raises. There is one equation for each way to build a program, so that a goal about a
program becomes one about the states it goes through: `wp_bind`, `wp_read`, `wp_write` and so on are in
the simp set.
-/

namespace AtomicProg

variable {σ ε ξ α β : Type}

namespace Prog

/-- What must hold before the program for `Q` and `X` to hold after it. -/
def wp (Q : α → σ → Prop) (X : ξ → σ → Prop) : Prog σ ε ξ α → σ → Prop
  | .ret a, s => Q a s
  | .raise x, s => X x s
  | .act f _ k, s => wp Q X (k s) (f s)

variable {Q Q' : α → σ → Prop} {X X' : ξ → σ → Prop} {p : Prog σ ε ξ α} {s : σ}

@[simp] theorem wp_ret {a : α} : (Prog.ret a : Prog σ ε ξ α).wp Q X s ↔ Q a s := Iff.rfl

@[simp] theorem wp_raise {x : ξ} : (Prog.raise x : Prog σ ε ξ α).wp Q X s ↔ X x s := Iff.rfl

@[simp] theorem wp_read {g : σ → α} : (Prog.read g : Prog σ ε ξ α).wp Q X s ↔ Q (g s) s := Iff.rfl

@[simp] theorem wp_write {Q : Unit → σ → Prop} {f : σ → σ} :
    (Prog.write f : Prog σ ε ξ Unit).wp Q X s ↔ Q () (f s) := Iff.rfl

@[simp] theorem wp_command {f : σ → α × σ} {e : σ → List ε} :
    (Prog.command f e : Prog σ ε ξ α).wp Q X s ↔ Q (f s).1 (f s).2 := Iff.rfl

@[simp] theorem wp_bind {Q : β → σ → Prop} {q : α → Prog σ ε ξ β} :
    (p >>= q).wp Q X s ↔ p.wp (fun a => (q a).wp Q X) X s := by
  induction p generalizing s with
  | ret a => rfl
  | raise x => rfl
  | act f e k ih => exact ih s

@[simp] theorem wp_tryCatch {h : ξ → Prog σ ε ξ α} :
    (p.tryCatch h).wp Q X s ↔ p.wp Q (fun x => (h x).wp Q X) s := by
  induction p generalizing s with
  | ret a => rfl
  | raise x => rfl
  | act f e k ih => exact ih s

@[simp] theorem wp_ite {b : Prop} [Decidable b] {q : Prog σ ε ξ α} :
    (if b then p else q).wp Q X s ↔ (b → p.wp Q X s) ∧ (¬ b → q.wp Q X s) := by
  by_cases hb : b
  · simp [hb]
  · simp [hb]

theorem wp_attempt {Q : Except ξ α → σ → Prop} :
    p.attempt.wp Q X s ↔ p.wp (fun a => Q (.ok a)) (fun x => Q (.error x)) s := by
  unfold attempt
  rw [wp_tryCatch, ← bind_eq, wp_bind]
  rfl

theorem wp_mono (h : p.wp Q X s) (hQ : ∀ a s, Q a s → Q' a s) (hX : ∀ x s, X x s → X' x s) :
    p.wp Q' X' s := by
  induction p generalizing s with
  | ret a => exact hQ a s h
  | raise x => exact hX x s h
  | act f e k ih => exact ih s h

/-- The rule for loops: every round keeps the invariant. -/
theorem wp_forEach {I : σ → Prop} {l : List β} {f : β → Prog σ ε ξ Unit}
    (h : ∀ b ∈ l, ∀ s, I s → (f b).wp (fun _ => I) (fun _ => I) s) (hs : I s) :
    (Prog.forEach l f).wp (fun _ => I) (fun _ => I) s := by
  induction l generalizing s with
  | nil => exact hs
  | cons b l ih =>
      show (f b >>= fun _ => Prog.forEach l f).wp (fun _ => I) (fun _ => I) s
      rw [wp_bind]
      refine wp_mono (h b List.mem_cons_self s hs) ?_ (fun _ _ => id)
      intro _ s' hs'
      exact ih (fun b' hb' => h b' (List.mem_cons_of_mem b hb')) hs'

/-- Steps that keep the invariant, one by one. -/
theorem wp_of_steps {R : σ → σ → List ε → Prop} {V : α → Prop} {I : σ → Prop} (h : p.Steps R V)
    (hR : ∀ s s' es, R s s' es → I s → I s') (hs : I s) : p.wp (fun _ => I) (fun _ => I) s := by
  induction p generalizing s with
  | ret a => exact hs
  | raise x => exact hs
  | act f e k ih => exact ih s (h s).2 (hR _ _ _ (h s).1 hs)

/-- What holds however the program ends. -/
theorem wp_const {I : σ → Prop} : p.wp (fun _ => I) (fun _ => I) s ↔ I (p.exec s) := by
  induction p generalizing s with
  | ret a => rfl
  | raise x => rfl
  | act f e k ih => exact ih s

end Prog

end AtomicProg
