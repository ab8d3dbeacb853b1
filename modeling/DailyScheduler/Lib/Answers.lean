import DailyScheduler.Lib.RelyGuarantee

set_option autoImplicit false

/-! # What a program may answer

Other parties change the state between two steps of a program as they like. `p.Answers I v` says that
`p` may then end with `v`, if each of its own steps finds a state in `I`. A thread of a pool ends
with nothing else, so what holds of all answers holds under every schedule.
-/

namespace AtomicProg

variable {σ ε ξ α β ι : Type}

namespace Prog

/-- The program may end with `v`, its steps finding states in `I`. -/
def Answers (I : σ → Prop) : Prog σ ε ξ α → Except ξ α → Prop
  | .ret a, v => v = .ok a
  | .raise x, v => v = .error x
  | .act _ _ k, v => ∃ s, I s ∧ Answers I (k s) v

variable {I : σ → Prop} {p : Prog σ ε ξ α} {v : Except ξ α}

theorem Answers.bind {q : β → Prog σ ε ξ α} {p : Prog σ ε ξ β} (h : (p >>= q).Answers I v) :
    (∃ b, p.Answers I (.ok b) ∧ (q b).Answers I v) ∨ ∃ x, p.Answers I (.error x) ∧ v = .error x := by
  induction p with
  | ret b => exact .inl ⟨b, rfl, h⟩
  | raise x => exact .inr ⟨x, rfl, h⟩
  | act f e k ih =>
      obtain ⟨s, hs, hk⟩ := h
      rcases ih s hk with ⟨b, hb, hq⟩ | ⟨x, hx, hv⟩
      · exact .inl ⟨b, ⟨s, hs, hb⟩, hq⟩
      · exact .inr ⟨x, ⟨s, hs, hx⟩, hv⟩

/-- A program that returns is one whose parts return. -/
theorem Answers.bind_ok {q : β → Prog σ ε ξ α} {p : Prog σ ε ξ β} {a : α}
    (h : (p >>= q).Answers I (.ok a)) : ∃ b, p.Answers I (.ok b) ∧ (q b).Answers I (.ok a) := by
  rcases h.bind with hb | ⟨x, -, hv⟩
  · exact hb
  · cases hv

theorem Answers.command {f : σ → α × σ} {e : σ → List ε}
    (h : (Prog.command f e : Prog σ ε ξ α).Answers I v) : ∃ s, I s ∧ v = .ok (f s).1 := h

theorem answers_command {f : σ → α × σ} {e : σ → List ε} {s : σ} {a : α} (hs : I s)
    (ha : (f s).1 = a) : (Prog.command f e : Prog σ ε ξ α).Answers I (.ok a) :=
  ⟨s, hs, congrArg Except.ok ha.symm⟩

theorem Answers.andThen {q : β → Prog σ ε ξ α} {p : Prog σ ε ξ β} {b : β}
    (h : p.Answers I (.ok b)) (hq : (q b).Answers I v) : (p >>= q).Answers I v := by
  induction p with
  | ret c =>
      cases h
      exact hq
  | raise x => cases h
  | act f e k ih =>
      obtain ⟨s, hs, hk⟩ := h
      exact ⟨s, hs, ih s hk⟩

theorem Answers.forEach {l : List β} {f : β → Prog σ ε ξ Unit}
    (h : ∀ b ∈ l, (f b).Answers I (.ok ())) : (Prog.forEach l f).Answers I (.ok ()) := by
  induction l with
  | nil => rfl
  | cons b l ih =>
      exact (h b List.mem_cons_self).andThen (ih fun c hc => h c (List.mem_cons_of_mem b hc))

/-- A run alone ends with an answer. -/
theorem answers_run (p : Prog σ ε ξ α) (s : σ) : p.Answers (fun _ => True) (p.run s).val := by
  induction p generalizing s with
  | ret a => rfl
  | raise x => rfl
  | act f e k ih => exact ⟨s, trivial, ih s (f s)⟩

end Prog

/-- Under a schedule through states in `I` a thread comes to answers of its program only. -/
theorem Pool.answers_of_exec [DecidableEq ι] {I : σ → Prop} {P : Pool ι σ ε ξ α} {i : ι}
    {v : Except ξ α} {l : List ι} (hI : ∀ l', l' <+: l → I (P.exec l').state)
    (h : ((P.exec l).threads i).Answers I v) : (P.threads i).Answers I v := by
  induction l generalizing P with
  | nil => exact h
  | cons j l ih =>
      have hstate : I P.state := hI [] (List.nil_prefix)
      have hrest : ((P.step j).threads i).Answers I v := by
        refine ih (fun l' hl' => ?_) h
        have hcons := hI (j :: l') (List.cons_prefix_cons.2 ⟨rfl, hl'⟩)
        rwa [Pool.exec_cons] at hcons
      unfold Pool.step at hrest
      cases hj : P.threads j with
      | ret a =>
          rw [hj] at hrest
          exact hrest
      | raise x =>
          rw [hj] at hrest
          exact hrest
      | act f e k =>
          rw [hj] at hrest
          by_cases hij : i = j
          · subst hij
            rw [hj]
            refine ⟨P.state, hstate, ?_⟩
            have hself : (Function.update P.threads i (k P.state) i).Answers I v := hrest
            rwa [Function.update_self] at hself
          · have hother : (Function.update P.threads j (k P.state) i).Answers I v := hrest
            rwa [Function.update_of_ne hij] at hother

end AtomicProg
