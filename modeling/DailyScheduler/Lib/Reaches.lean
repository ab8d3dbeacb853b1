import DailyScheduler.Lib.Steps

set_option autoImplicit false

/-! # Parts of a state and stretches of a run

`p.zoom get set tag` runs a program on a part of a larger state. `p.Reaches s es p' s'` says that
`p`, run alone from `s`, comes to the rest `p'` in the state `s'` and has emitted `es` by then; in
a pool the thread can be scheduled so that it does (`Pool.exists_exec_of_reaches`). Runs of a pool
that end in a given way are put together from such stretches.
-/

namespace AtomicProg

variable {σ τ ε ε' ξ α β ι : Type}

namespace Prog

/-- Run the program on the part `get t` of the state `t`. -/
def zoom (get : τ → σ) (set : σ → τ → τ) (tag : ε → ε') : Prog σ ε ξ α → Prog τ ε' ξ α
  | .ret a => .ret a
  | .raise x => .raise x
  | .act f e k => .act (fun t => set (f (get t)) t) (fun t => (e (get t)).map tag)
      (fun t => (k (get t)).zoom get set tag)

/-- The part is changed as the program changes it, and the rest of the state not at all. -/
theorem run_zoom {get : τ → σ} {set : σ → τ → τ} {tag : ε → ε'}
    (hget : ∀ s t, get (set s t) = s) (hset : ∀ s s' t, set s' (set s t) = set s' t)
    (hself : ∀ t, set (get t) t = t) (p : Prog σ ε ξ α) (t : τ) :
    (p.zoom get set tag).run t
      = ⟨(p.run (get t)).val, set (p.run (get t)).state t, (p.run (get t)).trace.map tag⟩ := by
  induction p generalizing t with
  | ret a => simp [zoom, hself]
  | raise x => simp [zoom, hself]
  | act f e k ih =>
      simp only [zoom, run, ih, hget, hset, List.map_append]

/-- All events come from the program. -/
theorem zoom_steps {get : τ → σ} {set : σ → τ → τ} {tag : ε → ε'} (p : Prog σ ε ξ α) :
    (p.zoom get set tag).Steps (fun _ _ es => ∀ e ∈ es, ∃ e', e = tag e') fun _ => True := by
  induction p with
  | ret a => trivial
  | raise x => trivial
  | act f e k ih =>
      refine fun t => ⟨fun x hx => ?_, ih (get t)⟩
      obtain ⟨y, -, rfl⟩ := List.mem_map.1 hx
      exact ⟨y, rfl⟩

/-! ## Stretches -/

/-- Run alone from the state `s`, the program comes to the rest `p'` in the state `s'`. -/
inductive Reaches : Prog σ ε ξ α → σ → List ε → Prog σ ε ξ α → σ → Prop where
  | here (p : Prog σ ε ξ α) (s : σ) : Reaches p s [] p s
  | step {f : σ → σ} {e : σ → List ε} {k : σ → Prog σ ε ξ α} {s s' : σ} {es : List ε}
      {p' : Prog σ ε ξ α} :
      Reaches (k s) (f s) es p' s' → Reaches (.act f e k) s (e s ++ es) p' s'

theorem Reaches.trans {p p' p'' : Prog σ ε ξ α} {s s' s'' : σ} {es es' : List ε}
    (h : p.Reaches s es p' s') (h' : p'.Reaches s' es' p'' s'') :
    p.Reaches s (es ++ es') p'' s'' := by
  induction h with
  | here p s => exact h'
  | step _ ih =>
      rw [List.append_assoc]
      exact .step (ih h')

/-- The first part of a program comes as far as it does alone. -/
theorem Reaches.bind {p p' : Prog σ ε ξ β} {s s' : σ} {es : List ε} (h : p.Reaches s es p' s')
    (q : β → Prog σ ε ξ α) : (p >>= q).Reaches s es (p' >>= q) s' := by
  induction h with
  | here p s => exact .here _ _
  | step _ ih => exact .step ih

theorem Reaches.tryCatch {p p' : Prog σ ε ξ α} {s s' : σ} {es : List ε} (h : p.Reaches s es p' s')
    (hd : ξ → Prog σ ε ξ α) : (p.tryCatch hd).Reaches s es (p'.tryCatch hd) s' := by
  induction h with
  | here p s => exact .here _ _
  | step _ ih => exact .step ih

theorem Reaches.attempt {p p' : Prog σ ε ξ α} {s s' : σ} {es : List ε}
    (h : p.Reaches s es p' s') : p.attempt.Reaches s es p'.attempt s' :=
  (h.bind _).tryCatch _

/-- A program whose first part returns comes to its second part. -/
theorem reaches_bind {p : Prog σ ε ξ β} (q : β → Prog σ ε ξ α) {s : σ} {b : β}
    (h : (p.run s).val = .ok b) : (p >>= q).Reaches s (p.run s).trace (q b) (p.exec s) := by
  induction p generalizing s with
  | ret a =>
      cases h
      exact .here _ _
  | raise x => cases h
  | act f e k ih => exact .step (ih s h)

/-- A loop comes to the round of each element of its list, if the rounds before it return. -/
theorem reaches_forEach {I : σ → Prop} {f : β → Prog σ ε ξ Unit} {l l' : List β} {b : β}
    (h : ∀ b' ∈ l, ∀ s, I s → ((f b').run s).val = .ok () ∧ I ((f b').exec s)) {s : σ} (hs : I s) :
    ∃ es s', I s' ∧ (forEach (l ++ b :: l') f).Reaches s es
      (f b >>= fun _ => forEach l' f) s' := by
  induction l generalizing s with
  | nil => exact ⟨[], s, hs, .here _ _⟩
  | cons b' l ih =>
      obtain ⟨hval, hkeep⟩ := h b' List.mem_cons_self s hs
      obtain ⟨es, s', hs', hrest⟩ := ih (fun b'' hb'' => h b'' (List.mem_cons_of_mem b' hb'')) hkeep
      exact ⟨_, s', hs', (reaches_bind _ hval).trans hrest⟩

end Prog

namespace Pool

variable [DecidableEq ι]

/-- A thread that is scheduled alone takes its stretch. -/
theorem exists_exec_of_reaches {P : Pool ι σ ε ξ α} {i : ι} {es : List ε} {p' : Prog σ ε ξ α}
    {s' : σ} (h : (P.threads i).Reaches P.state es p' s') :
    ∃ n, P.exec (List.replicate n i)
      = ⟨Function.update P.threads i p', s', P.log ++ es.map fun x => (i, x)⟩ := by
  generalize hp : P.threads i = p at h
  generalize hs : P.state = s at h
  induction h generalizing P with
  | here p s =>
      subst hp hs
      exact ⟨0, by simp⟩
  | @step f e k s s' es p' _ ih =>
      have hstep : P.step i = ⟨Function.update P.threads i (k s), f s,
          P.log ++ (e s).map fun x => (i, x)⟩ := by
        unfold Pool.step
        rw [hp, hs]
      obtain ⟨n, hn⟩ := ih (P := P.step i) (by rw [hstep]; simp) (by rw [hstep])
      refine ⟨n + 1, ?_⟩
      rw [List.replicate_succ, exec_cons, hn, hstep]
      simp

end Pool

end AtomicProg
