import DailyScheduler.Lib.RelyGuarantee

set_option autoImplicit false

/-! # The order in which a program makes its events

A protocol is an automaton over events: `next q e` is its state after the event `e` in the state `q`,
`none` where the event is out of order. `p.Follows next Q X q` says that from `q` on the events of the
program are in order, whatever states it finds, and that it ends in a state in `Q`, or in `X` where it
raises. This needs no account of what other parties do, so among them it is as true as alone: in a pool
the events of the thread lead to a state from which what is left of the thread follows the protocol
(`Pool.exec_followed`).
-/

namespace AtomicProg

variable {σ ε ξ α β δ ι : Type}

/-- The state after several events. -/
def runEvents (next : δ → ε → Option δ) (q : δ) (es : List ε) : Option δ := es.foldlM next q

@[simp] theorem runEvents_nil (next : δ → ε → Option δ) (q : δ) : runEvents next q [] = some q := rfl

@[simp] theorem runEvents_cons (next : δ → ε → Option δ) (q : δ) (e : ε) (es : List ε) :
    runEvents next q (e :: es) = (next q e).bind fun q' => runEvents next q' es := rfl

theorem runEvents_singleton (next : δ → ε → Option δ) (q : δ) (e : ε) :
    runEvents next q [e] = next q e := by
  rw [runEvents_cons]
  exact Option.bind_fun_some _

theorem runEvents_append (next : δ → ε → Option δ) (q : δ) (es es' : List ε) :
    runEvents next q (es ++ es') = (runEvents next q es).bind fun q' => runEvents next q' es' :=
  List.foldlM_append

namespace Prog

/-- The events of the program are in the order of the protocol. -/
def Follows (next : δ → ε → Option δ) (Q : α → δ → Prop) (X : ξ → δ → Prop) :
    Prog σ ε ξ α → δ → Prop
  | .ret a, q => Q a q
  | .raise x, q => X x q
  | .act _ e k, q => ∀ s, ∃ q', runEvents next q (e s) = some q' ∧ Follows next Q X (k s) q'

namespace Follows

variable {next : δ → ε → Option δ} {Q Q' : α → δ → Prop} {X X' : ξ → δ → Prop} {q : δ}
  {p : Prog σ ε ξ α}

theorem mono (h : p.Follows next Q X q) (hQ : ∀ a q, Q a q → Q' a q) (hX : ∀ x q, X x q → X' x q) :
    p.Follows next Q' X' q := by
  induction p generalizing q with
  | ret a => exact hQ a q h
  | raise x => exact hX x q h
  | act f e k ih =>
      intro s
      obtain ⟨q', hq', hk⟩ := h s
      exact ⟨q', hq', ih s hk⟩

theorem bind {Q' : β → δ → Prop} {f : α → Prog σ ε ξ β} (h : p.Follows next Q X q)
    (hf : ∀ a q, Q a q → (f a).Follows next Q' X q) : (p >>= f).Follows next Q' X q := by
  induction p generalizing q with
  | ret a => exact hf a q h
  | raise x => exact h
  | act g e k ih =>
      intro s
      obtain ⟨q', hq', hk⟩ := h s
      exact ⟨q', hq', ih s hk⟩

theorem tryCatch {hd : ξ → Prog σ ε ξ α} (h : p.Follows next Q X q)
    (hh : ∀ x q, X x q → (hd x).Follows next Q X' q) : (p.tryCatch hd).Follows next Q X' q := by
  induction p generalizing q with
  | ret a => exact h
  | raise x => exact hh x q h
  | act f e k ih =>
      intro s
      obtain ⟨q', hq', hk⟩ := h s
      exact ⟨q', hq', ih s hk⟩

theorem read {g : σ → β} {Q : β → δ → Prop} (h : ∀ b, Q b q) :
    (Prog.read g : Prog σ ε ξ β).Follows next Q X q := fun _ => ⟨q, rfl, h _⟩

theorem write {f : σ → σ} {Q : Unit → δ → Prop} (h : Q () q) :
    (Prog.write f : Prog σ ε ξ Unit).Follows next Q X q := fun _ => ⟨q, rfl, h⟩

theorem emit {e : ε} {Q : Unit → δ → Prop} {r : δ} (hnext : next q e = some r) (h : Q () r) :
    (Prog.emit e : Prog σ ε ξ Unit).Follows next Q X q := by
  exact fun s => ⟨r, (runEvents_singleton next q e).trans hnext, h⟩

theorem command {f : σ → β × σ} {e : σ → List ε} {Q : β → δ → Prop}
    (h : ∀ s, ∃ q', runEvents next q (e s) = some q' ∧ Q (f s).1 q') :
    (Prog.command f e : Prog σ ε ξ β).Follows next Q X q := h

/-- A loop that comes back to the state it began with. -/
theorem forEach {l : List β} {f : β → Prog σ ε ξ Unit}
    (h : ∀ b ∈ l, (f b).Follows next (fun _ q' => q' = q) X q) :
    (Prog.forEach l f).Follows next (fun _ q' => q' = q) X q := by
  induction l with
  | nil => exact rfl
  | cons b l ih =>
      obtain ⟨hb, hl⟩ := List.forall_mem_cons.1 h
      refine hb.bind fun _ q' hq' => ?_
      subst hq'
      exact ih hl

end Follows

end Prog

namespace Pool

variable [DecidableEq ι]

/-- The events of one thread, in their order. -/
def eventsOf (i : ι) (log : List (ι × ε)) : List ε :=
  log.filterMap fun x => if x.1 = i then some x.2 else none

theorem mem_eventsOf {i : ι} {log : List (ι × ε)} {e : ε} : e ∈ eventsOf i log ↔ (i, e) ∈ log := by
  unfold eventsOf
  rw [List.mem_filterMap]
  constructor
  · rintro ⟨⟨j, e'⟩, hmem, heq⟩
    by_cases hj : j = i
    · rw [if_pos hj] at heq
      cases heq
      exact hj ▸ hmem
    · rw [if_neg hj] at heq
      cases heq
  · exact fun hmem => ⟨(i, e), hmem, if_pos rfl⟩

theorem eventsOf_append (i : ι) (log log' : List (ι × ε)) :
    eventsOf i (log ++ log') = eventsOf i log ++ eventsOf i log' := List.filterMap_append

theorem eventsOf_own (i : ι) (es : List ε) : eventsOf i (es.map fun e => (i, e)) = es := by
  induction es with
  | nil => rfl
  | cons e es ih =>
      have hhead : eventsOf i ((i, e) :: es.map fun e => (i, e)) = e :: eventsOf i (es.map fun e => (i, e)) :=
        List.filterMap_cons_some (if_pos rfl)
      rw [List.map_cons, hhead, ih]

theorem eventsOf_other {i j : ι} (h : j ≠ i) (es : List ε) :
    eventsOf i (es.map fun e => (j, e)) = [] := by
  unfold eventsOf
  rw [List.filterMap_eq_nil_iff]
  intro x hx
  obtain ⟨e, -, rfl⟩ := List.mem_map.1 hx
  exact if_neg h

variable {next : δ → ε → Option δ} {Q : α → δ → Prop} {X : ξ → δ → Prop}

/-- The events of the thread have led to a state from which the rest of it follows the protocol. -/
structure Followed (next : δ → ε → Option δ) (Q : α → δ → Prop) (X : ξ → δ → Prop) (q₀ : δ) (i : ι)
    (P : Pool ι σ ε ξ α) (q : δ) : Prop where
  reached : runEvents next q₀ (eventsOf i P.log) = some q
  rest : (P.threads i).Follows next Q X q

theorem step_followed {P : Pool ι σ ε ξ α} {i : ι} {q₀ q : δ} (h : Followed next Q X q₀ i P q)
    (j : ι) : ∃ q', Followed next Q X q₀ i (P.step j) q' := by
  unfold step
  cases hp : P.threads j with
  | ret a => exact ⟨q, h⟩
  | raise x => exact ⟨q, h⟩
  | act f e k =>
      by_cases hj : j = i
      · subst hj
        have hrest := h.rest
        rw [hp] at hrest
        obtain ⟨q', hq', hk⟩ := hrest P.state
        refine ⟨q', ⟨?_, ?_⟩⟩
        · dsimp only
          rw [eventsOf_append, eventsOf_own, runEvents_append, h.reached]
          exact hq'
        · dsimp only
          rw [Function.update_self]
          exact hk
      · refine ⟨q, ⟨?_, ?_⟩⟩
        · dsimp only
          rw [eventsOf_append, eventsOf_other hj, List.append_nil]
          exact h.reached
        · dsimp only
          rw [Function.update_of_ne (Ne.symm hj)]
          exact h.rest

/-- **Whatever the others do, a thread keeps to its protocol.** -/
theorem exec_followed {P : Pool ι σ ε ξ α} {i : ι} {q₀ q : δ} (h : Followed next Q X q₀ i P q)
    (l : List ι) : ∃ q', Followed next Q X q₀ i (P.exec l) q' := by
  induction l generalizing P q with
  | nil => exact ⟨q, h⟩
  | cons j l ih =>
      obtain ⟨q', hq'⟩ := step_followed h j
      rw [exec_cons]
      exact ih hq'

/-- The thread has a step to take. -/
def Running (P : Pool ι σ ε ξ α) (i : ι) : Prop :=
  (∀ a, P.threads i ≠ .ret a) ∧ ∀ x, P.threads i ≠ .raise x

/-- A thread that does not run has ended as the protocol says. -/
theorem Followed.ended {P : Pool ι σ ε ξ α} {i : ι} {q₀ q : δ} (h : Followed next Q X q₀ i P q) :
    Running P i ∨ (∃ a, P.threads i = .ret a ∧ Q a q) ∨ ∃ x, P.threads i = .raise x ∧ X x q := by
  have hrest := h.rest
  cases hp : P.threads i with
  | ret a =>
      rw [hp] at hrest
      exact .inr (.inl ⟨a, rfl, hrest⟩)
  | raise x =>
      rw [hp] at hrest
      exact .inr (.inr ⟨x, rfl, hrest⟩)
  | act f e k =>
      refine .inl ⟨fun a ha => ?_, fun x hx => ?_⟩
      · rw [hp] at ha
        cases ha
      · rw [hp] at hx
        cases hx

end Pool

end AtomicProg
