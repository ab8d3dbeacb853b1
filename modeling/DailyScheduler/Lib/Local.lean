import DailyScheduler.Lib.Prog

set_option autoImplicit false

/-! # Programs with a state of their own

A thread works on a shared state and on one of its own. `lift` reads a program on the shared state as
one of a thread, which leaves the thread's state alone. `Keeps` says that a program of a thread hands
its own state back as it found it, whatever it does with it in between, and makes only good notes.
`Erases` says that without the notes it is a program on the shared state.
-/

namespace AtomicProg

/-- The shared state and the thread's own. -/
structure Local (σ τ : Type) where
  shared : σ
  own : τ

namespace Prog

variable {σ τ ε ν ξ α β α' β' : Type}

/-- A program on the shared state as one of a thread. -/
def lift (τ ν : Type) : Prog σ ε ξ α → Prog (Local σ τ) (ε ⊕ ν) ξ α
  | .ret a => .ret a
  | .raise x => .raise x
  | .act f e k => .act (fun s => ⟨f s.shared, s.own⟩) (fun s => (e s.shared).map Sum.inl)
      fun s => (k s.shared).lift τ ν

theorem run_lift (p : Prog σ ε ξ α) (s : σ) (t : τ) : (p.lift τ ν).run ⟨s, t⟩
    = ⟨(p.run s).val, ⟨(p.run s).state, t⟩, (p.run s).trace.map Sum.inl⟩ := by
  induction p generalizing s with
  | ret a => rfl
  | raise x => rfl
  | act f e k ih =>
      simp only [lift, run, ih s (f s), List.map_append]

/-! ## Keeping the own state -/

/-- From the own state `t` the program ends with `t`, notes only what is good, and returns only what
satisfies `Q`. -/
structure Keeps (good : ν → Prop) (t : τ) (p : Prog (Local σ τ) (ε ⊕ ν) ξ α) (Q : α → Prop) :
    Prop where
  own : ∀ s, (p.run ⟨s, t⟩).state.own = t
  notes : ∀ s n, Sum.inr n ∈ (p.run ⟨s, t⟩).trace → good n
  val : ∀ s a, (p.run ⟨s, t⟩).val = .ok a → Q a

namespace Keeps

variable {good : ν → Prop} {t : τ} {Q : α → Prop} {Q' : β → Prop}

theorem ret {a : α} (h : Q a) : Keeps good t (.ret a : Prog (Local σ τ) (ε ⊕ ν) ξ α) Q where
  own _ := rfl
  notes _ _ hn := by cases hn
  val _ _ ha := by
    cases ha
    exact h

theorem raise (x : ξ) : Keeps good t (.raise x : Prog (Local σ τ) (ε ⊕ ν) ξ α) Q where
  own _ := rfl
  notes _ _ hn := by cases hn
  val _ _ ha := by cases ha

theorem state {p : Prog (Local σ τ) (ε ⊕ ν) ξ α} (hp : Keeps good t p Q) (s : σ) :
    (p.run ⟨s, t⟩).state = ⟨(p.run ⟨s, t⟩).state.shared, t⟩ := by
  have hown := hp.own s
  generalize (p.run ⟨s, t⟩).state = u at hown ⊢
  cases u
  cases hown
  rfl

theorem bind {p : Prog (Local σ τ) (ε ⊕ ν) ξ α} {q : α → Prog (Local σ τ) (ε ⊕ ν) ξ β}
    (hp : Keeps good t p Q) (hq : ∀ a, Q a → Keeps good t (q a) Q') :
    Keeps good t (p >>= q) Q' := by
  have hrun : ∀ s, (p >>= q).run ⟨s, t⟩ = (p.run ⟨s, t⟩).andThen q := fun s => run_bind p q _
  have hfirst : ∀ s, ∃ s', (p.run ⟨s, t⟩).state = ⟨s', t⟩ := fun s => ⟨_, hp.state s⟩
  refine ⟨fun s => ?_, fun s n hn => ?_, fun s b hb => ?_⟩
  · obtain ⟨s', hs'⟩ := hfirst s
    rw [hrun s]
    unfold Outcome.andThen
    cases hv : (p.run ⟨s, t⟩).val with
    | error x => exact hp.own s
    | ok a =>
        dsimp only
        rw [hs']
        exact (hq a (hp.val s a hv)).own s'
  · obtain ⟨s', hs'⟩ := hfirst s
    rw [hrun s] at hn
    unfold Outcome.andThen at hn
    cases hv : (p.run ⟨s, t⟩).val with
    | error x =>
        rw [hv] at hn
        exact hp.notes s n hn
    | ok a =>
        rw [hv] at hn
        dsimp only at hn
        rw [hs'] at hn
        rcases List.mem_append.1 hn with hn | hn
        · exact hp.notes s n hn
        · exact (hq a (hp.val s a hv)).notes s' n hn
  · obtain ⟨s', hs'⟩ := hfirst s
    rw [hrun s] at hb
    unfold Outcome.andThen at hb
    cases hv : (p.run ⟨s, t⟩).val with
    | error x =>
        rw [hv] at hb
        cases hb
    | ok a =>
        rw [hv] at hb
        dsimp only at hb
        rw [hs'] at hb
        exact (hq a (hp.val s a hv)).val s' b hb

theorem attempt {p : Prog (Local σ τ) (ε ⊕ ν) ξ α} (hp : Keeps good t p Q) :
    Keeps good t p.attempt fun r => ∀ a, r = .ok a → Q a := by
  refine ⟨fun s => ?_, fun s n hn => ?_, fun s r hr a ha => ?_⟩
  · rw [run_attempt]
    exact hp.own s
  · rw [run_attempt] at hn
    exact hp.notes s n hn
  · rw [run_attempt] at hr
    cases hr
    exact hp.val s a ha

theorem lift (p : Prog σ ε ξ α) : Keeps good t (p.lift τ ν) fun _ => True := by
  refine ⟨fun s => ?_, fun s n hn => ?_, fun _ _ _ => trivial⟩
  · rw [run_lift]
  · rw [run_lift] at hn
    obtain ⟨e, -, he⟩ := List.mem_map.1 hn
    cases he

/-- What is read of the own state is known. -/
theorem readOwn (g : τ → α) : Keeps good t
    (Prog.read fun s => g s.own : Prog (Local σ τ) (ε ⊕ ν) ξ α) fun a => a = g t where
  own _ := rfl
  notes _ _ hn := by cases hn
  val _ _ ha := by
    cases ha
    rfl

theorem note {n : ν} (h : good n) :
    Keeps good t (Prog.emit (Sum.inr n) : Prog (Local σ τ) (ε ⊕ ν) ξ Unit) fun _ => True where
  own _ := rfl
  notes _ m hm := by
    rcases List.mem_singleton.1 hm with hm
    cases hm
    exact h
  val _ _ _ := trivial

/-- `enter`, a program that keeps the own state in between, `leave`, and the rest. -/
theorem bracket {t' : τ} {enter leave : Prog (Local σ τ) (ε ⊕ ν) ξ Unit}
    {p : Prog (Local σ τ) (ε ⊕ ν) ξ α} {k : Except ξ α → Prog (Local σ τ) (ε ⊕ ν) ξ β} {ns : List ν}
    (henter : ∀ s, enter.run ⟨s, t⟩ = ⟨.ok (), ⟨s, t'⟩, []⟩) (hp : Keeps good t' p Q)
    (hleave : ∀ s, leave.run ⟨s, t'⟩ = ⟨.ok (), ⟨s, t⟩, ns.map Sum.inr⟩) (hns : ∀ n ∈ ns, good n)
    (hk : ∀ r, (∀ a, r = .ok a → Q a) → Keeps good t (k r) Q') :
    Keeps good t (enter >>= fun _ => p.attempt >>= fun r => leave >>= fun _ => k r) Q' := by
  have hrun : ∀ s, ∃ s', (p.run ⟨s, t'⟩).state = ⟨s', t'⟩ ∧
      (enter >>= fun _ => p.attempt >>= fun r => leave >>= fun _ => k r).run ⟨s, t⟩
        = ⟨((k (p.run ⟨s, t'⟩).val).run ⟨s', t⟩).val, ((k (p.run ⟨s, t'⟩).val).run ⟨s', t⟩).state,
          (p.run ⟨s, t'⟩).trace ++ (ns.map Sum.inr ++
            ((k (p.run ⟨s, t'⟩).val).run ⟨s', t⟩).trace)⟩ := by
    intro s
    have hstate := hp.state s
    refine ⟨_, hstate, ?_⟩
    rw [run_bind, henter, Outcome.andThen_ok, run_bind, run_attempt, Outcome.andThen_ok, run_bind,
      hstate, hleave, Outcome.andThen_ok]
    rfl
  refine ⟨fun s => ?_, fun s n hn => ?_, fun s b hb => ?_⟩
  · obtain ⟨s', -, h⟩ := hrun s
    rw [h]
    exact (hk _ (hp.val s)).own s'
  · obtain ⟨s', -, h⟩ := hrun s
    rw [h] at hn
    rcases List.mem_append.1 hn with hn | hn
    · exact hp.notes s n hn
    · rcases List.mem_append.1 hn with hn | hn
      · obtain ⟨m, hm, hnm⟩ := List.mem_map.1 hn
        cases hnm
        exact hns n hm
      · exact (hk _ (hp.val s)).notes s' n hn
  · obtain ⟨s', -, h⟩ := hrun s
    rw [h] at hb
    exact (hk _ (hp.val s)).val s' b hb

end Keeps

/-! ## Erasing the own state -/

/-- What is left of a trace without the notes. -/
def events (l : List (ε ⊕ ν)) : List ε := l.filterMap Sum.getLeft?

@[simp] theorem events_append (l l' : List (ε ⊕ ν)) : events (l ++ l') = events l ++ events l' :=
  List.filterMap_append ..

@[simp] theorem events_map_inl (l : List ε) : events (l.map (Sum.inl (β := ν))) = l := by
  induction l with
  | nil => rfl
  | cons e l ih => exact congrArg (e :: ·) ih

@[simp] theorem events_map_inr (l : List ν) : events (l.map (Sum.inr (α := ε))) = [] := by
  induction l with
  | nil => rfl
  | cons n l ih => exact ih

/-- From the own state `t` the program hands the own state back and does with the shared state what `q`
does, up to notes; `f` makes its value of that of `q`, and `Q` holds of what `q` returns. -/
structure Erases (t : τ) (p : Prog (Local σ τ) (ε ⊕ ν) ξ α) (q : Prog σ ε ξ β) (f : β → α)
    (Q : β → Prop) : Prop where
  val : ∀ s, (p.run ⟨s, t⟩).val = (q.run s).val.map f
  state : ∀ s, (p.run ⟨s, t⟩).state = ⟨(q.run s).state, t⟩
  trace : ∀ s, events (p.run ⟨s, t⟩).trace = (q.run s).trace
  returns : ∀ s b, (q.run s).val = .ok b → Q b

namespace Erases

variable {t : τ} {p : Prog (Local σ τ) (ε ⊕ ν) ξ α} {q : Prog σ ε ξ β} {f : β → α} {Q : β → Prop}

theorem ret {b : β} (h : Q b) : Erases t (.ret (f b) : Prog (Local σ τ) (ε ⊕ ν) ξ α) (.ret b) f Q where
  val _ := rfl
  state _ := rfl
  trace _ := rfl
  returns _ _ hb := by
    cases hb
    exact h

theorem raise (x : ξ) : Erases t (.raise x : Prog (Local σ τ) (ε ⊕ ν) ξ α) (.raise x) f Q where
  val _ := rfl
  state _ := rfl
  trace _ := rfl
  returns _ _ hb := by cases hb

/-- A program on the shared state alone. -/
theorem lift {q : Prog σ ε ξ α} {g : α → α} {Q' : α → Prop} (hg : ∀ a, g a = a)
    (h : ∀ s a, (q.run s).val = .ok a → Q' a) : Erases t (q.lift τ ν) q g Q' where
  val s := by
    rw [run_lift]
    cases (q.run s).val with
    | error x => rfl
    | ok a => exact congrArg Except.ok (hg a).symm
  state s := by rw [run_lift]
  trace s := by rw [run_lift, events_map_inl]
  returns := h

theorem emit (e : ε) : Erases t (Prog.emit (.inl e) : Prog (Local σ τ) (ε ⊕ ν) ξ Unit) (Prog.emit e) id
    fun _ => True where
  val _ := rfl
  state _ := rfl
  trace _ := rfl
  returns _ _ _ := trivial

theorem bind {k : α → Prog (Local σ τ) (ε ⊕ ν) ξ α'} {k' : β → Prog σ ε ξ β'} {g : β' → α'}
    {Q' : β' → Prop} (hp : Erases t p q f Q) (hk : ∀ b, Q b → Erases t (k (f b)) (k' b) g Q') :
    Erases t (p >>= k) (q >>= k') g Q' := by
  have hrun : ∀ s, (p >>= k).run ⟨s, t⟩ = (p.run ⟨s, t⟩).andThen k := fun s => run_bind p k _
  have hrun' : ∀ s, (q >>= k').run s = (q.run s).andThen k' := fun s => run_bind q k' s
  constructor
  · intro s
    rw [hrun, hrun']
    unfold Outcome.andThen
    rw [hp.val s, hp.state s]
    cases hv : (q.run s).val with
    | error x => rfl
    | ok b => exact (hk b (hp.returns s b hv)).val _
  · intro s
    rw [hrun, hrun']
    unfold Outcome.andThen
    rw [hp.val s, hp.state s]
    cases hv : (q.run s).val with
    | error x => rfl
    | ok b => exact (hk b (hp.returns s b hv)).state _
  · intro s
    rw [hrun, hrun']
    unfold Outcome.andThen
    rw [hp.val s, hp.state s]
    cases hv : (q.run s).val with
    | error x => exact hp.trace s
    | ok b =>
        show events (_ ++ _) = _ ++ _
        rw [events_append, hp.trace s, (hk b (hp.returns s b hv)).trace]
  · intro s b' hb'
    rw [hrun'] at hb'
    unfold Outcome.andThen at hb'
    cases hv : (q.run s).val with
    | error x =>
        rw [hv] at hb'
        cases hb'
    | ok b =>
        rw [hv] at hb'
        exact (hk b (hp.returns s b hv)).returns _ b' hb'

/-- A function of the value. -/
theorem map {g : α → α'} (hp : Erases t p q f Q) :
    Erases t (p >>= fun a => .ret (g a)) q (fun b => g (f b)) Q := by
  have hrun : ∀ s, (p >>= fun a => (.ret (g a) : Prog (Local σ τ) (ε ⊕ ν) ξ α')).run ⟨s, t⟩
      = (p.run ⟨s, t⟩).andThen fun a => .ret (g a) := fun s => run_bind p _ _
  refine ⟨fun s => ?_, fun s => ?_, fun s => ?_, hp.returns⟩
  all_goals
    rw [hrun]
    unfold Outcome.andThen
    rw [hp.val s, hp.state s]
    cases hv : (q.run s).val
  · rfl
  · rfl
  · rfl
  · rfl
  · exact hp.trace s
  · show events (_ ++ []) = _
    rw [List.append_nil]
    exact hp.trace s

/-- A look at the own state. -/
theorem readOwn {γ : Type} {g : τ → γ} {k : γ → Prog (Local σ τ) (ε ⊕ ν) ξ α}
    (h : Erases t (k (g t)) q f Q) :
    Erases t ((Prog.read fun s => g s.own : Prog (Local σ τ) (ε ⊕ ν) ξ γ) >>= k) q f Q :=
  ⟨h.val, h.state, h.trace, h.returns⟩

theorem attempt (hp : Erases t p q f Q) :
    Erases t p.attempt q.attempt (Except.map f) fun r => ∀ b, r = .ok b → Q b where
  val s := by
    rw [run_attempt, run_attempt, hp.val s]
    rfl
  state s := by
    rw [run_attempt, run_attempt]
    exact hp.state s
  trace s := by
    rw [run_attempt, run_attempt]
    exact hp.trace s
  returns s r hr b hb := by
    rw [run_attempt] at hr
    cases hr
    exact hp.returns s b hb

/-- `p` on the own state `t'`, between two programs that change and restore it, and what only makes notes
and hands on how `p` has ended. -/
theorem bracket {t' : τ} {enter leave : Prog (Local σ τ) (ε ⊕ ν) ξ Unit}
    {k : Except ξ α → Prog (Local σ τ) (ε ⊕ ν) ξ α} {ns : List ν}
    (henter : ∀ s, enter.run ⟨s, t⟩ = ⟨.ok (), ⟨s, t'⟩, []⟩) (hp : Erases t' p q f Q)
    (hleave : ∀ s, leave.run ⟨s, t'⟩ = ⟨.ok (), ⟨s, t⟩, ns.map Sum.inr⟩)
    (hk : ∀ r s, ∃ ns : List ν, (k r).run ⟨s, t⟩ = ⟨r, ⟨s, t⟩, ns.map Sum.inr⟩) :
    Erases t (enter >>= fun _ => p.attempt >>= fun r => leave >>= fun _ => k r) q f Q := by
  have hrun : ∀ s, ∃ ns : List ν, (enter >>= fun _ => p.attempt >>= fun r => leave >>= fun _ => k r).run
      ⟨s, t⟩ = ⟨(q.run s).val.map f, ⟨(q.run s).state, t⟩, (p.run ⟨s, t'⟩).trace ++ ns.map Sum.inr⟩ := by
    intro s
    obtain ⟨ns', hns'⟩ := hk ((q.run s).val.map f) (q.run s).state
    refine ⟨ns ++ ns', ?_⟩
    rw [run_bind, henter, Outcome.andThen_ok, run_bind, run_attempt, Outcome.andThen_ok, run_bind,
      hp.val s, hp.state s, hleave, Outcome.andThen_ok, hns', List.map_append]
    rfl
  refine ⟨fun s => ?_, fun s => ?_, fun s => ?_, hp.returns⟩
  all_goals
    obtain ⟨ns', hns'⟩ := hrun s
    rw [hns']
  rw [events_append, events_map_inr, List.append_nil]
  exact hp.trace s

end Erases

end Prog

end AtomicProg
