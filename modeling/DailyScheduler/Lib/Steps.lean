import DailyScheduler.Lib.RelyGuarantee
import DailyScheduler.Lib.Run

set_option autoImplicit false

/-! # What the steps of a program can do

`p.Steps R Q` bounds a program from outside: whatever state it finds, each of its atomic steps
is in the relation `R` (old state, new state, events), and each value it returns is in `Q`.
Such a bound needs no precondition, so it is proved once for a function and used in every
context: running alone (`Steps.run`) or among other parties (`Steps.triple`).
-/

namespace AtomicProg

variable {σ ε τ ξ α β : Type}

/-- Every step of the program is in `R`, every returned value in `Q`. -/
def Prog.Steps (R : σ → σ → List ε → Prop) (Q : α → Prop) : Prog σ ε ξ α → Prop
  | .ret a => Q a
  | .raise _ => True
  | .act f e k => ∀ s, R s (f s) (e s) ∧ Prog.Steps R Q (k s)

namespace Prog.Steps

variable {R R' : σ → σ → List ε → Prop} {Q Q' : α → Prop} {p : Prog σ ε ξ α}

theorem mono (h : p.Steps R Q) (hR : ∀ s s' es, R s s' es → R' s s' es)
    (hQ : ∀ a, Q a → Q' a) : p.Steps R' Q' := by
  induction p with
  | ret a => exact hQ a h
  | raise x => trivial
  | act f e k ih => exact fun s => ⟨hR _ _ _ (h s).1, ih s (h s).2⟩

/-- Every program takes steps and returns values. -/
theorem any (p : Prog σ ε ξ α) : p.Steps (fun _ _ _ => True) fun _ => True := by
  induction p with
  | ret a => trivial
  | raise x => trivial
  | act f e k ih => exact fun s => ⟨trivial, ih s⟩

theorem and (h : p.Steps R Q) (h' : p.Steps R' Q') :
    p.Steps (fun s s' es => R s s' es ∧ R' s s' es) fun a => Q a ∧ Q' a := by
  induction p with
  | ret a => exact ⟨h, h'⟩
  | raise x => trivial
  | act f e k ih => exact fun s => ⟨⟨(h s).1, (h' s).1⟩, ih s (h s).2 (h' s).2⟩

theorem of_true (h : p.Steps R Q) : p.Steps R fun _ => True :=
  h.mono (fun _ _ _ => id) (fun _ _ => trivial)

theorem bind {Q' : β → Prop} {q : α → Prog σ ε ξ β} (h : p.Steps R Q)
    (hq : ∀ a, Q a → (q a).Steps R Q') : (p >>= q).Steps R Q' := by
  induction p with
  | ret a => exact hq a h
  | raise x => trivial
  | act f e k ih => exact fun s => ⟨(h s).1, ih s (h s).2⟩

theorem tryCatch {hd : ξ → Prog σ ε ξ α} (h : p.Steps R Q) (hh : ∀ x, (hd x).Steps R Q) :
    (p.tryCatch hd).Steps R Q := by
  induction p with
  | ret a => exact h
  | raise x => exact hh x
  | act f e k ih => exact fun s => ⟨(h s).1, ih s (h s).2⟩

theorem attempt (h : p.Steps R Q) : p.attempt.Steps R fun r => ∀ a, r = .ok a → Q a := by
  refine tryCatch (bind h fun a ha => ?_) (fun x => ?_)
  · intro b hb
    cases hb
    exact ha
  · intro b hb
    cases hb

theorem command {f : σ → β × σ} {e : σ → List ε} (h : ∀ s, R s (f s).2 (e s)) :
    (Prog.command f e : Prog σ ε ξ β).Steps R fun _ => True :=
  fun s => ⟨h s, trivial⟩

theorem read {g : σ → β} (h : ∀ s, R s s []) :
    (Prog.read g : Prog σ ε ξ β).Steps R fun b => ∃ s, b = g s :=
  fun s => ⟨h s, s, rfl⟩

theorem write {f : σ → σ} (h : ∀ s, R s (f s) []) :
    (Prog.write f : Prog σ ε ξ Unit).Steps R fun _ => True :=
  fun s => ⟨h s, trivial⟩

theorem emit {e : ε} (h : ∀ s, R s s [e]) :
    (Prog.emit e : Prog σ ε ξ Unit).Steps R fun _ => True :=
  fun s => ⟨h s, trivial⟩

theorem forEach {l : List β} {f : β → Prog σ ε ξ Unit}
    (h : ∀ b ∈ l, (f b).Steps R fun _ => True) : (Prog.forEach l f).Steps R fun _ => True := by
  induction l with
  | nil => trivial
  | cons b l ih =>
      exact bind (h b (by simp)) fun _ _ => ih fun b' hb' => h b' (by simp [hb'])

theorem ite {b : Prop} [Decidable b] {p q : Prog σ ε ξ α} (hp : b → p.Steps R Q)
    (hq : ¬ b → q.Steps R Q) : (if b then p else q).Steps R Q := by
  by_cases hb : b
  · rw [if_pos hb]; exact hp hb
  · rw [if_neg hb]; exact hq hb

/-- Among other parties: a stable property that every step in `R` guarantees and keeps. -/
theorem triple {S : Side σ ε τ} {I : Config σ τ → Prop} {X : ξ → Config σ τ → Prop}
    (h : p.Steps R Q) (hI : Stable S.rely I)
    (hX : ∀ x c, I c → X x c)
    (hstep : ∀ s t s' es, I (s, t) → R s s' es →
      S.guar (s, t) (s', t ++ es.map S.tag) ∧ I (s', t ++ es.map S.tag)) :
    S.Triple I p (fun a c => I c ∧ Q a) X := by
  induction p with
  | ret a => exact Side.Triple.ret hI fun c hc => ⟨hc, h⟩
  | raise x => exact Side.Triple.raise hI fun c hc => hX x c hc
  | act f e k ih =>
      refine Side.Triple.act hI (fun c hc => (hstep c.1 c.2 _ _ hc (h c.1).1).1) (fun c hc => ?_)
      exact ih c.1 (h c.1).2 _ (hstep c.1 c.2 _ _ hc (h c.1).1).2

/-- Running alone: a property of the state that every step in `R` keeps. -/
theorem exec {I : σ → Prop} (h : p.Steps R Q) (hR : ∀ s s' es, R s s' es → I s → I s') {s : σ}
    (hs : I s) : I (p.exec s) := by
  refine Side.Keeps.exec (p := p) ?_ hs
  refine (h.triple (S := Side.alone σ ε) (I := fun c => I c.1) (X := fun _ c => I c.1)
    (Side.alone_stable _) (fun _ _ hc => hc) (fun s t s' es hI hr => ⟨trivial, hR _ _ _ hr hI⟩)).mono
    (fun _ hc => hc) (fun _ _ hc => hc.1) (fun _ _ hc => hc)

/-- What the events of all steps are like is true of the events of a run. -/
theorem trace {E : ε → Prop} (h : p.Steps (fun _ _ es => ∀ e ∈ es, E e) Q) (s : σ) :
    ∀ e ∈ (p.run s).trace, E e := by
  induction p generalizing s with
  | ret a => exact fun _ he => (List.not_mem_nil he).elim
  | raise x => exact fun _ he => (List.not_mem_nil he).elim
  | act f e k ih =>
      intro x hx
      rcases List.mem_append.1 hx with hx | hx
      · exact (h s).1 x hx
      · exact ih s (h s).2 (f s) x hx

/-- The value a run returns. -/
theorem val (h : p.Steps R Q) (s : σ) {a : α} (ha : (p.run s).val = .ok a) : Q a := by
  induction p generalizing s with
  | ret b =>
      cases ha
      exact h
  | raise x => cases ha
  | act f e k ih => exact ih s (h s).2 (f s) ha

end Prog.Steps

/-! ## Programs without events -/

namespace Prog

/-- The program, which records nothing. -/
def mute : Prog σ ε ξ α → Prog σ ε ξ α
  | .ret a => .ret a
  | .raise x => .raise x
  | .act f _ k => .act f (fun _ => []) fun s => (k s).mute

theorem run_mute (p : Prog σ ε ξ α) (s : σ) :
    p.mute.run s = ⟨(p.run s).val, (p.run s).state, []⟩ := by
  induction p generalizing s with
  | ret a => rfl
  | raise x => rfl
  | act f e k ih =>
      simp only [mute, run, ih s (f s), List.nil_append]

theorem mute_steps (p : Prog σ ε ξ α) : p.mute.Steps (fun _ _ es => es = []) fun _ => True := by
  induction p with
  | ret a => trivial
  | raise x => trivial
  | act f e k ih => exact fun s => ⟨rfl, ih s⟩

end Prog

/-! ## Pools of bounded programs -/

namespace Pool

variable {ι : Type} {R : σ → σ → List ε → Prop} {P : Pool ι σ ε ξ α}

/-- Every step of every thread is in `R`. -/
def Bounded (R : σ → σ → List ε → Prop) (P : Pool ι σ ε ξ α) : Prop :=
  ∀ i, (P.threads i).Steps R fun _ => True

variable [DecidableEq ι]

/-- A step of a bounded pool is one in `R`, and leaves the pool bounded. A finished thread stands
still. -/
theorem Bounded.step (h : P.Bounded R) (hR : ∀ s, R s s []) (i : ι) :
    (P.step i).Bounded R ∧ ∃ es, R P.state (P.step i).state es := by
  have hi := h i
  unfold Pool.step
  cases hp : P.threads i with
  | ret a => exact ⟨h, [], hR _⟩
  | raise x => exact ⟨h, [], hR _⟩
  | act f e k =>
      rw [hp] at hi
      obtain ⟨hstep, hrest⟩ := hi P.state
      refine ⟨fun j => ?_, e P.state, hstep⟩
      show (Function.update P.threads i (k P.state) j).Steps R fun _ => True
      by_cases hj : j = i
      · subst hj
        rw [Function.update_self]
        exact hrest
      · rw [Function.update_of_ne hj]
        exact h j

/-- If a step in `R` keeps `J` exactly when it is in `G`, then under every schedule `J` holds all
along exactly when every step is in `G`. -/
theorem Bounded.along_iff {J : σ → Prop} {G : σ → σ → Prop} (hR : ∀ s, R s s [])
    (hJ : ∀ s s' es, R s s' es → J s → (J s' ↔ G s s')) (h : P.Bounded R) (hP : J P.state)
    (l : List ι) :
    Run.Along Pool.step (fun P => J P.state) P l ↔
      Run.Meets Pool.step (fun P i => G P.state (P.step i).state) P l := by
  induction l generalizing P with
  | nil => exact ⟨fun _ => trivial, fun _ => hP⟩
  | cons i l ih =>
      obtain ⟨hbounded, es, hstep⟩ := h.step hR i
      have hiff := hJ _ _ es hstep hP
      constructor
      · rintro ⟨-, hl⟩
        have hkeep : J (P.step i).state := by
          cases l with
          | nil => exact hl
          | cons => exact hl.1
        exact ⟨hiff.1 hkeep, (ih hbounded hkeep).1 hl⟩
      · rintro ⟨hg, hl⟩
        have hkeep := hiff.2 hg
        exact ⟨hP, (ih hbounded hkeep).2 hl⟩

omit [DecidableEq ι] in
/-- What the events of every thread are like. -/
def Emits (E : ι → ε → Prop) (P : Pool ι σ ε ξ α) : Prop :=
  ∀ i, (P.threads i).Steps (fun _ _ es => ∀ e ∈ es, E i e) fun _ => True

theorem Emits.step {E : ι → ε → Prop} (h : P.Emits E) (hlog : ∀ x ∈ P.log, E x.1 x.2) (i : ι) :
    (P.step i).Emits E ∧ ∀ x ∈ (P.step i).log, E x.1 x.2 := by
  have hi := h i
  unfold Pool.step
  cases hp : P.threads i with
  | ret a => exact ⟨h, hlog⟩
  | raise x => exact ⟨h, hlog⟩
  | act f e k =>
      rw [hp] at hi
      obtain ⟨hevents, hrest⟩ := hi P.state
      refine ⟨fun j => ?_, fun x hx => ?_⟩
      · show (Function.update P.threads i (k P.state) j).Steps _ _
        by_cases hj : j = i
        · subst hj
          rw [Function.update_self]
          exact hrest
        · rw [Function.update_of_ne hj]
          exact h j
      · rcases List.mem_append.1 hx with hx | hx
        · exact hlog x hx
        · obtain ⟨y, hy, rfl⟩ := List.mem_map.1 hx
          exact hevents y hy

/-- Under every schedule the log holds only events that its threads emit. -/
theorem Emits.along {E : ι → ε → Prop} (h : P.Emits E) (hlog : ∀ x ∈ P.log, E x.1 x.2)
    (l : List ι) : Run.Along Pool.step (fun P => ∀ x ∈ P.log, E x.1 x.2) P l := by
  have hboth : Run.Along Pool.step (fun P => P.Emits E ∧ ∀ x ∈ P.log, E x.1 x.2) P l := by
    have hmeets : Run.Meets Pool.step (fun _ _ => True) P l := by
      clear h hlog
      induction l generalizing P with
      | nil => trivial
      | cons i l ih => exact ⟨trivial, ih⟩
    exact Run.along_of_step (fun P i hP _ => hP.1.step hP.2 i) ⟨h, hlog⟩ hmeets
  exact hboth.mono fun _ hP => hP.2

end Pool

end AtomicProg
