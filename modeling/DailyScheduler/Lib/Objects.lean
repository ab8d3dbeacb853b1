import DailyScheduler.Lib.RelyGuarantee

set_option autoImplicit false

/-! # Objects with methods

A family of objects works on one shared state. An object runs one method at a time, a program that
returns the new object. `call` begins a method, `go` takes the next atomic step of the method in
progress, and in between the state may change in other ways (`outside`). An object whose method has
raised is left as it is.

A `Contract` says what an object relies on, what the steps of each method guarantee, and what holds of
an object between its methods (`idle`) and during them (`during`). `Sound` is the invariant that
composes the contracts of all objects.
-/

namespace AtomicProg

variable {ι ω μ σ ε ξ : Type}

/-- The shared state, the objects and the methods in progress, with the log of what they did. -/
structure Objects (ι ω μ σ ε ξ : Type) where
  object : ι → ω
  doing : ι → Option (μ × Prog σ ε ξ ω)
  state : σ
  log : List (ι × ε)

/-- The methods of the objects: when they may be called, and what they do. -/
structure Methods (ω μ σ ε ξ : Type) where
  allowed : ω → μ → Bool
  program : μ → ω → Prog σ ε ξ ω

namespace Objects

/-- The configuration the objects share. -/
def config (S : Objects ι ω μ σ ε ξ) : Config σ (ι × ε) := (S.state, S.log)

/-- The method in progress has raised. -/
def Raised (S : Objects ι ω μ σ ε ξ) (i : ι) : Prop := ∃ m x, S.doing i = some (m, .raise x)

/-- The shared state is changed from outside. -/
def outside (S : Objects ι ω μ σ ε ξ) (f : σ → σ) : Objects ι ω μ σ ε ξ :=
  { S with state := f S.state }

variable [DecidableEq ι]

/-- The object `i` begins a method, if it has none in progress. -/
def call (M : Methods ω μ σ ε ξ) (S : Objects ι ω μ σ ε ξ) (i : ι) (m : μ) :
    Objects ι ω μ σ ε ξ :=
  match S.doing i with
  | some _ => S
  | none =>
      if M.allowed (S.object i) m then
        { S with doing := Function.update S.doing i (some (m, M.program m (S.object i))) }
      else S

/-- The next step of the method that the object `i` has in progress. -/
def go (S : Objects ι ω μ σ ε ξ) (i : ι) : Objects ι ω μ σ ε ξ :=
  match S.doing i with
  | none => S
  | some (_, .raise _) => S
  | some (_, .ret o) =>
      { S with object := Function.update S.object i o, doing := Function.update S.doing i none }
  | some (m, .act f e k) =>
      { S with
        doing := Function.update S.doing i (some (m, k S.state))
        state := f S.state
        log := S.log ++ (e S.state).map fun x => (i, x) }

end Objects

/-! ## Contracts -/

/-- The contracts of a family of objects. -/
structure Contract (ι ω μ σ ε : Type) where
  rely : ι → Config σ (ι × ε) → Config σ (ι × ε) → Prop
  guar : ι → μ → Config σ (ι × ε) → Config σ (ι × ε) → Prop
  idle : ι → ω → Config σ (ι × ε) → Prop
  during : ι → μ → ω → Config σ (ι × ε) → Prop
  refl : ∀ i c, rely i c c
  trans : ∀ i {c c' c''}, rely i c c' → rely i c' c'' → rely i c c''
  covers : ∀ i j m, i ≠ j → ∀ c c', guar i m c c' → rely j c c'
  idle_stable : ∀ i o c c', rely i c c' → idle i o c → idle i o c'
  during_stable : ∀ i m o c c', rely i c c' → during i m o c → during i m o c'
  during_kept : ∀ i m o c c', guar i m c c' → during i m o c → during i m o c'

namespace Contract

/-- The side of the object `i` during the method `m`. -/
def side (C : Contract ι ω μ σ ε) (i : ι) (m : μ) : Side σ ε (ι × ε) where
  tag := fun e => (i, e)
  rely := C.rely i
  guar := C.guar i m
  rely_refl := C.refl i
  rely_trans := C.trans i

/-- The method keeps the contract from a configuration on. -/
def Keeps (C : Contract ι ω μ σ ε) (i : ι) (m : μ) (p : Prog σ ε ξ ω)
    (c : Config σ (ι × ε)) : Prop :=
  (C.side i m).Safe (fun o => C.idle i o) (fun _ _ => True) p c

end Contract

namespace Objects

/-- What holds of the object `i`, whatever it is doing. -/
def SoundAt (C : Contract ι ω μ σ ε) (S : Objects ι ω μ σ ε ξ) (i : ι) : Prop :=
  match S.doing i with
  | none => C.idle i (S.object i) S.config
  | some (_, .raise _) => True
  | some (m, p) => C.during i m (S.object i) S.config ∧ C.Keeps i m p S.config

/-- Every object keeps its contract. -/
def Sound (C : Contract ι ω μ σ ε) (S : Objects ι ω μ σ ε ξ) : Prop := ∀ i, S.SoundAt C i

variable {C : Contract ι ω μ σ ε} {S : Objects ι ω μ σ ε ξ} {i : ι} {m : μ} {p : Prog σ ε ξ ω}

theorem SoundAt.of_none (h : S.SoundAt C i) (hi : S.doing i = none) :
    C.idle i (S.object i) S.config := by
  unfold SoundAt at h
  rw [hi] at h
  exact h

theorem SoundAt.of_some (h : S.SoundAt C i) (hi : S.doing i = some (m, p)) (hr : ¬ S.Raised i) :
    C.during i m (S.object i) S.config ∧ C.Keeps i m p S.config := by
  unfold SoundAt at h
  rw [hi] at h
  cases p with
  | raise x => exact (hr ⟨m, x, hi⟩).elim
  | ret o => exact h
  | act f e k => exact h

theorem soundAt_of_some (hi : S.doing i = some (m, p))
    (h : C.during i m (S.object i) S.config ∧ C.Keeps i m p S.config) : S.SoundAt C i := by
  unfold SoundAt
  rw [hi]
  cases p with
  | raise x => trivial
  | ret o => exact h
  | act f e k => exact h

/-- What the others and the outside do within the reliance of `i` is no matter to it. -/
theorem SoundAt.of_rely {S' : Objects ι ω μ σ ε ξ} (h : S.SoundAt C i)
    (hobject : S'.object i = S.object i) (hdoing : S'.doing i = S.doing i)
    (hidle : S.doing i = none → C.idle i (S.object i) S'.config)
    (hrely : ∀ m p, S.doing i = some (m, p) → ¬ S.Raised i → C.rely i S.config S'.config) :
    S'.SoundAt C i := by
  by_cases hr : S.Raised i
  · obtain ⟨m, x, hx⟩ := hr
    unfold SoundAt
    rw [hdoing, hx]
    trivial
  · cases hi : S.doing i with
    | none =>
        unfold SoundAt
        rw [hdoing, hi, hobject]
        exact hidle hi
    | some d =>
        obtain ⟨m, p⟩ := d
        obtain ⟨hduring, hkeeps⟩ := h.of_some hi hr
        have hc := hrely m p hi hr
        refine soundAt_of_some (hdoing.trans hi) ⟨?_, hkeeps.of_rely hc⟩
        rw [hobject]
        exact C.during_stable i m _ _ _ hc hduring

theorem Sound.outside (h : S.Sound C) {f : σ → σ}
    (hidle : ∀ i, S.doing i = none → C.idle i (S.object i) (S.outside f).config)
    (hrely : ∀ i m p, S.doing i = some (m, p) → ¬ S.Raised i →
      C.rely i S.config (S.outside f).config) : (S.outside f).Sound C :=
  fun i => (h i).of_rely rfl rfl (hidle i) (hrely i)

variable [DecidableEq ι] {M : Methods ω μ σ ε ξ}

/-- A call does nothing, or begins a method. -/
theorem call_cases (M : Methods ω μ σ ε ξ) (S : Objects ι ω μ σ ε ξ) (i : ι) (m : μ) :
    (S.call M i m = S ∧ ¬ (S.doing i = none ∧ M.allowed (S.object i) m = true)) ∨
    (S.doing i = none ∧ M.allowed (S.object i) m = true ∧ S.call M i m =
      { S with doing := Function.update S.doing i (some (m, M.program m (S.object i))) }) := by
  unfold Objects.call
  cases hi : S.doing i with
  | some d => exact .inl ⟨rfl, fun h => by cases h.1⟩
  | none =>
      dsimp only
      split
      · rename_i hallowed
        exact .inr ⟨rfl, hallowed, rfl⟩
      · rename_i hallowed
        exact .inl ⟨rfl, fun h => hallowed h.2⟩

/-- A call that begins in order. -/
theorem SoundAt.call (h : S.SoundAt C i) (hm : S.doing i = none → M.allowed (S.object i) m = true →
      C.idle i (S.object i) S.config →
      C.during i m (S.object i) S.config ∧ C.Keeps i m (M.program m (S.object i)) S.config) :
    (S.call M i m).SoundAt C i := by
  unfold Objects.call
  cases hi : S.doing i with
  | some d => exact h
  | none =>
      dsimp only
      split
      · rename_i hallowed
        exact soundAt_of_some (Function.update_self ..) (hm hi hallowed (h.of_none hi))
      · exact h

/-- What an object does not see of another one's call. -/
theorem call_of_ne {j : ι} (hj : j ≠ i) : (S.call M i m).object j = S.object j ∧
    (S.call M i m).doing j = S.doing j ∧ (S.call M i m).config = S.config := by
  unfold Objects.call
  cases S.doing i with
  | some d => exact ⟨rfl, rfl, rfl⟩
  | none =>
      dsimp only
      split
      · exact ⟨rfl, Function.update_of_ne hj .., rfl⟩
      · exact ⟨rfl, rfl, rfl⟩

theorem Sound.call (h : S.Sound C) (hm : S.doing i = none → M.allowed (S.object i) m = true →
      C.idle i (S.object i) S.config →
      C.during i m (S.object i) S.config ∧ C.Keeps i m (M.program m (S.object i)) S.config) :
    (S.call M i m).Sound C := by
  intro j
  by_cases hj : j = i
  · subst hj
    exact (h j).call hm
  · obtain ⟨hobject, hdoing, hconfig⟩ := @call_of_ne _ _ _ _ _ _ S i m _ M j hj
    refine (h j).of_rely hobject hdoing (fun hnone => ?_) fun _ _ _ _ => ?_
    · rw [hconfig]
      exact (h j).of_none hnone
    · rw [hconfig]
      exact C.refl j _

/-- A step of a sound object leaves it sound, and is guaranteed. -/
theorem SoundAt.go (h : S.SoundAt C i) : (S.go i).SoundAt C i ∧
    ((S.go i).config = S.config ∨
      ∃ m p, S.doing i = some (m, p) ∧ ¬ S.Raised i ∧
        C.guar i m S.config (S.go i).config) := by
  unfold Objects.go
  cases hi : S.doing i with
  | none => exact ⟨h, .inl rfl⟩
  | some d =>
      obtain ⟨m, p⟩ := d
      cases p with
      | raise x => exact ⟨h, .inl rfl⟩
      | ret o =>
          refine ⟨?_, .inl rfl⟩
          have hr : ¬ S.Raised i := by
            rintro ⟨m', x, hx⟩
            rw [hi] at hx
            cases hx
          have hret := (h.of_some hi hr).2 S.config (C.refl i _)
          unfold SoundAt
          dsimp only
          rw [Function.update_self, Function.update_self]
          exact hret
      | act f e k =>
          have hr : ¬ S.Raised i := by
            rintro ⟨m', x, hx⟩
            rw [hi] at hx
            cases hx
          obtain ⟨hduring, hkeeps⟩ := h.of_some hi hr
          obtain ⟨hguar, hrest⟩ := hkeeps S.config (C.refl i _)
          refine ⟨soundAt_of_some (Function.update_self ..) ⟨?_, hrest⟩,
            .inr ⟨m, _, rfl, hr, hguar⟩⟩
          exact C.during_kept i m _ _ _ hguar hduring

/-- A step does nothing, or ends the method in progress, or is one of its steps. -/
theorem go_cases (S : Objects ι ω μ σ ε ξ) (i : ι) :
    (S.go i = S ∧ ∀ m p, S.doing i = some (m, p) → ∃ x, p = .raise x) ∨
    (∃ m o, S.doing i = some (m, .ret o) ∧ S.go i =
      { S with object := Function.update S.object i o, doing := Function.update S.doing i none }) ∨
    (∃ m f e k, S.doing i = some (m, .act f e k) ∧ S.go i =
      { S with
        doing := Function.update S.doing i (some (m, k S.state))
        state := f S.state
        log := S.log ++ (e S.state).map fun x => (i, x) }) := by
  unfold Objects.go
  cases hi : S.doing i with
  | none => exact .inl ⟨rfl, fun m p h => by cases h⟩
  | some d =>
      obtain ⟨m, p⟩ := d
      cases p with
      | raise x =>
          refine .inl ⟨rfl, fun m p h => ?_⟩
          cases h
          exact ⟨x, rfl⟩
      | ret o => exact .inr (.inl ⟨m, o, rfl, rfl⟩)
      | act f e k => exact .inr (.inr ⟨m, f, e, k, rfl, rfl⟩)

/-- What an object does not see of another one's step. -/
theorem go_of_ne {j : ι} (hj : j ≠ i) :
    (S.go i).object j = S.object j ∧ (S.go i).doing j = S.doing j := by
  unfold Objects.go
  cases S.doing i with
  | none => exact ⟨rfl, rfl⟩
  | some d =>
      obtain ⟨m, p⟩ := d
      cases p with
      | raise x => exact ⟨rfl, rfl⟩
      | ret o => exact ⟨Function.update_of_ne hj .., Function.update_of_ne hj ..⟩
      | act f e k => exact ⟨rfl, Function.update_of_ne hj ..⟩

/-- A step of a sound family leaves it sound, and is guaranteed by the object that takes it. -/
theorem Sound.go (h : S.Sound C) (i : ι) : (S.go i).Sound C ∧
    ((S.go i).config = S.config ∨
      ∃ m p, S.doing i = some (m, p) ∧ ¬ S.Raised i ∧
        C.guar i m S.config (S.go i).config) := by
  obtain ⟨hown, hguar⟩ := (h i).go
  refine ⟨fun j => ?_, hguar⟩
  by_cases hj : j = i
  · subst hj
    exact hown
  · obtain ⟨hobject, hdoing⟩ := @go_of_ne _ _ _ _ _ _ S i _ j hj
    have hrely : C.rely j S.config (S.go i).config := by
      rcases hguar with hsame | ⟨m, p, -, -, hg⟩
      · rw [hsame]
        exact C.refl j _
      · exact C.covers i j m (Ne.symm hj) _ _ hg
    refine (h j).of_rely hobject hdoing (fun hnone => ?_) fun _ _ _ _ => hrely
    exact C.idle_stable j _ _ _ hrely ((h j).of_none hnone)

end Objects

end AtomicProg
