import DailyScheduler.Lib.Prog
import Mathlib.Logic.Relation

set_option autoImplicit false

/-! # Interleavings of atomic-step programs

A `Pool` runs a family of programs over one state; a schedule names, step by step, the
thread that takes its next atomic step. The events of all threads go to one log, each
tagged with its thread.

The proof method is rely-guarantee. A `Side` is one party's contract: what it relies on
(`rely`, what the others may do between two of its steps) and what it guarantees (`guar`,
what each of its own steps does). `Side.Safe` says that a program keeps its side of the
contract from a given configuration on; `Side.Triple` is the Hoare triple over it, with one
rule per program constructor. `Pool.exec_safe` composes the parties: when every thread's
guarantee is covered by every other thread's reliance, all of them stay safe under every
schedule and the whole run is a chain of guaranteed steps.

A run alone is the special case `Side.alone`, whose reliance is equality.
-/

namespace AtomicProg

variable {σ ε τ ξ α β ι : Type}

/-- The shared state and the log of events so far. -/
abbrev Config (σ τ : Type) := σ × List τ

/-- The effect of one atomic step on a configuration. -/
def Config.advance (tag : ε → τ) (f : σ → σ) (e : σ → List ε) (c : Config σ τ) : Config σ τ :=
  (f c.1, c.2 ++ (e c.1).map tag)

/-- A predicate that the relation `R` cannot make false. -/
def Stable (R : Config σ τ → Config σ τ → Prop) (P : Config σ τ → Prop) : Prop :=
  ∀ c c', R c c' → P c → P c'

/-- The contract of one party. -/
structure Side (σ ε τ : Type) where
  tag : ε → τ
  rely : Config σ τ → Config σ τ → Prop
  guar : Config σ τ → Config σ τ → Prop
  rely_refl : ∀ c, rely c c
  rely_trans : ∀ {c c' c''}, rely c c' → rely c' c'' → rely c c''

namespace Side

variable (S : Side σ ε τ)

/-- From the configuration `c` on, whatever the others do within `S.rely`, every step of
the program is in `S.guar`, and the program ends in `Q` or raises into `X`. -/
def Safe (Q : α → Config σ τ → Prop) (X : ξ → Config σ τ → Prop) :
    Prog σ ε ξ α → Config σ τ → Prop
  | .ret a, c => ∀ c', S.rely c c' → Q a c'
  | .raise x, c => ∀ c', S.rely c c' → X x c'
  | .act f e k, c => ∀ c', S.rely c c' →
      S.guar c' (c'.advance S.tag f e) ∧ Safe Q X (k c'.1) (c'.advance S.tag f e)

/-- The Hoare triple: from every configuration in `P` the program is safe. -/
def Triple (P : Config σ τ → Prop) (p : Prog σ ε ξ α) (Q : α → Config σ τ → Prop)
    (X : ξ → Config σ τ → Prop) : Prop :=
  ∀ c, P c → S.Safe Q X p c

variable {S}

theorem Safe.of_rely {Q : α → Config σ τ → Prop} {X : ξ → Config σ τ → Prop}
    {p : Prog σ ε ξ α} {c c' : Config σ τ} (h : S.Safe Q X p c) (hr : S.rely c c') :
    S.Safe Q X p c' := by
  cases p with
  | ret a => exact fun d hd => h d (S.rely_trans hr hd)
  | raise x => exact fun d hd => h d (S.rely_trans hr hd)
  | act f e k => exact fun d hd => h d (S.rely_trans hr hd)

theorem Safe.mono {Q Q' : α → Config σ τ → Prop} {X X' : ξ → Config σ τ → Prop}
    {p : Prog σ ε ξ α} {c : Config σ τ} (h : S.Safe Q X p c)
    (hQ : ∀ a d, Q a d → Q' a d) (hX : ∀ x d, X x d → X' x d) : S.Safe Q' X' p c := by
  induction p generalizing c with
  | ret a => exact fun d hd => hQ a d (h d hd)
  | raise x => exact fun d hd => hX x d (h d hd)
  | act f e k ih => exact fun d hd => ⟨(h d hd).1, ih d.1 (h d hd).2⟩

theorem Safe.bind {Q : α → Config σ τ → Prop} {Q' : β → Config σ τ → Prop}
    {X : ξ → Config σ τ → Prop} {p : Prog σ ε ξ α} {q : α → Prog σ ε ξ β} {c : Config σ τ}
    (h : S.Safe Q X p c) (hq : ∀ a, S.Triple (Q a) (q a) Q' X) : S.Safe Q' X (p >>= q) c := by
  induction p generalizing c with
  | ret a => exact hq a c (h c (S.rely_refl c))
  | raise x => exact h
  | act f e k ih => exact fun d hd => ⟨(h d hd).1, ih d.1 (h d hd).2⟩

theorem Safe.tryCatch {Q : α → Config σ τ → Prop} {X X' : ξ → Config σ τ → Prop}
    {p : Prog σ ε ξ α} {h : ξ → Prog σ ε ξ α} {c : Config σ τ}
    (hp : S.Safe Q X p c) (hh : ∀ x, S.Triple (X x) (h x) Q X') :
    S.Safe Q X' (p.tryCatch h) c := by
  induction p generalizing c with
  | ret a => exact hp
  | raise x => exact hh x c (hp c (S.rely_refl c))
  | act f e k ih => exact fun d hd => ⟨(hp d hd).1, ih d.1 (hp d hd).2⟩

/-! ## Rules for triples -/

theorem Triple.mono {P P' : Config σ τ → Prop} {Q Q' : α → Config σ τ → Prop}
    {X X' : ξ → Config σ τ → Prop} {p : Prog σ ε ξ α} (h : S.Triple P p Q X)
    (hP : ∀ c, P' c → P c) (hQ : ∀ a c, Q a c → Q' a c) (hX : ∀ x c, X x c → X' x c) :
    S.Triple P' p Q' X' :=
  fun c hc => (h c (hP c hc)).mono hQ hX

theorem Triple.pre {P P' : Config σ τ → Prop} {Q : α → Config σ τ → Prop}
    {X : ξ → Config σ τ → Prop} {p : Prog σ ε ξ α} (h : S.Triple P p Q X)
    (hP : ∀ c, P' c → P c) : S.Triple P' p Q X :=
  fun c hc => h c (hP c hc)

theorem Triple.bind {P : Config σ τ → Prop} {Q : α → Config σ τ → Prop}
    {Q' : β → Config σ τ → Prop} {X : ξ → Config σ τ → Prop} {p : Prog σ ε ξ α}
    {q : α → Prog σ ε ξ β} (hp : S.Triple P p Q X) (hq : ∀ a, S.Triple (Q a) (q a) Q' X) :
    S.Triple P (p >>= q) Q' X :=
  fun c hc => (hp c hc).bind hq

theorem Triple.tryCatch {P : Config σ τ → Prop} {Q : α → Config σ τ → Prop}
    {X X' : ξ → Config σ τ → Prop} {p : Prog σ ε ξ α} {h : ξ → Prog σ ε ξ α}
    (hp : S.Triple P p Q X) (hh : ∀ x, S.Triple (X x) (h x) Q X') :
    S.Triple P (p.tryCatch h) Q X' :=
  fun c hc => (hp c hc).tryCatch hh

/-- A program whose outcome is handed over as a value never raises. -/
theorem Triple.attempt {P : Config σ τ → Prop} {Q : α → Config σ τ → Prop}
    {X : ξ → Config σ τ → Prop} {X' : ξ → Config σ τ → Prop} {p : Prog σ ε ξ α}
    (hp : S.Triple P p Q X) (hQ : ∀ a, Stable S.rely (Q a)) (hX : ∀ x, Stable S.rely (X x)) :
    S.Triple P p.attempt
      (fun r c => match r with
        | .ok a => Q a c
        | .error x => X x c) X' :=
  Triple.tryCatch (X := X)
    (Triple.bind hp (fun a c hc d hd => hQ a c d hd hc))
    (fun x c hc d hd => hX x c d hd hc)

theorem Triple.ret {P : Config σ τ → Prop} {Q : α → Config σ τ → Prop}
    {X : ξ → Config σ τ → Prop} {a : α} (hP : Stable S.rely P) (hQ : ∀ c, P c → Q a c) :
    S.Triple P (.ret a : Prog σ ε ξ α) Q X :=
  fun c hc d hd => hQ d (hP c d hd hc)

theorem Triple.raise {P : Config σ τ → Prop} {Q : α → Config σ τ → Prop}
    {X : ξ → Config σ τ → Prop} {x : ξ} (hP : Stable S.rely P) (hX : ∀ c, P c → X x c) :
    S.Triple P (.raise x : Prog σ ε ξ α) Q X :=
  fun c hc d hd => hX d (hP c d hd hc)

theorem Triple.act {P : Config σ τ → Prop} {Q : α → Config σ τ → Prop}
    {X : ξ → Config σ τ → Prop} {f : σ → σ} {e : σ → List ε} {k : σ → Prog σ ε ξ α}
    (hP : Stable S.rely P) (hG : ∀ c, P c → S.guar c (c.advance S.tag f e))
    (hk : ∀ c, P c → S.Safe Q X (k c.1) (c.advance S.tag f e)) :
    S.Triple P (.act f e k) Q X :=
  fun c hc d hd => ⟨hG d (hP c d hd hc), hk d (hP c d hd hc)⟩

theorem Triple.command {P : Config σ τ → Prop} {Q : β → Config σ τ → Prop}
    {X : ξ → Config σ τ → Prop} {f : σ → β × σ} {e : σ → List ε}
    (hP : Stable S.rely P) (hQ : ∀ b, Stable S.rely (Q b))
    (h : ∀ s t, P (s, t) → S.guar (s, t) ((f s).2, t ++ (e s).map S.tag) ∧
      Q (f s).1 ((f s).2, t ++ (e s).map S.tag)) :
    S.Triple P (Prog.command f e : Prog σ ε ξ β) Q X :=
  Triple.act hP (fun c hc => (h c.1 c.2 hc).1)
    (fun c hc d hd => hQ _ _ d hd (h c.1 c.2 hc).2)

theorem Triple.read {P : Config σ τ → Prop} {Q : β → Config σ τ → Prop}
    {X : ξ → Config σ τ → Prop} {g : σ → β} (hP : Stable S.rely P)
    (hQ : ∀ b, Stable S.rely (Q b)) (hG : ∀ c, P c → S.guar c c)
    (h : ∀ s t, P (s, t) → Q (g s) (s, t)) :
    S.Triple P (Prog.read g : Prog σ ε ξ β) Q X := by
  intro c hc d hd
  have hPd := hP c d hd hc
  have he : d.advance S.tag id (fun _ => []) = d := by simp [Config.advance]
  rw [he]
  exact ⟨hG d hPd, fun c'' hc'' => hQ _ _ c'' hc'' (h d.1 d.2 hPd)⟩

theorem Triple.write {P : Config σ τ → Prop} {Q : Unit → Config σ τ → Prop}
    {X : ξ → Config σ τ → Prop} {f : σ → σ} (hP : Stable S.rely P)
    (hQ : Stable S.rely (Q ())) (h : ∀ s t, P (s, t) → S.guar (s, t) (f s, t) ∧ Q () (f s, t)) :
    S.Triple P (Prog.write f : Prog σ ε ξ Unit) Q X := by
  intro c hc d hd
  have hPd := hP c d hd hc
  have he : d.advance S.tag f (fun _ => []) = (f d.1, d.2) := by simp [Config.advance]
  rw [he]
  exact ⟨(h d.1 d.2 hPd).1, fun c'' hc'' => hQ _ c'' hc'' (h d.1 d.2 hPd).2⟩

theorem Triple.emit {P : Config σ τ → Prop} {Q : Unit → Config σ τ → Prop}
    {X : ξ → Config σ τ → Prop} {e : ε} (hP : Stable S.rely P)
    (hQ : Stable S.rely (Q ()))
    (h : ∀ s t, P (s, t) → S.guar (s, t) (s, t ++ [S.tag e]) ∧ Q () (s, t ++ [S.tag e])) :
    S.Triple P (Prog.emit e : Prog σ ε ξ Unit) Q X :=
  Triple.act hP (fun c hc => (h c.1 c.2 hc).1)
    (fun c hc d hd => hQ _ d hd (h c.1 c.2 hc).2)

/-- A loop over a list: the invariant `I` holds before and after each round. -/
theorem Triple.forEach {I : Config σ τ → Prop} {X : ξ → Config σ τ → Prop}
    {f : β → Prog σ ε ξ Unit} (hI : Stable S.rely I) (l : List β)
    (h : ∀ b ∈ l, S.Triple I (f b) (fun _ => I) X) :
    S.Triple I (Prog.forEach l f) (fun _ => I) X := by
  induction l with
  | nil => exact Triple.ret hI (fun _ hc => hc)
  | cons b l ih =>
      exact (h b (by simp)).bind (fun _ => ih (fun b' hb' => h b' (by simp [hb'])))

theorem Triple.ite {P : Config σ τ → Prop} {Q : α → Config σ τ → Prop}
    {X : ξ → Config σ τ → Prop} {b : Prop} [Decidable b] {p q : Prog σ ε ξ α}
    (hp : b → S.Triple P p Q X) (hq : ¬ b → S.Triple P q Q X) :
    S.Triple P (if b then p else q) Q X := by
  by_cases hb : b
  · rw [if_pos hb]; exact hp hb
  · rw [if_neg hb]; exact hq hb

/-! ## One party among many -/

/-- The contract of party `i` when party `j` guarantees `guar j`: between two steps of `i` the
others take any number of guaranteed steps. -/
def amid (guar : ι → Config σ (ι × ε) → Config σ (ι × ε) → Prop) (i : ι) :
    Side σ ε (ι × ε) where
  tag := fun e => (i, e)
  rely := Relation.ReflTransGen fun c c' => ∃ j, j ≠ i ∧ guar j c c'
  guar := guar i
  rely_refl := fun _ => .refl
  rely_trans := fun h h' => h.trans h'

/-- What no single step of another party can make false is stable. -/
theorem stable_amid {guar : ι → Config σ (ι × ε) → Config σ (ι × ε) → Prop} {i : ι}
    {P : Config σ (ι × ε) → Prop} (h : ∀ j, j ≠ i → ∀ c c', guar j c c' → P c → P c') :
    Stable (amid guar i).rely P := by
  intro c c' hr hc
  induction hr with
  | refl => exact hc
  | tail _ hstep ih =>
      obtain ⟨j, hj, hg⟩ := hstep
      exact h j hj _ _ hg ih

theorem amid_covers {guar : ι → Config σ (ι × ε) → Config σ (ι × ε) → Prop} (i j : ι)
    (hij : i ≠ j) (c c' : Config σ (ι × ε)) (h : (amid guar i).guar c c') :
    (amid guar j).rely c c' :=
  Relation.ReflTransGen.single ⟨i, hij, h⟩

theorem Stable.and {R : Config σ τ → Config σ τ → Prop} {P Q : Config σ τ → Prop}
    (hP : Stable R P) (hQ : Stable R Q) : Stable R (fun c => P c ∧ Q c) :=
  fun c c' h hc => ⟨hP c c' h hc.1, hQ c c' h hc.2⟩

theorem Stable.const {R : Config σ τ → Config σ τ → Prop} (p : Prop) : Stable R fun _ => p :=
  fun _ _ _ h => h

theorem Stable.imp {R : Config σ τ → Config σ τ → Prop} {p : Prop} {Q : Config σ τ → Prop}
    (hQ : p → Stable R Q) : Stable R (fun c => p → Q c) :=
  fun c c' h hc hp => hQ hp c c' h (hc hp)

/-! ## A program running alone -/

/-- The contract of a program nothing interferes with. -/
def alone (σ ε : Type) : Side σ ε ε where
  tag := id
  rely := Eq
  guar := fun _ _ => True
  rely_refl := fun _ => rfl
  rely_trans := fun h h' => h.trans h'

/-- What the end of a run says in terms of a postcondition. -/
def Ends (Q : α → Config σ ε → Prop) (X : ξ → Config σ ε → Prop)
    (r : Prog.Outcome σ ε ξ α) (t : List ε) : Prop :=
  match r.val with
  | .ok a => Q a (r.state, t ++ r.trace)
  | .error x => X x (r.state, t ++ r.trace)

/-- Safety alone is a statement about `Prog.run`. -/
theorem alone_safe_iff {Q : α → Config σ ε → Prop} {X : ξ → Config σ ε → Prop}
    (p : Prog σ ε ξ α) (s : σ) (t : List ε) :
    (alone σ ε).Safe Q X p (s, t) ↔ Ends Q X (p.run s) t := by
  induction p generalizing s t with
  | ret a => simp [Safe, Ends, alone]
  | raise x => simp [Safe, Ends, alone]
  | act f e k ih =>
      have h := ih s (f s) (t ++ e s)
      simp only [Safe, alone, Prog.run, Ends, forall_eq', true_and] at h ⊢
      rw [← List.append_assoc]
      simpa [Config.advance] using h

theorem alone_stable (P : Config σ ε → Prop) : Stable (alone σ ε).rely P := by
  intro c c' h hc
  have he : c = c' := h
  exact he ▸ hc

/-- The configuration at the end of a run, whether it returned or raised. -/
theorem Triple.alone_exec {P Q : Config σ ε → Prop} {p : Prog σ ε ξ α}
    (h : (alone σ ε).Triple P p (fun _ => Q) (fun _ => Q)) {s : σ} (hs : P (s, [])) :
    Q (p.exec s, (p.run s).trace) := by
  have h1 := (alone_safe_iff p s []).1 (h (s, []) hs)
  unfold Ends at h1
  unfold Prog.exec
  cases hv : (p.run s).val with
  | ok a => simpa [hv] using h1
  | error x => simpa [hv] using h1

/-- A predicate of the state that every step of the program keeps when it runs alone. -/
def Keeps (I : σ → Prop) (p : Prog σ ε ξ α) : Prop :=
  (alone σ ε).Triple (fun c => I c.1) p (fun _ c => I c.1) (fun _ c => I c.1)

theorem Keeps.exec {I : σ → Prop} {p : Prog σ ε ξ α} (h : Keeps I p) {s : σ} (hs : I s) :
    I (p.exec s) :=
  Triple.alone_exec (Q := fun c => I c.1) h hs

end Side

/-! ## Pools -/

/-- A family of programs over one shared state, with the log of what they did. -/
structure Pool (ι σ ε ξ α : Type) where
  threads : ι → Prog σ ε ξ α
  state : σ
  log : List (ι × ε)

namespace Pool

/-- The configuration the threads of a pool share. -/
def config (P : Pool ι σ ε ξ α) : Config σ (ι × ε) := (P.state, P.log)

variable [DecidableEq ι]

/-- Thread `i` takes its next atomic step; a finished thread does nothing. -/
def step (P : Pool ι σ ε ξ α) (i : ι) : Pool ι σ ε ξ α :=
  match P.threads i with
  | .ret _ => P
  | .raise _ => P
  | .act f e k =>
      { threads := Function.update P.threads i (k P.state)
        state := f P.state
        log := P.log ++ (e P.state).map (fun x => (i, x)) }

/-- The pool after the schedule `l`. -/
def exec (P : Pool ι σ ε ξ α) (l : List ι) : Pool ι σ ε ξ α := l.foldl step P

@[simp] theorem exec_nil (P : Pool ι σ ε ξ α) : P.exec [] = P := rfl

@[simp] theorem exec_cons (P : Pool ι σ ε ξ α) (i : ι) (l : List ι) :
    P.exec (i :: l) = (P.step i).exec l := rfl

theorem exec_append (P : Pool ι σ ε ξ α) (l l' : List ι) :
    P.exec (l ++ l') = (P.exec l).exec l' := by
  simp [exec, List.foldl_append]

variable {Q : ι → α → Config σ (ι × ε) → Prop} {X : ι → ξ → Config σ (ι × ε) → Prop}

/-- Every thread keeps its side of the contract `S i` from the pool's configuration on. -/
def AllSafe (S : ι → Side σ ε (ι × ε)) (Q : ι → α → Config σ (ι × ε) → Prop)
    (X : ι → ξ → Config σ (ι × ε) → Prop) (P : Pool ι σ ε ξ α) : Prop :=
  ∀ i, (S i).Safe (Q i) (X i) (P.threads i) P.config

/-- One step of a safe pool is guaranteed by the thread that takes it and leaves the pool
safe. -/
theorem step_safe {S : ι → Side σ ε (ι × ε)} (htag : ∀ i x, (S i).tag x = (i, x))
    (hGR : ∀ i j, i ≠ j → ∀ c c', (S i).guar c c' → (S j).rely c c')
    {P : Pool ι σ ε ξ α} (h : P.AllSafe S Q X) (i : ι) :
    (P.step i).AllSafe S Q X ∧
      (P.step i = P ∨ (S i).guar P.config (P.step i).config) := by
  unfold step
  have hi := h i
  cases hp : P.threads i with
  | ret a => exact ⟨h, Or.inl rfl⟩
  | raise x => exact ⟨h, Or.inl rfl⟩
  | act f e k =>
      rw [hp] at hi
      obtain ⟨hg, hs⟩ := hi P.config ((S i).rely_refl _)
      have hc : P.config.advance (S i).tag f e
          = (f P.state, P.log ++ (e P.state).map (fun x => (i, x))) := by
        simp [Config.advance, config, funext (htag i)]
      rw [hc] at hg hs
      refine ⟨fun j => ?_, Or.inr hg⟩
      by_cases hj : j = i
      · subst hj
        simpa [config, Function.update_self] using hs
      · simp only [Function.update_of_ne hj]
        exact (h j).of_rely (hGR i j (Ne.symm hj) _ _ hg)

/-- **Composition.** Under every schedule a safe pool stays safe, and its run is a chain of
guaranteed steps. -/
theorem exec_safe {S : ι → Side σ ε (ι × ε)} (htag : ∀ i x, (S i).tag x = (i, x))
    (hGR : ∀ i j, i ≠ j → ∀ c c', (S i).guar c c' → (S j).rely c c')
    {P : Pool ι σ ε ξ α} (h : P.AllSafe S Q X) (l : List ι) :
    (P.exec l).AllSafe S Q X ∧
      Relation.ReflTransGen (fun c c' => ∃ i, (S i).guar c c') P.config (P.exec l).config := by
  induction l generalizing P with
  | nil => exact ⟨h, .refl⟩
  | cons i l ih =>
      obtain ⟨hs, hstep⟩ := step_safe htag hGR h i
      obtain ⟨h1, h2⟩ := ih hs
      refine ⟨h1, ?_⟩
      rw [exec_cons]
      rcases hstep with heq | hg
      · rw [heq] at h2 ⊢
        exact h2
      · exact Relation.ReflTransGen.head ⟨i, hg⟩ h2

/-- A property of configurations that every thread guarantees to keep holds under every
schedule. -/
theorem exec_invariant {S : ι → Side σ ε (ι × ε)} (htag : ∀ i x, (S i).tag x = (i, x))
    (hGR : ∀ i j, i ≠ j → ∀ c c', (S i).guar c c' → (S j).rely c c')
    {P : Pool ι σ ε ξ α} (h : P.AllSafe S Q X) {I : Config σ (ι × ε) → Prop}
    (hI : ∀ i c c', (S i).guar c c' → I c → I c') (h0 : I P.config) (l : List ι) :
    I (P.exec l).config := by
  have key : ∀ c, Relation.ReflTransGen (fun c c' => ∃ i, (S i).guar c c') P.config c → I c := by
    intro c hc
    induction hc with
    | refl => exact h0
    | tail _ hstep ih => exact hI _ _ _ hstep.choose_spec ih
  exact key _ (exec_safe htag hGR h l).2

end Pool

end AtomicProg
