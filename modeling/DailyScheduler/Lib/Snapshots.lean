import DailyScheduler.Lib.Steps
import Mathlib.Data.Set.Basic

set_option autoImplicit false

/-! # Programs that write back what they have read

A *transaction* reads a register in its first step. From then on each of its steps leaves the
register as it is, or sets it to a value computed from what was read. When two transactions overlap
in a pool, the one that writes last undoes what the other has written.

`Watched` keeps account of what has changed since a thread made its first step. As long as no thread
writes a register that has changed meanwhile (`Fresh`), a register holds what the transactions that
have written it make of its first value, one after the other (`Ledger`).
-/

namespace AtomicProg

variable {ι κ σ ε ξ α β γ : Type}

namespace Prog

/-! ## Transactions -/

/-- No step changes the register. -/
abbrev Spares (get : σ → γ) (p : Prog σ ε ξ α) (Q : α → Prop) : Prop :=
  p.Steps (fun s s' _ => get s' = get s) Q

/-- Each step leaves the register as it is or sets it to `c`. -/
abbrev Sets (get : σ → γ) (c : γ) (p : Prog σ ε ξ α) (Q : α → Prop) : Prop :=
  p.Steps (fun s s' _ => get s' = get s ∨ get s' = c) Q

theorem Spares.sets {get : σ → γ} {p : Prog σ ε ξ α} {Q : α → Prop} (h : p.Spares get Q) (c : γ) :
    p.Sets get c Q :=
  h.mono (fun _ _ _ hs => .inl hs) fun _ ha => ha

/-- The program sets the register to `c` before it returns, and, unless `X` allows it, before it
raises. -/
def Owes (get : σ → γ) (c : γ) (X : Prop) : Prog σ ε ξ α → Prop
  | .ret _ => False
  | .raise _ => X
  | .act f _ k => ((∀ s, get (f s) = c) ∧ ∀ s, (k s).Sets get c fun _ => True) ∨
      ((∀ s, get (f s) = get s) ∧ ∀ s, (k s).Owes get c X)

section Owing

variable {get : σ → γ} {c : γ} {X : Prop} {p : Prog σ ε ξ α} {q : α → Prog σ ε ξ β}

theorem Owes.bind (hp : p.Owes get c X) (hq : ∀ a, (q a).Sets get c fun _ => True) :
    (p >>= q).Owes get c X := by
  induction p with
  | ret a => exact hp.elim
  | raise x => exact hp
  | act f e k ih =>
      rcases hp with ⟨hf, hk⟩ | ⟨hf, hk⟩
      · exact .inl ⟨hf, fun s => (hk s).bind fun a _ => hq a⟩
      · exact .inr ⟨hf, fun s => ih s (hk s)⟩

theorem Spares.owes_bind {Q : α → Prop} (hp : p.Spares get Q)
    (hq : ∀ a, Q a → (q a).Owes get c True) : (p >>= q).Owes get c True := by
  induction p with
  | ret a => exact hq a hp
  | raise x => trivial
  | act f e k ih => exact .inr ⟨fun s => (hp s).1, fun s => ih s (hp s).2⟩

/-- Run alone, the program has set the register in the end. -/
theorem Owes.exec {p : Prog σ ε ξ α} (hp : p.Owes get c False) (s : σ) : get (p.exec s) = c := by
  induction p generalizing s with
  | ret a => exact hp.elim
  | raise x => exact hp.elim
  | act f e k ih =>
      rcases hp with ⟨hf, hk⟩ | ⟨-, hk⟩
      · exact (hk s).exec (fun _ _ _ hs hc => hs.elim (fun h => h.trans hc) id) (hf s)
      · exact ih s (hk s) (f s)

end Owing

/-- What is left of a transaction that has read `c`. -/
structure Pending (get : σ → γ) (upd : γ → γ) (X : Prop) (c : γ) (p : Prog σ ε ξ α) : Prop where
  same : upd c = c → p.Sets get c fun _ => True
  owes : upd c ≠ c → p.Owes get (upd c) X

/-- The first step, from a state in `I`, reads the register, and what it will be set to is `upd` of
what was read. A program that ends without a step changes nothing. -/
def Transaction (I : σ → Prop) (get : σ → γ) (upd : γ → γ) (X : Prop) : Prog σ ε ξ α → Prop
  | .act f _ k => (∀ s, get (f s) = get s) ∧ ∀ s, I s → (k s).Pending get upd X (get s)
  | .ret a => ∀ c, (Prog.ret a : Prog σ ε ξ α).Pending get upd X c
  | .raise x => ∀ c, (Prog.raise x : Prog σ ε ξ α).Pending get upd X c

end Prog

/-! ## Pools under watch -/

/-- A pool, and for each thread that has made its first step the registers that others have changed
since. -/
structure Watched (ι κ σ ε ξ α : Type) where
  pool : Pool ι σ ε ξ α
  moved : ι → Option (Set κ)

namespace Watched

/-- The pool before its first step. -/
def start (P : Pool ι σ ε ξ α) : Watched ι κ σ ε ξ α := ⟨P, fun _ => none⟩

/-- The next step of the thread `i` writes the register `k`: there is a state in which it changes
it. -/
def Writes (get : κ → σ → γ) (W : Watched ι κ σ ε ξ α) (i : ι) (k : κ) : Prop :=
  ∃ f e q, W.pool.threads i = .act f e q ∧ ∃ s, get k (f s) ≠ get k s

/-- The thread `i` does not write a register that others have changed since its first step. -/
def Fresh (get : κ → σ → γ) (W : Watched ι κ σ ε ξ α) (i : ι) : Prop :=
  ∀ S, W.moved i = some S → ∀ k ∈ S, ¬ W.Writes get i k

variable [DecidableEq ι]

/-- A step of the thread `i`. -/
def step (get : κ → σ → γ) (W : Watched ι κ σ ε ξ α) (i : ι) : Watched ι κ σ ε ξ α where
  pool := W.pool.step i
  moved j :=
    if j = i then some ((W.moved j).getD ∅)
    else (W.moved j).map fun S => {k | k ∈ S ∨ get k (W.pool.step i).state ≠ get k W.pool.state}

theorem pool_last (get : κ → σ → γ) (W : Watched ι κ σ ε ξ α) (l : List ι) :
    (Run.last (step get) W l).pool = W.pool.exec l := by
  induction l generalizing W with
  | nil => rfl
  | cons i l ih => exact ih (W.step get i)

/-- A thread that takes all the steps finds nothing changed. -/
theorem meets_replicate {get : κ → σ → γ} {W : Watched ι κ σ ε ξ α} {i : ι}
    (h : ∀ S, W.moved i = some S → S = ∅) (n : Nat) :
    Run.Meets (step get) (Fresh get) W (List.replicate n i) := by
  induction n generalizing W with
  | zero => trivial
  | succ n ih =>
      refine ⟨fun S hS k hk => ?_, ih fun S hS => ?_⟩
      · rw [h S hS] at hk
        exact hk.elim
      · unfold step at hS
        dsimp only at hS
        rw [if_pos rfl] at hS
        cases hm : W.moved i with
        | none =>
            rw [hm] at hS
            exact (Option.some_inj.1 hS).symm
        | some S' =>
            rw [hm] at hS
            rw [← Option.some_inj.1 hS]
            exact h S' hm

/-- A thread that takes no step has read nothing. -/
theorem moved_replicate {get : κ → σ → γ} {W : Watched ι κ σ ε ξ α} {i j : ι} (hj : j ≠ i)
    (h : W.moved j = none) (n : Nat) :
    (Run.last (step get) W (List.replicate n i)).moved j = none := by
  induction n generalizing W with
  | zero => exact h
  | succ n ih =>
      refine ih (W := W.step get i) ?_
      unfold step
      dsimp only
      rw [if_neg hj, h]
      rfl

end Watched

/-! ## The order of the writes -/

section Ledger

variable (I : σ → Prop) (get : κ → σ → γ) (k : κ) (upd : ι → γ → γ) (X : ι → Prop) (c₀ : γ)

/-- What the updates of the threads in `l` make of `c₀`. -/
def replay (l : List ι) : γ := l.foldl (fun c i => upd i c) c₀

/-- Where a thread stands when the threads in `l` have written the register and its value is `v`: it
has not begun, or has read a value that the register had then, or has written what it makes of
it. -/
inductive Standing (l : List ι) (v : γ) (i : ι) :
    Option (Set κ) → Prog σ ε ξ α → Prop
  | waiting {p : Prog σ ε ξ α} (hi : i ∉ l) (hp : p.Transaction I (get k) (upd i) (X i)) :
      Standing l v i none p
  | reading {p : Prog σ ε ξ α} (S : Set κ) (l₀ : List ι) (hl : l₀ <+: l) (hi : i ∉ l)
      (hs : ∃ s, get k s = replay upd c₀ l₀) (hv : k ∉ S → v = replay upd c₀ l₀)
      (hp : p.Pending (get k) (upd i) (X i) (replay upd c₀ l₀)) : Standing l v i (some S) p
  | written {p : Prog σ ε ξ α} (S : Set κ) (c : γ) (hi : i ∈ l) (hv : k ∉ S → v = c)
      (hp : p.Sets (get k) c fun _ => True) : Standing l v i (some S) p

/-- The threads in `l` have written the register, one after the other and each once. -/
structure Ledger (W : Watched ι κ σ ε ξ α) (l : List ι) : Prop where
  nodup : l.Nodup
  value : get k W.pool.state = replay upd c₀ l
  threads : ∀ i, Standing I get k upd X c₀ l (get k W.pool.state) i (W.moved i) (W.pool.threads i)

variable {I get k upd X c₀} {W : Watched ι κ σ ε ξ α} {l : List ι}

theorem replay_append (l l' : List ι) :
    replay upd c₀ (l ++ l') = replay upd (replay upd c₀ l) l' := List.foldl_append

theorem replay_concat (l : List ι) (i : ι) :
    replay upd c₀ (l ++ [i]) = upd i (replay upd c₀ l) := replay_append l [i]

/-- What every update keeps is kept. -/
theorem replay_induction {P : γ → Prop} (h : ∀ i c, P c → P (upd i c)) (hc : P c₀) (l : List ι) :
    P (replay upd c₀ l) := by
  induction l generalizing c₀ with
  | nil => exact hc
  | cons i l ih => exact ih (h i c₀ hc)

theorem Ledger.start {P : Pool ι σ ε ξ α}
    (h : ∀ i, (P.threads i).Transaction I (get k) (upd i) (X i)) :
    Ledger I get k upd X (get k P.state) (.start P) [] where
  nodup := .nil
  value := rfl
  threads i := .waiting List.not_mem_nil (h i)

/-- A thread that has ended has written the register, or has read a value that it keeps, unless it
was allowed to raise. -/
theorem Ledger.ended (h : Ledger I get k upd X c₀ W l) {i : ι}
    (hend : (∃ a, W.pool.threads i = .ret a) ∨ (¬ X i ∧ ∃ x, W.pool.threads i = .raise x)) :
    i ∈ l ∨ ∃ l₀, l₀ <+: l ∧ upd i (replay upd c₀ l₀) = replay upd c₀ l₀ := by
  have howes : ∀ c, ¬ (W.pool.threads i).Owes (get k) (upd i c) (X i) := by
    intro c hc
    rcases hend with ⟨a, hp⟩ | ⟨hX, x, hp⟩
    · rw [hp] at hc
      exact hc
    · rw [hp] at hc
      exact hX hc
  have hstanding := h.threads i
  generalize W.moved i = m at hstanding
  cases hstanding with
  | waiting hi hp =>
      right
      refine ⟨l, List.prefix_refl l, ?_⟩
      by_contra hne
      rcases hend with ⟨a, he⟩ | ⟨hX, x, he⟩
      · rw [he] at hp
        exact (hp _).owes hne
      · rw [he] at hp
        exact hX ((hp _).owes hne)
  | reading S l₀ hl hi hs hv hp =>
      right
      refine ⟨l₀, hl, ?_⟩
      by_contra hne
      exact howes _ (hp.owes hne)
  | written S c hi hv hp => exact .inl hi

/-- A thread that does not move stands where it stood, as the register has changed only under
watch. -/
theorem Standing.other {l' : List ι} {v v' : γ} {j : ι} {m : Option (Set κ)} {p : Prog σ ε ξ α}
    (h : Standing I get k upd X c₀ l v j m p) (hl : l <+: l') (hj : j ∈ l' ↔ j ∈ l)
    (f : Set κ → Set κ) (hf : ∀ S, k ∉ f S → k ∉ S ∧ v' = v) :
    Standing I get k upd X c₀ l' v' j (m.map f) p := by
  cases h with
  | waiting hi hp => exact .waiting (fun h => hi (hj.1 h)) hp
  | reading S l₀ hl₀ hi hs hv hp =>
      refine .reading (f S) l₀ (hl₀.trans hl) (fun h => hi (hj.1 h)) hs (fun hS => ?_) hp
      obtain ⟨hS, hv'⟩ := hf S hS
      exact hv'.trans (hv hS)
  | written S c hi hv hp =>
      refine .written (f S) c (hj.2 hi) (fun hS => ?_) hp
      obtain ⟨hS, hv'⟩ := hf S hS
      exact hv'.trans (hv hS)

variable [DecidableEq ι]

/-- The ledger after a step of the thread `i`, which stands then in its new place. -/
theorem Ledger.step_of_standing (h : Ledger I get k upd X c₀ W l) {i : ι} {l' : List ι}
    (hl : l <+: l') (hnodup : l'.Nodup) (hother : ∀ j, j ≠ i → (j ∈ l' ↔ j ∈ l))
    (hvalue : get k (W.pool.step i).state = replay upd c₀ l')
    (hi : Standing I get k upd X c₀ l' (get k (W.pool.step i).state) i
      (some ((W.moved i).getD ∅)) ((W.pool.step i).threads i)) :
    Ledger I get k upd X c₀ (W.step get i) l' where
  nodup := hnodup
  value := hvalue
  threads j := by
    by_cases hj : j = i
    · subst hj
      unfold Watched.step
      dsimp only
      rw [if_pos rfl]
      exact hi
    · have hthread : (W.pool.step i).threads j = W.pool.threads j := by
        unfold Pool.step
        cases W.pool.threads i with
        | ret a => rfl
        | raise x => rfl
        | act f e q => exact Function.update_of_ne hj _ _
      unfold Watched.step
      dsimp only
      rw [if_neg hj, hthread]
      refine (h.threads j).other hl (hother j hj) _ fun S hS => ?_
      rw [Set.mem_ofPred_eq, not_or, not_not] at hS
      exact hS

/-- A thread that has ended does nothing. -/
theorem Ledger.step_of_ended (h : Ledger I get k upd X c₀ W l) {i : ι}
    (hstep : W.pool.step i = W.pool)
    (hp : (W.pool.threads i).Transaction I (get k) (upd i) (X i) →
      ∀ c, (W.pool.threads i).Pending (get k) (upd i) (X i) c) :
    Ledger I get k upd X c₀ (W.step get i) l := by
  refine h.step_of_standing (List.prefix_refl l) h.nodup (fun _ _ => Iff.rfl) ?_ ?_
  · rw [hstep]
    exact h.value
  · rw [hstep]
    have hstanding := h.threads i
    generalize W.moved i = m at hstanding ⊢
    generalize hq : W.pool.threads i = q at hstanding hp ⊢
    cases hstanding with
    | waiting hi htrans =>
        exact .reading ∅ l (List.prefix_refl l) hi ⟨_, h.value⟩ (fun _ => h.value) (hp htrans _)
    | reading S l₀ hl hi hs hv hp => exact .reading S l₀ hl hi hs hv hp
    | written S c hi hv hp => exact .written S c hi hv hp

/-- A fresh step: the register keeps its value, or the thread that moved is the next one in the
ledger. -/
theorem Ledger.step (h : Ledger I get k upd X c₀ W l) (hI : I W.pool.state) {i : ι}
    (hfresh : W.Fresh get i) :
    ∃ l', Ledger I get k upd X c₀ (W.step get i) l' := by
  cases hp : W.pool.threads i with
  | ret a =>
      refine ⟨l, h.step_of_ended ?_ fun ht => ?_⟩
      · simp only [Pool.step, hp]
      · rw [hp] at ht ⊢
        exact ht
  | raise x =>
      refine ⟨l, h.step_of_ended ?_ fun ht => ?_⟩
      · simp only [Pool.step, hp]
      · rw [hp] at ht ⊢
        exact ht
  | act f e q =>
      have hstate : (W.pool.step i).state = f W.pool.state := by simp only [Pool.step, hp]
      have hthread : (W.pool.step i).threads i = q W.pool.state := by
        simp only [Pool.step, hp, Function.update_self]
      -- a step that changes the register here writes it, so what the thread has read is not stale
      have hknown : ∀ S, W.moved i = some S → get k (f W.pool.state) ≠ get k W.pool.state →
          k ∉ S := fun S hS hne hk => hfresh S hS k hk ⟨f, e, q, hp, W.pool.state, hne⟩
      -- as long as the register keeps its value, so does the ledger
      have hkeep : get k (f W.pool.state) = get k W.pool.state →
          Standing I get k upd X c₀ l (get k (f W.pool.state)) i (some ((W.moved i).getD ∅))
            (q W.pool.state) → ∃ l', Ledger I get k upd X c₀ (W.step get i) l' := by
        intro hsame hi
        refine ⟨l, h.step_of_standing (List.prefix_refl l) h.nodup (fun _ _ => Iff.rfl) ?_ ?_⟩
        · rw [hstate, hsame]
          exact h.value
        · rw [hstate, hthread]
          exact hi
      have hstanding := h.threads i
      rw [hp] at hstanding
      generalize hm : W.moved i = m at hstanding hknown hkeep
      cases hstanding with
      | waiting hi htrans =>
          obtain ⟨hread, hrest⟩ := htrans
          refine hkeep (hread _) (.reading ∅ l (List.prefix_refl l) hi ⟨_, h.value⟩ (fun _ => ?_) ?_)
          · rw [hread]
            exact h.value
          · rw [← h.value]
            exact hrest _ hI
      | written S c hi hv hset =>
          obtain ⟨hstep, hrest⟩ := hset W.pool.state
          have hsame : get k (f W.pool.state) = get k W.pool.state := by
            by_contra hne
            have hc := hstep.resolve_left hne
            exact hne (hc.trans (hv (hknown S rfl hne)).symm)
          refine hkeep hsame (.written S c hi (fun hS => ?_) hrest)
          rw [hsame]
          exact hv hS
      | reading S l₀ hl hi hs hv hpending =>
          by_cases hupd : upd i (replay upd c₀ l₀) = replay upd c₀ l₀
          · obtain ⟨hstep, hrest⟩ := hpending.same hupd W.pool.state
            have hsame : get k (f W.pool.state) = get k W.pool.state := by
              by_contra hne
              have hc := hstep.resolve_left hne
              exact hne (hc.trans (hv (hknown S rfl hne)).symm)
            refine hkeep hsame (.reading S l₀ hl hi hs (fun hS => ?_) ?_)
            · rw [hsame]
              exact hv hS
            · exact ⟨fun _ => hrest, fun hne => (hne hupd).elim⟩
          · rcases hpending.owes hupd with ⟨hwrite, hrest⟩ | ⟨hread, hrest⟩
            · -- the value that was read tells that the step writes the register
              obtain ⟨s, hs⟩ := hs
              have hwrites : W.Writes get i k := by
                refine ⟨f, e, q, hp, s, ?_⟩
                rw [hwrite, hs]
                exact hupd
              have hv' := hv fun hk => hfresh S hm k hk hwrites
              refine ⟨l ++ [i], h.step_of_standing (List.prefix_append l [i]) ?_ ?_ ?_ ?_⟩
              · exact List.nodup_append.2 ⟨h.nodup, by simp, by
                  intro a ha b hb hab
                  rw [List.mem_singleton] at hb
                  exact hi (hb ▸ hab ▸ ha)⟩
              · intro j hj
                rw [List.mem_append, List.mem_singleton]
                exact ⟨fun h => h.resolve_right hj, .inl⟩
              · rw [hstate, hwrite, replay_concat, ← h.value, hv']
              · rw [hstate, hthread, hm]
                exact .written S _ (List.mem_append_right l (List.mem_singleton_self i))
                  (fun _ => hwrite _) (hrest _)
            · refine hkeep (hread _) (.reading S l₀ hl hi hs (fun hS => ?_) ?_)
              · rw [hread]
                exact hv hS
              · exact ⟨fun heq => (hupd heq).elim, fun _ => hrest _⟩

/-- In a run of fresh steps there is a ledger of each register all along, if that makes every state
one in `I`. -/
theorem Ledger.along {upd : κ → ι → γ → γ} {X : ι → Prop} {c₀ : κ → γ} {ls : List ι}
    (hI : ∀ s, (∀ k, ∃ l, get k s = replay (upd k) (c₀ k) l) → I s)
    (h : ∀ k, ∃ l, Ledger I get k (upd k) X (c₀ k) W l)
    (hls : Run.Meets (Watched.step get) (Watched.Fresh get) W ls) :
    Run.Along (Watched.step get) (fun W => ∀ k, ∃ l, Ledger I get k (upd k) X (c₀ k) W l) W ls := by
  refine Run.along_of_step (fun W i hW hfresh k => ?_) h hls
  obtain ⟨l, hl⟩ := hW k
  have hstate : I W.pool.state := by
    refine hI _ fun k => ?_
    obtain ⟨l, hl⟩ := hW k
    exact ⟨l, hl.value⟩
  exact hl.step hstate hfresh

end Ledger

end AtomicProg
