import DailyScheduler.Lib.Steps
import DailyScheduler.Model.Queue

set_option autoImplicit false

/-! # Dequeuing among other parties

`dequeue_any` compacts the queued registries, pops a name and loads its record, one broker
command at a time while others work on the same registries. This file says, once, what an
invariant `I` has to offer for `dequeue_any` to keep it: a `DequeueRule`. The predicates of a
`DequeueView` are what the worker knows about a name between two of its commands.
-/

namespace DailyScheduler

open AtomicProg

/-- What a worker knows about a name in the course of `dequeue_any`. -/
structure DequeueView (τ : Type) where
  /-- `compact` read the name in the queued registry. -/
  Seen : JobName → Config World τ → Prop
  /-- `compact` then found no record for it. -/
  Gone : JobName → Config World τ → Prop
  /-- The worker popped the name from the queue. -/
  Held : QueueName → JobName → Config World τ → Prop
  /-- The worker popped the name and found no record for it. -/
  Lost : JobName → Config World τ → Prop
  /-- The worker was given the record of a name it popped from the queue. -/
  Given : QueueName → JobName → Config World τ → Prop

/-- What an invariant has to offer for `dequeue_any` on the queues `qs` to keep it. -/
structure DequeueRule {τ : Type} (S : Side World Event τ) (I : Config World τ → Prop)
    (V : DequeueView τ) (qs : List QueueName) : Prop where
  stable : Stable S.rely I
  stableSeen : ∀ n, Stable S.rely fun c => I c ∧ V.Seen n c
  stableGone : ∀ n, Stable S.rely fun c => I c ∧ V.Gone n c
  stableHeld : ∀ q n, Stable S.rely fun c => I c ∧ V.Held q n c
  stableLost : ∀ n, Stable S.rely fun c => I c ∧ V.Lost n c
  stableGiven : ∀ q n, Stable S.rely fun c => I c ∧ V.Given q n c
  refl : ∀ c, I c → S.guar c c
  seen : ∀ w t q n, q ∈ qs → I (w, t) → w.inRegistry q .queued n → V.Seen n (w, t)
  gone : ∀ w t n, I (w, t) → V.Seen n (w, t) → w.jobExists n = false → V.Gone n (w, t)
  delete : ∀ w t q n, q ∈ qs → I (w, t) → V.Gone n (w, t) →
    S.guar (w, t) (w.zrem q .queued n, t) ∧ I (w.zrem q .queued n, t) ∧
      ∀ m, V.Seen m (w, t) → V.Seen m (w.zrem q .queued n, t)
  pop : ∀ w w' t q n, q ∈ qs → I (w, t) → w.zpopmin q .queued = (some n, w') →
    S.guar (w, t) (w', t ++ [S.tag (.popped q n)]) ∧
      I (w', t ++ [S.tag (.popped q n)]) ∧ V.Held q n (w', t ++ [S.tag (.popped q n)])
  lost : ∀ w t q n, I (w, t) → V.Held q n (w, t) → ¬ w.loadable n → V.Lost n (w, t)
  drop : ∀ w t n, I (w, t) → V.Lost n (w, t) →
    S.guar (w, t) (w, t ++ [S.tag (.dropped n)]) ∧ I (w, t ++ [S.tag (.dropped n)])
  give : ∀ w t q n, I (w, t) → V.Held q n (w, t) →
    S.guar (w, t) (w, t ++ [S.tag (.delivered n)]) ∧ I (w, t ++ [S.tag (.delivered n)]) ∧
      V.Given q n (w, t ++ [S.tag (.delivered n)])

/-! ## Reading -/

section Reading

variable {τ : Type} {S : Side World Event τ} {P : Config World τ → Prop}
  {X : PyError → Config World τ → Prop}

/-- Reading keeps everything that is stable. -/
theorem read_triple {β : Type} (hP : Stable S.rely P) (hrefl : ∀ c, P c → S.guar c c)
    (g : World → β) : S.Triple P (Prog.read g : Py β) (fun _ => P) X :=
  Side.Triple.read hP (fun _ => hP) hrefl (fun _ _ h => h)

/-- The queued registry has no cleanup: reading it is one step. -/
theorem allWithTimestamps_queued (q : QueueName) (i j : Int) :
    (Registry.mk q .queued).allWithTimestamps i j
      = Prog.read fun w => (w.registry q .queued).range i j := rfl

theorem timestampOrNow_triple (hP : Stable S.rely P) (hrefl : ∀ c, P c → S.guar c c)
    (t : Option Int) : S.Triple P (timestampOrNow t) (fun _ => P) X := by
  cases t with
  | none => exact read_triple hP hrefl _
  | some t =>
      exact Side.Triple.ite (fun _ => read_triple hP hrefl _)
        (fun _ => Side.Triple.ret hP fun _ hc => hc)

/-- `enqueue_job` computes its score from reads only. -/
theorem enqueueScore_triple (hP : Stable S.rely P) (hrefl : ∀ c, P c → S.guar c c) (q : Queue)
    (atFront : Bool) : S.Triple P (q.enqueueScore atFront) (fun _ => P) X := by
  refine Side.Triple.ite (fun _ => read_triple hP hrefl _) (fun _ => ?_)
  refine Side.Triple.bind (Q := fun _ => P) (Side.Triple.bind (Q := fun _ => P)
    (read_triple hP hrefl _) (fun _ => Side.Triple.ret hP fun _ hc => hc)) (fun last => ?_)
  exact timestampOrNow_triple hP hrefl last

end Reading

/-! ## What dequeuing can do -/

section Steps

variable {R : World → World → List Event → Prop}

/-- Compacting a queued registry only takes names out of it. -/
theorem compact_steps (hR : ∀ w, R w w [])
    {q : QueueName} (h : ∀ w m, R w (w.zrem q .queued m) []) :
    ((Registry.mk q .queued).compact).Steps R fun _ => True := by
  unfold Registry.compact
  rw [allWithTimestamps_queued]
  refine (Prog.Steps.read hR).bind fun jobs _ => Prog.Steps.forEach fun p _ => ?_
  refine (Prog.Steps.read hR).bind fun found _ => ?_
  cases found with
  | true => trivial
  | false => exact Prog.Steps.write fun w => h w p.2

/-- `dequeue_any` reads, takes names out of queues and reports what it took. -/
theorem dequeueAny_steps (hR : ∀ w, R w w [])
    (hdelete : ∀ w q n, R w (w.zrem q .queued n) [])
    (hpop : ∀ w q, R w (w.zpopmin q .queued).2 (Registry.poppedFrom q (w.zpopmin q .queued).1))
    (hbpop : ∀ w qs, R w (w.bzpopmin qs).2
      (((w.bzpopmin qs).1.toList).map fun p => Event.popped p.1 p.2))
    (hlog : ∀ w n, R w w [.delivered n] ∧ R w w [.dropped n]) (env : Env) (queues : List Queue)
    (timeout : Option Int) (fuel : Nat) :
    (Queue.dequeueAny env queues timeout fuel).Steps R fun _ => True := by
  have hnonblocking : ∀ l, (Registry.popNonBlocking l).Steps R fun _ => True := by
    intro l
    induction l with
    | nil => trivial
    | cons q l ih =>
        refine (Prog.Steps.command fun w => hpop w q).bind fun r _ => ?_
        cases r with
        | none => exact ih
        | some n => trivial
  have hpopped : (Registry.pop (queues.map Queue.name) timeout).Steps R fun _ => True := by
    refine Prog.Steps.ite (fun _ => trivial) fun _ => ?_
    refine Prog.Steps.ite (fun _ => ?_) fun _ => hnonblocking _
    refine (Prog.Steps.command fun w => hbpop w _).bind fun r _ => ?_
    cases r <;> trivial
  induction fuel with
  | zero => trivial
  | succ fuel ih =>
      refine (Prog.Steps.forEach fun q _ => compact_steps hR fun w m => hdelete w q.name m).bind
        fun _ _ => ?_
      refine hpopped.bind fun r _ => ?_
      cases r with
      | none => trivial
      | some p =>
          obtain ⟨key, n⟩ := p
          dsimp only
          cases List.find? (fun q : Queue => decide (q.name = key)) queues with
          | none => trivial
          | some q =>
              refine (Prog.Steps.read hR).bind fun job _ => ?_
              cases job with
              | none => exact (Prog.Steps.emit fun w => (hlog w n).2).bind fun _ _ => ih
              | some j => exact (Prog.Steps.emit fun w => (hlog w n).1).bind fun _ _ => trivial

end Steps

namespace DequeueRule

variable {τ : Type} {S : Side World Event τ} {I : Config World τ → Prop} {V : DequeueView τ}
  {qs : List QueueName} {X : PyError → Config World τ → Prop}

theorem compact_triple (h : DequeueRule S I V qs) {q : QueueName} (hq : q ∈ qs) :
    S.Triple I (Registry.mk q .queued).compact (fun _ => I) X := by
  have hseen : ∀ l : List (Int × JobName),
      Stable S.rely fun c => I c ∧ ∀ p ∈ l, V.Seen p.2 c := by
    intro l c c' hr hc
    exact ⟨h.stable c c' hr hc.1,
      fun p hp => (h.stableSeen p.2 c c' hr ⟨hc.1, hc.2 p hp⟩).2⟩
  unfold Registry.compact
  rw [allWithTimestamps_queued]
  refine Side.Triple.bind
    (Side.Triple.read (Q := fun l c => I c ∧ ∀ p ∈ l, V.Seen p.2 c) h.stable
      (fun l => hseen l) (fun c hc => h.refl c hc) ?_) (fun l => ?_)
  · intro w t hI
    refine ⟨hI, fun p hp => h.seen w t q p.2 hq hI ?_⟩
    rw [SortedSet.range_all] at hp
    exact (SortedSet.mem_iff_entry _ _).2 ⟨p.1, hp⟩
  · -- every name read keeps being `Seen` while the loop deletes
    refine Side.Triple.mono (Side.Triple.forEach (hseen l) l ?_) (fun _ hc => hc)
      (fun _ _ hc => hc.1) (fun _ _ hc => hc)
    intro p hp
    have hgone : ∀ b : Bool, Stable S.rely fun c =>
        (I c ∧ ∀ p ∈ l, V.Seen p.2 c) ∧ (b = false → V.Gone p.2 c) := by
      intro b c c' hr hc
      exact ⟨hseen l c c' hr hc.1,
        fun hb => (h.stableGone p.2 c c' hr ⟨hc.1.1, hc.2 hb⟩).2⟩
    refine Side.Triple.bind
      (Side.Triple.read (Q := fun b c => (I c ∧ ∀ p ∈ l, V.Seen p.2 c) ∧
        (b = false → V.Gone p.2 c)) (hseen l) hgone (fun c hc => h.refl c hc.1) ?_)
      (fun b => ?_)
    · intro w t hc
      exact ⟨hc, fun hb => h.gone w t p.2 hc.1 (hc.2 p hp) hb⟩
    · cases b with
      | true => exact Side.Triple.ret (hgone true) (fun _ hc => hc.1)
      | false =>
          refine Side.Triple.write (hgone false) (hseen l) ?_
          intro w t hc
          obtain ⟨hg, hI, hs⟩ := h.delete w t q p.2 hq hc.1.1 (hc.2 rfl)
          exact ⟨hg, hI, fun p' hp' => hs _ (hc.1.2 p' hp')⟩

/-- What is known after a pop that answered `r`. -/
def Popped (I : Config World τ → Prop) (V : DequeueView τ) (qs : List QueueName)
    (r : Option (QueueName × JobName)) (c : Config World τ) : Prop :=
  I c ∧ ∀ q n, r = some (q, n) → q ∈ qs ∧ V.Held q n c

theorem stable_popped (h : DequeueRule S I V qs) (r : Option (QueueName × JobName)) :
    Stable S.rely (Popped I V qs r) := by
  intro c c' hr hc
  refine ⟨h.stable c c' hr hc.1, fun q n hrn => ?_⟩
  obtain ⟨hq, hheld⟩ := hc.2 q n hrn
  exact ⟨hq, (h.stableHeld q n c c' hr ⟨hc.1, hheld⟩).2⟩

theorem zpopmin_triple (h : DequeueRule S I V qs) {q : QueueName} (hq : q ∈ qs) :
    S.Triple I (Registry.zpopmin q)
      (fun r c => Popped I V qs (r.map fun n => (q, n)) c) X := by
  refine Side.Triple.command h.stable (fun r => h.stable_popped _) (fun w t hI => ?_)
  rcases hp : w.zpopmin q .queued with ⟨_ | n, w'⟩
  · obtain ⟨rfl, -⟩ := World.zpopmin_none hp
    simp only [Registry.poppedFrom, Option.toList_none, List.map_nil, List.append_nil,
      Option.map_none]
    exact ⟨h.refl _ hI, hI, by simp⟩
  · obtain ⟨hg, hI', hheld⟩ := h.pop w w' t q n hq hI hp
    refine ⟨by simpa [Registry.poppedFrom] using hg,
      by simpa [Registry.poppedFrom] using hI', fun q' n' hqn => ?_⟩
    simp only [Option.map_some, Option.some.injEq, Prod.mk.injEq] at hqn
    obtain ⟨rfl, rfl⟩ := hqn
    exact ⟨hq, by simpa [Registry.poppedFrom] using hheld⟩

theorem popNonBlocking_triple (h : DequeueRule S I V qs) :
    ∀ l : List QueueName, (∀ q ∈ l, q ∈ qs) →
      S.Triple I (Registry.popNonBlocking l) (Popped I V qs) X := by
  intro l
  induction l with
  | nil => exact fun _ => Side.Triple.ret h.stable (fun _ hc => ⟨hc, by simp⟩)
  | cons q l ih =>
      intro hl
      refine Side.Triple.bind (h.zpopmin_triple (hl q (by simp))) (fun r => ?_)
      cases r with
      | none => exact (ih fun q' hq' => hl q' (by simp [hq'])).pre (fun _ hc => hc.1)
      | some n => exact Side.Triple.ret (h.stable_popped _) (fun _ hc => hc)

theorem bzpopmin_triple (h : DequeueRule S I V qs) :
    S.Triple I (Registry.bzpopmin qs) (Popped I V qs) X := by
  refine Side.Triple.command h.stable h.stable_popped (fun w t hI => ?_)
  rcases hp : w.bzpopmin qs with ⟨_ | ⟨q, n⟩, w'⟩
  · obtain rfl := World.bzpopmin_none hp
    simp only [Option.toList_none, List.map_nil, List.append_nil]
    exact ⟨h.refl _ hI, hI, by simp⟩
  · obtain ⟨hq, hp'⟩ := World.bzpopmin_some hp
    obtain ⟨hg, hI', hheld⟩ := h.pop w w' t q n hq hI hp'
    refine ⟨by simpa using hg, by simpa using hI', fun q' n' hqn => ?_⟩
    simp only [Option.some.injEq, Prod.mk.injEq] at hqn
    obtain ⟨rfl, rfl⟩ := hqn
    exact ⟨hq, by simpa using hheld⟩

theorem pop_triple (h : DequeueRule S I V qs) (timeout : Option Int) :
    S.Triple I (Registry.pop qs timeout) (Popped I V qs) (fun _ => I) := by
  unfold Registry.pop
  refine Side.Triple.ite (fun _ => Side.Triple.raise h.stable (fun _ hc => hc)) (fun _ => ?_)
  refine Side.Triple.ite (fun _ => ?_) (fun _ => h.popNonBlocking_triple qs (fun _ hq => hq))
  refine Side.Triple.bind h.bzpopmin_triple (fun r => ?_)
  cases r with
  | none => exact Side.Triple.raise (h.stable_popped _) (fun _ hc => hc.1)
  | some p => exact Side.Triple.ret (h.stable_popped _) (fun _ hc => hc)

/-- What is known after the record of a popped name was read. -/
def Found (env : Env) (V : DequeueView τ) (q : QueueName) (n : JobName)
    (job : Option JobModel) (c : Config World τ) : Prop :=
  match job with
  | none => V.Lost n c
  | some j => (∃ w, JobModel.fetch env w n = some j) ∧ V.Held q n c

theorem stable_found (h : DequeueRule S I V qs) (env : Env) (q : QueueName) (n : JobName)
    (job : Option JobModel) : Stable S.rely fun c => I c ∧ Found env V q n job c := by
  cases job with
  | none => exact h.stableLost n
  | some j =>
      intro c c' hr hc
      obtain ⟨hI, hheld⟩ := h.stableHeld q n c c' hr ⟨hc.1, hc.2.2⟩
      exact ⟨hI, hc.2.1, hheld⟩

theorem get_triple (h : DequeueRule S I V qs) (env : Env) (q : QueueName) (n : JobName) :
    S.Triple (Popped I V qs (some (q, n))) (JobModel.get env n)
      (fun job c => I c ∧ Found env V q n job c) X := by
  refine Side.Triple.read (h.stable_popped _) (h.stable_found env q n)
    (fun c hc => h.refl c hc.1) (fun w t hc => ⟨hc.1, ?_⟩)
  have hheld := (hc.2 q n rfl).2
  cases hj : JobModel.fetch env w n with
  | none => exact h.lost w t q n hc.1 hheld (JobModel.fetch_eq_none_iff.1 hj)
  | some j => exact ⟨⟨w, hj⟩, hheld⟩

/-- What is known of a job that `dequeue_any` returned: it was loaded from the broker, and the
worker popped it from the queue it comes with. -/
def Dequeued (env : Env) (V : DequeueView τ) (queues : List Queue)
    (r : Option (JobModel × Queue)) (c : Config World τ) : Prop :=
  ∀ j q, r = some (j, q) →
    q ∈ queues ∧ (∃ w, JobModel.fetch env w j.name = some j) ∧ V.Given q.name j.name c

/-- **`dequeue_any` keeps the invariant**, and what it returns was given to this worker. -/
theorem dequeueAny_triple {queues : List Queue} (h : DequeueRule S I V (queues.map Queue.name))
    (env : Env) (timeout : Option Int) (fuel : Nat) :
    S.Triple I (Queue.dequeueAny env queues timeout fuel)
      (fun r c => I c ∧ Dequeued env V queues r c) (fun _ => I) := by
  have hnone : ∀ c : Config World τ, Dequeued env V queues none c := fun c j q hj => by cases hj
  induction fuel with
  | zero => exact Side.Triple.ret h.stable (fun c hc => ⟨hc, hnone c⟩)
  | succ fuel ih =>
      refine Side.Triple.bind (Side.Triple.forEach h.stable queues fun q hq =>
        h.compact_triple (List.mem_map_of_mem hq)) (fun _ => ?_)
      refine Side.Triple.bind (h.pop_triple timeout) (fun r => ?_)
      cases r with
      | none => exact Side.Triple.ret (h.stable_popped _) (fun c hc => ⟨hc.1, hnone c⟩)
      | some p =>
          obtain ⟨key, n⟩ := p
          dsimp only
          cases hfind : List.find? (fun q : Queue => decide (q.name = key)) queues with
          | none => exact Side.Triple.ret (h.stable_popped _) (fun c hc => ⟨hc.1, hnone c⟩)
          | some q =>
              have hq : q ∈ queues := List.mem_of_find?_eq_some hfind
              have hkey : q.name = key := by simpa using List.find?_some hfind
              -- what the read of the record found decides what happens next
              refine Side.Triple.bind (h.get_triple env key n) (fun job => ?_)
              cases job with
              | none =>
                  exact Side.Triple.bind (Side.Triple.emit (h.stable_found env key n none) h.stable
                    fun w t hc => h.drop w t n hc.1 hc.2) (fun _ => ih)
              | some j =>
                  intro c hc
                  obtain ⟨w, hw⟩ := hc.2.1
                  have hname : j.name = n := JobModel.name_of_fetch hw
                  refine Side.Triple.bind (Q := fun _ c => I c ∧ V.Given key n c)
                    (Side.Triple.emit (h.stable_found env key n (some j)) (h.stableGiven key n)
                      fun w t hc => h.give w t key n hc.1 hc.2.2)
                    (fun _ => Side.Triple.ret (h.stableGiven key n) fun c hc => ⟨hc.1, ?_⟩) c hc
                  intro j' q' hj
                  simp only [Option.some.injEq, Prod.mk.injEq] at hj
                  obtain ⟨rfl, rfl⟩ := hj
                  exact ⟨hq, ⟨w, hname ▸ hw⟩, hkey ▸ hname ▸ hc.2⟩

/-! ## Dequeuing alone -/

/-- The rule for a worker that nothing interferes with: only taking a name out of a queue
matters. -/
theorem of_alone {I : Config World Event → Prop}
    {H : QueueName → JobName → Config World Event → Prop} {qs : List QueueName}
    (delete : ∀ w t q n, q ∈ qs → I (w, t) → w.jobExists n = false →
      I (w.zrem q .queued n, t))
    (pop : ∀ w w' t q n, q ∈ qs → I (w, t) → w.zpopmin q .queued = (some n, w') →
      I (w', t ++ [.popped q n]) ∧ H q n (w', t ++ [.popped q n]))
    (emit : ∀ w t e, (∀ q n, e ≠ .popped q n) → I (w, t) → I (w, t ++ [e]))
    (keep : ∀ w t q n, I (w, t) → H q n (w, t) → H q n (w, t ++ [.delivered n])) :
    DequeueRule (Side.alone World Event) I
      { Seen := fun _ _ => True, Gone := fun n c => c.1.jobExists n = false, Held := H,
        Lost := fun _ _ => True, Given := H } qs where
  stable := Side.alone_stable _
  stableSeen := fun _ => Side.alone_stable _
  stableGone := fun _ => Side.alone_stable _
  stableHeld := fun _ _ => Side.alone_stable _
  stableLost := fun _ => Side.alone_stable _
  stableGiven := fun _ _ => Side.alone_stable _
  refl := fun _ _ => trivial
  seen := fun _ _ _ _ _ _ _ => trivial
  gone := fun _ _ _ _ _ h => h
  delete := fun w t q n hq hI hgone => ⟨trivial, delete w t q n hq hI hgone, fun _ _ => trivial⟩
  pop := fun w w' t q n hq hI hp => ⟨trivial, pop w w' t q n hq hI hp⟩
  lost := fun _ _ _ _ _ _ _ => trivial
  drop := fun w t n hI _ => ⟨trivial, emit w t _ (fun _ _ h => by cases h) hI⟩
  give := fun w t q n hI hH =>
    ⟨trivial, emit w t _ (fun _ _ h => by cases h) hI, keep w t q n hI hH⟩

end DequeueRule

end DailyScheduler
