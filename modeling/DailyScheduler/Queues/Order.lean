import DailyScheduler.Lib.Run
import DailyScheduler.Model.Sample
import DailyScheduler.Queues.Dequeue

set_option autoImplicit false

/-! # The order of a queue

A queue is a sorted set of names. `enqueue_job` gives a new job the last score in use, so that jobs
with equal scores are ordered by their names. The jobs come out in the order in which they went
in when each new name is after all names that have the last score.
-/

namespace DailyScheduler

open AtomicProg

/-- What happens on one queue. -/
inductive QueueOp where
  | tick (d : Nat)
  | enqueue (job : JobModel) (atFront : Bool)
  | dequeue (timeout : Option Int) (fuel : Nat)

/-- The world, the names that were enqueued, and the names of the jobs that `dequeue_any` returned,
both in their order. -/
structure Served where
  world : World
  enqueued : List JobName
  returned : List JobName

/-- The name of the job that `dequeue_any` returned, if it returned one. -/
def returnedName (v : Except PyError (Option (JobModel × Queue))) : List JobName :=
  match v with
  | .ok (some (job, _)) => [job.name]
  | _ => []

/-- The name of the job that `enqueue_job` returned, if it returned. -/
def enqueuedName (v : Except PyError JobModel) : List JobName :=
  match v with
  | .ok job => [job.name]
  | .error _ => []

def QueueOp.step (env : Env) (q : Queue) (s : Served) : QueueOp → Served
  | .tick d => { s with world := s.world.advance d }
  | .enqueue job atFront =>
      let r := (q.enqueueJob env job atFront).run s.world
      { s with world := r.state, enqueued := s.enqueued ++ enqueuedName r.val }
  | .dequeue timeout fuel =>
      let r := (Queue.dequeueAny env [q] timeout fuel).run s.world
      { s with world := r.state, returned := s.returned ++ returnedName r.val }

namespace Fifo

/-- The names that wait in the queue, in the order in which they will be popped. -/
def waiting (q : Queue) (w : World) : List JobName := (w.registry q.name .queued).members

/-- The scores of a queue are whole seconds that have passed. -/
def Scored (q : Queue) (w : World) : Prop :=
  ∀ p ∈ (w.registry q.name .queued).entries,
    currentTimestamp p.1 = p.1 ∧ p.1 ≤ currentTimestamp w.now

/-- The names returned so far and then the waiting ones are in the order of their enqueuing. -/
structure InOrder (q : Queue) (s : Served) : Prop where
  sublist : (s.returned ++ waiting q s.world).Sublist s.enqueued
  scored : Scored q s.world

/-- A new name is after all names that have the last score in use. -/
def AfterLast (q : Queue) (n : JobName) (w : World) : Prop :=
  ∀ p, (w.registry q.name .queued).entries.getLast? = some p →
    ∀ m, (w.registry q.name .queued).score m = some p.1 → m < n

/-- Jobs are enqueued at the back, under new names, each after the names with the last score. -/
def Sorted (q : Queue) (s : Served) : QueueOp → Prop
  | .enqueue job atFront =>
      atFront = false ∧ job.name ∉ s.enqueued ∧ AfterLast q job.name s.world
  | _ => True

section Steps

variable {env : Env} {q : Queue}

/-- The last entry comes after all others. -/
theorem before_last {z : SortedSet Int JobName} {p a : Int × JobName}
    (hp : z.entries.getLast? = some p) (ha : a ∈ z.entries) : SortedSet.before a p := by
  obtain ⟨l, hl⟩ := List.getLast?_eq_some_iff.1 hp
  rw [hl] at ha
  rcases List.mem_append.1 ha with ha | ha
  · have hsorted := z.sorted
    rw [hl, List.pairwise_append] at hsorted
    exact hsorted.2.2 a ha p List.mem_cons_self
  · rw [List.mem_singleton.1 ha]
    exact Or.inr ⟨rfl, le_rfl⟩

/-- The score of a job enqueued at the back. -/
theorem scoreFor_back (q : Queue) (w : World) : q.scoreFor false w
    = match (w.registry q.name .queued).entries.getLast? with
      | none => currentTimestamp w.now
      | some p => if currentTimestamp p.1 = 0 then currentTimestamp w.now
          else currentTimestamp p.1 := by
  unfold Queue.scoreFor
  rw [SortedSet.head?_range_last]
  cases (w.registry q.name .queued).entries.getLast? with
  | none => rfl
  | some p => rfl

/-- A job enqueued at the back comes after all jobs of the queue. -/
theorem before_new {n : JobName} {w : World} (hs : Scored q w) (hl : AfterLast q n w) :
    ∀ a ∈ (w.registry q.name .queued).entries, SortedSet.before a (q.scoreFor false w, n) := by
  intro a ha
  rw [scoreFor_back]
  cases hp : (w.registry q.name .queued).entries.getLast? with
  | none =>
      rw [List.getLast?_eq_none_iff.1 hp] at ha
      cases ha
  | some p =>
      have hpmem : p ∈ (w.registry q.name .queued).entries := List.mem_of_getLast? hp
      obtain ⟨hwhole, hpast⟩ := hs p hpmem
      have hnew : a.1 = p.1 → a.2 < n := fun heq =>
        hl p hp a.2 ((SortedSet.score_eq_some_iff _ _ _).2 (heq ▸ ha))
      have hap : a.1 ≤ p.1 := by
        rcases before_last hp ha with h | h
        · exact h.le
        · exact h.1.le
      dsimp only
      rw [hwhole]
      split
      · -- the last score is zero: the clock is read instead
        rename_i h0
        rcases lt_or_eq_of_le (hap.trans hpast) with h | h
        · exact Or.inl h
        · have heq : a.1 = p.1 := le_antisymm hap (h ▸ hpast)
          exact Or.inr ⟨h, (hnew heq).le⟩
      · rcases lt_or_eq_of_le hap with h | h
        · exact Or.inl h
        · exact Or.inr ⟨h, (hnew h).le⟩

theorem scored_scoreFor {w : World} (hs : Scored q w) :
    currentTimestamp (q.scoreFor false w) = q.scoreFor false w ∧
      q.scoreFor false w ≤ currentTimestamp w.now := by
  rw [scoreFor_back]
  cases hp : (w.registry q.name .queued).entries.getLast? with
  | none => exact ⟨currentTimestamp_currentTimestamp _, le_rfl⟩
  | some p =>
      obtain ⟨hwhole, hpast⟩ := hs p (List.mem_of_getLast? hp)
      dsimp only
      rw [hwhole]
      split
      · exact ⟨currentTimestamp_currentTimestamp _, le_rfl⟩
      · exact ⟨hwhole, hpast⟩

theorem not_mem_of_not_enqueued {s : Served} (h : InOrder q s) {n : JobName}
    (hn : n ∉ s.enqueued) : n ∉ s.world.registry q.name .queued := by
  intro hin
  refine hn (h.sublist.subset (List.mem_append_right _ ?_))
  exact (SortedSet.mem_members _ _).2 hin

/-- The registry after the enqueuing of a new job at the back. -/
theorem InOrder.entries_enqueued {s : Served} (h : InOrder q s) {job : JobModel}
    (hn : job.name ∉ s.enqueued) (hl : AfterLast q job.name s.world) :
    ((q.enqueuedWorld job false s.world).registry q.name .queued).entries
      = (s.world.registry q.name .queued).entries ++
        [(q.scoreFor false (s.world.saveJob (Queue.enqueuedModel job s.world.now) false),
          job.name)] := by
  have hreg : (q.enqueuedWorld job false s.world).registry q.name .queued
      = (s.world.registry q.name .queued).add
        (q.scoreFor false (s.world.saveJob (Queue.enqueuedModel job s.world.now) false))
        job.name := by
    simp [Queue.enqueuedWorld, World.zadd, World.zrem, World.registry_setRegistry]
  -- saving the record does not touch the registry
  have hs' : Scored q (s.world.saveJob (Queue.enqueuedModel job s.world.now) false) := h.scored
  rw [hreg]
  exact SortedSet.entries_add_last (not_mem_of_not_enqueued h hn) (before_new hs' hl)

theorem InOrder.enqueue (ha : q.isAsync = true) {s : Served} (h : InOrder q s) {job : JobModel}
    (hn : job.name ∉ s.enqueued) (hl : AfterLast q job.name s.world) :
    InOrder q (QueueOp.step env q s (.enqueue job false)) := by
  cases hser : job.serializable with
  | false =>
      have hrun := Queue.run_enqueueJob_error env q hser false s.world
      simp only [QueueOp.step, hrun, enqueuedName, List.append_nil]
      exact h
  | true =>
      have hrun := Queue.run_enqueueJob env ha hser false s.world
      simp only [QueueOp.step, hrun, enqueuedName]
      have hs' : Scored q (s.world.saveJob (Queue.enqueuedModel job s.world.now) false) := h.scored
      constructor
      · show (s.returned ++ (SortedSet.entries _).map Prod.snd).Sublist _
        rw [h.entries_enqueued hn hl, List.map_append, ← List.append_assoc]
        exact List.Sublist.append h.sublist (List.Sublist.refl _)
      · intro p hp
        rw [h.entries_enqueued hn hl] at hp
        rcases List.mem_append.1 hp with hp | hp
        · exact h.scored p hp
        · rw [List.mem_singleton.1 hp]
          exact scored_scoreFor hs'

/-- Forgetting entries keeps the order. -/
theorem InOrder.of_sublist {s : Served} (h : InOrder q s) {w : World}
    (hw : List.Sublist (w.registry q.name .queued).entries
      (s.world.registry q.name .queued).entries) (hnow : w.now = s.world.now) :
    InOrder q { s with world := w } where
  sublist := ((List.Sublist.refl _).append (hw.map Prod.snd)).trans h.sublist
  scored := fun p hp => hnow ▸ h.scored p (hw.subset hp)

theorem InOrder.dequeueRun (timeout : Option Int) (fuel : Nat) {s : Served} (h : InOrder q s) :
    InOrder q { s with
      world := (q.dequeueRun env timeout fuel s.world).state
      returned := s.returned ++ returnedName (q.dequeueRun env timeout fuel s.world).val } := by
  induction fuel generalizing s with
  | zero => simpa [Queue.dequeueRun, returnedName] using h
  | succ fuel ih =>
      have hcompact : InOrder q { s with world := compacted q.name s.world } := by
        refine h.of_sublist ?_ rfl
        rw [compacted_entries]
        exact List.filter_sublist
      unfold Queue.dequeueRun
      by_cases h0 : timeout = some 0
      · simpa [h0, returnedName] using hcompact
      · rw [if_neg h0]
        cases hp : ((compacted q.name s.world).registry q.name .queued).popMin with
        | none =>
            have hnone : returnedName (if timeout = none then .ok none
                else .error PyError.dequeueTimeout) = [] := by
              split <;> rfl
            simpa [hnone] using hcompact
        | some p =>
            obtain ⟨p, z⟩ := p
            have hentries := SortedSet.entries_of_popMin hp
            have hz := setRegistry_registry_self q.name (compacted q.name s.world) .queued z
            dsimp only
            cases hj : JobModel.fetch env
                ((compacted q.name s.world).setRegistry q.name .queued z) p.2 with
            | some job =>
                have hname : job.name = p.2 := JobModel.name_of_fetch hj
                refine ⟨?_, fun a ha => ?_⟩
                · -- the name moves from the head of the waiting ones to the returned ones
                  show ((s.returned ++ [job.name]) ++ (SortedSet.entries _).map Prod.snd).Sublist _
                  rw [hz, hname, List.append_assoc]
                  have hsub := hcompact.sublist
                  unfold waiting SortedSet.members at hsub
                  rw [hentries] at hsub
                  exact hsub
                · dsimp only at ha
                  rw [hz] at ha
                  exact hcompact.scored a (by rw [hentries]; exact List.mem_cons_of_mem _ ha)
            | none =>
                have hrest : InOrder q { s with
                    world := (compacted q.name s.world).setRegistry q.name .queued z } := by
                  refine hcompact.of_sublist ?_ rfl
                  rw [hz]
                  show z.entries.Sublist
                    ((compacted q.name s.world).registry q.name .queued).entries
                  rw [hentries]
                  exact List.sublist_cons_self _ _
                exact ih hrest

theorem InOrder.step (ha : q.isAsync = true) {s : Served} {op : QueueOp} (h : InOrder q s)
    (hop : Sorted q s op) : InOrder q (QueueOp.step env q s op) := by
  cases op with
  | tick d =>
      refine ⟨h.sublist, fun p hp => ?_⟩
      obtain ⟨hwhole, hpast⟩ := h.scored p hp
      refine ⟨hwhole, hpast.trans (currentTimestamp_mono ?_)⟩
      show s.world.now ≤ s.world.now + d
      omega
  | enqueue job atFront =>
      obtain ⟨rfl, hn, hl⟩ := hop
      exact h.enqueue ha hn hl
  | dequeue timeout fuel =>
      simp only [QueueOp.step, Queue.run_dequeueAny]
      exact h.dequeueRun timeout fuel

/-! ## Nothing is lost -/

/-- Nothing was lost, and the waiting jobs have complete records that never expire. -/
structure Whole (q : Queue) (s : Served) : Prop where
  all : s.returned ++ waiting q s.world = s.enqueued
  plain : ∀ n ∈ waiting q s.world, s.world.loadable n ∧ s.world.jobs.deadline n = none

/-- The record of a job that is enqueued is stored completely and without a deadline. -/
def Lasting (s : Served) : QueueOp → Prop
  | .enqueue job _ => s.world.jobs.deadline job.name = none ∧
      (s.world.loadable job.name ∨ job.saveAll = true)
  | _ => True

theorem Whole.enqueue (ha : q.isAsync = true) {s : Served} (h : Whole q s) (ho : InOrder q s)
    {job : JobModel} (hn : job.name ∉ s.enqueued) (hl : AfterLast q job.name s.world)
    (hd : s.world.jobs.deadline job.name = none)
    (hload : s.world.loadable job.name ∨ job.saveAll = true) :
    Whole q (QueueOp.step env q s (.enqueue job false)) := by
  cases hser : job.serializable with
  | false =>
      have hrun := Queue.run_enqueueJob_error env q hser false s.world
      simp only [QueueOp.step, hrun, enqueuedName, List.append_nil]
      exact h
  | true =>
      have hrun := Queue.run_enqueueJob env ha hser false s.world
      have hwait : waiting q (q.enqueuedWorld job false s.world)
          = waiting q s.world ++ [job.name] := by
        unfold waiting SortedSet.members
        rw [ho.entries_enqueued hn hl, List.map_append]
        rfl
      have hdead : ∀ n, s.world.jobs.deadline n = none →
          (q.enqueuedWorld job false s.world).jobs.deadline n = none := by
        intro n hnone
        cases hd' : (q.enqueuedWorld job false s.world).jobs.deadline n with
        | none => rfl
        | some d =>
            have hold : s.world.jobs.deadline n = some d := World.deadline_of_saveJob hd'
            rw [hnone] at hold
            cases hold
      simp only [QueueOp.step, hrun, enqueuedName]
      refine ⟨?_, fun n hin => ?_⟩
      · show s.returned ++ waiting q (q.enqueuedWorld job false s.world) = _
        rw [hwait, ← List.append_assoc, h.all]
        rfl
      · dsimp only at hin
        rw [hwait] at hin
        rcases List.mem_append.1 hin with hin | hin
        · obtain ⟨hl', hd'⟩ := h.plain n hin
          exact ⟨World.loadable_saveJob (Or.inl hl'), hdead n hd'⟩
        · obtain rfl := List.mem_singleton.1 hin
          refine ⟨World.loadable_saveJob ?_, hdead _ hd⟩
          exact hload.imp id fun hsave => ⟨rfl, Or.inr hsave⟩

/-- With complete records a round of `dequeue_any` forgets nothing. -/
theorem Whole.compacted {s : Served} (h : Whole q s) : compacted q.name s.world = s.world := by
  refine setRegistry_self _ _ _ (List.filter_eq_self.2 fun p hp => ?_)
  exact (h.plain p.2 (List.mem_map.2 ⟨p, hp, rfl⟩)).1.jobExists

theorem Whole.dequeueRun (timeout : Option Int) (fuel : Nat) {s : Served} (h : Whole q s) :
    Whole q { s with
      world := (q.dequeueRun env timeout fuel s.world).state
      returned := s.returned ++ returnedName (q.dequeueRun env timeout fuel s.world).val } := by
  cases fuel with
  | zero => simpa [Queue.dequeueRun, returnedName] using h
  | succ fuel =>
      unfold Queue.dequeueRun
      by_cases h0 : timeout = some 0
      · simpa [h0, returnedName, h.compacted] using h
      · rw [if_neg h0, h.compacted]
        cases hp : (s.world.registry q.name .queued).popMin with
        | none =>
            have hnone : returnedName (if timeout = none then .ok none
                else .error PyError.dequeueTimeout) = [] := by
              split <;> rfl
            simpa [hnone] using h
        | some p =>
            obtain ⟨p, z⟩ := p
            have hwait : waiting q s.world = p.2 :: z.members := by
              unfold waiting SortedSet.members
              rw [SortedSet.entries_of_popMin hp, List.map_cons]
            have hz : waiting q (s.world.setRegistry q.name .queued z) = z.members := by
              unfold waiting
              rw [setRegistry_registry_self]
            -- the first job is loaded, as every waiting one would be
            obtain ⟨job, hj⟩ : ∃ job, JobModel.fetch env
                (s.world.setRegistry q.name .queued z) p.2 = some job := by
              refine Option.ne_none_iff_exists'.1 fun hnone => ?_
              exact JobModel.fetch_eq_none_iff.1 hnone (h.plain p.2 (by simp [hwait])).1
            have hname : job.name = p.2 := JobModel.name_of_fetch hj
            dsimp only
            rw [hj]
            refine ⟨?_, fun n hin => ?_⟩
            · show (s.returned ++ [job.name]) ++ waiting q (s.world.setRegistry q.name .queued z)
                = s.enqueued
              rw [hz, hname, List.append_assoc, ← h.all, hwait]
              rfl
            · dsimp only at hin
              rw [hz] at hin
              exact h.plain n (by rw [hwait]; exact List.mem_cons_of_mem _ hin)

theorem Whole.step (ha : q.isAsync = true) {s : Served} {op : QueueOp} (h : Whole q s)
    (ho : InOrder q s) (hop : Sorted q s op) (hlast : Lasting s op) :
    Whole q (QueueOp.step env q s op) := by
  cases op with
  | tick d =>
      refine ⟨h.all, fun n hin => ?_⟩
      obtain ⟨⟨v, hv, hc⟩, hd⟩ := h.plain n hin
      refine ⟨⟨v, ?_, hc⟩, ?_⟩
      · rw [← hv]
        exact TtlMap.find?_purge_of_deadline_none _ _ hd
      · simp [QueueOp.step, World.advance, TtlMap.deadline_purge, hd]
  | enqueue job atFront =>
      obtain ⟨rfl, hn, hl⟩ := hop
      exact h.enqueue ha ho hn hl hlast.1 hlast.2
  | dequeue timeout fuel =>
      simp only [QueueOp.step, Queue.run_dequeueAny]
      exact h.dequeueRun timeout fuel

/-- **First in, first out.** In every run on one queue with workers that starts with an empty queue,
jobs with distinct names are returned by `dequeue_any` in the order in which they were enqueued,
and the waiting ones follow in this order, if each new name is after the names that have the
last score in use. When moreover the records last, every job is returned or waits: the registry
is the list of the enqueued jobs without the returned ones. -/
theorem fifo (ha : q.isAsync = true) {w : World}
    (hempty : (w.registry q.name .queued).entries = []) {l : List QueueOp}
    (hl : Run.Meets (QueueOp.step env q) (Sorted q) ⟨w, [], []⟩ l) :
    Run.Along (QueueOp.step env q)
      (fun s => (s.returned ++ waiting q s.world).Sublist s.enqueued) ⟨w, [], []⟩ l ∧
    (Run.Meets (QueueOp.step env q) (fun s op => Sorted q s op ∧ Lasting s op) ⟨w, [], []⟩ l →
      Run.Along (QueueOp.step env q)
        (fun s => s.returned ++ waiting q s.world = s.enqueued) ⟨w, [], []⟩ l) := by
  have hwait : waiting q w = [] := by
    unfold waiting SortedSet.members
    rw [hempty]
    rfl
  have h0 : InOrder q ⟨w, [], []⟩ := by
    refine ⟨?_, fun p hp => ?_⟩
    · show ([] ++ waiting q w).Sublist []
      rw [hwait]
      exact List.Sublist.refl _
    · dsimp only at hp
      rw [hempty] at hp
      cases hp
  constructor
  · exact (Run.along_of_step (fun _ _ h hop => h.step ha hop) h0 hl).mono fun _ h => h.sublist
  · intro hl'
    have h1 : Whole q ⟨w, [], []⟩ := by
      refine ⟨hwait, fun n hn => ?_⟩
      dsimp only at hn
      rw [hwait] at hn
      cases hn
    refine (Run.along_of_step (P := fun s => InOrder q s ∧ Whole q s) (fun s op h hop => ?_)
      ⟨h0, h1⟩ hl').mono fun _ h => h.2.all
    exact ⟨h.1.step ha hop.1, h.2.step ha h.1 hop.1 hop.2⟩

end Steps

/-- Two jobs whose names are in order, enqueued and dequeued. -/
theorem sample_fifo :
    (Run.last (QueueOp.step Sample.env Sample.queue) ⟨World.init 1000000, [], []⟩
      [.enqueue (Sample.job "a") false, .tick 1000000, .enqueue (Sample.job "b") false,
        .dequeue none 1, .dequeue none 1]).returned.Sublist ["a", "b"] := by
  have hfirst : AfterLast Sample.queue "a" (World.init 1000000) := fun p hp => by cases hp
  have hsecond : AfterLast Sample.queue "b"
      (Run.last (QueueOp.step Sample.env Sample.queue) ⟨World.init 1000000, [], []⟩
        [.enqueue (Sample.job "a") false, .tick 1000000]).world := by
    intro p _ m hm
    have hin : (Run.last (QueueOp.step Sample.env Sample.queue) ⟨World.init 1000000, [], []⟩
        [.enqueue (Sample.job "a") false, .tick 1000000]).world.inRegistry "q" .queued m := by
      rw [World.inRegistry_iff]
      exact Option.isSome_iff_exists.2 ⟨_, hm⟩
    exact World.forall_of_members (n := "a") (P := (· < "b")) (by decide) (by decide) m hin
  have hmeets : Run.Meets (QueueOp.step Sample.env Sample.queue) (Sorted Sample.queue)
      ⟨World.init 1000000, [], []⟩
      [.enqueue (Sample.job "a") false, .tick 1000000, .enqueue (Sample.job "b") false,
        .dequeue none 1, .dequeue none 1] :=
    ⟨⟨rfl, by decide, hfirst⟩, trivial, ⟨rfl, by decide, hsecond⟩, trivial, trivial, trivial⟩
  have hend := (@fifo Sample.env Sample.queue rfl _ rfl _ hmeets).1.last
  exact (List.sublist_append_left _ _).trans hend

/-- The job `a` is enqueued a second after the job `b` and returned before it. -/
theorem overtaken :
    (Run.last (QueueOp.step Sample.env Sample.queue) ⟨World.init 1000000, [], []⟩
      [.enqueue (Sample.job "b") false, .tick 1000000, .enqueue (Sample.job "a") false,
        .dequeue none 1, .dequeue none 1]).returned = ["a", "b"] := by
  decide +kernel

end Fifo

end DailyScheduler
