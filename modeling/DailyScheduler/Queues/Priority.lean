import DailyScheduler.Model.Sample
import DailyScheduler.Queues.Dequeue
import Mathlib.Algebra.GroupWithZero.Nat
import Mathlib.Algebra.Order.BigOperators.Group.List

set_option autoImplicit false

/-! # Which job `dequeue_any` takes from several queues

A round compacts all queues and pops from the first one that is not empty. A popped name without a
record that loads is dropped, and the next round begins with one name less. So the loop ends, and
what it returns is the smallest loadable entry of the first queue that has one.
-/

namespace DailyScheduler.Priority

open AtomicProg

/-! ## What is in the queues -/

/-- The queue holds a job whose record can be loaded. -/
def Holds (q : Queue) (w : World) : Prop := ∃ n, w.inRegistry q.name .queued n ∧ w.loadable n

/-- The job is the smallest by score and name of those in the queue whose record can be loaded. -/
structure Smallest (q : Queue) (n : JobName) (w : World) : Prop where
  loadable : w.loadable n
  first : ∃ s, (w.registry q.name .queued).score n = some s ∧
    ∀ s' m, (w.registry q.name .queued).score m = some s' → w.loadable m →
      SortedSet.before (s, n) (s', m)

/-- How many names wait in the queues. -/
def waiting (queues : List Queue) (w : World) : Nat :=
  (queues.map fun q => (w.registry q.name .queued).entries.length).sum

/-- Names without a record that loads have left the queued registries of the queues, and nothing
else has changed. -/
structure Discards (queues : List Queue) (w w' : World) : Prop where
  frame : w' = { w with registry := w'.registry }
  scores : ∀ q k n, (w'.registry q k).score n = (w.registry q k).score n ∨
    (k = .queued ∧ q ∈ queues.map Queue.name ∧ ¬ w.loadable n ∧ (w'.registry q k).score n = none)

/-- How `dequeue_any` ends: with the smallest loadable job of the first queue that holds one. That
entry is removed, and otherwise only names without a record that loads. -/
structure Takes (env : Env) (queues : List Queue) (w : World)
    (o : Prog.Outcome World Event PyError (Option (JobModel × Queue))) : Prop where
  returns : ∃ v, o.val = .ok v
  none_iff : o.val = .ok none ↔ ∀ q ∈ queues, ¬ Holds q w
  takes : ∀ job q, o.val = .ok (some (job, q)) →
    JobModel.fetch env w job.name = some job ∧ Smallest q job.name w ∧
      ∃ a b, queues = a ++ q :: b ∧ ∀ q' ∈ a, ¬ Holds q' w
  removed : ∀ job q, o.val = .ok (some (job, q)) → ¬ o.state.inRegistry q.name .queued job.name
  frame : o.state = { w with registry := o.state.registry }
  scores : ∀ q k n, (o.state.registry q k).score n = (w.registry q k).score n ∨
    (k = .queued ∧ q ∈ queues.map Queue.name ∧ (o.state.registry q k).score n = none ∧
      (¬ w.loadable n ∨ ∃ job q', o.val = .ok (some (job, q')) ∧ q'.name = q ∧ job.name = n))

section Discards

variable {queues : List Queue} {q : Queue} {w w' : World} {n : JobName}

theorem Discards.jobs (h : Discards queues w w') : w'.jobs = w.jobs := by rw [h.frame]

theorem Discards.loadable_iff (h : Discards queues w w') (n : JobName) :
    w'.loadable n ↔ w.loadable n := by
  unfold World.loadable
  rw [h.jobs]

/-- The entries of the jobs that load are as they were. -/
theorem Discards.score_eq (h : Discards queues w w') (hn : w.loadable n) (q : QueueName)
    (k : RegistryKind) : (w'.registry q k).score n = (w.registry q k).score n := by
  rcases h.scores q k n with heq | ⟨-, -, hnot, -⟩
  · exact heq
  · exact absurd hn hnot

theorem Discards.holds_iff (h : Discards queues w w') (q : Queue) : Holds q w' ↔ Holds q w := by
  constructor
  · rintro ⟨n, hin, hload⟩
    have hload' : w.loadable n := (h.loadable_iff n).1 hload
    rw [World.inRegistry_iff, h.score_eq hload'] at hin
    exact ⟨n, hin, hload'⟩
  · rintro ⟨n, hin, hload⟩
    rw [World.inRegistry_iff, ← h.score_eq hload] at hin
    exact ⟨n, hin, (h.loadable_iff n).2 hload⟩

theorem Discards.smallest (h : Discards queues w w') (hs : Smallest q n w') : Smallest q n w := by
  obtain ⟨hload, s, hscore, hfirst⟩ := hs
  have hload' : w.loadable n := (h.loadable_iff n).1 hload
  refine ⟨hload', s, ?_, ?_⟩
  · rw [← h.score_eq hload']
    exact hscore
  · intro s' m hm hloadm
    rw [← h.score_eq hloadm] at hm
    exact hfirst s' m hm ((h.loadable_iff m).2 hloadm)

theorem Discards.trans {w'' : World} (h : Discards queues w w') (h' : Discards queues w' w'') :
    Discards queues w w'' := by
  constructor
  · rw [h'.frame, h.frame]
  · intro q k n
    rcases h'.scores q k n with heq | ⟨hk, hq, hnot, hnone⟩
    · rw [heq]
      exact h.scores q k n
    · exact .inr ⟨hk, hq, fun hload => hnot ((h.loadable_iff n).2 hload), hnone⟩

end Discards

/-- What a run takes after names without a record that loads were discarded. -/
theorem Takes.of_discards {env : Env} {queues : List Queue} {w w' : World}
    {o : Prog.Outcome World Event PyError (Option (JobModel × Queue))} (h : Discards queues w w')
    (ho : Takes env queues w' o) (es : List Event) :
    Takes env queues w ⟨o.val, o.state, es ++ o.trace⟩ := by
  constructor
  · exact ho.returns
  · rw [ho.none_iff]
    exact forall₂_congr fun q _ => not_congr (h.holds_iff q)
  · intro job q hv
    obtain ⟨hfetch, hsmall, a, b, hsplit, hbefore⟩ := ho.takes job q hv
    refine ⟨?_, h.smallest hsmall, a, b, hsplit, fun q' hq' hh => hbefore q' hq' ?_⟩
    · unfold JobModel.fetch at hfetch ⊢
      rw [← h.jobs]
      exact hfetch
    · exact (h.holds_iff q').2 hh
  · exact ho.removed
  · show o.state = _
    rw [ho.frame, h.frame]
  · intro q k n
    rcases ho.scores q k n with heq | ⟨hk, hq, hnone, hwhy⟩
    · show (o.state.registry q k).score n = _ ∨ _
      rw [heq]
      rcases h.scores q k n with heq' | ⟨hk, hq, hnot, hnone⟩
      · exact .inl heq'
      · exact .inr ⟨hk, hq, hnone, .inl hnot⟩
    · refine .inr ⟨hk, hq, hnone, hwhy.imp (fun hnot hload => hnot ?_) id⟩
      exact (h.loadable_iff n).2 hload

/-! ## One round -/

section Round

variable {queues : List Queue} {w : World}

/-- The queued registries after the compaction of all queues. -/
theorem registry_compactAll (queues : List Queue) (w : World) (q : QueueName) (k : RegistryKind) :
    (queues.foldl (fun w q => compacted q.name w) w).registry q k
      = if k = .queued ∧ q ∈ queues.map Queue.name then
          (w.registry q k).filter fun p => w.jobExists p.2
        else w.registry q k := by
  induction queues generalizing w with
  | nil =>
      rw [List.foldl_nil, if_neg]
      rintro ⟨-, h⟩
      cases h
  | cons q₀ queues ih =>
      have hexists : ∀ n, (compacted q₀.name w).jobExists n = w.jobExists n := fun _ => rfl
      rw [List.foldl_cons, ih]
      simp only [hexists]
      by_cases hq : q = q₀.name ∧ k = .queued
      · obtain ⟨rfl, rfl⟩ := hq
        have hreg : (compacted q₀.name w).registry q₀.name .queued
            = (w.registry q₀.name .queued).filter fun p => w.jobExists p.2 :=
          setRegistry_registry_self ..
        have hmem : q₀.name ∈ (q₀ :: queues).map Queue.name := List.mem_cons_self
        rw [hreg, if_pos (And.intro rfl hmem)]
        split
        · -- the queue is compacted once more
          refine SortedSet.ext_entries ?_
          show ((w.registry q₀.name .queued).entries.filter _).filter _ = _
          rw [List.filter_filter]
          refine List.filter_congr fun p _ => ?_
          rw [Bool.and_self]
        · rfl
      · have hreg : (compacted q₀.name w).registry q k = w.registry q k := by
          unfold compacted
          rw [World.registry_setRegistry, if_neg hq]
        have hiff : (k = .queued ∧ q ∈ (q₀ :: queues).map Queue.name) ↔
            (k = .queued ∧ q ∈ queues.map Queue.name) := by
          rw [List.map_cons, List.mem_cons]
          constructor
          · rintro ⟨hk, rfl | hmem⟩
            · exact absurd ⟨rfl, hk⟩ hq
            · exact ⟨hk, hmem⟩
          · rintro ⟨hk, hmem⟩
            exact ⟨hk, .inr hmem⟩
        rw [hreg]
        simp only [hiff]

theorem frame_compactAll (queues : List Queue) (w : World) :
    queues.foldl (fun w q => compacted q.name w) w
      = { w with registry := (queues.foldl (fun w q => compacted q.name w) w).registry } := by
  induction queues generalizing w with
  | nil => rfl
  | cons q queues ih =>
      rw [List.foldl_cons, ih]
      rfl

theorem discards_compactAll (queues : List Queue) (w : World) :
    Discards queues w (queues.foldl (fun w q => compacted q.name w) w) := by
  refine ⟨frame_compactAll queues w, fun q k n => ?_⟩
  rw [registry_compactAll]
  split
  · rename_i h
    rw [SortedSet.score_filter]
    cases hexists : w.jobExists n with
    | true =>
        left
        cases (w.registry q k).score n with
        | none => rfl
        | some s => simp [hexists]
    | false =>
        right
        refine ⟨h.1, h.2, fun hload => ?_, ?_⟩
        · rw [hload.jobExists] at hexists
          cases hexists
        · cases (w.registry q k).score n with
          | none => rfl
          | some s => simp [hexists]
  · exact .inl rfl

theorem waiting_compactAll (queues : List Queue) (w : World) :
    waiting queues (queues.foldl (fun w q => compacted q.name w) w) ≤ waiting queues w := by
  refine List.sum_le_sum fun q hq => ?_
  rw [registry_compactAll, if_pos ⟨rfl, List.mem_map_of_mem hq⟩]
  exact List.length_filter_le _ _

/-- A pop takes the first entry of the first queue that is not empty. -/
theorem bzpopmin_cases (queues : List Queue) (w : World) :
    (w.bzpopmin (queues.map Queue.name) = (none, w) ∧
      ∀ q ∈ queues, (w.registry q.name .queued).popMin = none) ∨
    ∃ a q b p z, queues = a ++ q :: b ∧ (∀ q' ∈ a, (w.registry q'.name .queued).popMin = none) ∧
      (w.registry q.name .queued).popMin = some (p, z) ∧
      w.bzpopmin (queues.map Queue.name) = (some (q.name, p.2), w.setRegistry q.name .queued z) := by
  induction queues with
  | nil => exact .inl ⟨rfl, fun q hq => (List.not_mem_nil hq).elim⟩
  | cons q queues ih =>
      rw [List.map_cons]
      unfold World.bzpopmin World.zpopmin
      cases hp : (w.registry q.name .queued).popMin with
      | some r =>
          obtain ⟨p, z⟩ := r
          right
          exact ⟨[], q, queues, p, z, rfl, fun q' hq' => (List.not_mem_nil hq').elim, hp, rfl⟩
      | none =>
          dsimp only
          rcases ih with ⟨hnone, hempty⟩ | ⟨a, q', b, p, z, rfl, hempty, hpop, hrun⟩
          · left
            refine ⟨hnone, fun q' hq' => ?_⟩
            rcases List.mem_cons.1 hq' with rfl | hq'
            · exact hp
            · exact hempty q' hq'
          · right
            refine ⟨q :: a, q', b, p, z, rfl, fun q'' hq'' => ?_, hpop, hrun⟩
            rcases List.mem_cons.1 hq'' with rfl | hq''
            · exact hp
            · exact hempty q'' hq''

theorem not_holds_of_popMin {q : Queue} (h : (w.registry q.name .queued).popMin = none) :
    ¬ Holds q w := by
  rintro ⟨n, hin, -⟩
  exact SortedSet.popMin_eq_none h n hin

/-- A key that the pop returns is the key of one of the queues. -/
theorem find?_of_pop {v : World} {key : QueueName} {n : JobName}
    (h : ((Registry.pop (queues.map Queue.name) none).run v).val = .ok (some (key, n))) :
    (queues.find? fun q => q.name = key).isSome = true := by
  rw [Queue.run_popAny, if_neg (by simp)] at h
  rcases bzpopmin_cases queues v with ⟨hnone, -⟩ | ⟨a, q, b, p, z, rfl, -, -, hpop⟩
  · rw [hnone] at h
    cases h
  · rw [hpop] at h
    cases h
    rw [List.find?_isSome]
    exact ⟨q, List.mem_append_right _ List.mem_cons_self, by simp⟩

/-- There is nothing to take from empty queues. -/
theorem takes_of_empty {env : Env} {w : World}
    (hempty : ∀ q ∈ queues, (w.registry q.name .queued).popMin = none) :
    Takes env queues w ⟨.ok none, w, []⟩ := by
  constructor
  · exact ⟨none, rfl⟩
  · exact ⟨fun _ q hq => not_holds_of_popMin (hempty q hq), fun _ => rfl⟩
  · intro job q hv
    cases hv
  · intro job q hv
    cases hv
  · rfl
  · exact fun q k n => .inl rfl

/-- The queues before `q` are empty, and `p` is the first entry of `q`, which leaves `z`. -/
structure Pops (queues : List Queue) (w : World) (a : List Queue) (q : Queue) (b : List Queue)
    (p : Int × JobName) (z : SortedSet Int JobName) : Prop where
  split : queues = a ++ q :: b
  empty : ∀ q' ∈ a, (w.registry q'.name .queued).popMin = none
  first : (w.registry q.name .queued).popMin = some (p, z)

section Pops

variable {env : Env} {w : World} {a b : List Queue} {q : Queue} {p : Int × JobName}
  {z : SortedSet Int JobName} (h : Pops queues w a q b p z)
include h

theorem Pops.mem : q ∈ queues := by
  rw [h.split]
  exact List.mem_append_right _ List.mem_cons_self

theorem Pops.score : (w.registry q.name .queued).score p.2 = some p.1 :=
  (SortedSet.popMin_eq_some h.first).1

/-- The entry is gone, and all others are as before. -/
theorem Pops.scores (q' : QueueName) (k : RegistryKind) (n : JobName) :
    ((w.setRegistry q.name .queued z).registry q' k).score n
      = if q' = q.name ∧ k = .queued ∧ n = p.2 then none else (w.registry q' k).score n := by
  rw [World.registry_setRegistry]
  by_cases hqk : q' = q.name ∧ k = .queued
  · obtain ⟨rfl, rfl⟩ := hqk
    simp [(SortedSet.popMin_eq_some h.first).2 n]
  · rw [if_neg hqk, if_neg fun h => hqk ⟨h.1, h.2.1⟩]

/-- The key that the pop returns is the key of `q`. -/
theorem Pops.find? (hnodup : (queues.map Queue.name).Nodup) :
    queues.find? (fun q' => decide (q'.name = q.name)) = some q := by
  rw [h.split, List.find?_append, List.find?_eq_none.2, Option.none_or, List.find?_cons_of_pos]
  · simp
  · -- the names are distinct, so no queue before it has its key
    intro q' hq' heq
    rw [h.split, List.map_append, List.map_cons, List.nodup_append] at hnodup
    exact hnodup.2.2 q'.name (List.mem_map_of_mem hq') q.name List.mem_cons_self (by simpa using heq)

/-- The record of the popped name loads: its job is taken. -/
theorem Pops.takes {job : JobModel} (hjob : JobModel.fetch env w p.2 = some job) (es : List Event) :
    Takes env queues w ⟨.ok (some (job, q)), w.setRegistry q.name .queued z, es⟩ := by
  have hname : job.name = p.2 := JobModel.name_of_fetch hjob
  have hload : w.loadable p.2 := by
    by_contra hnot
    rw [JobModel.fetch_eq_none_iff.2 hnot] at hjob
    cases hjob
  constructor
  · exact ⟨_, rfl⟩
  · constructor
    · intro hv
      cases hv
    · intro hall
      have hin : w.inRegistry q.name .queued p.2 := by
        rw [World.inRegistry_iff, h.score]
        rfl
      exact absurd ⟨p.2, hin, hload⟩ (hall q h.mem)
  · intro job' q' hv
    cases hv
    rw [hname]
    refine ⟨hjob, ⟨hload, p.1, h.score, fun s' m hm _ => ?_⟩, a, b, h.split,
      fun q' hq' => not_holds_of_popMin (h.empty q' hq')⟩
    exact SortedSet.before_of_popMin h.first ((SortedSet.score_eq_some_iff _ _ _).1 hm)
  · intro job' q' hv
    cases hv
    rw [World.inRegistry_iff, h.scores, if_pos ⟨rfl, rfl, hname⟩]
    simp
  · rfl
  · intro q' k n
    rw [h.scores]
    split
    · rename_i heq
      obtain ⟨rfl, rfl, rfl⟩ := heq
      exact .inr ⟨rfl, List.mem_map_of_mem h.mem, rfl, .inr ⟨job, q, rfl, rfl, hname⟩⟩
    · exact .inl rfl

/-- The record of the popped name does not load: the name is discarded. -/
theorem Pops.discards (hnot : ¬ w.loadable p.2) :
    Discards queues w (w.setRegistry q.name .queued z) := by
  refine ⟨rfl, fun q' k n => ?_⟩
  rw [h.scores]
  split
  · rename_i heq
    obtain ⟨rfl, rfl, rfl⟩ := heq
    exact .inr ⟨rfl, List.mem_map_of_mem h.mem, hnot, rfl⟩
  · exact .inl rfl

/-- One name less waits. -/
theorem Pops.waiting_lt : waiting queues (w.setRegistry q.name .queued z) < waiting queues w := by
  have hz : (w.registry q.name .queued).entries.length = z.entries.length + 1 := by
    rw [SortedSet.entries_of_popMin h.first, List.length_cons]
  have hself : (w.setRegistry q.name .queued z).registry q.name .queued = z :=
    setRegistry_registry_self ..
  refine List.sum_lt_sum _ _ (fun q' _ => ?_) ⟨q, h.mem, ?_⟩
  · by_cases hqq : q'.name = q.name
    · rw [hqq, hself, hz]
      omega
    · rw [World.registry_setRegistry, if_neg fun heq => hqq heq.1]
  · rw [hself, hz]
    omega

end Pops

/-- A round ends the loop, or goes on with fewer names in the queues. -/
theorem round (env : Env) (hnodup : (queues.map Queue.name).Nodup) (w : World) :
    (∃ o, Takes env queues w o ∧
      ∀ fuel, (Queue.dequeueAny env queues none (fuel + 1)).run w = o) ∨
    ∃ w' es, Discards queues w w' ∧ waiting queues w' < waiting queues w ∧
      ∀ fuel, (Queue.dequeueAny env queues none (fuel + 1)).run w
        = ⟨((Queue.dequeueAny env queues none fuel).run w').val,
          ((Queue.dequeueAny env queues none fuel).run w').state,
          es ++ ((Queue.dequeueAny env queues none fuel).run w').trace⟩ := by
  have hdisc := discards_compactAll queues w
  have hwait := waiting_compactAll queues w
  simp only [Queue.run_dequeueAny_succ, Queue.run_popAny]
  generalize queues.foldl (fun w q => compacted q.name w) w = w₁ at hdisc hwait ⊢
  rcases bzpopmin_cases queues w₁ with ⟨hnone, hempty⟩ | ⟨a, q, b, p, z, hsplit, hempty, hmin, hpop⟩
  · exact .inl ⟨_, (takes_of_empty hempty).of_discards hdisc [], fun fuel => by simp [hnone]⟩
  · have hpops : Pops queues w₁ a q b p z := ⟨hsplit, hempty, hmin⟩
    let w' := w₁.setRegistry q.name .queued z
    have hget : (JobModel.get env p.2).run w' = ⟨.ok (JobModel.fetch env w' p.2), w', []⟩ :=
      JobModel.run_get ..
    cases hjob : JobModel.fetch env w' p.2 with
    | some job =>
        left
        refine ⟨⟨.ok (some (job, q)), w', [.popped q.name p.2, .delivered p.2]⟩,
          (hpops.takes hjob _).of_discards hdisc [], fun fuel => ?_⟩
        simp only [if_neg (show ¬ (none : Option Int) = some 0 by simp), hpop,
          Prog.Outcome.andThen_ok, hpops.find? hnodup, Prog.run_bind]
        rw [hget, hjob]
        rfl
    | none =>
        right
        have hnot : ¬ w₁.loadable p.2 := JobModel.fetch_eq_none_iff.1 hjob
        refine ⟨w', [.popped q.name p.2, .dropped p.2], hdisc.trans (hpops.discards hnot),
          lt_of_lt_of_le hpops.waiting_lt hwait, fun fuel => ?_⟩
        simp only [if_neg (show ¬ (none : Option Int) = some 0 by simp), hpop,
          Prog.Outcome.andThen_ok, hpops.find? hnodup, Prog.run_bind]
        rw [hget, hjob]
        rfl

end Round

/-! ## The loop -/

/-- The loop ends: from some amount of fuel on its run does not change. -/
theorem exists_takes (env : Env) {queues : List Queue} (hnodup : (queues.map Queue.name).Nodup)
    (w : World) : ∃ o, Takes env queues w o ∧
      ∃ bound, ∀ fuel, bound ≤ fuel → (Queue.dequeueAny env queues none fuel).run w = o := by
  -- by induction on the number of waiting names, which every round that goes on lowers
  induction hk : waiting queues w using Nat.strong_induction_on generalizing w with
  | _ k ih =>
      rcases round env hnodup w with ⟨o, ho, hrun⟩ | ⟨w', es, hdisc, hlt, hrun⟩
      · refine ⟨o, ho, 1, fun fuel hfuel => ?_⟩
        obtain ⟨fuel, rfl⟩ := Nat.exists_eq_add_of_le' hfuel
        exact hrun fuel
      · obtain ⟨o, ho, bound, hbound⟩ := ih (waiting queues w') (hk ▸ hlt) w' rfl
        refine ⟨_, ho.of_discards hdisc es, bound + 1, fun fuel hfuel => ?_⟩
        obtain ⟨fuel, rfl⟩ := Nat.exists_eq_add_of_le' (Nat.le_of_add_left_le hfuel)
        rw [hrun, hbound fuel (by omega)]

/-- **`dequeue_any` ends, and takes the smallest loadable job of the first queue that holds one**;
it finds a queue for each key that the pop returns. -/
theorem dequeueAny_takes (env : Env) {queues : List Queue}
    (hnodup : (queues.map Queue.name).Nodup) (w : World) :
    (∃ o, Takes env queues w o ∧
      ∃ bound, ∀ fuel, bound ≤ fuel → (Queue.dequeueAny env queues none fuel).run w = o) ∧
    ∀ v key n, ((Registry.pop (queues.map Queue.name) none).run v).val = .ok (some (key, n)) →
      (queues.find? fun q => q.name = key).isSome = true :=
  ⟨exists_takes env hnodup w, fun _ _ _ h => find?_of_pop h⟩

/-! ## Two queues -/

def sampleQueues : List Queue := [⟨"p", true⟩, ⟨"q", true⟩]

/-- In the queue `p` there are a name without a record and one whose record does not load, in the
queue `q` there is the job `a`. -/
def sampleWorld : World :=
  (((((Sample.worldWith ["a"]).hsetStatus "c" .queued).zadd "p" .queued "b" 1).zadd
    "p" .queued "c" 2).zadd "q" .queued "a" 3)

theorem sample_takes :
    (∃ o, Takes Sample.env sampleQueues sampleWorld o ∧ ∃ bound, ∀ fuel, bound ≤ fuel →
      (Queue.dequeueAny Sample.env sampleQueues none fuel).run sampleWorld = o) ∧
    ∀ v key n, ((Registry.pop (sampleQueues.map Queue.name) none).run v).val = .ok (some (key, n)) →
      (sampleQueues.find? fun q => q.name = key).isSome = true :=
  dequeueAny_takes Sample.env (by decide) sampleWorld

example : ((Queue.dequeueAny Sample.env sampleQueues none 3).run sampleWorld).trace
    = [.popped "p" "c", .dropped "c", .popped "q" "a", .delivered "a"] := by decide +kernel

end DailyScheduler.Priority
