import DailyScheduler.Model.Sample

set_option autoImplicit false

/-! # Emptying a queue

`QueuedJobRegistry.empty` reads the registry in rounds from the positions 0, 1000, 2000, ... and
deletes the records of the names it read; the names themselves are taken out at the end, all in one
pipeline. Each round asks `all` for the entries from its offset to the position 1000: the second
argument is a last position, not a number of entries.
-/

namespace DailyScheduler

open AtomicProg

/-- `DEL` of a job's key. -/
def World.deleteRecord (w : World) (n : JobName) : World := { w with jobs := w.jobs.erase n }

/-- `JobModel.delete_many`: a pipeline of its own, even when it is given one. -/
def JobModel.deleteMany (names : List JobName) : Py Unit :=
  Prog.write fun w => names.foldl World.deleteRecord w

namespace Registry

/-- `range(0, count, 1000)`. -/
def offsets (count : Nat) : List Nat := (List.range ((count + 999) / 1000)).map fun i => 1000 * i

/-- The loop of `empty`: the names whose removal it puts on the pipeline. -/
def emptyRounds (r : Registry) : List Nat → Py (List JobName)
  | [] => pure []
  | offset :: l => do
      let names ← r.all offset 1000
      JobModel.deleteMany names
      let rest ← r.emptyRounds l
      pure (names ++ rest)

/-- `empty`. -/
def empty (r : Registry) : Py Unit := do
  let queuedJobsCount ← r.count
  let names ← r.emptyRounds (offsets queuedJobsCount)
  Prog.write fun w => names.foldl (fun w n => w.zrem r.queue r.kind n) w

end Registry

namespace Emptying

/-- The queue is empty, and no job that was in it has a record. -/
def Emptied (q : QueueName) (w w' : World) : Prop :=
  (w'.registry q .queued).entries = [] ∧
    ∀ n, w.inRegistry q .queued n → w'.jobExists n = false

section Rounds

variable {q : QueueName} {w : World}

/-- The names that a round reads. -/
def chunk (l : List JobName) (offset : Nat) : List JobName := (l.drop offset).take (1001 - offset)

/-- A round reads nothing beyond the position 1000. -/
theorem chunk_eq_drop (l : List JobName) (offset : Nat) :
    chunk l offset = (l.take 1001).drop offset := by
  rw [chunk, List.drop_take]

theorem mem_chunks_iff (l : List JobName) (n : JobName) :
    n ∈ (Registry.offsets l.length).flatMap (chunk l) ↔ n ∈ l.take 1001 := by
  rw [List.mem_flatMap]
  constructor
  · rintro ⟨offset, -, hn⟩
    rw [chunk_eq_drop] at hn
    exact List.mem_of_mem_drop hn
  · intro hn
    refine ⟨0, ?_, ?_⟩
    · have hpos : 0 < l.length := by
        have hmem := List.mem_of_mem_take hn
        exact List.length_pos_of_mem hmem
      have hrounds : 0 < (l.length + 999) / 1000 := by omega
      exact List.mem_map.2 ⟨0, List.mem_range.2 hrounds, rfl⟩
    · rw [chunk_eq_drop]
      exact hn

@[simp] theorem registry_deleteRecords (l : List JobName) (w : World) :
    (l.foldl World.deleteRecord w).registry = w.registry := by
  induction l generalizing w with
  | nil => rfl
  | cons n l ih => exact ih (w.deleteRecord n)

theorem find?_deleteRecords (l : List JobName) (w : World) (n : JobName) :
    (l.foldl World.deleteRecord w).jobs.find? n = if n ∈ l then none else w.jobs.find? n := by
  induction l generalizing w with
  | nil => simp
  | cons m l ih =>
      rw [List.foldl_cons, ih]
      have hfirst : (w.deleteRecord m).jobs.find? n
          = if n = m then none else w.jobs.find? n := TtlMap.find?_erase _ _ _
      rw [hfirst]
      by_cases hm : n = m
      · simp [hm]
      · simp [hm]

/-- The rounds change no registry, so each of them reads the entries there were at the start. -/
theorem run_emptyRounds (offsets : List Nat) (w : World) :
    (Registry.emptyRounds ⟨q, .queued⟩ offsets).run w
      = ⟨.ok (offsets.flatMap (chunk ((w.registry q .queued).entries.map Prod.snd))),
        (offsets.flatMap (chunk ((w.registry q .queued).entries.map Prod.snd))).foldl
          World.deleteRecord w, []⟩ := by
  induction offsets generalizing w with
  | nil => rfl
  | cons offset l ih =>
      have hread : ((Registry.mk q .queued).all offset 1000).run w
          = ⟨.ok (chunk ((w.registry q .queued).entries.map Prod.snd) offset), w, []⟩ := by
        have hrange : (w.registry q .queued).range offset 1000
            = ((w.registry q .queued).entries.drop offset).take (1001 - offset) :=
          SortedSet.range_natCast _ offset 1000
        rw [Registry.run_all, Registry.cleaned_of_not_expires rfl, chunk, ← List.map_drop,
          ← List.map_take, ← hrange]
      generalize hchunk : chunk ((w.registry q .queued).entries.map Prod.snd) offset = names at hread
      have hrest := ih (names.foldl World.deleteRecord w)
      rw [registry_deleteRecords] at hrest
      rw [Registry.emptyRounds, Prog.run_bind, hread, Prog.Outcome.andThen_ok, Prog.run_bind,
        JobModel.deleteMany, Prog.run_write, Prog.Outcome.andThen_ok, Prog.run_bind, hrest,
        Prog.Outcome.andThen_ok, List.flatMap_cons, hchunk, List.foldl_append]
      rfl

end Rounds

section Empty

variable (q : QueueName) (w : World)

/-- What `empty` takes out of the registry, and whose records it deletes: the first 1001 names. -/
theorem empty_removes : ∃ names : List JobName, (∀ n, n ∈ names ↔
      n ∈ ((w.registry q .queued).entries.map Prod.snd).take 1001) ∧
    (((Registry.mk q .queued).empty.exec w).registry q .queued).entries
      = ((w.registry q .queued).entries.filter fun p => decide (p.2 ∉ names)) ∧
    ∀ n, ((Registry.mk q .queued).empty.exec w).jobs.find? n
      = if n ∈ names then none else w.jobs.find? n := by
  have hcount : (Registry.mk q .queued).count.run w
      = ⟨.ok (w.registry q .queued).entries.length, w, []⟩ := by
    rw [Registry.run_count, Registry.cleaned_of_not_expires rfl]
  have hrun : (Registry.mk q .queued).empty.exec w
      = ((Registry.offsets (w.registry q .queued).entries.length).flatMap
          (chunk ((w.registry q .queued).entries.map Prod.snd))).foldl
            (fun w n => w.zrem q .queued n)
          (((Registry.offsets (w.registry q .queued).entries.length).flatMap
            (chunk ((w.registry q .queued).entries.map Prod.snd))).foldl World.deleteRecord w) := by
    unfold Prog.exec Registry.empty
    rw [Prog.run_bind, hcount, Prog.Outcome.andThen_ok, Prog.run_bind, run_emptyRounds,
      Prog.Outcome.andThen_ok]
    rfl
  have hmem := mem_chunks_iff ((w.registry q .queued).entries.map Prod.snd)
  rw [List.length_map] at hmem
  refine ⟨_, hmem, ?_, fun n => ?_⟩
  · rw [hrun, World.entries_zremAll, registry_deleteRecords]
  · rw [hrun, World.jobs_zremAll, find?_deleteRecords]

/-- A name at a position beyond 1000 stays. -/
theorem not_emptied_of_long (h : 1001 < (w.registry q .queued).entries.length) :
    ¬ Emptied q w ((Registry.mk q .queued).empty.exec w) := by
  obtain ⟨names, hnames, hentries, -⟩ := empty_removes q w
  rintro ⟨hempty, -⟩
  rw [hempty] at hentries
  have hnodup := (w.registry q .queued).nodup
  have hlast := List.getElem_mem (l := (w.registry q .queued).entries) h
  have hout : ((w.registry q .queued).entries[1001]).2 ∉ names := by
    intro hin
    obtain ⟨i, hi, hget⟩ := List.mem_take_iff_getElem.1 ((hnames _).1 hin)
    have hlen : ((w.registry q .queued).entries.map Prod.snd).length
        = (w.registry q .queued).entries.length := List.length_map _
    have hi' : i < ((w.registry q .queued).entries.map Prod.snd).length := by omega
    have hj' : 1001 < ((w.registry q .queued).entries.map Prod.snd).length := by omega
    have hsame : ((w.registry q .queued).entries.map Prod.snd)[i]
        = ((w.registry q .queued).entries.map Prod.snd)[1001] := by
      rw [hget, List.getElem_map]
    have heq := (List.Nodup.getElem_inj_iff hnodup).1 hsame
    omega
  have hnil := List.filter_eq_nil_iff.1 hentries.symm _ hlast
  exact hnil (decide_eq_true hout)

/-- **`empty` empties a queue of at most 1001 jobs**, and no longer one. -/
theorem emptied_iff : Emptied q w ((Registry.mk q .queued).empty.exec w) ↔
    (w.registry q .queued).entries.length ≤ 1001 := by
  constructor
  · intro h
    by_contra hlong
    exact not_emptied_of_long q w (by omega) h
  · intro hshort
    obtain ⟨names, hnames, hentries, hjobs⟩ := empty_removes q w
    have hall : ∀ p ∈ (w.registry q .queued).entries, p.2 ∈ names := by
      intro p hp
      rw [hnames, List.take_of_length_le (by rw [List.length_map]; exact hshort)]
      exact List.mem_map.2 ⟨p, hp, rfl⟩
    refine ⟨?_, fun n hn => ?_⟩
    · rw [hentries, List.filter_eq_nil_iff]
      intro p hp
      simp [hall p hp]
    · obtain ⟨s, hs⟩ := (SortedSet.mem_iff_entry _ _).1 hn
      have hgone := hjobs n
      rw [if_pos (hall (s, n) hs)] at hgone
      exact (TtlMap.contains_eq_false_iff _ _).2 hgone

end Empty

/-- A queue of `k` jobs. -/
def sampleQueue (k : Nat) : SortedSet Int JobName where
  entries := (List.range k).map fun i : Nat => ((i : Int), String.ofList (List.replicate i 'a'))
  sorted := by
    rw [List.pairwise_map]
    refine List.pairwise_lt_range.imp fun h => Or.inl ?_
    exact Int.ofNat_lt.2 h
  nodup := by
    rw [List.map_map]
    refine List.nodup_range.map fun i j h => ?_
    have hlen := congrArg String.length h
    simpa using hlen

theorem queue_not_emptied : ¬ ∀ (q : QueueName) (w : World),
    Emptied q w ((Registry.mk q .queued).empty.exec w) := by
  intro h
  refine not_emptied_of_long "q" ((World.init 0).setRegistry "q" .queued (sampleQueue 1002)) ?_
    (h _ _)
  rw [World.registry_setRegistry, if_pos ⟨rfl, rfl⟩, sampleQueue, List.length_map,
    List.length_range]
  decide

end Emptying

end DailyScheduler
