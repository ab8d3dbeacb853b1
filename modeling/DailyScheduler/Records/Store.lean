import DailyScheduler.Lib.Keyspace
import DailyScheduler.Model.Sample
import DailyScheduler.Records.Keys

set_option autoImplicit false

/-! # Everything in one store

All the keys of the broker: those of the jobs and queues, those of the workers, and the locks. The names
in them are chosen by users, and no character is forbidden. As long as no job and no worker has the name
`ALL:`, which makes the key of its record that of an index, each of these things behaves as if it were the
only one.
-/

namespace DailyScheduler.Store

open Keyspace

/-- What has a key at the broker. -/
inductive Item where
  | place (p : Place)
  /-- The hash of a worker. -/
  | worker (n : WorkerName)
  /-- The set of the names of all workers. -/
  | workerIndex
  /-- The set of the names of the workers of a queue. -/
  | queueWorkers (q : QueueName)
  | schedulerLock (q : QueueName)
  /-- The lock that a worker takes, under its own name, to clean the registries. -/
  | queueLock (n : WorkerName)
  deriving DecidableEq

/-- The types of values. At the broker the records of jobs and of workers are both hashes. -/
inductive ValueType where
  | jobHash | workerHash | names | sortedSet | stream | text
  deriving DecidableEq

abbrev ValueType.Value : ValueType → Type
  | .jobHash => JobHash
  | .workerHash => WorkerHash
  | .names => Finset String
  | .sortedSet => SortedSet Int JobName
  | .stream => List (Result (Option Stored))
  | .text => Nat

namespace Item

/-- The key of an item, as the templates and `KvLock._locking_key` make it. -/
def key : Item → String
  | .place p => p.key
  | .worker n => ":workers:" ++ n
  | .workerIndex => ":workers:ALL:"
  | .queueWorkers q => ":queue-workers:" ++ q ++ ":"
  | .schedulerLock q => "_lock:" ++ ("lock:scheduler:" ++ q)
  | .queueLock n => "_lock:" ++ ("queue:" ++ n)

def type : Item → ValueType
  | .place (.record _) => .jobHash
  | .place (.results _) => .stream
  | .place (.registry _ _) => .sortedSet
  | .place .index => .names
  | .worker _ => .workerHash
  | .workerIndex => .names
  | .queueWorkers _ => .names
  | .schedulerLock _ => .text
  | .queueLock _ => .text

end Item

def layout : Layout String Item ValueType := ⟨Item.key, Item.type⟩

/-- The items of the jobs, queues and workers with these names. -/
def inUse (jobs workers queues : Set String) : Set Item := fun
  | .place (.record n) => n ∈ jobs
  | .place (.results n) => n ∈ jobs
  | .place (.registry q _) => q ∈ queues
  | .place .index => True
  | .worker n => n ∈ workers
  | .workerIndex => True
  | .queueWorkers q => q ∈ queues
  | .schedulerLock q => q ∈ queues
  | .queueLock n => n ∈ workers

/-! ## Keys that are the same -/

/-- The items whose keys begin in the same way. -/
inductive Family where
  | jobs | results | registries | workers | queueWorkers | schedulerLocks | queueLocks
  deriving DecidableEq

def Family.stem : Family → String
  | .jobs => ":jobs:"
  | .results => ":job-results:"
  | .registries => ":registry:"
  | .workers => ":workers:"
  | .queueWorkers => ":queue-workers:"
  | .schedulerLocks => "_lock:lock:scheduler:"
  | .queueLocks => "_lock:queue:"

/-- No stem is the beginning of another one. -/
theorem Family.eq_of_prefix {f g : Family} (h : f.stem.toList <+: g.stem.toList) : f = g := by
  revert h
  cases f <;> cases g <;> decide

namespace Item

def family : Item → Family
  | .place (.record _) => .jobs
  | .place .index => .jobs
  | .place (.results _) => .results
  | .place (.registry _ _) => .registries
  | .worker _ => .workers
  | .workerIndex => .workers
  | .queueWorkers _ => .queueWorkers
  | .schedulerLock _ => .schedulerLocks
  | .queueLock _ => .queueLocks

/-- What follows the stem. -/
def tail : Item → String
  | .place (.record n) => n
  | .place .index => "ALL:"
  | .place (.results n) => n ++ ":"
  | .place (.registry q k) => q ++ k.suffix
  | .worker n => n
  | .workerIndex => "ALL:"
  | .queueWorkers q => q ++ ":"
  | .schedulerLock q => q
  | .queueLock n => n

theorem key_eq (a : Item) : a.key = a.family.stem ++ a.tail := by
  cases a with
  | place p =>
      cases p with
      | results n => exact String.append_assoc
      | registry q k => exact String.append_assoc
      | _ => rfl
  | queueWorkers q => exact String.append_assoc
  | schedulerLock q => exact String.append_assoc.symm
  | queueLock n => exact String.append_assoc.symm
  | _ => rfl

theorem family_eq {a b : Item} (h : a.key = b.key) : a.family = b.family ∧ a.tail = b.tail := by
  rw [key_eq, key_eq] at h
  have hlist := congrArg String.toList h
  rw [String.toList_append, String.toList_append] at hlist
  -- Both stems begin the same text, so one of them begins the other.
  have hfamily : a.family = b.family := by
    rcases List.prefix_or_prefix_of_prefix (List.prefix_append _ a.tail.toList)
      (hlist ▸ List.prefix_append b.family.stem.toList b.tail.toList) with hp | hp
    · exact Family.eq_of_prefix hp
    · exact (Family.eq_of_prefix hp).symm
  rw [hfamily, List.append_cancel_left_eq] at hlist
  exact ⟨hfamily, String.toList_inj.1 hlist⟩

theorem append_colon_inj {s t : String} (h : s ++ ":" = t ++ ":") : s = t := by
  have hlist := congrArg String.toList h
  rw [String.toList_append, String.toList_append, List.append_cancel_right_eq] at hlist
  exact String.toList_inj.1 hlist

/-- Two items share a key only if they are one, or the record of a job or a worker named `ALL:` and the
index of jobs or of workers. -/
theorem key_inj {a b : Item} (h : a.key = b.key) :
    a = b ∨ (a = place (.record "ALL:") ∧ b = place .index) ∨ (a = place .index ∧ b = place (.record "ALL:"))
      ∨ (a = worker "ALL:" ∧ b = workerIndex) ∨ (a = workerIndex ∧ b = worker "ALL:") := by
  obtain ⟨hfamily, htail⟩ := family_eq h
  rcases a with (n | n | ⟨q, k⟩ | _) | n | _ | q | q | n <;>
    rcases b with (m | m | ⟨r, l⟩ | _) | m | _ | r | r | m <;>
    cases hfamily
  -- What is left are two items of one family.
  · exact .inl (congrArg (place ∘ .record) htail)
  · exact .inr (.inl ⟨congrArg (place ∘ .record) htail, rfl⟩)
  · exact .inl (congrArg (place ∘ .results) (append_colon_inj htail))
  · obtain ⟨rfl, rfl⟩ := Place.registry_key_inj h
    exact .inl rfl
  · exact .inr (.inr (.inl ⟨rfl, congrArg (place ∘ .record) htail.symm⟩))
  · exact .inl rfl
  · exact .inl (congrArg worker htail)
  · exact .inr (.inr (.inr (.inl ⟨congrArg worker htail, rfl⟩)))
  · exact .inr (.inr (.inr (.inr ⟨rfl, congrArg worker htail.symm⟩)))
  · exact .inl rfl
  · exact .inl (congrArg queueWorkers (append_colon_inj htail))
  · exact .inl (congrArg schedulerLock htail)
  · exact .inl (congrArg queueLock htail)

end Item

/-! ## When nothing gets into the way of anything else -/

theorem injOn_key_iff (jobs workers queues : Set String) : Set.InjOn Item.key (inUse jobs workers queues)
    ↔ "ALL:" ∉ jobs ∧ "ALL:" ∉ workers := by
  constructor
  · intro h
    refine ⟨fun hjob => ?_, fun hworker => ?_⟩
    · have hrecord : Item.place (.record "ALL:") ∈ inUse jobs workers queues := hjob
      have hindex : Item.place .index ∈ inUse jobs workers queues := trivial
      cases h hrecord hindex rfl
    · have hrecord : Item.worker "ALL:" ∈ inUse jobs workers queues := hworker
      have hindex : Item.workerIndex ∈ inUse jobs workers queues := trivial
      cases h hrecord hindex rfl
  · rintro ⟨hjob, hworker⟩ a ha b hb hkey
    rcases Item.key_inj hkey with hab | ⟨rfl, rfl⟩ | ⟨rfl, rfl⟩ | ⟨rfl, rfl⟩ | ⟨rfl, rfl⟩
    · exact hab
    · exact absurd ha hjob
    · exact absurd hb hjob
    · exact absurd ha hworker
    · exact absurd hb hworker

instance (t : ValueType) : Nonempty t.Value := by
  cases t
  · exact ⟨fun _ => none⟩
  · exact ⟨fun _ => none⟩
  · exact ⟨∅⟩
  · exact ⟨.empty⟩
  · exact ⟨[]⟩
  · exact ⟨0⟩

abbrev Request := Keyspace.Request layout ValueType.Value

/-- The keys of different things are different, and every sequence of requests, from an empty store on, is
answered as if each thing had a cell of its own, exactly if no job and no worker is named `ALL:`. -/
theorem separate_iff (jobs workers queues : Set String) :
    (Set.InjOn Item.key (inUse jobs workers queues)
      ∧ ∀ l : List Request, (∀ r ∈ l, r.1 ∈ inUse jobs workers queues) →
          Layout.replies (fun _ => none) l = Layout.ownReplies (fun _ => none) l)
    ↔ "ALL:" ∉ jobs ∧ "ALL:" ∉ workers := by
  have hreplies := Layout.injOn_iff (L := layout) (V := ValueType.Value) (inUse jobs workers queues)
  constructor
  · rintro ⟨hkeys, -⟩
    exact (injOn_key_iff jobs workers queues).1 hkeys
  · intro h
    have hkeys := (injOn_key_iff jobs workers queues).2 h
    exact ⟨hkeys, hreplies.1 hkeys⟩

/-! ## The saves of records -/

abbrev Command (t : ValueType) := Keyspace.Command ValueType.Value t

/-- `SADD`. -/
def sadd (n : String) : Command .names := .modify fun names => some (insert n (names.getD ∅))

/-- The `HDEL` and `HSET` of a job. A hash without fields is no key. -/
def hsetJob (j : JobModel) (saveAll : Bool) : Command .jobHash := .modify fun h =>
  if (j.storedOver saveAll (h.getD fun _ => none)).nonempty JobField.all then
    some (j.storedOver saveAll (h.getD fun _ => none))
  else none

/-- The `HDEL` and `HSET` of a worker. -/
def hsetWorker (m : WorkerModel) (saveAll : Bool) : Command .workerHash := .modify fun h =>
  some (Hash.merge (m.written saveAll) m.serialize (h.getD fun _ => none))

/-- The pipeline of `HashModel.save` for a job. -/
def saveJobRequests (j : JobModel) (saveAll : Bool) : List Request :=
  [⟨.place .index, sadd j.name⟩, ⟨.place (.record j.name), hsetJob j saveAll⟩]

/-- The pipeline of `HashModel.save` for a worker. `WorkerModel.save` goes on with its queues in a second
pipeline, unless this one raises. -/
def saveWorkerRequests (m : WorkerModel) (saveAll : Bool) : List Request :=
  [⟨.workerIndex, sadd m.name⟩, ⟨.worker m.name, hsetWorker m saveAll⟩]

/-- What a world says of the items that it has. -/
def cells (w : World) : Cells layout ValueType.Value
  | .place (.record n) => w.jobs.entry n
  | .place (.results n) => w.results.entry n
  | .place (.registry q k) => if (w.registry q k).entries = [] then none else some (w.registry q k, none)
  | .place .index => if w.jobNames = ∅ then none else some (w.jobNames, none)
  | .worker n => w.workers.entry n
  | .schedulerLock q => w.locks.entry q
  | .workerIndex => none
  | .queueWorkers _ => none
  | .queueLock _ => none

theorem entry_saveJob_self (w : World) (j : JobModel) (saveAll : Bool) :
    (w.saveJob j saveAll).jobs.entry j.name = ((hsetJob j saveAll).apply (w.jobs.entry j.name)).2 := by
  have hfind : (w.jobs.entry j.name).map Prod.fst = w.jobs.find? j.name := rfl
  simp only [World.saveJob, hsetJob, Keyspace.Command.apply, hfind]
  split
  · exact Function.update_self ..
  · exact Function.update_self ..

theorem entry_saveJob_of_ne (w : World) (j : JobModel) (saveAll : Bool) {n : JobName} (hn : n ≠ j.name) :
    (w.saveJob j saveAll).jobs.entry n = w.jobs.entry n := by
  simp only [World.saveJob]
  split
  · exact TtlMap.entry_put_of_ne _ _ hn
  · exact TtlMap.entry_erase_of_ne _ hn

theorem cell_index_saveJob (w : World) (j : JobModel) (saveAll : Bool) :
    cells (w.saveJob j saveAll) (.place .index) = ((sadd j.name).apply (cells w (.place .index))).2 := by
  have hinsert : insert j.name w.jobNames ≠ ∅ := Finset.insert_ne_empty _ _
  have hafter : cells (w.saveJob j saveAll) (.place .index) = some (insert j.name w.jobNames, none) :=
    if_neg hinsert
  rw [hafter]
  by_cases hempty : w.jobNames = ∅
  · rw [show cells w (.place .index) = none from if_pos hempty, hempty]
    rfl
  · rw [show cells w (.place .index) = some (w.jobNames, none) from if_neg hempty]
    rfl

/-- The two requests of a save of a job do in the cells what `World.saveJob` does. -/
theorem ownAfter_saveJob (w : World) (j : JobModel) (saveAll : Bool) :
    Layout.ownAfter (cells w) (saveJobRequests j saveAll) = cells (w.saveJob j saveAll) := by
  simp only [Layout.ownAfter, saveJobRequests, List.foldl, Layout.own]
  funext o
  by_cases hrecord : o = .place (.record j.name)
  · subst hrecord
    rw [Function.update_self, Function.update_of_ne (by simp)]
    exact (entry_saveJob_self w j saveAll).symm
  · rw [Function.update_of_ne hrecord]
    by_cases hindex : o = .place .index
    · subst hindex
      rw [Function.update_self]
      exact (cell_index_saveJob w j saveAll).symm
    · rw [Function.update_of_ne hindex]
      cases o with
      | place p =>
          cases p with
          | record n => exact (entry_saveJob_of_ne w j saveAll fun h => hrecord (by rw [h])).symm
          | index => exact absurd rfl hindex
          | _ => rfl
      | _ => rfl

/-- In a store in which no names get into each other's way, a save of a job is `World.saveJob`. -/
theorem holds_saveJob {S : Set Item} {s : Space String ValueType.Value} {w : World} {j : JobModel}
    {saveAll : Bool} (hkeys : Set.InjOn Item.key S) (hindex : .place .index ∈ S)
    (hrecord : .place (.record j.name) ∈ S) (h : layout.Holds S s (cells w)) :
    layout.Holds S (Layout.after s (saveJobRequests j saveAll)) (cells (w.saveJob j saveAll)) := by
  rw [← ownAfter_saveJob]
  exact Layout.Holds.after hkeys h (by simp [saveJobRequests, hindex, hrecord])

/-- A job named `ALL:` is free at an empty broker, and then its fields do not get into the index of jobs,
which has its key; nor do those of a worker of that name. -/
theorem index_in_the_way :
    Layout.replies (fun _ => none)
        (⟨.place (.record "ALL:"), .exists_⟩ :: saveJobRequests (Sample.job "ALL:") false)
      = [⟨.place (.record "ALL:"), .found false⟩, ⟨.place .index, .value none⟩,
          ⟨.place (.record "ALL:"), .wrongType⟩]
    ∧ Layout.replies (fun _ => none) (saveWorkerRequests (Sample.worker "ALL:").model false)
      = [⟨.workerIndex, .value none⟩, ⟨.worker "ALL:", .wrongType⟩] :=
  ⟨rfl, rfl⟩

end DailyScheduler.Store
