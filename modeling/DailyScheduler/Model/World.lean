import DailyScheduler.Lib.Prog
import DailyScheduler.Lib.SortedSet
import DailyScheduler.Lib.TtlMap
import DailyScheduler.Model.Data
import Mathlib.Data.String.Basic

set_option autoImplicit false

/-! # The broker, the database and the clock

`World` is everything the parties share: the keys at the broker (job hashes, the index set
of job names, the registries of every queue, result streams, scheduler locks, worker
hashes), the tables of tasks and of their arguments in the database, and the clock. Every function of the code that
touches it is a program of atomic steps over `World`, one step for each broker command,
pipeline execution, database statement or reading of the clock.

What the programs do that cannot be seen in the state afterwards (a job was popped, its
callable was called) they record as an `Event`.
-/

namespace DailyScheduler

open AtomicProg

/-- The streams of results, by the names of the jobs. -/
abbrev ResultStreams (V : Type) := TtlMap JobName (List (Result V))

/-- `StreamModel.save` of an entry that is kept: it is appended to its stream, which keeps its last ten
entries; a positive `ttl` lets the stream expire, another one lets it stay. -/
def ResultStreams.xadd {V : Type} (m : ResultStreams V) (now : Int) (r : Result V) :
    ResultStreams V :=
  let l := ((m.find? r.parent).getD []) ++ [r]
  let m := m.put r.parent (l.drop (l.length - 10))
  if r.ttl > 0 then m.expireAt r.parent (now + secs r.ttl) else m.persist r.parent

structure World where
  now : Int
  jobs : TtlMap JobName JobHash
  jobNames : Finset String
  registry : QueueName → RegistryKind → SortedSet Int JobName
  results : ResultStreams (Option Stored)
  locks : TtlMap QueueName Nat
  workers : TtlMap WorkerName WorkerHash
  tasks : TaskTable
  taskArgs : Nat → List TaskArg
  taskKwargs : Nat → List TaskKwarg

/-- A world with nothing in it, at time `now`. -/
def World.init (now : Int) : World where
  now := now
  jobs := .empty
  jobNames := ∅
  registry := fun _ _ => .empty
  results := .empty
  locks := .empty
  workers := .empty
  tasks := .empty
  taskArgs := fun _ => []
  taskKwargs := fun _ => []

/-- What happened, as far as it is not visible in the state. -/
inductive Event where
  /-- `JobModel.create` made a record of this name. -/
  | created (n : JobName)
  /-- `Task._schedule` of this task made the job. -/
  | taskScheduled (id : Nat) (n : JobName)
  /-- `enqueue_job` put the name into the queued registry. -/
  | enqueued (q : QueueName) (n : JobName)
  /-- A `ZPOPMIN` or `BZPOPMIN` took the name out of the queued registry. -/
  | popped (q : QueueName) (n : JobName)
  /-- The record of a popped name could not be loaded, and the name is forgotten. -/
  | dropped (n : JobName)
  /-- The record of a popped name was loaded. -/
  | delivered (n : JobName)
  /-- A call of `enqueue_job` for this job returned. -/
  | enqueueReturned (n : JobName)
  /-- A call of `dequeue_any` ended, with this job or with none. -/
  | dequeueReturned (n : Option JobName)
  /-- `cancel_job` wrote the status `CANCELED`. -/
  | canceled (n : JobName)
  /-- The job's callable was called. -/
  | called (n : JobName)
  | successCallback (n : JobName)
  | failureCallback (n : JobName)
  deriving DecidableEq

abbrev Py (α : Type) := Prog World Event PyError α

/-- How a call of user code ends: what it returned or raised, and the job's `meta` then. -/
structure Returned where
  val : Except PyError PyValue
  metadata : PyValue

/-- How the call of a job's function ends. When it returned a coroutine, that is still to be
run. -/
structure CallOutcome extends Returned where
  coroutine : Option (Py Returned)

/-- What the program is run with: its settings and the code outside it. -/
structure Env where
  config : SchedulerConfiguration
  /-- `SCHEDULER_QUEUES`: the configured queues and their `ASYNC`. -/
  queues : QueueName → Option Bool
  /-- `callable_func`: the function a dotted name stands for, called with a job's arguments. -/
  callableFunc : String → Except PyError (JobModel → Py CallOutcome)
  /-- `croniter.croniter`: `none` for a string it rejects, else the next time after a given
  one (`get_next`), `none` when there is no such time. -/
  croniter : String → Option (Int → Option Int)
  /-- What `callable_func(val)()` returns, or what it or the `repr` of its value raises. -/
  callableValue : String → Except PyError PyValue
  /-- `datetime.fromisoformat`. -/
  fromisoformat : String → Option Int
  /-- `USE_TZ`. -/
  useTz : Bool
  /-- The timestamp that `ScheduledJobRegistry.schedule` gives a naive datetime, by its instant. It takes
  the server's daylight offset, where there is one, all the year round (`ScheduledTime.offsetGiven`). -/
  naiveTimestamp : Int → Int

namespace World

/-! ## Sorted-set commands -/

def setRegistry (w : World) (q : QueueName) (k : RegistryKind) (z : SortedSet Int JobName) :
    World :=
  { w with registry := fun q' k' => if q' = q ∧ k' = k then z else w.registry q' k' }

theorem registry_setRegistry (w : World) (q q' : QueueName) (k k' : RegistryKind)
    (z : SortedSet Int JobName) :
    (w.setRegistry q k z).registry q' k'
      = if q' = q ∧ k' = k then z else w.registry q' k' := rfl

/-- `ZADD`. -/
def zadd (w : World) (q : QueueName) (k : RegistryKind) (n : JobName) (s : Int) : World :=
  w.setRegistry q k ((w.registry q k).add s n)

/-- `ZREM`. -/
def zrem (w : World) (q : QueueName) (k : RegistryKind) (n : JobName) : World :=
  w.setRegistry q k ((w.registry q k).remove n)

/-- `ZREMRANGEBYSCORE`. -/
def zremrangebyscore (w : World) (q : QueueName) (k : RegistryKind) (lo hi : Int) : World :=
  w.setRegistry q k ((w.registry q k).removeRangeByScore lo hi)

/-- `ZPOPMIN`. -/
def zpopmin (w : World) (q : QueueName) (k : RegistryKind) : Option JobName × World :=
  match (w.registry q k).popMin with
  | none => (none, w)
  | some (p, z) => (some p.2, w.setRegistry q k z)

/-- `BZPOPMIN` on the queued registries of `qs`, at the moment it is answered: the smallest
entry of the first of them that has one. -/
def bzpopmin (w : World) : List QueueName → Option (QueueName × JobName) × World
  | [] => (none, w)
  | q :: qs =>
      match w.zpopmin q .queued with
      | (some n, w') => (some (q, n), w')
      | (none, _) => w.bzpopmin qs

theorem score_zadd (w : World) (q q' : QueueName) (k k' : RegistryKind) (n m : JobName)
    (s : Int) :
    ((w.zadd q k n s).registry q' k').score m
      = if q' = q ∧ k' = k ∧ m = n then some s else (w.registry q' k').score m := by
  rw [zadd, registry_setRegistry]
  by_cases h : q' = q ∧ k' = k
  · obtain ⟨rfl, rfl⟩ := h
    simp [SortedSet.score_add]
  · rw [if_neg h, if_neg (fun h' => h ⟨h'.1, h'.2.1⟩)]

theorem score_zrem (w : World) (q q' : QueueName) (k k' : RegistryKind) (n m : JobName) :
    ((w.zrem q k n).registry q' k').score m
      = if q' = q ∧ k' = k ∧ m = n then none else (w.registry q' k').score m := by
  rw [zrem, registry_setRegistry]
  by_cases h : q' = q ∧ k' = k
  · obtain ⟨rfl, rfl⟩ := h
    simp [SortedSet.score_remove]
  · rw [if_neg h, if_neg (fun h' => h ⟨h'.1, h'.2.1⟩)]

theorem score_zremrangebyscore (w : World) (q q' : QueueName) (k k' : RegistryKind)
    (m : JobName) (lo hi : Int) :
    ((w.zremrangebyscore q k lo hi).registry q' k').score m
      = if q' = q ∧ k' = k then ((w.registry q' k').score m).filter (fun s => ¬ (lo ≤ s ∧ s ≤ hi))
        else (w.registry q' k').score m := by
  rw [zremrangebyscore, registry_setRegistry]
  by_cases h : q' = q ∧ k' = k
  · obtain ⟨rfl, rfl⟩ := h
    simp [SortedSet.score_removeRangeByScore]
  · rw [if_neg h, if_neg h]

/-- A name is in a registry of a queue. -/
def inRegistry (w : World) (q : QueueName) (k : RegistryKind) (n : JobName) : Prop :=
  n ∈ w.registry q k

instance (w : World) (q : QueueName) (k : RegistryKind) (n : JobName) :
    Decidable (w.inRegistry q k n) :=
  inferInstanceAs (Decidable (n ∈ w.registry q k))

theorem inRegistry_iff (w : World) (q : QueueName) (k : RegistryKind) (n : JobName) :
    w.inRegistry q k n ↔ ((w.registry q k).score n).isSome = true := Iff.rfl

/-- Properties of the only entry of a registry are properties of all of them. -/
theorem forall_of_members {w : World} {q : QueueName} {k : RegistryKind} {n : JobName}
    {P : JobName → Prop} (hm : (w.registry q k).members = [n]) (h : P n) :
    ∀ m, w.inRegistry q k m → P m := by
  intro m hin
  have hmem : m ∈ (w.registry q k).members := (SortedSet.mem_members _ _).2 hin
  rw [hm, List.mem_singleton] at hmem
  exact hmem ▸ h

theorem inRegistry_zadd (w : World) (q q' : QueueName) (k k' : RegistryKind) (n m : JobName)
    (s : Int) :
    (w.zadd q k n s).inRegistry q' k' m
      ↔ (q' = q ∧ k' = k ∧ m = n) ∨ w.inRegistry q' k' m := by
  rw [inRegistry_iff, inRegistry_iff, score_zadd]
  split <;> simp_all

theorem inRegistry_zrem (w : World) (q q' : QueueName) (k k' : RegistryKind) (n m : JobName) :
    (w.zrem q k n).inRegistry q' k' m
      ↔ ¬ (q' = q ∧ k' = k ∧ m = n) ∧ w.inRegistry q' k' m := by
  rw [inRegistry_iff, inRegistry_iff, score_zrem]
  split <;> simp_all

/-- Several names taken out of a registry, one after the other. -/
theorem entries_zremAll (q : QueueName) (k : RegistryKind) (l : List JobName) (w : World) :
    ((l.foldl (fun w n => w.zrem q k n) w).registry q k).entries
      = (w.registry q k).entries.filter fun p => decide (p.2 ∉ l) := by
  induction l generalizing w with
  | nil => simp
  | cons n l ih =>
      have hfirst : ((w.zrem q k n).registry q k).entries
          = (w.registry q k).entries.filter fun p => decide (p.2 ≠ n) := by
        rw [zrem, registry_setRegistry, if_pos ⟨rfl, rfl⟩]
        rfl
      rw [List.foldl_cons, ih, hfirst, List.filter_filter]
      congr 1
      funext p
      by_cases hp : p.2 = n <;> simp [hp]

theorem jobs_zremAll (q : QueueName) (k : RegistryKind) (l : List JobName) (w : World) :
    (l.foldl (fun w n => w.zrem q k n) w).jobs = w.jobs := by
  induction l generalizing w with
  | nil => rfl
  | cons n l ih => exact ih (w.zrem q k n)

theorem now_zremAll (q : QueueName) (k : RegistryKind) (l : List JobName) (w : World) :
    (l.foldl (fun w n => w.zrem q k n) w).now = w.now := by
  induction l generalizing w with
  | nil => rfl
  | cons n l ih => exact ih (w.zrem q k n)

theorem inRegistry_of_zremrangebyscore {w : World} {q q' : QueueName} {k k' : RegistryKind}
    {m : JobName} {lo hi : Int} (h : (w.zremrangebyscore q k lo hi).inRegistry q' k' m) :
    w.inRegistry q' k' m := by
  rw [inRegistry_iff, score_zremrangebyscore] at h
  rw [inRegistry_iff]
  split at h
  · rw [Option.isSome_filter] at h
    exact Option.isSome_of_any h
  · exact h

theorem zpopmin_none {w w' : World} {q : QueueName} {k : RegistryKind}
    (h : w.zpopmin q k = (none, w')) : w' = w ∧ ∀ n, ¬ w.inRegistry q k n := by
  unfold zpopmin at h
  cases hp : (w.registry q k).popMin with
  | none =>
      rw [hp] at h
      exact ⟨(Prod.mk.inj h).2.symm, fun n => SortedSet.popMin_eq_none hp n⟩
  | some p => rw [hp] at h; simp at h

/-- A pop takes out one name, which was there, and nothing else. -/
theorem zpopmin_some {w w' : World} {q : QueueName} {k : RegistryKind} {n : JobName}
    (h : w.zpopmin q k = (some n, w')) :
    ∃ z, w' = w.setRegistry q k z ∧ w.inRegistry q k n ∧
      ∀ q' k' m, (w'.registry q' k').score m
        = if q' = q ∧ k' = k ∧ m = n then none else (w.registry q' k').score m := by
  unfold zpopmin at h
  cases hp : (w.registry q k).popMin with
  | none => rw [hp] at h; simp at h
  | some p =>
      obtain ⟨p, z⟩ := p
      rw [hp] at h
      simp only [Prod.mk.injEq, Option.some.injEq] at h
      obtain ⟨rfl, rfl⟩ := h
      obtain ⟨hs, hz⟩ := SortedSet.popMin_eq_some hp
      refine ⟨z, rfl, by rw [inRegistry_iff, hs]; rfl, fun q' k' m => ?_⟩
      rw [registry_setRegistry]
      by_cases hqk : q' = q ∧ k' = k
      · obtain ⟨rfl, rfl⟩ := hqk
        simp [hz]
      · rw [if_neg hqk, if_neg (fun h' => hqk ⟨h'.1, h'.2.1⟩)]

theorem bzpopmin_none {w w' : World} {qs : List QueueName}
    (h : w.bzpopmin qs = (none, w')) : w' = w := by
  induction qs with
  | nil => exact (Prod.mk.inj h).2.symm
  | cons q qs ih =>
      unfold bzpopmin at h
      rcases hp : w.zpopmin q .queued with ⟨_ | n, w1⟩
      · rw [hp] at h; exact ih h
      · rw [hp] at h; simp at h

/-- A blocking pop is a pop from one of its queues. -/
theorem bzpopmin_some {w w' : World} {qs : List QueueName} {q : QueueName} {n : JobName}
    (h : w.bzpopmin qs = (some (q, n), w')) :
    q ∈ qs ∧ w.zpopmin q .queued = (some n, w') := by
  induction qs with
  | nil => simp [bzpopmin] at h
  | cons q' qs ih =>
      unfold bzpopmin at h
      rcases hp : w.zpopmin q' .queued with ⟨_ | n', w1⟩
      · rw [hp] at h
        obtain ⟨h1, h2⟩ := ih h
        exact ⟨List.mem_cons_of_mem _ h1, h2⟩
      · rw [hp] at h
        simp only [Prod.mk.injEq, Option.some.injEq] at h
        obtain ⟨⟨rfl, rfl⟩, rfl⟩ := h
        exact ⟨List.mem_cons_self, hp⟩

/-! ## Job hashes -/

/-- The pipeline of `HashModel.save` for a job: the index set, then the fields. -/
def saveJob (w : World) (j : JobModel) (saveAll : Bool) : World :=
  let h := j.storedOver saveAll ((w.jobs.find? j.name).getD (fun _ => none))
  { w with
    jobNames := insert j.name w.jobNames
    jobs := if h.nonempty JobField.all then w.jobs.put j.name h else w.jobs.erase j.name }

/-- The key of a job's hash (`JobModel._element_key_template`). -/
def jobKey (n : JobName) : String := ":jobs:" ++ n

/-- The pipeline of `HashModel.delete` for a job. It takes the hash's key, not the job's
name, out of the index set. -/
def deleteJob (w : World) (n : JobName) : World :=
  { w with jobNames := w.jobNames.erase (jobKey n), jobs := w.jobs.erase n }

def expireJob (w : World) (n : JobName) (d : Int) : World :=
  { w with jobs := w.jobs.expireAt n d }

def persistJob (w : World) (n : JobName) : World := { w with jobs := w.jobs.persist n }

/-- `HSET` of the status of a job. -/
def hsetStatus (w : World) (n : JobName) (s : JobStatus) : World :=
  let h := (w.jobs.find? n).getD (fun _ => none)
  { w with jobs := w.jobs.put n (Function.update h .status (some s)) }

/-- Whether the job's key exists. -/
def jobExists (w : World) (n : JobName) : Bool := w.jobs.contains n

/-- The job is stored and deserializes. -/
def loadable (w : World) (n : JobName) : Prop := ∃ h, w.jobs.find? n = some h ∧ h.complete = true

theorem loadable.jobExists {w : World} {n : JobName} (h : w.loadable n) :
    w.jobExists n = true := by
  obtain ⟨v, hv, -⟩ := h
  exact (TtlMap.contains_iff _ _).2 ⟨v, hv⟩

theorem jobExists_congr {w w' : World} {n : JobName} (h : w'.jobs.find? n = w.jobs.find? n) :
    w'.jobExists n = w.jobExists n := by
  unfold jobExists
  rw [Bool.eq_iff_iff, TtlMap.contains_iff, TtlMap.contains_iff, h]

theorem loadable_congr {w w' : World} {n : JobName} (h : w'.jobs.find? n = w.jobs.find? n) :
    w'.loadable n ↔ w.loadable n := by
  unfold loadable
  rw [h]

/-! ## Results, workers, tasks, locks, the clock -/

/-- Append to a result stream. -/
def xadd (w : World) (r : Result (Option Stored)) : World :=
  { w with results := ResultStreams.xadd w.results w.now r }

def deleteResults (w : World) (n : JobName) : World := { w with results := w.results.erase n }

/-- The pipeline of `WorkerModel.save`. -/
def saveWorker (w : World) (cfg : SchedulerConfiguration) (m : WorkerModel) (saveAll : Bool) :
    World :=
  let h := Hash.merge (m.written saveAll) m.serialize
    ((w.workers.find? m.name).getD (fun _ => none))
  let d := w.now + secs (cfg.DEFAULT_WORKER_TTL + 60)
  { w with workers := (w.workers.put m.name h).expireAt m.name d }

def expireWorker (w : World) (n : WorkerName) (d : Int) : World :=
  { w with workers := w.workers.expireAt n d }

def putTask (w : World) (t : Task) : World := { w with tasks := w.tasks.put t }

/-- `SET key value NX EX`: whether the key was set, and the world after. -/
def setLockNx (w : World) (q : QueueName) (pid : Nat) (d : Int) : Bool × World :=
  if w.locks.contains q then (false, w)
  else (true, { w with locks := w.locks.set q pid (some d) })

def expireLock (w : World) (q : QueueName) (d : Int) : World :=
  { w with locks := w.locks.expireAt q d }

def deleteLock (w : World) (q : QueueName) : World := { w with locks := w.locks.erase q }

/-- The clock moves on by `d` microseconds, and the keys whose deadline is reached expire. -/
def advance (w : World) (d : Nat) : World :=
  { w with
    now := w.now + d
    jobs := w.jobs.purge (w.now + d)
    results := w.results.purge (w.now + d)
    locks := w.locks.purge (w.now + d)
    workers := w.workers.purge (w.now + d) }

/-! ## What each update leaves alone -/

@[simp] theorem setRegistry_now (w : World) (q : QueueName) (k : RegistryKind)
    (z : SortedSet Int JobName) : (w.setRegistry q k z).now = w.now := rfl
@[simp] theorem setRegistry_jobs (w : World) (q : QueueName) (k : RegistryKind)
    (z : SortedSet Int JobName) : (w.setRegistry q k z).jobs = w.jobs := rfl
@[simp] theorem setRegistry_tasks (w : World) (q : QueueName) (k : RegistryKind)
    (z : SortedSet Int JobName) : (w.setRegistry q k z).tasks = w.tasks := rfl

@[simp] theorem zadd_now (w : World) (q : QueueName) (k : RegistryKind) (n : JobName) (s : Int) :
    (w.zadd q k n s).now = w.now := rfl
@[simp] theorem zadd_jobs (w : World) (q : QueueName) (k : RegistryKind) (n : JobName) (s : Int) :
    (w.zadd q k n s).jobs = w.jobs := rfl
@[simp] theorem zadd_tasks (w : World) (q : QueueName) (k : RegistryKind) (n : JobName) (s : Int) :
    (w.zadd q k n s).tasks = w.tasks := rfl

@[simp] theorem zrem_now (w : World) (q : QueueName) (k : RegistryKind) (n : JobName) :
    (w.zrem q k n).now = w.now := rfl
@[simp] theorem zrem_jobs (w : World) (q : QueueName) (k : RegistryKind) (n : JobName) :
    (w.zrem q k n).jobs = w.jobs := rfl
@[simp] theorem zrem_tasks (w : World) (q : QueueName) (k : RegistryKind) (n : JobName) :
    (w.zrem q k n).tasks = w.tasks := rfl

@[simp] theorem zremrangebyscore_now (w : World) (q : QueueName) (k : RegistryKind)
    (lo hi : Int) : (w.zremrangebyscore q k lo hi).now = w.now := rfl
@[simp] theorem zremrangebyscore_jobs (w : World) (q : QueueName) (k : RegistryKind)
    (lo hi : Int) : (w.zremrangebyscore q k lo hi).jobs = w.jobs := rfl
@[simp] theorem zremrangebyscore_tasks (w : World) (q : QueueName) (k : RegistryKind)
    (lo hi : Int) : (w.zremrangebyscore q k lo hi).tasks = w.tasks := rfl

@[simp] theorem saveJob_now (w : World) (j : JobModel) (sa : Bool) :
    (w.saveJob j sa).now = w.now := rfl
@[simp] theorem saveJob_registry (w : World) (j : JobModel) (sa : Bool) :
    (w.saveJob j sa).registry = w.registry := rfl
@[simp] theorem saveJob_tasks (w : World) (j : JobModel) (sa : Bool) :
    (w.saveJob j sa).tasks = w.tasks := rfl

@[simp] theorem deleteJob_now (w : World) (n : JobName) : (w.deleteJob n).now = w.now := rfl
@[simp] theorem deleteJob_registry (w : World) (n : JobName) :
    (w.deleteJob n).registry = w.registry := rfl
@[simp] theorem deleteJob_tasks (w : World) (n : JobName) :
    (w.deleteJob n).tasks = w.tasks := rfl

@[simp] theorem expireJob_now (w : World) (n : JobName) (d : Int) :
    (w.expireJob n d).now = w.now := rfl
@[simp] theorem expireJob_registry (w : World) (n : JobName) (d : Int) :
    (w.expireJob n d).registry = w.registry := rfl
@[simp] theorem expireJob_tasks (w : World) (n : JobName) (d : Int) :
    (w.expireJob n d).tasks = w.tasks := rfl

@[simp] theorem persistJob_now (w : World) (n : JobName) : (w.persistJob n).now = w.now := rfl
@[simp] theorem persistJob_registry (w : World) (n : JobName) :
    (w.persistJob n).registry = w.registry := rfl
@[simp] theorem persistJob_tasks (w : World) (n : JobName) :
    (w.persistJob n).tasks = w.tasks := rfl

@[simp] theorem hsetStatus_now (w : World) (n : JobName) (s : JobStatus) :
    (w.hsetStatus n s).now = w.now := rfl
@[simp] theorem hsetStatus_registry (w : World) (n : JobName) (s : JobStatus) :
    (w.hsetStatus n s).registry = w.registry := rfl
@[simp] theorem hsetStatus_tasks (w : World) (n : JobName) (s : JobStatus) :
    (w.hsetStatus n s).tasks = w.tasks := rfl

@[simp] theorem xadd_now (w : World) (r : Result (Option Stored)) : (w.xadd r).now = w.now := rfl
@[simp] theorem xadd_jobs (w : World) (r : Result (Option Stored)) : (w.xadd r).jobs = w.jobs := rfl
@[simp] theorem xadd_registry (w : World) (r : Result (Option Stored)) : (w.xadd r).registry = w.registry := rfl
@[simp] theorem xadd_tasks (w : World) (r : Result (Option Stored)) : (w.xadd r).tasks = w.tasks := rfl

@[simp] theorem deleteResults_now (w : World) (n : JobName) :
    (w.deleteResults n).now = w.now := rfl
@[simp] theorem deleteResults_jobs (w : World) (n : JobName) :
    (w.deleteResults n).jobs = w.jobs := rfl
@[simp] theorem deleteResults_registry (w : World) (n : JobName) :
    (w.deleteResults n).registry = w.registry := rfl
@[simp] theorem deleteResults_tasks (w : World) (n : JobName) :
    (w.deleteResults n).tasks = w.tasks := rfl

@[simp] theorem saveWorker_now (w : World) (cfg : SchedulerConfiguration) (m : WorkerModel)
    (sa : Bool) : (w.saveWorker cfg m sa).now = w.now := rfl
@[simp] theorem saveWorker_jobs (w : World) (cfg : SchedulerConfiguration) (m : WorkerModel)
    (sa : Bool) : (w.saveWorker cfg m sa).jobs = w.jobs := rfl
@[simp] theorem saveWorker_registry (w : World) (cfg : SchedulerConfiguration) (m : WorkerModel)
    (sa : Bool) : (w.saveWorker cfg m sa).registry = w.registry := rfl
@[simp] theorem saveWorker_tasks (w : World) (cfg : SchedulerConfiguration) (m : WorkerModel)
    (sa : Bool) : (w.saveWorker cfg m sa).tasks = w.tasks := rfl

@[simp] theorem expireWorker_now (w : World) (n : WorkerName) (d : Int) :
    (w.expireWorker n d).now = w.now := rfl
@[simp] theorem expireWorker_jobs (w : World) (n : WorkerName) (d : Int) :
    (w.expireWorker n d).jobs = w.jobs := rfl
@[simp] theorem expireWorker_registry (w : World) (n : WorkerName) (d : Int) :
    (w.expireWorker n d).registry = w.registry := rfl
@[simp] theorem expireWorker_tasks (w : World) (n : WorkerName) (d : Int) :
    (w.expireWorker n d).tasks = w.tasks := rfl

@[simp] theorem putTask_now (w : World) (t : Task) : (w.putTask t).now = w.now := rfl
@[simp] theorem putTask_jobs (w : World) (t : Task) : (w.putTask t).jobs = w.jobs := rfl
@[simp] theorem putTask_registry (w : World) (t : Task) :
    (w.putTask t).registry = w.registry := rfl

@[simp] theorem advance_now (w : World) (d : Nat) : (w.advance d).now = w.now + d := rfl
@[simp] theorem advance_registry (w : World) (d : Nat) :
    (w.advance d).registry = w.registry := rfl
@[simp] theorem advance_tasks (w : World) (d : Nat) : (w.advance d).tasks = w.tasks := rfl

/-! ## What the updates of a job do to the stored jobs -/

theorem find?_saveJob_of_ne (w : World) (j : JobModel) (sa : Bool) {n : JobName}
    (h : n ≠ j.name) : (w.saveJob j sa).jobs.find? n = w.jobs.find? n := by
  simp only [saveJob]
  split
  · exact TtlMap.find?_put_of_ne _ _ h
  · simp [TtlMap.find?_erase, h]

/-- Saving over a complete hash, or saving every field, leaves a complete hash. -/
theorem find?_saveJob_self {w : World} {j : JobModel} {sa : Bool}
    (h : w.loadable j.name ∨ sa = true ∨ j.saveAll = true) :
    (w.saveJob j sa).jobs.find? j.name
        = some (j.storedOver sa ((w.jobs.find? j.name).getD (fun _ => none))) ∧
      (j.storedOver sa ((w.jobs.find? j.name).getD (fun _ => none))).complete = true := by
  have hc : (j.storedOver sa ((w.jobs.find? j.name).getD (fun _ => none))).complete = true := by
    rcases h with ⟨h0, hf, hc⟩ | h
    · rw [hf]; exact JobHash.complete_storedOver j sa hc
    · exact JobHash.complete_storedOver_of_saveAll j _ h
  simp only [saveJob, JobHash.nonempty_of_complete hc, if_true]
  exact ⟨TtlMap.find?_put_self _ _ _, hc⟩

theorem loadable_saveJob {w : World} {j : JobModel} {sa : Bool} {n : JobName}
    (h : w.loadable n ∨ (n = j.name ∧ (sa = true ∨ j.saveAll = true))) :
    (w.saveJob j sa).loadable n := by
  by_cases hn : n = j.name
  · subst hn
    have h' : w.loadable j.name ∨ sa = true ∨ j.saveAll = true := h.imp id And.right
    exact ⟨_, find?_saveJob_self h'⟩
  · obtain ⟨v, hv, hc⟩ := h.resolve_right (fun h' => hn h'.1)
    exact ⟨v, by rw [find?_saveJob_of_ne w j sa hn, hv], hc⟩

theorem jobExists_saveJob {w : World} {j : JobModel} {sa : Bool} {n : JobName}
    (h : sa = true ∨ j.saveAll = true) :
    (w.saveJob j sa).jobExists n = true ↔ n = j.name ∨ w.jobExists n = true := by
  by_cases hn : n = j.name
  · subst hn
    simp only [true_or, iff_true]
    exact (loadable_saveJob (.inr ⟨rfl, h⟩)).jobExists
  · rw [jobExists_congr (find?_saveJob_of_ne w j sa hn)]
    simp [hn]

/-- A save gives no key a deadline. -/
theorem deadline_of_saveJob {w : World} {j : JobModel} {sa : Bool} {n : JobName} {d : Int}
    (h : (w.saveJob j sa).jobs.deadline n = some d) : w.jobs.deadline n = some d := by
  simp only [saveJob] at h
  split at h
  · rwa [TtlMap.deadline_put] at h
  · rw [TtlMap.deadline_erase] at h
    split at h
    · cases h
    · exact h

/-- A field of the stored hash of a job. -/
def storedField (w : World) (n : JobName) (f : JobField) : Option f.Ty :=
  (w.jobs.find? n).bind (· f)

/-- A save changes a stored field only by writing the object's. -/
theorem storedField_saveJob (w : World) (j : JobModel) (sa : Bool) (n : JobName) (f : JobField) :
    (w.saveJob j sa).storedField n f
      = if n = j.name ∧ j.written sa f = true then j.serialize f else w.storedField n f := by
  by_cases hn : n = j.name
  · subst hn
    have hfield : j.storedOver sa ((w.jobs.find? j.name).getD (fun _ => none)) f
        = if j.name = j.name ∧ j.written sa f = true then j.serialize f
          else w.storedField j.name f := by
      have hold : ((w.jobs.find? j.name).getD (fun _ => none)) f = w.storedField j.name f := by
        unfold storedField
        cases w.jobs.find? j.name <;> rfl
      unfold JobModel.storedOver Hash.merge
      rw [hold]
      simp only [true_and]
    rw [← hfield]
    unfold storedField saveJob
    dsimp only
    split
    · rw [TtlMap.find?_put_self]
      rfl
    · rename_i hempty
      rw [TtlMap.find?_erase, if_pos rfl]
      -- no field is left in the record, so not this one either
      cases hv : j.storedOver sa ((w.jobs.find? j.name).getD fun _ => none) f with
      | none => rfl
      | some v => exact absurd (Hash.nonempty_of_field (JobField.mem_all f) hv) hempty
  · rw [if_neg fun h => hn h.1]
    unfold storedField
    rw [find?_saveJob_of_ne w j sa hn]

/-- The stored status of a job. -/
def status (w : World) (n : JobName) : Option JobStatus := (w.jobs.find? n).bind (· .status)

/-- A save changes the stored status only by writing the object's. -/
theorem status_saveJob (w : World) (j : JobModel) (sa : Bool) (n : JobName) :
    (w.saveJob j sa).status n
      = if n = j.name ∧ j.written sa .status = true then some j.status else w.status n :=
  storedField_saveJob w j sa n .status

theorem status_saveJob_self (w : World) (j : JobModel) (sa : Bool)
    (h : j.written sa .status = true) : (w.saveJob j sa).status j.name = some j.status := by
  rw [status_saveJob, if_pos ⟨rfl, h⟩]

theorem status_hsetStatus (w : World) (n m : JobName) (s : JobStatus) :
    (w.hsetStatus n s).status m = if m = n then some s else w.status m := by
  unfold status hsetStatus
  split
  · rename_i h
    subst h
    rw [TtlMap.find?_put_self, Option.bind_some, Function.update_self]
  · rename_i h
    rw [TtlMap.find?_put_of_ne _ _ h]

theorem loadable_hsetStatus {w : World} {n m : JobName} {s : JobStatus} (h : w.loadable m) :
    (w.hsetStatus n s).loadable m := by
  obtain ⟨v, hv, hc⟩ := h
  by_cases hm : m = n
  · subst hm
    refine ⟨Function.update v .status (some s), by simp [hsetStatus, hv], ?_⟩
    rw [JobHash.complete_iff] at hc ⊢
    simp [Function.update, hc]
  · exact ⟨v, by simp [hsetStatus, TtlMap.find?_put_of_ne _ _ hm, hv], hc⟩

end World

end DailyScheduler
