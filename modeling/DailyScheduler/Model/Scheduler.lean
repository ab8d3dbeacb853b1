import DailyScheduler.Model.Task

set_option autoImplicit false

/-! # The scheduler of a worker

`worker/scheduler.py` and `redis_models/lock.py`. A `WorkerScheduler` remembers the locks it
has acquired (`locks`) and looks after the scheduled registries of those queues
(`registries`).
-/

namespace DailyScheduler

open AtomicProg

/-- `SchedulerStatus`. -/
inductive SchedulerStatus where
  | started | working | stopped
  deriving DecidableEq

/-- A `WorkerScheduler` object. `locks` are the keys of `_locks` in the order of their
insertion, `registries` the queues of `_scheduled_job_registries`. -/
structure WorkerScheduler where
  queues : List QueueName
  pid : Nat
  interval : Int
  locks : List QueueName
  registries : List QueueName
  lockAcquisitionTime : Option Int
  status : SchedulerStatus
  stopRequested : Bool
  deriving DecidableEq

/-- `_reschedule_tasks`. -/
def rescheduleTasks (env : Env) : Py Unit := do
  let enabledTasks ← Prog.read fun w => w.tasks.rows.filter Task.enabled
  Prog.forEach enabledTasks fun t => do
    -- the task is printed for the log, whatever the level of the log
    t.describe env
    let _ ← t.save env false true

namespace SchedulerLock

/-- `KvLock.acquire`. -/
def acquire (q : QueueName) (pid : Nat) (expire : Int) : Py Bool :=
  Prog.command (fun w => w.setLockNx q pid (w.now + secs expire)) (fun _ => [])

/-- `KvLock.expire`. -/
def expire (q : QueueName) (expire : Int) : Py Unit :=
  Prog.write fun w => w.expireLock q (w.now + secs expire)

/-- `KvLock.release`. -/
def release (q : QueueName) : Py Unit := Prog.write fun w => w.deleteLock q

end SchedulerLock

namespace WorkerScheduler

/-- A new `WorkerScheduler` for some queues. -/
def new (queues : List QueueName) (pid : Nat) (interval : Int) : WorkerScheduler where
  queues := queues
  pid := pid
  interval := interval
  locks := []
  registries := []
  lockAcquisitionTime := none
  status := .stopped
  stopRequested := false

/-- `self._locks[q] = lock`. -/
def remember (s : WorkerScheduler) (q : QueueName) : WorkerScheduler :=
  if q ∈ s.locks then s else { s with locks := s.locks ++ [q] }

/-- The loop of `_acquire_locks`: the object and the names of the locks that were free. -/
def tryLocks (s : WorkerScheduler) : List QueueName → Py (WorkerScheduler × List QueueName)
  | [] => pure (s, [])
  | q :: qs => do
      let acquired ← SchedulerLock.acquire q s.pid (s.interval + 60)
      let (s', l) ← tryLocks (if acquired then s.remember q else s) qs
      pure (s', if acquired then q :: l else l)

/-- `_acquire_locks`. -/
def acquireLocks (env : Env) (s : WorkerScheduler) :
    Py (WorkerScheduler × List QueueName) := do
  let (s, successfulLocks) ← s.tryLocks s.queues
  let now ← utcnow
  Prog.forEach s.locks fun q => do
    let _ ← getQueue env q
  pure ({ s with lockAcquisitionTime := some now, registries := s.locks }, successfulLocks)

/-- `start`; the thread it starts runs `work`. -/
def start (env : Env) (s : WorkerScheduler) : Py WorkerScheduler := do
  let (s, locks) ← s.acquireLocks env
  if locks.isEmpty then pure s else pure { s with status := .started }

/-- `heartbeat`. -/
def heartbeat (s : WorkerScheduler) : Py Unit :=
  Prog.forEach s.locks fun q => SchedulerLock.expire q (s.interval + 60)

/-- `release_locks`. -/
def releaseLocks (s : WorkerScheduler) : Py Unit :=
  Prog.forEach s.locks fun q => SchedulerLock.release q

/-- `stop`. -/
def stop (s : WorkerScheduler) : Py WorkerScheduler := do
  s.releaseLocks
  pure { s with status := .stopped }

/-- The loop of `enqueue_scheduled_jobs`, for one registry. -/
def enqueueFrom (env : Env) (q : QueueName) : Py Unit := do
  let timestamp ← readTimestamp
  let jobNames ← (Registry.mk q .scheduled).getJobsToSchedule timestamp
  if jobNames.isEmpty then pure ()
  else do
    let queue ← getQueue env q
    let jobs ← JobModel.getMany env jobNames
    Prog.forEach jobs fun job =>
      match job with
      | none => pure ()
      | some job => do
          let _ ← queue.enqueueJob env job (job.atFront.getD false)

/-- `enqueue_scheduled_jobs`. -/
def enqueueScheduledJobs (env : Env) (s : WorkerScheduler) : Py WorkerScheduler := do
  rescheduleTasks env
  Prog.forEach s.registries fun q => enqueueFrom env q
  pure { s with status := .started }

end WorkerScheduler

end DailyScheduler
