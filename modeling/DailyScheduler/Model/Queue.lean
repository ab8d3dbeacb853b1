import DailyScheduler.Model.Job

set_option autoImplicit false

/-! # Queues

`helpers/queues/queue_logic.py`, and the functions of `views/` that put jobs back into a
queue or clear a registry.
-/

namespace DailyScheduler

open AtomicProg

/-- A `Queue` object. -/
structure Queue where
  name : QueueName
  isAsync : Bool
  deriving DecidableEq

namespace Queue

def queuedJobRegistry (q : Queue) : Registry := ⟨q.name, .queued⟩
def activeJobRegistry (q : Queue) : Registry := ⟨q.name, .active⟩
def failedJobRegistry (q : Queue) : Registry := ⟨q.name, .failed⟩
def finishedJobRegistry (q : Queue) : Registry := ⟨q.name, .finished⟩
def scheduledJobRegistry (q : Queue) : Registry := ⟨q.name, .scheduled⟩
def canceledJobRegistry (q : Queue) : Registry := ⟨q.name, .canceled⟩

/-- `REGISTRIES`, in its order. -/
def registries (q : Queue) : List Registry :=
  [q.finishedJobRegistry, q.failedJobRegistry, q.scheduledJobRegistry, q.activeJobRegistry,
    q.canceledJobRegistry, q.queuedJobRegistry]

end Queue

/-! ## Running a job -/

/-- `job.func(*args, **kwargs)`. -/
def callFunc (env : Env) (job : JobModel) : Py (After CallOutcome) :=
  match env.callableFunc job.funcName with
  | .error x => pure (job, .error x)
  | .ok f => do
      Prog.emit (.called job.name)
      job.call f

/-- The value of a call: a coroutine is run to its end. -/
def runCoroutine (job : JobModel) (o : CallOutcome) : Py (After PyValue) :=
  match o.coroutine with
  | none => pure (job, o.val)
  | some p => do
      let r ← p.attempt
      match r with
      | .error x => pure (job, .error x)
      | .ok r => pure ({ job with metadata := r.metadata }, r.val)

/-- The `try` block of `queue_perform_job` once the function has returned. -/
def afterCall (env : Env) (job : JobModel) (o : CallOutcome) : Py (After PyValue) :=
  After.next (job.save true) fun job _ =>
  After.next (runCoroutine job o) fun job result =>
  After.next (job.callSuccessCallback env) fun job _ =>
  pure (job, .ok result)

/-- The `try` block of `queue_perform_job`. -/
def performBody (env : Env) (job : JobModel) : Py (After PyValue) :=
  After.next (callFunc env job) (afterCall env)

/-- The `except` clause of `queue_perform_job`: the failure callback, then the exception
again. -/
def exceptClause (env : Env) (r : After PyValue) : Py (After PyValue) :=
  match r.2 with
  | .ok v => pure (r.1, .ok v)
  | .error x =>
      if x.isException then
        After.next (r.1.callFailureCallback env) fun job _ => pure (job, .error x)
      else pure (r.1, .error x)

/-- `queue_perform_job`. -/
def queuePerformJob (env : Env) (job : JobModel) : Py (After PyValue) := do
  job.persist
  let r ← performBody env job
  exceptClause env r

namespace Queue

/-- `job_handle_success`. -/
def jobHandleSuccess (q : Queue) (job : JobModel) (result : PyValue)
    (jobInfoTtl resultTtl : Int) : Py (After Unit) :=
  After.next (job.afterExecution jobInfoTtl .finished q.activeJobRegistry
    q.finishedJobRegistry) fun job _ => do
  let r ← (Result.create job.name job.workerName .successful resultTtl result none).attempt
  pure (job, r)

/-- `job_handle_failure`. -/
def jobHandleFailure (env : Env) (q : Queue) (status : JobStatus) (job : JobModel)
    (excString : String) : Py (After Unit) :=
  After.next (job.afterExecution env.config.DEFAULT_FAILURE_TTL status q.activeJobRegistry
    q.failedJobRegistry) fun job _ => do
  let r ← (Result.create job.name job.workerName .failed env.config.DEFAULT_FAILURE_TTL
    .none (some excString)).attempt
  pure (job, r)

/-- `run_sync`. -/
def runSync (env : Env) (q : Queue) (job : JobModel) : Py (After Unit) :=
  After.next (job.prepareForExecution "sync" q.activeJobRegistry) fun job _ => do
  let r ← After.next (queuePerformJob env job) fun job result =>
    q.jobHandleSuccess job result job.jobInfoTtl job.successTtl
  match r.2 with
  | .ok _ => pure r
  | .error x =>
      if x.isException then q.jobHandleFailure env .failed r.1 "traceback"
      else pure r

/-! ## Enqueuing -/

/-- The object `enqueue_job` saves. -/
def enqueuedModel (job : JobModel) (now : Int) : JobModel :=
  (((job.setStartedAt none).setEndedAt none).setStatus .queued).setEnqueuedAt (some now)

@[simp] theorem enqueuedModel_name (job : JobModel) (now : Int) :
    (enqueuedModel job now).name = job.name := rfl

/-- The score `enqueue_job` queues a job with: at the back it is the last score in use. -/
def enqueueScore (q : Queue) (atFront : Bool) : Py Int :=
  if atFront then readTimestamp
  else do
    let last ← q.queuedJobRegistry.getLastTimestamp
    timestampOrNow last

/-- The pipeline of `enqueue_job`: out of the scheduled and into the queued registry. -/
def push (q : Queue) (n : JobName) (score : Int) : Py Unit :=
  Prog.command (fun w => ((), (w.zrem q.name .scheduled n).zadd q.name .queued n score))
    (fun _ => [.enqueued q.name n])

/-- `enqueue_job`. -/
def enqueueJob (env : Env) (q : Queue) (job : JobModel) (atFront : Bool) : Py JobModel := do
  let now ← utcnow
  let (job, _) ← After.get ((enqueuedModel job now).save false)
  if q.isAsync then do
    let score ← q.enqueueScore atFront
    q.push job.name score
    pure job
  else do
    let (job, _) ← After.get (q.runSync env job)
    job.expire job.jobInfoTtl

/-- `when` of `create_and_enqueue_job`. -/
inductive When where
  | none
  | datetime (t : Registry.Moment)
  | other

/-- The last part of `create_and_enqueue_job`, for the job it created. -/
def placeJob (env : Env) (q : Queue) (job : JobModel) (when' : When) (atFront : Bool) :
    Py JobModel :=
  match when' with
  | .none => q.enqueueJob env job atFront
  | .datetime t => do
      let (job, _) ← After.get (job.save false)
      q.scheduledJobRegistry.schedule env job.name t
      pure job
  | .other => throw (.typeError "Invalid type for when")

/-- `create_and_enqueue_job`. -/
def createAndEnqueueJob (env : Env) (q : Queue) (a : JobArgs) (when' : When) (atFront : Bool) :
    Py JobModel := do
  let status := match when' with
    | .none => JobStatus.queued
    | _ => JobStatus.scheduled
  let job ← JobModel.create env a q.name status
  q.placeJob env job when' atFront

/-! ## Dequeuing -/

/-- `dequeue_any`; `fuel` bounds the rounds of its loop, each of which takes a name out of a
queue. -/
def dequeueAny (env : Env) (queues : List Queue) (timeout : Option Int) :
    Nat → Py (Option (JobModel × Queue))
  | 0 => pure none
  | fuel + 1 => do
      Prog.forEach queues fun q => q.queuedJobRegistry.compact
      match ← Registry.pop (queues.map Queue.name) timeout with
      | none => pure none
      | some (key, n) =>
          match queues.find? (fun q => q.name = key) with
          | none => pure none
          | some q => do
              let job ← JobModel.get env n
              match job with
              | some job => do
                  Prog.emit (.delivered n)
                  pure (some (job, q))
              | none => do
                  Prog.emit (.dropped n)
                  dequeueAny env queues timeout fuel

/-! ## Canceling, deleting, cleaning -/

/-- The commands of `_remove_from_registries`. -/
def removeFromRegistries (q : Queue) (n : JobName) (w : World) : World :=
  ((((w.zrem q.name .finished n).zrem q.name .scheduled n).zrem q.name .active n).zrem
    q.name .canceled n).zrem q.name .queued n

/-- The status `cancel_job` writes. -/
def cancelStatus (job : JobModel) : JobStatus :=
  if job.status = .queued then .canceled else .stopped

/-- `cancel_job`. -/
def cancelJob (env : Env) (q : Queue) (n : JobName) : Py Unit := do
  match ← JobModel.get env n with
  | none => throw (.noSuchJobError n)
  | some job =>
      if job.status = .canceled then throw (.invalidJobOperation n)
      else do
        Prog.command
          (fun w => ((), q.removeFromRegistries n (w.hsetStatus job.name (cancelStatus job))))
          (fun _ => if cancelStatus job = .canceled then [.canceled n] else [])
        if cancelStatus job = .canceled then q.canceledJobRegistry.add n 0
        else do
          let t ← readTimestamp
          q.finishedJobRegistry.add n (t + secs env.config.DEFAULT_FAILURE_TTL)

/-- The registry commands of `delete_job`. -/
def removeFromAll (q : Queue) (n : JobName) (w : World) : World :=
  (q.removeFromRegistries n w).zrem q.name .failed n

/-- The expiry command that `delete_job` adds to its pipeline. -/
def expireIn (job : JobModel) (w : World) : World :=
  if job.jobInfoTtl > 0 then w.expireJob job.name (w.now + secs job.jobInfoTtl) else w

/-- `delete_job`. A record without a lifetime is deleted before the pipeline is executed. -/
def deleteJob (env : Env) (q : Queue) (n : JobName) (expireJobModel : Bool) : Py Unit := do
  let job ← (if expireJobModel then JobModel.get env n else pure none)
  match job with
  | none => Prog.write (q.removeFromAll n)
  | some job =>
      if job.jobInfoTtl = 0 then do
        let _ ← job.delete
        Prog.write (q.removeFromAll n)
      else Prog.write fun w => expireIn job (q.removeFromAll n w)

/-- The body of the loop of `clean_registries`. Its test `not job.has_failure_callback` looks at
the method, not at what the method returns, and so is never true. -/
def cleanAbandoned (env : Env) (q : Queue) (beforeScore : Int) (p : Int × JobName) :
    Py Unit := do
  match ← JobModel.get env p.2 with
  | none => pure ()
  | some job =>
      if p.1 + secs job.timeout > beforeScore then pure ()
      else do
        let (job, _) ← After.get (job.callFailureCallback env)
        let _ ← After.get (q.jobHandleFailure env .failed job
          "Moved to the failed registry, due to AbandonedJobError")
        Prog.forEach q.registries fun r => r.cleanup (some beforeScore)

/-- `clean_registries`. -/
def cleanRegistries (env : Env) (q : Queue) (timestamp : Option Int) : Py Unit := do
  let beforeScore ← timestampOrNow timestamp
  q.queuedJobRegistry.compact
  let startedJobs ← q.activeJobRegistry.getJobNamesBefore (some beforeScore)
  Prog.forEach startedJobs fun p => q.cleanAbandoned env beforeScore p

/-! ## Reading -/

/-- `count`. -/
def count (q : Queue) : Py Nat := countOf q.registries
where
  /-- The sum of the counts of some registries. -/
  countOf : List Registry → Py Nat
    | [] => pure 0
    | r :: l => do
        let n ← r.count
        let m ← countOf l
        pure (n + m)

/-- `get_all_job_names`. -/
def getAllJobNames (q : Queue) : Py (List JobName) := do
  let queued ← q.queuedJobRegistry.all 0 (-1)
  let finished ← q.finishedJobRegistry.all 0 (-1)
  let active ← q.activeJobRegistry.all 0 (-1)
  let failed ← q.failedJobRegistry.all 0 (-1)
  let scheduled ← q.scheduledJobRegistry.all 0 (-1)
  let canceled ← q.canceledJobRegistry.all 0 (-1)
  existing (queued ++ finished ++ active ++ failed ++ scheduled ++ canceled)
where
  /-- The names that have a record, each asked for in turn. -/
  existing : List JobName → Py (List JobName)
    | [] => pure []
    | n :: l => do
        let found ← JobModel.exists_ n
        let rest ← existing l
        pure (if found then n :: rest else rest)

end Queue

/-! ## Views -/

/-- `_enqueue_multiple_jobs`. -/
def enqueueMultipleJobs (env : Env) (q : Queue) (names : List JobName) (atFront : Bool) :
    Py Unit := do
  let jobs ← JobModel.getMany env names
  Prog.forEach jobs fun job =>
    match job with
    | none => pure ()
    | some job => do
        let (job, _) ← After.get (job.save false)
        let _ ← q.enqueueJob env job atFront

/-- `job_action` with `JobDetailAction.ENQUEUE`, for the job the view has loaded. -/
def jobActionEnqueue (env : Env) (q : Queue) (job : JobModel) : Py Unit := do
  q.deleteJob env job.name false
  let _ ← q.enqueueJob env job false

/-- `_clear_registry`. -/
def clearRegistry (env : Env) (r : Registry) : Py Unit := do
  let names ← r.all 0 (-1)
  Prog.forEach names fun n => do
    r.delete n
    match ← JobModel.get env n with
    | none => pure ()
    | some job => do
        let _ ← job.delete

end DailyScheduler
