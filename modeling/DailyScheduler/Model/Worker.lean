import DailyScheduler.Model.Queue

set_option autoImplicit false

/-! # Workers

The part of `worker/worker.py` that executes jobs. A worker carries its `WorkerModel` object
along; a function that changes it returns the changed object.
-/

namespace DailyScheduler

open AtomicProg

/-- The attributes of a `Worker` that executing a job uses. -/
structure Worker where
  name : WorkerName
  pid : Int
  jobMonitoringInterval : Int
  model : WorkerModel

namespace Worker

/-- `self._model.save`. -/
def saveModel (env : Env) (w : Worker) (saveAll : Bool) : Py Worker := do
  Prog.write (·.saveWorker env.config w.model saveAll)
  pure { w with model := w.model.saved }

/-- `WorkerModel.heartbeat`. -/
def heartbeat (env : Env) (w : Worker) (timeout : Int) : Py Worker := do
  let now ← utcnow
  let w ← saveModel env { w with model := w.model.setLastHeartbeat (some now) } true
  let t := if timeout = 0 then env.config.DEFAULT_WORKER_TTL + 60 else timeout
  Prog.write fun s => s.expireWorker w.name (s.now + secs t)
  pure w

/-- `get_heartbeat_ttl`, whole seconds. -/
def heartbeatTtl (w : Worker) (job : JobModel) : Int :=
  if job.timeout > 0 then
    min ((secs job.timeout - w.model.currentJobWorkingTime).tdiv 1000000)
      w.jobMonitoringInterval + 60
  else w.jobMonitoringInterval + 60

/-- `worker_before_execution`. -/
def workerBeforeExecution (env : Env) (w : Worker) (job : JobModel) : Py Worker := do
  let m := ((w.model.setCurrentJobName (some job.name)).setCurrentJobWorkingTime
    0).setJobExecutionProcessPid w.pid
  let w := { w with model := m }
  let w ← heartbeat env w (heartbeatTtl w job)
  saveModel env w false

/-- The `stopped_job_name` stored for the worker. -/
def storedStoppedJobName (w : Worker) : Py (Option JobName) :=
  Prog.read fun s => (s.workers.find? w.name).bind (· .stoppedJobName)

/-- The counters `handle_job_failure` updates, for the job as it left
`job_handle_failure`. -/
def countFailure (m : WorkerModel) (job : JobModel) : WorkerModel :=
  let m := m.setCurrentJobWorkingTime 0
  let m := if job.status = .failed then m.addFailedJob.addCompletedJob else m
  m.addWorkingTime job.startedAt job.endedAt

/-- `handle_job_failure`. -/
def handleJobFailure (env : Env) (w : Worker) (job : JobModel) (queue : Queue)
    (excString : String) : Py (Worker × After Unit) := do
  let stoppedJobName ← w.storedStoppedJobName
  let w := { w with model := w.model.setCurrentJobName none }
  let newJobStatus := if stoppedJobName = some job.name then JobStatus.stopped else .failed
  let r ← queue.jobHandleFailure env newJobStatus job excString
  match r.2 with
  | .error _ => pure (w, r)
  | .ok _ => do
      let w ← saveModel env { w with model := countFailure w.model r.1 } false
      pure (w, r)

/-- The counters `handle_job_success` updates. -/
def countSuccess (m : WorkerModel) (job : JobModel) : WorkerModel :=
  ((m.setCurrentJobName none).addSuccessfulJob.addCompletedJob).addWorkingTime
    job.startedAt job.endedAt

/-- The part of `handle_job_success` after `job_handle_success`. -/
def finishSuccess (env : Env) (w : Worker) (job : JobModel) : Py (Worker × JobModel) := do
  let w ← saveModel env { w with model := countSuccess w.model job } false
  let job ← job.expire job.successTtl
  pure (w, job)

/-- The `try` block of `worker_perform_job` up to the end of `job_handle_success`: nothing
after it raises. -/
def performAndStore (env : Env) (w : Worker) (job : JobModel) (queue : Queue) :
    Py (After Unit) :=
  After.next (job.prepareForExecution w.name queue.activeJobRegistry) fun job _ =>
  After.next (queuePerformJob env job) fun job rv =>
  queue.jobHandleSuccess job rv job.jobInfoTtl job.successTtl

/-- `worker_perform_job`. The bare `except` catches everything. -/
def workerPerformJob (env : Env) (w : Worker) (job : JobModel) (queue : Queue) :
    Py (Worker × After Bool) := do
  let w ← workerBeforeExecution env w job
  let r ← performAndStore env w job queue
  match r.2 with
  | .ok _ => do
      let (w, job) ← finishSuccess env w r.1
      pure (w, job, .ok true)
  | .error _ => do
      let (w, r) ← handleJobFailure env w r.1 queue "traceback"
      match r.2 with
      | .ok _ => pure (w, r.1, .ok false)
      | .error x => pure (w, r.1, .error x)

/-- `execute_job`. In a separate process the job is fetched again, a job that is gone is not
performed, and an exception ends that process only; the worker then refreshes its model from
what the process saved. -/
def executeJob (env : Env) (w : Worker) (job : JobModel) (queue : Queue) (fork : Bool) :
    Py Worker := do
  let job ← (if fork then JobModel.get env job.name else pure (some job))
  match job with
  | none => pure w
  | some job => do
      let r ← workerPerformJob env w job queue
      match r.2.2 with
      | .ok _ => pure r.1
      | .error x => if fork then pure r.1 else throw x

/-! ## The order of the queues -/

/-- `DequeueStrategy`. -/
inductive DequeueStrategy where
  | default | roundRobin | random
  deriving DecidableEq

/-- `RoundRobinWorker.reorder_queues`: the list of queues begins behind `referenceQueue`. -/
def rotateQueues (referenceQueue : Queue) (orderedQueues : List Queue) :
    Except PyError (List Queue) :=
  match orderedQueues.idxOf? referenceQueue with
  | none => .error (.valueError referenceQueue.name)
  | some pos => .ok (orderedQueues.drop (pos + 1) ++ orderedQueues.take (pos + 1))

/-- `Worker.reorder_queues`; `shuffle` is what `random.shuffle` makes of the list. -/
def reorderQueues (shuffle : List Queue → List Queue) (strategy : Option DequeueStrategy)
    (referenceQueue : Queue) (orderedQueues : List Queue) : Except PyError (List Queue) :=
  match strategy with
  | none | some .default => .ok orderedQueues
  | some .roundRobin => rotateQueues referenceQueue orderedQueues
  | some .random => .ok (shuffle orderedQueues)

/-- The classes of workers, as far as their `reorder_queues` differs. -/
inductive Kind where
  | worker (strategy : Option DequeueStrategy)
  | roundRobinWorker
  | randomWorker

/-- `reorder_queues`. -/
def Kind.reorder (shuffle : List Queue → List Queue) (referenceQueue : Queue)
    (orderedQueues : List Queue) : Kind → Except PyError (List Queue)
  | .worker strategy => reorderQueues shuffle strategy referenceQueue orderedQueues
  | .roundRobinWorker => rotateQueues referenceQueue orderedQueues
  | .randomWorker => .ok (shuffle orderedQueues)

/-! ## Dequeuing and executing -/

/-- The dequeuing of `dequeue_job_and_maintain_ttl`: a timeout is not an error. -/
def dequeueJob (env : Env) (queues : List Queue) (timeout : Option Int) (fuel : Nat) :
    Py (Option (JobModel × Queue)) :=
  (Queue.dequeueAny env queues timeout fuel).tryCatch fun x =>
    if x = .dequeueTimeout then pure none else throw x

/-- `rounds` rounds of the part of `work` that dequeues a job and executes it. Without a
timeout (`burst`) the loop ends when there is no job. -/
def work (env : Env) (queues : List Queue) (timeout : Option Int) (fork : Bool) (fuel : Nat)
    (w : Worker) : Nat → Py Worker
  | 0 => pure w
  | rounds + 1 => do
      match ← dequeueJob env queues timeout fuel with
      | none =>
          if timeout = none then pure w
          else work env queues timeout fork fuel w rounds
      | some (job, queue) => do
          let w ← executeJob env w job queue fork
          work env queues timeout fork fuel w rounds

end Worker

end DailyScheduler
