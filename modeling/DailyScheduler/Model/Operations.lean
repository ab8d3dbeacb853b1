import DailyScheduler.Model.Effects

set_option autoImplicit false

/-! # Operations on the jobs of queues

What clients, workers and the admin pages do with jobs, one method call at a time, and the
passage of time between them. An execution is two operations, its start and its end, so that
others can come in between. A run is a list of operations; what holds at the boundaries
between them is a property of `Run.Along (Op.step env)`.
-/

namespace DailyScheduler

open AtomicProg

inductive Op where
  | tick (d : Nat)
  /-- `create_and_enqueue_job`. -/
  | create (q : Queue) (a : JobArgs) (when' : Queue.When) (atFront : Bool)
  /-- `enqueue_job`. -/
  | enqueue (q : Queue) (job : JobModel) (atFront : Bool)
  /-- `_enqueue_multiple_jobs`. -/
  | requeue (q : Queue) (names : List JobName) (atFront : Bool)
  /-- `job_action` with `ENQUEUE`. -/
  | actionEnqueue (q : Queue) (job : JobModel)
  /-- `dequeue_any`, followed by `prepare_for_execution` of the job it returns. -/
  | start (queues : List Queue) (timeout : Option Int) (worker : WorkerName) (fuel : Nat)
  /-- `prepare_for_execution` of a job at hand, as in `run_sync`. -/
  | prepare (q : Queue) (job : JobModel) (worker : WorkerName)
  /-- `job_handle_success`. -/
  | success (q : Queue) (job : JobModel) (result : PyValue) (jobInfoTtl resultTtl : Int)
  /-- The end of a successful execution by a worker: `queue_perform_job` saves the job,
  `handle_job_success` calls `job_handle_success` and `expire`. -/
  | finish (q : Queue) (job : JobModel) (result : PyValue)
  /-- `job_handle_failure`. -/
  | failure (q : Queue) (status : JobStatus) (job : JobModel) (excString : String)
  /-- `cancel_job`. -/
  | cancel (q : Queue) (n : JobName)
  /-- `delete_job`. -/
  | delete (q : Queue) (n : JobName) (expireJobModel : Bool)
  /-- `clean_registries`. -/
  | clean (q : Queue) (timestamp : Option Int)
  /-- `count`. -/
  | count (q : Queue)
  /-- `get_all_job_names`. -/
  | list (q : Queue)
  /-- `_clear_registry`. -/
  | clear (q : Queue) (k : RegistryKind)

namespace Op

/-- The program of `start`. -/
def startNext (env : Env) (queues : List Queue) (timeout : Option Int) (worker : WorkerName)
    (fuel : Nat) : Py Unit := do
  match ← Queue.dequeueAny env queues timeout fuel with
  | none => pure ()
  | some (job, q) => do
      let _ ← After.get (job.prepareForExecution worker q.activeJobRegistry)

/-- The program of `finish`. -/
def finishJob (q : Queue) (job : JobModel) (result : PyValue) : Py Unit := do
  let (job, _) ← After.get (job.save true)
  let (job, _) ← After.get (q.jobHandleSuccess job result job.jobInfoTtl job.successTtl)
  let _ ← job.expire job.successTtl

/-- What an operation does. -/
def program (env : Env) : Op → Py Unit
  | .tick d => Prog.write (·.advance d)
  | .create q a when' atFront => do
      let _ ← q.createAndEnqueueJob env a when' atFront
  | .enqueue q job atFront => do
      let _ ← q.enqueueJob env job atFront
  | .requeue q names atFront => enqueueMultipleJobs env q names atFront
  | .actionEnqueue q job => jobActionEnqueue env q job
  | .start queues timeout worker fuel => startNext env queues timeout worker fuel
  | .prepare q job worker => do
      let _ ← After.get (job.prepareForExecution worker q.activeJobRegistry)
  | .success q job result ttl resultTtl => do
      let _ ← After.get (q.jobHandleSuccess job result ttl resultTtl)
  | .finish q job result => finishJob q job result
  | .failure q status job excString => do
      let _ ← After.get (q.jobHandleFailure env status job excString)
  | .cancel q n => q.cancelJob env n
  | .delete q n e => q.deleteJob env n e
  | .clean q timestamp => q.cleanRegistries env timestamp
  | .count q => do
      let _ ← q.count
  | .list q => do
      let _ ← q.getAllJobNames
  | .clear q k => clearRegistry env ⟨q.name, k⟩

/-- The world after an operation, whether it returned or raised. -/
def step (env : Env) (w : World) (op : Op) : World := (op.program env).exec w

/-- What happened in an operation. -/
def events (env : Env) (w : World) (op : Op) : List Event := ((op.program env).run w).trace

/-! ## The world after an operation whose result is not used -/

section Steps

variable (env : Env) (w : World) (q : Queue) (job : JobModel)

theorem step_create (a : JobArgs) (when' : Queue.When) (atFront : Bool) :
    step env w (.create q a when' atFront) = (q.createAndEnqueueJob env a when' atFront).exec w :=
  exec_ignore _ w

theorem step_enqueue (atFront : Bool) :
    step env w (.enqueue q job atFront) = (q.enqueueJob env job atFront).exec w :=
  exec_ignore _ w

theorem step_prepare (worker : WorkerName) :
    step env w (.prepare q job worker)
      = (job.prepareForExecution worker q.activeJobRegistry).exec w :=
  (exec_ignore _ w).trans (After.exec_get _ w)

theorem step_success (v : PyValue) (ttl resultTtl : Int) :
    step env w (.success q job v ttl resultTtl)
      = (q.jobHandleSuccess job v ttl resultTtl).exec w :=
  (exec_ignore _ w).trans (After.exec_get _ w)

theorem step_failure (status : JobStatus) (s : String) :
    step env w (.failure q status job s) = (q.jobHandleFailure env status job s).exec w :=
  (exec_ignore _ w).trans (After.exec_get _ w)

theorem step_count : step env w (.count q) = q.count.exec w := exec_ignore _ w

theorem step_list : step env w (.list q) = q.getAllJobNames.exec w := exec_ignore _ w

/-- The end of a successful execution: nothing happens when the job cannot be encoded, and the
record is not expired when the result cannot. -/
theorem exec_finishJob (v : PyValue) :
    (finishJob q job v).exec w = if job.serializable = false then w
      else if job.successTtl = 0 ∨ v.encodes = true then
        job.expired job.successTtl
          ((q.jobHandleSuccess job.saved v job.jobInfoTtl job.successTtl).exec
            (w.saveJob job true))
      else (q.jobHandleSuccess job.saved v job.jobInfoTtl job.successTtl).exec
        (w.saveJob job true) := by
  cases hs : job.serializable with
  | false => simp [finishJob, Prog.exec, Prog.run_bind, JobModel.run_get_save, hs]
  | true =>
      have hs' : job.saved.serializable = true := hs
      have hsave : (After.get (job.save true)).run w
          = ⟨.ok (job.saved, ()), w.saveJob job true, []⟩ := by
        rw [JobModel.run_get_save, if_pos hs]
      have hrun := Queue.run_jobHandleSuccess q hs' v job.jobInfoTtl job.successTtl
        (w.saveJob job true)
      have hexec := Prog.exec_eq_of_run hrun
      by_cases hr : job.successTtl = 0 ∨ v.encodes = true
      · rw [if_pos hr] at hrun
        have hget := After.run_get_ok hrun
        rw [if_neg (by simp), if_pos hr, hexec]
        simp only [finishJob, Prog.exec, Prog.run_bind, hsave, hget, Prog.Outcome.andThen_ok,
          JobModel.run_expire, Prog.pure_eq, Prog.run_ret, JobModel.saved_successTtl,
          JobModel.saved_jobInfoTtl, JobModel.ended_successTtl]
        exact JobModel.expired_congr (by simp) _ _
      · rw [if_neg hr] at hrun
        have hget := After.run_get_error hrun
        rw [if_neg (by simp), if_neg hr, hexec]
        simp only [finishJob, Prog.exec, Prog.run_bind, hsave, hget, Prog.Outcome.andThen_ok,
          Prog.Outcome.andThen_error, JobModel.saved_successTtl, JobModel.saved_jobInfoTtl]

end Steps

end Op

end DailyScheduler
