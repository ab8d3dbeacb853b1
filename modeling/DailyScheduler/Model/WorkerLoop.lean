import DailyScheduler.Model.Worker

set_option autoImplicit false

/-! # The loop of a worker and its commands

The parts of `worker/worker.py` and `worker/commands/` that several threads or processes run on the
record of one worker: suspending and resuming, monitoring the process that executes a job, and
stopping a job.
-/

namespace DailyScheduler

open AtomicProg

/-- `HSET` of one field of a worker's record. -/
def World.hsetWorker (w : World) (n : WorkerName) (f : WorkerField) (v : f.Ty) : World :=
  let h := (w.workers.find? n).getD fun _ => none
  { w with workers := w.workers.put n (Function.update h f (some v)) }

/-! ## One field of a worker's record -/

namespace World

/-- The field of the record of the worker. -/
def workerField (n : WorkerName) (f : WorkerField) (w : World) : Option f.Ty :=
  (w.workers.find? n).bind (· f)

variable {n : WorkerName} {f : WorkerField} {w : World}

theorem workerField_of_workers {w' : World} (h : w'.workers = w.workers) :
    w'.workerField n f = w.workerField n f := by
  unfold workerField
  rw [h]

theorem workerField_hsetWorker_of_ne {g : WorkerField} (hg : g ≠ f) (n' : WorkerName) (v : g.Ty) :
    (w.hsetWorker n' g v).workerField n f = w.workerField n f := by
  unfold workerField hsetWorker
  dsimp only
  rw [TtlMap.find?_put]
  split
  · rename_i h
    subst h
    rw [Option.bind_some, Function.update_of_ne hg.symm]
    cases w.workers.find? n <;> rfl
  · rfl

theorem workerField_hsetWorker (v : f.Ty) : (w.hsetWorker n f v).workerField n f = some v := by
  unfold workerField hsetWorker
  dsimp only
  rw [TtlMap.find?_put_self, Option.bind_some, Function.update_self]

theorem workerField_expireWorker (n' : WorkerName) (d : Int) :
    (w.expireWorker n' d).workerField n f = w.workerField n f := by
  unfold workerField expireWorker
  rw [TtlMap.find?_expireAt]

/-- A save writes the field of the copy, or leaves it. -/
theorem workerField_saveWorker (cfg : SchedulerConfiguration) (m : WorkerModel) (saveAll : Bool) :
    (w.saveWorker cfg m saveAll).workerField n f =
      if n = m.name ∧ m.written saveAll f = true then m.serialize f else w.workerField n f := by
  unfold workerField saveWorker
  dsimp only
  rw [TtlMap.find?_expireAt, TtlMap.find?_put]
  by_cases hn : n = m.name
  · subst hn
    rw [if_pos rfl, Option.bind_some]
    unfold Hash.merge
    cases m.written saveAll f with
    | true => simp
    | false =>
        simp only [Bool.false_eq_true, and_false, if_false]
        cases w.workers.find? m.name <;> rfl
  · rw [if_neg hn, if_neg fun h => hn h.1]

theorem workerField_advance {d : Nat} (h : ∀ t, w.workers.deadline n = some t → w.now + d < t) :
    (w.advance d).workerField n f = w.workerField n f := by
  unfold workerField advance
  dsimp only
  rw [TtlMap.find?_purge, if_pos h]

end World

namespace WorkerModel

/-- `deserialize`: the fields without a default must be there. -/
def deserialize (h : WorkerHash) : Option WorkerModel :=
  match h .name, h .state with
  | some name, some state => some {
      name := name
      state := state
      jobExecutionProcessPid := (h .jobExecutionProcessPid).getD 0
      successfulJobCount := (h .successfulJobCount).getD 0
      failedJobCount := (h .failedJobCount).getD 0
      completedJobs := (h .completedJobs).getD 0
      lastHeartbeat := h .lastHeartbeat
      isSuspended := (h .isSuspended).getD false
      currentJobName := h .currentJobName
      stoppedJobName := h .stoppedJobName
      totalWorkingTime := (h .totalWorkingTime).getD 0
      currentJobWorkingTime := (h .currentJobWorkingTime).getD 0
      dirtyFields := ∅
      saveAll := false }
  | _, _ => none

/-- What a loaded object has of the hash. -/
structure LoadedFrom (h : WorkerHash) (m : WorkerModel) : Prop where
  name : h .name = some m.name
  jobExecutionProcessPid : m.jobExecutionProcessPid = (h .jobExecutionProcessPid).getD 0
  successfulJobCount : m.successfulJobCount = (h .successfulJobCount).getD 0
  failedJobCount : m.failedJobCount = (h .failedJobCount).getD 0
  completedJobs : m.completedJobs = (h .completedJobs).getD 0
  isSuspended : m.isSuspended = (h .isSuspended).getD false
  currentJobName : m.currentJobName = h .currentJobName
  totalWorkingTime : m.totalWorkingTime = (h .totalWorkingTime).getD 0
  dirtyFields : m.dirtyFields = ∅
  saveAll : m.saveAll = false

theorem loadedFrom {h : WorkerHash} {m : WorkerModel} (hm : deserialize h = some m) :
    LoadedFrom h m := by
  unfold deserialize at hm
  split at hm
  · rename_i name state hname hstate
    cases hm
    exact ⟨hname, rfl, rfl, rfl, rfl, rfl, rfl, rfl, rfl, rfl⟩
  · cases hm

/-- `WorkerModel.get`. -/
def get (n : WorkerName) : Py (Option WorkerModel) :=
  Prog.read fun w => (w.workers.find? n).bind deserialize

def setState (m : WorkerModel) (s : WorkerStatus) : WorkerModel :=
  { m with state := s, dirtyFields := insert .state m.dirtyFields }

end WorkerModel

namespace Worker

/-- `self._model.set_field("state", s)`. -/
def setState (w : Worker) (s : WorkerStatus) : Py Worker := do
  Prog.write (·.hsetWorker w.model.name .state s)
  pure { w with model := w.model.setState s }

/-- `self._model.set_current_job_working_time(t)`. -/
def setCurrentJobWorkingTime (w : Worker) (t : Int) : Py Worker := do
  Prog.write (·.hsetWorker w.model.name .currentJobWorkingTime t)
  pure { w with model := w.model.setCurrentJobWorkingTime t }

/-- `refresh`. -/
def refresh (w : Worker) : Py Worker := do
  match ← WorkerModel.get w.name with
  | none => throw (.exception "WorkerNotFound")
  | some m => pure { w with model := m }

theorem refresh_eq (w : Worker) : w.refresh = .act id (fun _ => []) fun s =>
    match (s.workers.find? w.name).bind WorkerModel.deserialize with
    | none => .raise (.exception "WorkerNotFound")
    | some m => .ret { w with model := m } := rfl

/-- After a load there is nothing to do but to return. -/
theorem refresh_bind_pure {β : Type} (w : Worker) (f : Worker → β) :
    (do let w ← w.refresh
        pure (f w) : Py β) = .act id (fun _ => []) fun s =>
      match (s.workers.find? w.name).bind WorkerModel.deserialize with
      | none => .raise (.exception "WorkerNotFound")
      | some m => .ret (f { w with model := m }) := by
  rw [refresh_eq]
  refine congrArg (Prog.act id fun _ => []) (funext fun s => ?_)
  dsimp only
  cases (s.workers.find? w.name).bind WorkerModel.deserialize <;> rfl

/-! ## Suspending -/

/-- One evaluation of the condition of the loop of `_check_for_suspension`, and what follows: the worker
goes on waiting, or leaves the loop. `before` is `before_state`, which is there from the first round
on (`notified`). -/
def suspensionRound (burst : Bool) (w : Worker) (before : Option WorkerStatus) :
    Py (Worker × Option WorkerStatus) :=
  if w.model.isSuspended then
    if burst then throw (.exception "StopRequested")
    else match before with
      | none => do
          let w' ← w.setState .suspended
          pure (w', some w.model.state)
      | some s => pure (w, some s)
  else match before with
    | none => pure (w, none)
    | some s => do
        let w ← w.setState s
        pure (w, none)

/-! ## A pass with a job -/

/-- What `work` does with a job in a pass of its loop, without a fork: the load at the top, `execute_job`
and what follows it. An exception that `worker_perform_job` lets out ends the loop. -/
def workPass (env : Env) (w : Worker) (job : JobModel) (queue : Queue) : Py (Worker × JobModel) := do
  let w ← w.refresh
  let w ← w.setState .busy
  let (w, job, r) ← workerPerformJob env w job queue
  match r with
  | .error x => throw x
  | .ok _ => do
      let w ← w.setState .idle
      let w ← w.refresh
      let w ← w.heartbeat env 0
      let w ← w.saveModel env false
      pure (w, job)

/-- A pass for each of the jobs, and the jobs as the passes leave them. -/
def workAll (env : Env) (w : Worker) : List (JobModel × Queue) → Py (Worker × List JobModel)
  | [] => pure (w, [])
  | (job, queue) :: l => do
      let (w, job) ← w.workPass env job queue
      let (w, jobs) ← workAll env w l
      pure (w, job :: jobs)

/-! ## Monitoring -/

/-- The constructor that the forked process calls through `from_model`, and the first lines of
`execute_in_separate_process`. -/
def startProcess (env : Env) (w : Worker) : Py Worker := do
  let w ← saveModel env w true
  saveModel env { w with model := w.model.setJobExecutionProcessPid w.pid } false

/-- What the worker does after the fork. -/
def rememberProcess (env : Env) (w : Worker) (childPid : Int) : Py Worker :=
  saveModel env { w with model := w.model.setJobExecutionProcessPid childPid } false

/-- What `monitor_job_execution_process` does when the monitoring interval is over, and whether it kills
the process. -/
def monitoringTick (env : Env) (w : Worker) (job : JobModel) : Py (Worker × Bool) := do
  let w ← match job.startedAt with
    | none => pure w
    | some startedAt => do
        let now ← utcnow
        w.setCurrentJobWorkingTime (now - startedAt)
  let kill := job.timeout ≠ -1 ∧ w.model.currentJobWorkingTime > secs (job.timeout + 60)
  let w ← w.heartbeat env (w.jobMonitoringInterval + 60)
  pure (w, decide kill)

/-- What it does after the process has ended and the record was loaded. -/
def resetWorkingTime (env : Env) (w : Worker) : Py Worker :=
  saveModel env { w with model := w.model.setCurrentJobWorkingTime 0 } false

end Worker

/-! ## Commands -/

/-- `SuspendWorkCommand.process_command`, and whether the worker was found. -/
def SuspendWorkCommand.processCommand (n : WorkerName) : Py Bool := do
  match ← WorkerModel.get n with
  | none => pure false
  | some m =>
      if m.isSuspended then pure true
      else do
        Prog.write (·.hsetWorker n .isSuspended true)
        pure true

/-- `ResumeWorkCommand.process_command`, and whether the worker was found. -/
def ResumeWorkCommand.processCommand (n : WorkerName) : Py Bool := do
  match ← WorkerModel.get n with
  | none => pure false
  | some m =>
      if m.isSuspended then do
        Prog.write (·.hsetWorker n .isSuspended false)
        pure true
      else pure true

/-- `StopJobCommand.process_command` up to the signal, and whether the command was not ignored. `pid` is
the process of the worker. -/
def StopJobCommand.processCommand (env : Env) (n : WorkerName) (pid : Int) (jobName : JobName) :
    Py Bool := do
  let workerModel ← WorkerModel.get n
  let jobModel ← JobModel.get env jobName
  match workerModel, jobModel with
  | some m, some _ =>
      if m.jobExecutionProcessPid = 0 then pure false
      else if pid = m.jobExecutionProcessPid then pure false
      else if m.currentJobName ≠ some jobName then pure false
      else do
        Prog.write (·.hsetWorker n .stoppedJobName jobName)
        pure true
  | _, _ => pure false

end DailyScheduler
