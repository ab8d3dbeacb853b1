import DailyScheduler.Model.Worker

set_option autoImplicit false

/-! # A small configuration

Two queues, `q` with workers and `s` without, and user code that answers at once. The
concrete runs of the development use it.
-/

namespace DailyScheduler.Sample

open AtomicProg

/-- User code that ends as `r` and does nothing else. -/
def quietCode (r : Except PyError PyValue) (job : JobModel) : Py CallOutcome :=
  pure { val := r, metadata := job.metadata, coroutine := none }

/-- `ok` returns, `bad` returns a dictionary that no encoder accepts, `fail` raises an exception
and `exit` one that `except Exception` does not catch; nothing else can be imported. -/
def callables : String → Except PyError (JobModel → Py CallOutcome)
  | "ok" => .ok (quietCode (.ok .none))
  | "bad" => .ok (quietCode (.ok (.dict [(.str "a", .set [])])))
  | "fail" => .ok (quietCode (.error (.exception "fail")))
  | "exit" => .ok (quietCode (.error (.baseException "SystemExit")))
  | s => .error (.attributeError s)

def env : Env where
  config := {}
  queues := fun q => if q = "q" then some true else if q = "s" then some false else none
  callableFunc := callables
  croniter := fun _ => none
  callableValue := fun _ => .ok .none
  fromisoformat := fun _ => none
  useTz := false
  naiveTimestamp := id

def queue : Queue := ⟨"q", true⟩

def syncQueue : Queue := ⟨"s", false⟩

/-- The arguments of a job that runs `func` and has no callbacks. -/
def args (func : String) : JobArgs where
  funcName := func
  args := .list []
  kwargs := .dict []
  resultTtl := none
  jobInfoTtl := none
  description := func
  timeout := none
  name := none
  taskType := none
  scheduledTaskId := none
  metadata := .dict []
  onSuccess := none
  onFailure := none
  onStopped := none

/-- A job of the queue `q`, as `create` makes it. -/
def job (n : JobName) : JobModel := JobModel.new {} (args "ok") "q" n .queued 0

def worker (n : WorkerName) : Worker where
  name := n
  pid := 1
  jobMonitoringInterval := 30
  model := {
    name := n
    state := .idle
    jobExecutionProcessPid := 0
    successfulJobCount := 0
    failedJobCount := 0
    completedJobs := 0
    lastHeartbeat := none
    isSuspended := false
    currentJobName := none
    stoppedJobName := none
    totalWorkingTime := 0
    currentJobWorkingTime := 0
    dirtyFields := ∅
    saveAll := true }

/-- The world in which the records of the names `l` exist, and nothing else. -/
def worldWith (l : List JobName) : World :=
  l.foldl (fun w n => w.saveJob (job n) true) (World.init 0)

/-- A one-off task at the time `s`. -/
def onceTask (s : Int) : Task where
  id := 7
  name := "t"
  taskType := .once
  callable := "ok"
  enabled := true
  queue := "q"
  jobName := none
  atFront := false
  timeout := none
  resultTtl := none
  failedRuns := 0
  successfulRuns := 0
  lastSuccessfulRun := none
  lastFailedRun := none
  interval := none
  intervalUnit := none
  «repeat» := none
  scheduledTime := some s
  cronString := none

end DailyScheduler.Sample
