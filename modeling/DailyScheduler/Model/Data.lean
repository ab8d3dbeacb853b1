import DailyScheduler.Model.Value

set_option autoImplicit false

/-! # Job, worker and task records

The dataclasses `JobModel` and `WorkerModel` (`redis_models/job.py`, `redis_models/worker.py`)
with the hashes they are stored in, and the Django model `Task` (`models/task.py`).

A hash is a function from field names to stored values; a field that is absent is `none`. An
in-memory object has typed attributes, so a required attribute cannot be missing from it,
whereas a stored hash may lack any field. `JobModel.serialize` and `JobModel.deserialize` go
between the two, and the object remembers which attributes were assigned since it was last
saved (`dirtyFields`), as `HashModel.__setattr__` does.

All times are integers counting microseconds since the epoch. The code's own durations are
in seconds; `secs` converts them.
-/

namespace DailyScheduler

abbrev JobName := String
abbrev QueueName := String
abbrev WorkerName := String

/-- A number of seconds, in microseconds. -/
def secs (n : Int) : Int := n * 1000000

/-- `current_timestamp`: the clock cut down to whole seconds. -/
def currentTimestamp (now : Int) : Int := secs (now.tdiv 1000000)

theorem currentTimestamp_mono {a b : Int} (h : a ≤ b) :
    currentTimestamp a ≤ currentTimestamp b := by
  unfold currentTimestamp secs
  have hsign : Int.sign 1000000 = 1 := by decide
  rw [Int.tdiv_eq_ediv, Int.tdiv_eq_ediv, hsign]
  split <;> split <;> omega

theorem currentTimestamp_secs (n : Int) : currentTimestamp (secs n) = secs n := by
  unfold currentTimestamp secs
  rw [Int.mul_tdiv_cancel _ (by decide)]

/-- Whole seconds are not cut down further. -/
@[simp] theorem currentTimestamp_currentTimestamp (a : Int) :
    currentTimestamp (currentTimestamp a) = currentTimestamp a := currentTimestamp_secs _

/-- `JobStatus`. -/
inductive JobStatus where
  | scheduled | queued | canceled | started | finished | failed | stopped
  deriving DecidableEq

/-- The registries of a queue (`Queue.REGISTRIES`). -/
inductive RegistryKind where
  | finished | failed | scheduled | active | canceled | queued
  deriving DecidableEq

/-- `TaskType`. -/
inductive TaskType where
  | cron | repeatable | once
  deriving DecidableEq

/-! ## Hashes -/

/-- The hash that holds the fields `F` of a record, the value of `f` being of type `Ty f`. -/
abbrev Hash (F : Type) (Ty : F → Type) := (f : F) → Option (Ty f)

/-- The hash after `HDEL` and `HSET` of the selected fields: a selected field takes its new
value, and is removed when it has none. -/
def Hash.merge {F : Type} {Ty : F → Type} (sel : F → Bool) (new old : Hash F Ty) : Hash F Ty :=
  fun f => if sel f then new f else old f

/-- A key whose last field is removed disappears. -/
def Hash.nonempty {F : Type} {Ty : F → Type} (fields : List F) (h : Hash F Ty) : Bool :=
  fields.any (fun f => (h f).isSome)

theorem Hash.nonempty_of_field {F : Type} {Ty : F → Type} {fields : List F} {h : Hash F Ty}
    {f : F} (hf : f ∈ fields) {v : Ty f} (hv : h f = some v) : h.nonempty fields = true :=
  List.any_eq_true.2 ⟨f, hf, by rw [hv]; rfl⟩

/-! ## Jobs -/

inductive JobField where
  | name | createdAt | args | kwargs | queueName | description | funcName | timeout
  | successTtl | jobInfoTtl | atFront | lastHeartbeat | workerName | startedAt | enqueuedAt
  | endedAt | successCallbackName | successCallbackTimeout | failureCallbackName
  | failureCallbackTimeout | stoppedCallbackName | stoppedCallbackTimeout | taskType
  | scheduledTaskId | status | metadata
  deriving DecidableEq

namespace JobField

/-- The type of a stored field. -/
@[reducible] def Ty : JobField → Type
  | .name | .queueName | .description | .funcName | .workerName | .successCallbackName
  | .failureCallbackName | .stoppedCallbackName => String
  | .createdAt | .lastHeartbeat | .startedAt | .enqueuedAt | .endedAt => Int
  | .args | .kwargs | .metadata => PyValue
  | .timeout | .successTtl | .jobInfoTtl | .successCallbackTimeout | .failureCallbackTimeout
  | .stoppedCallbackTimeout => Int
  | .atFront => Bool
  | .taskType => TaskType
  | .scheduledTaskId => Nat
  | .status => JobStatus

def all : List JobField :=
  [.name, .createdAt, .args, .kwargs, .queueName, .description, .funcName, .timeout,
    .successTtl, .jobInfoTtl, .atFront, .lastHeartbeat, .workerName, .startedAt, .enqueuedAt,
    .endedAt, .successCallbackName, .successCallbackTimeout, .failureCallbackName,
    .failureCallbackTimeout, .stoppedCallbackName, .stoppedCallbackTimeout, .taskType,
    .scheduledTaskId, .status, .metadata]

theorem mem_all (f : JobField) : f ∈ all := by cases f <;> decide

end JobField

abbrev JobHash := Hash JobField JobField.Ty

/-- A `JobModel` object. -/
structure JobModel where
  name : JobName
  createdAt : Int
  args : PyValue
  kwargs : PyValue
  queueName : QueueName
  description : String
  funcName : String
  timeout : Int
  successTtl : Int
  jobInfoTtl : Int
  atFront : Option Bool
  lastHeartbeat : Option Int
  workerName : Option WorkerName
  startedAt : Option Int
  enqueuedAt : Option Int
  endedAt : Option Int
  successCallbackName : Option String
  successCallbackTimeout : Option Int
  failureCallbackName : Option String
  failureCallbackTimeout : Option Int
  stoppedCallbackName : Option String
  stoppedCallbackTimeout : Option Int
  taskType : Option TaskType
  scheduledTaskId : Option Nat
  status : JobStatus
  metadata : PyValue
  dirtyFields : Finset JobField
  saveAll : Bool

/-- The configuration values the code reads (`SchedulerConfiguration`). -/
structure SchedulerConfiguration where
  SCHEDULER_INTERVAL : Int := 10
  CALLBACK_TIMEOUT : Int := 60
  DEFAULT_SUCCESS_TTL : Int := 10 * 60
  DEFAULT_FAILURE_TTL : Int := 365 * 24 * 60 * 60
  DEFAULT_JOB_TTL : Int := 10 * 60
  DEFAULT_JOB_TIMEOUT : Int := 5 * 60
  DEFAULT_WORKER_TTL : Int := 10 * 60

namespace JobModel

/-- `JobModel.serialize`: the stored value of each field, `none` for an attribute that is
`None`. Of `meta`, which is stored as JSON, this is the value that is read of the text. -/
def serialize (j : JobModel) : JobHash
  | .name => some j.name
  | .createdAt => some j.createdAt
  | .args => some j.args
  | .kwargs => some j.kwargs
  | .queueName => some j.queueName
  | .description => some j.description
  | .funcName => some j.funcName
  | .timeout => some j.timeout
  | .successTtl => some j.successTtl
  | .jobInfoTtl => some j.jobInfoTtl
  | .atFront => j.atFront
  | .lastHeartbeat => j.lastHeartbeat
  | .workerName => j.workerName
  | .startedAt => j.startedAt
  | .enqueuedAt => j.enqueuedAt
  | .endedAt => j.endedAt
  | .successCallbackName => j.successCallbackName
  | .successCallbackTimeout => j.successCallbackTimeout
  | .failureCallbackName => j.failureCallbackName
  | .failureCallbackTimeout => j.failureCallbackTimeout
  | .stoppedCallbackName => j.stoppedCallbackName
  | .stoppedCallbackTimeout => j.stoppedCallbackTimeout
  | .taskType => j.taskType
  | .scheduledTaskId => j.scheduledTaskId
  | .status => some j.status
  | .metadata => some j.metadata.readBack

/-- Whether encoding the attributes raises: `serialize` encodes `args`, `kwargs` and `meta`
with `_serialize`, which may reject them. -/
def serializable (j : JobModel) : Bool := j.args.encodes && j.kwargs.encodes && j.metadata.encodes

/-- `JobModel.deserialize` of the hash at the key of `n`: `none` when it raises, that is when
a field without a default is absent. It assigns `args` and `kwargs` after the object was made, so that
these two count as changed. -/
def deserialize (cfg : SchedulerConfiguration) (n : JobName) (h : JobHash) : Option JobModel := do
  let _ ← h .name
  let createdAt ← h .createdAt
  let args ← h .args
  let kwargs ← h .kwargs
  let queueName ← h .queueName
  let description ← h .description
  let funcName ← h .funcName
  let status ← h .status
  let metadata ← h .metadata
  some {
    name := n
    createdAt := createdAt
    args := args
    kwargs := kwargs
    queueName := queueName
    description := description
    funcName := funcName
    timeout := (h .timeout).getD cfg.DEFAULT_JOB_TIMEOUT
    successTtl := (h .successTtl).getD cfg.DEFAULT_SUCCESS_TTL
    jobInfoTtl := (h .jobInfoTtl).getD cfg.DEFAULT_JOB_TTL
    atFront := some ((h .atFront).getD false)
    lastHeartbeat := h .lastHeartbeat
    workerName := h .workerName
    startedAt := h .startedAt
    enqueuedAt := h .enqueuedAt
    endedAt := h .endedAt
    successCallbackName := h .successCallbackName
    successCallbackTimeout := some ((h .successCallbackTimeout).getD cfg.CALLBACK_TIMEOUT)
    failureCallbackName := h .failureCallbackName
    failureCallbackTimeout := some ((h .failureCallbackTimeout).getD cfg.CALLBACK_TIMEOUT)
    stoppedCallbackName := h .stoppedCallbackName
    stoppedCallbackTimeout := some ((h .stoppedCallbackTimeout).getD cfg.CALLBACK_TIMEOUT)
    taskType := h .taskType
    scheduledTaskId := h .scheduledTaskId
    status := status
    metadata := metadata
    dirtyFields := {.args, .kwargs}
    saveAll := false }

/-! Assigning an attribute records it as changed (`HashModel.__setattr__`). -/

def setStatus (j : JobModel) (s : JobStatus) : JobModel :=
  { j with status := s, dirtyFields := insert .status j.dirtyFields }

def setStartedAt (j : JobModel) (t : Option Int) : JobModel :=
  { j with startedAt := t, dirtyFields := insert .startedAt j.dirtyFields }

def setEndedAt (j : JobModel) (t : Option Int) : JobModel :=
  { j with endedAt := t, dirtyFields := insert .endedAt j.dirtyFields }

def setEnqueuedAt (j : JobModel) (t : Option Int) : JobModel :=
  { j with enqueuedAt := t, dirtyFields := insert .enqueuedAt j.dirtyFields }

def setLastHeartbeat (j : JobModel) (t : Option Int) : JobModel :=
  { j with lastHeartbeat := t, dirtyFields := insert .lastHeartbeat j.dirtyFields }

def setWorkerName (j : JobModel) (w : Option WorkerName) : JobModel :=
  { j with workerName := w, dirtyFields := insert .workerName j.dirtyFields }

/-- The object after a successful save. -/
def saved (j : JobModel) : JobModel := { j with dirtyFields := ∅, saveAll := false }

@[simp] theorem setStatus_name (j : JobModel) (s : JobStatus) : (j.setStatus s).name = j.name := rfl
@[simp] theorem setStartedAt_name (j : JobModel) (t : Option Int) :
    (j.setStartedAt t).name = j.name := rfl
@[simp] theorem setEndedAt_name (j : JobModel) (t : Option Int) :
    (j.setEndedAt t).name = j.name := rfl
@[simp] theorem setEnqueuedAt_name (j : JobModel) (t : Option Int) :
    (j.setEnqueuedAt t).name = j.name := rfl
@[simp] theorem setLastHeartbeat_name (j : JobModel) (t : Option Int) :
    (j.setLastHeartbeat t).name = j.name := rfl
@[simp] theorem setWorkerName_name (j : JobModel) (w : Option WorkerName) :
    (j.setWorkerName w).name = j.name := rfl
@[simp] theorem saved_name (j : JobModel) : j.saved.name = j.name := rfl
@[simp] theorem saved_status (j : JobModel) : j.saved.status = j.status := rfl
@[simp] theorem saved_funcName (j : JobModel) : j.saved.funcName = j.funcName := rfl
@[simp] theorem saved_successTtl (j : JobModel) : j.saved.successTtl = j.successTtl := rfl
@[simp] theorem saved_jobInfoTtl (j : JobModel) : j.saved.jobInfoTtl = j.jobInfoTtl := rfl

/-- The fields a save writes. -/
def written (j : JobModel) (saveAll : Bool) (f : JobField) : Bool :=
  saveAll || j.saveAll || decide (f ∈ j.dirtyFields)

/-- The hash that a save turns the hash `h` into. -/
def storedOver (j : JobModel) (saveAll : Bool) (h : JobHash) : JobHash :=
  Hash.merge (j.written saveAll) j.serialize h

end JobModel

/-- The fields without a default value: a hash that lacks one of them does not deserialize. -/
def JobHash.complete (h : JobHash) : Bool :=
  [JobField.name, .createdAt, .args, .kwargs, .queueName, .description, .funcName, .status,
    .metadata].all (fun f => (h f).isSome)

theorem JobHash.complete_iff (h : JobHash) :
    h.complete = true ↔ (h .name).isSome ∧ (h .createdAt).isSome ∧ (h .args).isSome ∧
      (h .kwargs).isSome ∧ (h .queueName).isSome ∧ (h .description).isSome ∧
      (h .funcName).isSome ∧ (h .status).isSome ∧ (h .metadata).isSome := by
  simp [complete]

/-- A hash deserializes exactly when it is complete. -/
theorem JobModel.deserialize_isSome_iff (cfg : SchedulerConfiguration) (n : JobName)
    (h : JobHash) : (JobModel.deserialize cfg n h).isSome ↔ h.complete = true := by
  rw [JobHash.complete_iff]
  unfold JobModel.deserialize
  rcases h .name with _ | _
  · simp
  rcases h .createdAt with _ | _
  · simp
  rcases h .args with _ | _
  · simp
  rcases h .kwargs with _ | _
  · simp
  rcases h .queueName with _ | _
  · simp
  rcases h .description with _ | _
  · simp
  rcases h .funcName with _ | _
  · simp
  rcases h .status with _ | _
  · simp
  rcases h .metadata with _ | _
  · simp
  simp

/-- What is known of an object that was loaded from the hash `h` at the key of `n`. -/
structure JobModel.LoadedFrom (cfg : SchedulerConfiguration) (n : JobName) (h : JobHash)
    (j : JobModel) : Prop where
  name : j.name = n
  status : h .status = some j.status
  queueName : h .queueName = some j.queueName
  args : h .args = some j.args
  kwargs : h .kwargs = some j.kwargs
  metadata : h .metadata = some j.metadata
  timeout : j.timeout = (h .timeout).getD cfg.DEFAULT_JOB_TIMEOUT
  jobInfoTtl : j.jobInfoTtl = (h .jobInfoTtl).getD cfg.DEFAULT_JOB_TTL
  dirtyFields : j.dirtyFields = {.args, .kwargs}
  saveAll : j.saveAll = false

theorem JobModel.loadedFrom_of_deserialize {cfg : SchedulerConfiguration} {n : JobName}
    {h : JobHash} {j : JobModel} (hj : JobModel.deserialize cfg n h = some j) :
    JobModel.LoadedFrom cfg n h j := by
  simp only [JobModel.deserialize, Option.bind_eq_bind, Option.bind_eq_some_iff,
    Option.some.injEq] at hj
  obtain ⟨_, -, _, -, _, h3, _, h4, _, h5, _, -, _, -, _, h8, _, h9, rfl⟩ := hj
  exact ⟨rfl, h8, h5, h3, h4, h9, rfl, rfl, rfl, rfl⟩

/-- No save makes a complete hash incomplete: the required fields always have a value. -/
theorem JobHash.complete_storedOver (j : JobModel) (sa : Bool) {h : JobHash}
    (hc : h.complete = true) : (j.storedOver sa h).complete = true := by
  rw [JobHash.complete_iff] at hc ⊢
  obtain ⟨h1, h2, h3, h4, h5, h6, h7, h8, h9⟩ := hc
  simp only [JobModel.storedOver, Hash.merge, JobModel.serialize]
  refine ⟨?_, ?_, ?_, ?_, ?_, ?_, ?_, ?_, ?_⟩ <;> split <;> first | rfl | assumption

/-- Saving every field writes a complete hash. -/
theorem JobHash.complete_storedOver_of_saveAll (j : JobModel) {sa : Bool} (h : JobHash)
    (hs : sa = true ∨ j.saveAll = true) : (j.storedOver sa h).complete = true := by
  have hw : ∀ f, j.written sa f = true := by
    intro f
    rcases hs with hs | hs <;> simp [JobModel.written, hs]
  rw [JobHash.complete_iff]
  simp [JobModel.storedOver, Hash.merge, hw, JobModel.serialize]

/-- A complete hash is not empty. -/
theorem JobHash.nonempty_of_complete {h : JobHash} (hc : h.complete = true) :
    h.nonempty JobField.all = true := by
  obtain ⟨v, hv⟩ := Option.isSome_iff_exists.1 ((JobHash.complete_iff h).1 hc).1
  exact Hash.nonempty_of_field (JobField.mem_all .name) hv

/-! ## Workers -/

/-- `WorkerStatus`. -/
inductive WorkerStatus where
  | created | starting | started | suspended | busy | idle | stopped
  deriving DecidableEq

/-- The fields of a worker record that executing a job reads or writes. -/
inductive WorkerField where
  | name | state | jobExecutionProcessPid | successfulJobCount | failedJobCount
  | completedJobs | lastHeartbeat | isSuspended | currentJobName | stoppedJobName
  | totalWorkingTime | currentJobWorkingTime
  deriving DecidableEq

namespace WorkerField

@[reducible] def Ty : WorkerField → Type
  | .name | .currentJobName | .stoppedJobName => String
  | .state => WorkerStatus
  | .jobExecutionProcessPid | .successfulJobCount | .failedJobCount | .completedJobs => Int
  | .lastHeartbeat | .totalWorkingTime | .currentJobWorkingTime => Int
  | .isSuspended => Bool

end WorkerField

abbrev WorkerHash := Hash WorkerField WorkerField.Ty

/-- A `WorkerModel` object; working times are in microseconds. -/
structure WorkerModel where
  name : WorkerName
  state : WorkerStatus
  jobExecutionProcessPid : Int
  successfulJobCount : Int
  failedJobCount : Int
  completedJobs : Int
  lastHeartbeat : Option Int
  isSuspended : Bool
  currentJobName : Option JobName
  stoppedJobName : Option JobName
  totalWorkingTime : Int
  currentJobWorkingTime : Int
  dirtyFields : Finset WorkerField
  saveAll : Bool

namespace WorkerModel

/-- `BaseModel.serialize` of a worker. -/
def serialize (m : WorkerModel) : WorkerHash
  | .name => some m.name
  | .state => some m.state
  | .jobExecutionProcessPid => some m.jobExecutionProcessPid
  | .successfulJobCount => some m.successfulJobCount
  | .failedJobCount => some m.failedJobCount
  | .completedJobs => some m.completedJobs
  | .lastHeartbeat => m.lastHeartbeat
  | .isSuspended => some m.isSuspended
  | .currentJobName => m.currentJobName
  | .stoppedJobName => m.stoppedJobName
  | .totalWorkingTime => some m.totalWorkingTime
  | .currentJobWorkingTime => some m.currentJobWorkingTime

def setCurrentJobName (m : WorkerModel) (n : Option JobName) : WorkerModel :=
  { m with currentJobName := n, dirtyFields := insert .currentJobName m.dirtyFields }

def setCurrentJobWorkingTime (m : WorkerModel) (t : Int) : WorkerModel :=
  { m with currentJobWorkingTime := t,
           dirtyFields := insert .currentJobWorkingTime m.dirtyFields }

def setJobExecutionProcessPid (m : WorkerModel) (pid : Int) : WorkerModel :=
  { m with jobExecutionProcessPid := pid,
           dirtyFields := insert .jobExecutionProcessPid m.dirtyFields }

def setLastHeartbeat (m : WorkerModel) (t : Option Int) : WorkerModel :=
  { m with lastHeartbeat := t, dirtyFields := insert .lastHeartbeat m.dirtyFields }

def addSuccessfulJob (m : WorkerModel) : WorkerModel :=
  { m with successfulJobCount := m.successfulJobCount + 1,
           dirtyFields := insert .successfulJobCount m.dirtyFields }

def addFailedJob (m : WorkerModel) : WorkerModel :=
  { m with failedJobCount := m.failedJobCount + 1,
           dirtyFields := insert .failedJobCount m.dirtyFields }

def addCompletedJob (m : WorkerModel) : WorkerModel :=
  { m with completedJobs := m.completedJobs + 1,
           dirtyFields := insert .completedJobs m.dirtyFields }

/-- `total_working_time_ms += (ended_at - started_at).microseconds / 1000.0`, where both times
are known. Only the microseconds of the difference are added, not its seconds. -/
def addWorkingTime (m : WorkerModel) (started ended : Option Int) : WorkerModel :=
  match started, ended with
  | some s, some e =>
      { m with totalWorkingTime := m.totalWorkingTime + (e - s) % 1000000,
               dirtyFields := insert .totalWorkingTime m.dirtyFields }
  | _, _ => m

def saved (m : WorkerModel) : WorkerModel := { m with dirtyFields := ∅, saveAll := false }

/-- The fields a save writes. -/
def written (m : WorkerModel) (saveAll : Bool) (f : WorkerField) : Bool :=
  saveAll || m.saveAll || decide (f ∈ m.dirtyFields)

end WorkerModel

/-! ## Results -/

/-- `ResultType`. -/
inductive ResultType where
  | successful | failed | stopped
  deriving DecidableEq

/-- A result of a job. `V` is the type of its return value: a value in an object, an encoded one in the
stream of the job. -/
structure Result (V : Type) where
  parent : JobName
  type : ResultType
  workerName : WorkerName
  ttl : Int
  createdAt : Int
  returnValue : V
  excString : Option String

/-- The result with another form of its return value. -/
def Result.map {V V' : Type} (f : V → V') (r : Result V) : Result V' where
  parent := r.parent
  type := r.type
  workerName := r.workerName
  ttl := r.ttl
  createdAt := r.createdAt
  returnValue := f r.returnValue
  excString := r.excString

/-! ## Tasks -/

/-- `Task.TimeUnits`. -/
inductive TimeUnit where
  | seconds | minutes | hours | days | weeks
  deriving DecidableEq

/-- The length of a unit in seconds. -/
def TimeUnit.length : TimeUnit → Int
  | .seconds => 1
  | .minutes => 60
  | .hours => 60 * 60
  | .days => 24 * 60 * 60
  | .weeks => 7 * 24 * 60 * 60

/-- A `Task` row, or an object loaded from it. -/
structure Task where
  id : Nat
  name : String
  taskType : TaskType
  callable : String
  enabled : Bool
  queue : QueueName
  jobName : Option JobName
  atFront : Bool
  timeout : Option Int
  resultTtl : Option Int
  failedRuns : Nat
  successfulRuns : Nat
  lastSuccessfulRun : Option Int
  lastFailedRun : Option Int
  interval : Option Nat
  intervalUnit : Option TimeUnit
  «repeat» : Option Nat
  scheduledTime : Option Int
  cronString : Option String
  deriving DecidableEq

/-- A `TaskArg` row without its keys: an argument of a task's callable, as text. -/
structure TaskArg where
  argType : String
  val : String
  deriving DecidableEq

/-- A `TaskKwarg` row. -/
structure TaskKwarg extends TaskArg where
  key : String
  deriving DecidableEq

/-- The table of tasks, in the order the database returns them; the primary key is unique. A new
row gets the key `next`, which no row has had before. -/
structure TaskTable where
  rows : List Task
  next : Nat
  nodup : (rows.map Task.id).Nodup
  fresh : ∀ r ∈ rows, r.id < next

namespace TaskTable

/-- `Task.objects.filter(id=id).first()`. -/
def find? (t : TaskTable) (id : Nat) : Option Task := t.rows.find? (fun r => r.id = id)

/-- The rows after the object `x` is written: its row is replaced, or appended when the table
has none with its id. -/
def putRows : List Task → Task → List Task
  | [], x => [x]
  | r :: l, x => if r.id = x.id then x :: l else r :: putRows l x

theorem map_id_putRows (l : List Task) (x : Task) :
    (putRows l x).map Task.id
      = if x.id ∈ l.map Task.id then l.map Task.id else l.map Task.id ++ [x.id] := by
  induction l with
  | nil => simp [putRows]
  | cons r l ih =>
      by_cases h : r.id = x.id
      · simp [putRows, h]
      · have h' : ¬ x.id = r.id := fun e => h e.symm
        simp only [putRows, h, if_false, List.map_cons, ih, List.mem_cons, h', false_or]
        split <;> simp

theorem mem_putRows {l : List Task} {x r : Task} (h : r ∈ putRows l x) : r = x ∨ r ∈ l := by
  induction l with
  | nil => exact .inl (List.mem_singleton.1 h)
  | cons r' l ih =>
      unfold putRows at h
      split at h
      · exact (List.mem_cons.1 h).imp id (List.mem_cons_of_mem r')
      · rcases List.mem_cons.1 h with rfl | h
        · exact .inr List.mem_cons_self
        · exact (ih h).imp id (List.mem_cons_of_mem r')

/-- The table without rows. -/
def empty : TaskTable := ⟨[], 1, List.nodup_nil, by simp⟩

/-- Write the object `x` to its row. -/
def put (t : TaskTable) (x : Task) : TaskTable where
  rows := putRows t.rows x
  next := max t.next (x.id + 1)
  nodup := by
    rw [map_id_putRows]
    split
    · exact t.nodup
    · rename_i h
      exact List.nodup_append.2 ⟨t.nodup, by simp, by
        intro a ha b hb hab
        rw [List.mem_singleton] at hb
        exact h (hb ▸ hab ▸ ha)⟩
  fresh := by
    intro r hr
    rcases mem_putRows hr with rfl | hr
    · omega
    · have hlt := t.fresh r hr
      omega

theorem find?_put (t : TaskTable) (x : Task) (i : Nat) :
    (t.put x).find? i = if i = x.id then some x else t.find? i := by
  show (putRows t.rows x).find? _ = if i = x.id then some x else t.rows.find? _
  generalize t.rows = l
  induction l with
  | nil => by_cases h : i = x.id <;> simp [putRows, h, eq_comm]
  | cons r l ih =>
      by_cases h : r.id = x.id
      · by_cases hi : i = x.id
        · simp [putRows, h, hi]
        · have : ¬ x.id = i := fun e => hi e.symm
          simp [putRows, h, hi, this]
      · simp only [putRows, h, if_false]
        by_cases hr : r.id = i
        · have : ¬ i = x.id := fun e => h (hr.trans e)
          simp [hr, this]
        · rw [List.find?_cons_of_neg (by simpa using hr),
            List.find?_cons_of_neg (by simpa using hr), ih]

theorem find?_of_mem (t : TaskTable) {x : Task} (h : x ∈ t.rows) : t.find? x.id = some x := by
  have hl := t.nodup
  show t.rows.find? _ = _
  generalize t.rows = l at h hl
  induction l with
  | nil => cases h
  | cons r l ih =>
      rw [List.map_cons, List.nodup_cons] at hl
      rcases List.mem_cons.1 h with rfl | h'
      · simp
      · have : ¬ r.id = x.id := fun e => hl.1 (e ▸ List.mem_map.2 ⟨x, h', rfl⟩)
        rw [List.find?_cons_of_neg (by simpa using this)]
        exact ih h' hl.2

end TaskTable

end DailyScheduler
