import DailyScheduler.Model.Registry

set_option autoImplicit false

/-! # Jobs

The operations of `JobModel` (`redis_models/job.py`, with `redis_models/base.py`) and
`Result.create`. A method that changes attributes of the object returns the changed object.
-/

namespace DailyScheduler

open AtomicProg

/-! ## Job names -/

/-- The last `w` decimal digits of `n`. -/
def digits : Nat → Nat → List Char
  | 0, _ => []
  | w + 1, n => digits w (n / 10) ++ [Char.ofNat (48 + n % 10)]

/-- The year, month and day of a number of days since 1970-01-01. -/
def civil (days : Int) : Int × Int × Int :=
  let z := days + 719468
  let era := z / 146097
  let doe := z % 146097
  let yoe := (doe - doe / 1460 + doe / 36524 - doe / 146096) / 365
  let doy := doe - (365 * yoe + yoe / 4 - yoe / 100)
  let mp := (5 * doy + 2) / 153
  let m := if mp < 10 then mp + 3 else mp - 9
  (yoe + era * 400 + (if m ≤ 2 then 1 else 0), m, doy - (153 * mp + 2) / 5 + 1)

/-- The characters of `strftime("%Y%m%d%H%M%S%f")`. -/
def strftimeChars (t : Int) : List Char :=
  let s := t / 1000000
  let (y, m, d) := civil (s / 86400)
  let sec := (s % 86400).toNat
  digits 4 y.toNat ++ digits 2 m.toNat ++ digits 2 d.toNat ++ digits 2 (sec / 3600)
    ++ digits 2 (sec / 60 % 60) ++ digits 2 (sec % 60) ++ digits 6 (t % 1000000).toNat

/-- `strftime("%Y%m%d%H%M%S%f")`. -/
def strftime (t : Int) : String := String.ofList (strftimeChars t)

example : strftime 951782400000001 = "20000229000000000001" := by decide

/-! ## Callbacks -/

/-- A `Callback` object: the dotted name of its function and its timeout. -/
structure Callback where
  name : String
  timeout : Int

/-- Whether `Callback.__init__` turns what `callable_func` raised into a
`CallbackSetupError`. -/
def PyError.isSetupError : PyError → Bool
  | .typeError _ | .attributeError _ | .valueError _ => true
  | _ => false

/-- `timeout or SCHEDULER_CONFIG.CALLBACK_TIMEOUT`. -/
def Callback.timeoutOrDefault (cfg : SchedulerConfiguration) : Option Int → Int
  | none => cfg.CALLBACK_TIMEOUT
  | some t => if t = 0 then cfg.CALLBACK_TIMEOUT else t

/-- `Callback(name, timeout)`: the function to call. -/
def Callback.resolve (env : Env) (name : String) (timeout : Option Int) :
    Except PyError (JobModel → Py CallOutcome) :=
  if Callback.timeoutOrDefault env.config timeout < 0 then .error (.callbackSetupError name)
  else match env.callableFunc name with
    | .ok f => .ok f
    | .error x => .error (if x.isSetupError then .callbackSetupError name else x)

theorem Callback.callableFunc_of_resolve {env : Env} {name : String} {timeout : Option Int}
    {f : JobModel → Py CallOutcome} (h : Callback.resolve env name timeout = .ok f) :
    env.callableFunc name = .ok f := by
  unfold Callback.resolve at h
  split at h
  · cases h
  · cases hc : env.callableFunc name with
    | ok g => rwa [hc] at h
    | error x => rw [hc] at h; cases h

/-- What a method of a job leaves behind: the changed object, which the caller keeps also
when the method raised, and the value it returned or what it raised. -/
abbrev After (α : Type) := JobModel × Except PyError α

/-- Go on with the object and the value a method returned; what it raised is passed on. -/
def After.andThen {α β : Type} (r : After α) (f : JobModel → α → Py (After β)) :
    Py (After β) :=
  match r.2 with
  | .ok a => f r.1 a
  | .error x => pure (r.1, .error x)

/-- One method after the other, on the same object. -/
def After.next {α β : Type} (p : Py (After α)) (f : JobModel → α → Py (After β)) :
    Py (After β) := do
  let r ← p
  r.andThen f

/-- Use a method where nobody looks at the object once it raised. -/
def After.get {α : Type} (p : Py (After α)) : Py (JobModel × α) := do
  let r ← p
  match r.2 with
  | .ok a => pure (r.1, a)
  | .error x => throw x

namespace JobModel

/-! ## `HashModel` -/

/-- `JobModel.exists`. -/
def exists_ (n : JobName) : Py Bool := Prog.read fun w => w.jobExists n

/-- The object stored for a name: `none` when there is no record, or when it does not
deserialize. -/
def fetch (env : Env) (w : World) (n : JobName) : Option JobModel :=
  (w.jobs.find? n).bind (deserialize env.config n)

/-- `JobModel.get`. -/
def get (env : Env) (n : JobName) : Py (Option JobModel) := Prog.read fun w => fetch env w n

theorem fetch_eq_none_iff {env : Env} {w : World} {n : JobName} :
    fetch env w n = none ↔ ¬ w.loadable n := by
  unfold fetch World.loadable
  cases h : w.jobs.find? n with
  | none => simp
  | some v =>
      rw [Option.bind_some, ← Option.not_isSome_iff_eq_none, deserialize_isSome_iff]
      simp

theorem loadedFrom_of_fetch {env : Env} {w : World} {n : JobName} {j : JobModel}
    (h : fetch env w n = some j) :
    ∃ v, w.jobs.find? n = some v ∧ LoadedFrom env.config n v j := by
  obtain ⟨v, hv, hj⟩ := Option.bind_eq_some_iff.1 h
  exact ⟨v, hv, loadedFrom_of_deserialize hj⟩

theorem name_of_fetch {env : Env} {w : World} {n : JobName} {j : JobModel}
    (h : fetch env w n = some j) : j.name = n := by
  obtain ⟨v, -, hj⟩ := loadedFrom_of_fetch h
  exact hj.name

/-- The `deserialize` of every record that was found; the first one that fails raises. -/
def deserializeAll (env : Env) : List (JobName × Option JobHash) →
    Except PyError (List (Option JobModel))
  | [] => .ok []
  | (n, h) :: l =>
      match h with
      | none => (deserializeAll env l).map (none :: ·)
      | some h =>
          match deserialize env.config n h with
          | none => .error (.typeError n)
          | some j => (deserializeAll env l).map (some j :: ·)

/-- `JobModel.get_many`: one pipeline reads all the hashes. -/
def getMany (env : Env) (names : List JobName) : Py (List (Option JobModel)) := do
  let values ← Prog.read fun w => names.map fun n => (n, w.jobs.find? n)
  match deserializeAll env values with
  | .ok l => pure l
  | .error x => throw x

/-- `save`. Encoding the attributes may raise, before anything is written. -/
def save (j : JobModel) (saveAll : Bool) : Py (After Unit) :=
  if j.serializable then do
    Prog.write (·.saveJob j saveAll)
    pure (j.saved, .ok ())
  else pure (j, .error (.typeError "not JSON serializable"))

/-- A save whose exception ends the caller: it writes and returns, or raises. -/
theorem get_save (j : JobModel) (saveAll : Bool) :
    After.get (j.save saveAll) = if j.serializable then
        (Prog.write (·.saveJob j saveAll) >>= fun _ => Prog.ret (j.saved, ()))
      else Prog.raise (.typeError "not JSON serializable") := by
  unfold save
  split <;> rfl

/-- `delete`. -/
def delete (j : JobModel) : Py JobModel := do
  Prog.write (·.deleteJob j.name)
  pure { j with saveAll := true }

/-! ## `JobModel` -/

/-- `expire`: nothing for a negative `ttl`; `0` deletes the record. -/
def expire (j : JobModel) (ttl : Int) : Py JobModel :=
  if ttl = 0 then j.delete
  else if ttl > 0 then do
    Prog.write fun w => w.expireJob j.name (w.now + secs ttl)
    pure j
  else pure j

/-- `persist`. -/
def persist (j : JobModel) : Py Unit := Prog.write (·.persistJob j.name)

/-- `prepare_for_execution`. -/
def prepareForExecution (j : JobModel) (workerName : WorkerName) (registry : Registry) :
    Py (After Unit) := do
  let now ← utcnow
  let j := (((j.setWorkerName (some workerName)).setLastHeartbeat (some now)).setStartedAt
    (some now)).setStatus .started
  registry.add j.name (now + secs j.timeout)
  j.save false

/-- Add a name to a registry for `ttl` seconds from now; not at all when `ttl` is zero. -/
def addFor (registry : Registry) (n : JobName) (ttl : Int) : Py Unit :=
  if ttl = 0 then pure ()
  else do
    let t ← readTimestamp
    registry.add n (t + secs ttl)

/-- `after_execution`. -/
def afterExecution (j : JobModel) (jobInfoTtl : Int) (status : JobStatus)
    (prevRegistry newRegistry : Registry) : Py (After Unit) := do
  let now ← utcnow
  let j := ((j.setStatus status).setEndedAt (some now)).setLastHeartbeat (some now)
  prevRegistry.delete j.name
  addFor newRegistry j.name jobInfoTtl
  j.save false

/-- Call user code with the job; its `meta` is then as the code left it. -/
def call (j : JobModel) (f : JobModel → Py CallOutcome) : Py (After CallOutcome) := do
  let r ← (f j).attempt
  match r with
  | .error x => pure (j, .error x)
  | .ok o =>
      let j := { j with metadata := o.metadata }
      match o.val with
      | .error x => pure (j, .error x)
      | .ok _ => pure (j, .ok o)

/-- `call_success_callback` and `call_failure_callback`: nothing when no name is stored. -/
def callCallback (env : Env) (j : JobModel) (name : Option String) (timeout : Option Int)
    (e : Event) : Py (After Unit) :=
  match name with
  | none => pure (j, .ok ())
  | some name =>
      match Callback.resolve env name timeout with
      | .error x => pure (j, .error x)
      | .ok f => do
          Prog.emit e
          After.next (j.call f) fun j _ => pure (j, .ok ())

def callSuccessCallback (env : Env) (j : JobModel) : Py (After Unit) :=
  j.callCallback env j.successCallbackName j.successCallbackTimeout (.successCallback j.name)

def callFailureCallback (env : Env) (j : JobModel) : Py (After Unit) :=
  j.callCallback env j.failureCallbackName j.failureCallbackTimeout (.failureCallback j.name)

end JobModel

/-- The arguments of `JobModel.create` and of `Queue.create_and_enqueue_job`. `description`
is the given one or the call string the source computes when none is given. -/
structure JobArgs where
  funcName : String
  args : PyValue
  kwargs : PyValue
  resultTtl : Option Int
  jobInfoTtl : Option Int
  description : String
  timeout : Option Int
  name : Option JobName
  taskType : Option TaskType
  scheduledTaskId : Option Nat
  metadata : PyValue
  onSuccess : Option Callback
  onFailure : Option Callback
  onStopped : Option Callback

namespace JobModel

/-- The timeout of a new job: the given one, or the default when it is missing or zero. -/
def timeoutOrDefault (cfg : SchedulerConfiguration) : Option Int → Int
  | none => cfg.DEFAULT_JOB_TIMEOUT
  | some t => if t = 0 then cfg.DEFAULT_JOB_TIMEOUT else t

/-- The object `create` makes. -/
def new (cfg : SchedulerConfiguration) (a : JobArgs) (queueName : QueueName) (name : JobName)
    (status : JobStatus) (now : Int) : JobModel where
  name := name
  createdAt := now
  args := a.args
  kwargs := a.kwargs
  queueName := queueName
  description := a.description
  funcName := a.funcName
  timeout := timeoutOrDefault cfg a.timeout
  successTtl := a.resultTtl.getD cfg.DEFAULT_SUCCESS_TTL
  jobInfoTtl := a.jobInfoTtl.getD cfg.DEFAULT_JOB_TTL
  atFront := none
  lastHeartbeat := none
  workerName := none
  startedAt := none
  enqueuedAt := none
  endedAt := none
  successCallbackName := a.onSuccess.map Callback.name
  successCallbackTimeout := a.onSuccess.map Callback.timeout
  failureCallbackName := a.onFailure.map Callback.name
  failureCallbackTimeout := a.onFailure.map Callback.timeout
  stoppedCallbackName := a.onStopped.map Callback.name
  stoppedCallbackTimeout := a.onStopped.map Callback.timeout
  taskType := a.taskType
  scheduledTaskId := a.scheduledTaskId
  status := status
  metadata := a.metadata
  dirtyFields := ∅
  saveAll := true

/-- The name of a job that is given none. -/
def defaultName (queueName : QueueName) (id : Option Nat) (now : Int) : JobName :=
  let i := match id with
    | none => ""
    | some i => if i = 0 then "" else toString i
  queueName ++ ":" ++ i ++ ":" ++ strftime now

/-- The name `create` uses: the given one, which must be free, or a new one. -/
def pickName (name : Option JobName) (queueName : QueueName) (id : Option Nat) : Py JobName :=
  match name with
  | some n => do
      let found ← exists_ n
      if found then throw (.valueError n) else pure n
  | none => do
      let now ← utcnow
      pure (defaultName queueName id now)

/-- `JobModel.create`. -/
def create (env : Env) (a : JobArgs) (queueName : QueueName) (status : JobStatus) :
    Py JobModel :=
  if timeoutOrDefault env.config a.timeout = 0 then
    throw (.valueError "0 timeout is not allowed. Use -1 for infinite timeout")
  else do
    let name ← pickName a.name queueName a.scheduledTaskId
    let createdAt ← utcnow
    let (j, _) ← After.get ((new env.config a queueName name status createdAt).save false)
    Prog.emit (.created name)
    pure j

end JobModel

/-! ## Results -/

namespace Result

/-- `Result.save`: a `ttl` of zero deletes the stream and encodes nothing. -/
def save (r : Result PyValue) : Py Unit :=
  if r.ttl = 0 then Prog.write (·.deleteResults r.parent)
  else if r.returnValue.encodes then Prog.write (·.xadd (r.map PyValue.stored))
  else throw (.typeError "not JSON serializable")

/-- `Result.create`. -/
def create (jobName : JobName) (workerName : Option WorkerName) (type : ResultType) (ttl : Int)
    (returnValue : PyValue) (excString : Option String) : Py Unit := do
  let now ← utcnow
  Result.save {
    parent := jobName
    type := type
    workerName := workerName.getD "unknown_worker"
    ttl := ttl
    createdAt := now
    returnValue := returnValue
    excString := excString }

end Result

end DailyScheduler
