import DailyScheduler.Model.Queue

set_option autoImplicit false

/-! # Tasks

`models/task.py`: how a `Task` row puts its next job into a scheduled registry, and what the
callbacks of its jobs do to the row. A `Task` here is an object loaded from its row; saving
writes all of its fields back.
-/

namespace DailyScheduler

open AtomicProg

/-- `get_queue`: the configured queue of a name. -/
def getQueue (env : Env) (name : QueueName) : Py Queue :=
  match env.queues name with
  | some isAsync => pure ⟨name, isAsync⟩
  | none => throw (.queueNotFoundError name)

/-- The stored value of a `TaskType`. -/
def TaskType.value : TaskType → String
  | .cron => "CronTaskType"
  | .repeatable => "RepeatableTaskType"
  | .once => "OnceTaskType"

/-- The function `_schedule` and `enqueue_to_run` enqueue. -/
def runTaskName : String := "scheduler.models.task.run_task"

def successCallbackName : String := "scheduler.models.task.success_callback"

def failureCallbackName : String := "scheduler.models.task.failure_callback"

/-! ## Arguments -/

/-- The digits of a number, with single underscores between them. -/
def parseDigits (acc : Nat) : List Char → Option Nat
  | [] => none
  | [c] => if c.isDigit then some (acc * 10 + (c.toNat - '0'.toNat)) else none
  | c :: '_' :: l => if c.isDigit then parseDigits (acc * 10 + (c.toNat - '0'.toNat)) l else none
  | c :: l => if c.isDigit then parseDigits (acc * 10 + (c.toNat - '0'.toNat)) l else none

/-- The blanks outside ASCII. -/
def unicodeBlanks : List Nat :=
  [0x85, 0xa0, 0x1680, 0x2000, 0x2001, 0x2002, 0x2003, 0x2004, 0x2005, 0x2006, 0x2007, 0x2008, 0x2009,
    0x200a, 0x2028, 0x2029, 0x202f, 0x205f, 0x3000]

/-- The zeros outside ASCII. Each is followed by the other nine digits. -/
def unicodeZeros : List Nat :=
  [0x660, 0x6f0, 0x7c0, 0x966, 0x9e6, 0xa66, 0xae6, 0xb66, 0xbe6, 0xc66, 0xce6, 0xd66, 0xde6, 0xe50,
    0xed0, 0xf20, 0x1040, 0x1090, 0x17e0, 0x1810, 0x1946, 0x19d0, 0x1a80, 0x1a90, 0x1b50, 0x1bb0,
    0x1c40, 0x1c50, 0xa620, 0xa8d0, 0xa900, 0xa9d0, 0xa9f0, 0xaa50, 0xabf0, 0xff10, 0x104a0, 0x10d30,
    0x11066, 0x110f0, 0x11136, 0x111d0, 0x112f0, 0x11450, 0x114d0, 0x11650, 0x116c0, 0x11730, 0x118e0,
    0x11950, 0x11c50, 0x11d50, 0x11da0, 0x11f50, 0x16a60, 0x16ac0, 0x16b50, 0x1d7ce, 0x1d7d8, 0x1d7e2,
    0x1d7ec, 0x1d7f6, 0x1e140, 0x1e2f0, 0x1e4f0, 0x1e950, 0x1fbf0]

/-- The ASCII character that `int` reads for a character: blanks and digits of other scripts count. -/
def asciiOf (c : Char) : Char :=
  if c.toNat < 127 then c
  else if c.toNat ∈ unicodeBlanks then ' '
  else match unicodeZeros.find? fun z => z ≤ c.toNat ∧ c.toNat < z + 10 with
    | some z => Char.ofNat ('0'.toNat + (c.toNat - z))
    | none => '?'

/-- The blanks that `int` ignores around a number. -/
def isBlank (c : Char) : Bool := c.toNat ∈ [9, 10, 11, 12, 13, 32]

/-- `int` of a text. A number of more than 4300 digits is not read. -/
def parseInt (s : String) : Option Int :=
  let l := s.toList.map asciiOf
  let l := ((l.dropWhile isBlank).reverse.dropWhile isBlank).reverse
  if l.countP Char.isDigit > 4300 then none
  else match l with
    | '-' :: l => (parseDigits 0 l).map fun n => -(n : Int)
    | '+' :: l => (parseDigits 0 l).map Int.ofNat
    | l => (parseDigits 0 l).map Int.ofNat

example : parseInt " -1_000" = some (-1000) := by decide

example : parseInt "\u00a0\u0664\u0662\x0b" = some 42 := by decide

/-- `BaseTaskArg.value`. -/
def TaskArg.value (env : Env) (a : TaskArg) : Except PyError PyValue :=
  if a.argType = "callable" then env.callableValue a.val
  else if a.argType = "datetime" then
    match env.fromisoformat a.val with
    | some t => .ok (.datetime t)
    | none => .error (.valueError a.val)
  else if a.argType = "bool" then .ok (.bool (decide (a.val.toLower = "true")))
  else if a.argType = "int" then
    match parseInt a.val with
    | some i => .ok (.int i)
    | none => .error (.valueError a.val)
  else if a.argType = "str" then .ok (.str a.val)
  else .error (.exception a.argType)

/-- The first exception that the value of one of the arguments raises. -/
def argsError (env : Env) : List TaskArg → Option PyError
  | [] => none
  | a :: l =>
      match a.value env with
      | .error x => some x
      | .ok _ => argsError env l

namespace Task

/-- `__str__`. It computes the values of all arguments. -/
def describe (env : Env) (t : Task) : Py Unit := do
  let args ← Prog.read fun w => w.taskArgs t.id
  match argsError env args with
  | some x => throw x
  | none => do
      let kwargs ← Prog.read fun w => w.taskKwargs t.id
      match argsError env (kwargs.map TaskKwarg.toTaskArg) with
      | some x => throw x
      | none => pure ()

/-- `rqueue`. -/
def rqueue (env : Env) (t : Task) : Py Queue := getQueue env t.queue

/-- `models.Model.save`. -/
def store (t : Task) : Py Unit := Prog.write (·.putTask t)

/-- `interval_seconds`: `timedelta` rejects a missing interval or unit, and has at most 999999999 days. -/
def intervalSeconds (t : Task) : Except PyError Int :=
  match t.intervalUnit, t.interval with
  | some u, some n =>
      if u.length * n / 86400 > 999999999 then .error .overflowError else .ok (u.length * n)
  | _, _ => .error (.typeError "unsupported type for timedelta")

/-- `is_scheduled`: whether the job named by `job_name` is waiting or running in the task's
queue. A name for which this is not so is forgotten, and the row saved. -/
def isScheduled (env : Env) (t : Task) : Py (Task × Bool) :=
  match t.jobName with
  | none => pure (t, false)
  | some n => do
      let q ← t.rqueue env
      let res ← Prog.read fun w =>
        decide (w.inRegistry q.name .scheduled n) || decide (w.inRegistry q.name .queued n)
          || decide (w.inRegistry q.name .active n)
      if res then pure (t, true)
      else do
        let t := { t with jobName := none }
        t.store
        pure (t, false)

/-- `_next_job_id` at a given time. -/
def nextJobId (t : Task) (now : Int) : JobName :=
  t.queue ++ ":" ++ toString t.id ++ ":" ++ strftime now

/-- The `meta` of a task's job. -/
def jobMeta (t : Task) : Except PyError PyValue :=
  match t.taskType with
  | .repeatable => do
      let s ← t.intervalSeconds
      let r := match t.repeat with
        | none => PyValue.none
        | some n => .int n
      pure (.dict [(.str "interval", .float (toString s ++ ".0")), (.str "repeat", r)])
  | _ => pure (.dict [])

/-- The arguments of `create_and_enqueue_job` for a job of the task, with the name and `meta`
that `_enqueue_args` computes. -/
def enqueueArgs (env : Env) (t : Task) (name : JobName) (metadata : PyValue) : JobArgs where
  funcName := runTaskName
  args := .tuple [.str t.taskType.value, .int t.id]
  kwargs := .dict []
  resultTtl := t.resultTtl
  jobInfoTtl := none
  description := runTaskName
  timeout := t.timeout
  name := some name
  taskType := some t.taskType
  scheduledTaskId := some t.id
  metadata := metadata
  onSuccess := some ⟨successCallbackName, env.config.CALLBACK_TIMEOUT⟩
  onFailure := some ⟨failureCallbackName, env.config.CALLBACK_TIMEOUT⟩
  onStopped := none

/-- `_enqueue_args`. -/
def readEnqueueArgs (env : Env) (t : Task) : Py JobArgs := do
  let now ← utcnow
  match t.jobMeta with
  | .error x => throw x
  | .ok m => pure (t.enqueueArgs env (t.nextJobId now) m)

/-- `enqueue_to_run`. -/
def enqueueToRun (env : Env) (t : Task) : Py Unit := do
  let args ← t.readEnqueueArgs env
  let q ← t.rqueue env
  let _ ← q.createAndEnqueueJob env args .none t.atFront

/-- A `scheduled_time` as the database returns it. -/
def momentOf (env : Env) (s : Int) : Registry.Moment := if env.useTz then .aware s else .naive s

/-- The score of a job for that time. -/
def scoreOf (env : Env) (s : Int) : Int := (momentOf env s).timestamp env

/-- The value `_schedule_time` returns: `scheduled_time`, which `utc` turns into an empty
string when it is missing. -/
def whenOf (env : Env) : Option Int → Queue.When
  | some s => .datetime (momentOf env s)
  | none => if env.useTz then .other else .none

/-- How many intervals of `step` microseconds reach from `start` to `now`. -/
def gap (now start step : Int) : Int := -(-(now - start) / step)

/-- The branch of `_schedule_time` for a repeatable task whose time has passed. -/
def advanceSchedule (t : Task) (now start step : Int) : Task :=
  let g := gap now start step
  match t.repeat with
  | none => { t with scheduledTime := some (start + step * g) }
  | some r =>
      if (r : Int) ≥ g then
        { t with scheduledTime := some (start + step * g), «repeat» := some (r - g).toNat }
      else t

/-- `_schedule_time` at a given time: it may move `scheduled_time` and use up repeats. Its times are
instants, as they are with `USE_TZ` or in a zone of one offset, and the calendar has no end;
`scheduleTimeAt` in `Tasks/CatchUp` reads the clock of any zone. -/
def scheduleTime (env : Env) (t : Task) (now : Int) : Except PyError Task :=
  match t.taskType with
  | .cron =>
      match t.cronString with
      | none => .ok { t with scheduledTime := none }
      | some s =>
          match (env.croniter s).bind (· now) with
          | none => .error (.valueError s)
          | some d => .ok { t with scheduledTime := some d }
  | .repeatable =>
      match t.scheduledTime with
      | none => .error (.typeError "'>=' not supported")
      | some s =>
          if s ≥ now then .ok t
          else match t.intervalSeconds with
            | .error x => .error x
            | .ok i => if i = 0 then .error .zeroDivisionError
                else .ok (t.advanceSchedule now s (secs i))
  | .once => .ok t

/-- Whether `_schedule` finds that the schedule time is in the past. -/
def inThePast (t : Task) (now : Int) : Except PyError Bool :=
  match t.taskType with
  | .cron => .ok false
  | _ =>
      match t.scheduledTime with
      | none => .error (.typeError "'<' not supported")
      | some s => .ok (decide (s < now))

/-- The end of `_schedule`: create the job and remember its name. -/
def createJob (env : Env) (t : Task) : Py Task := do
  let args ← t.readEnqueueArgs env
  let q ← t.rqueue env
  let job ← q.createAndEnqueueJob env args (whenOf env t.scheduledTime) t.atFront
  Prog.emit (.taskScheduled t.id job.name)
  pure { t with jobName := some job.name }

/-- `_schedule` for a task that has no pending job. -/
def scheduleNext (env : Env) (t : Task) : Py Task :=
  if !t.enabled then do
    -- the task is printed for the log, whatever the level of the log
    t.describe env
    pure t
  else do
    let now ← utcnow
    match t.scheduleTime env now with
    | .error x => throw x
    | .ok t => do
        let now ← utcnow
        match t.inThePast now with
        | .error x => throw x
        | .ok true => do
            t.describe env
            pure t
        | .ok false => t.createJob env

/-- `_schedule`. -/
def schedule (env : Env) (t : Task) : Py Task := do
  let (t, scheduled) ← t.isScheduled env
  if scheduled then pure t else t.scheduleNext env

/-! ## Validation -/

def cleanQueue (env : Env) (t : Task) : Except PyError Unit :=
  if (env.queues t.queue).isSome then .ok () else .error (.validationError "queue")

def cleanCallable (env : Env) (t : Task) : Except PyError Unit :=
  match env.callableFunc t.callable with
  | .ok _ => .ok ()
  | .error x => if x.isException then .error (.validationError "callable") else .error x

def cleanCronString (env : Env) (t : Task) : Except PyError Unit :=
  match t.cronString with
  | none => .error (.attributeError "cron_string")
  | some s => if (env.croniter s).isSome then .ok () else .error (.validationError "cron_string")

def cleanIntervalUnit (env : Env) (t : Task) : Except PyError Unit := do
  let i ← t.intervalSeconds
  if env.config.SCHEDULER_INTERVAL > i then throw (.validationError "") else pure ()

def cleanResultTtl (t : Task) : Except PyError Unit :=
  match t.resultTtl with
  | none => .ok ()
  | some r =>
      if r = 0 ∨ r = -1 then .ok ()
      else do
        let i ← t.intervalSeconds
        if r < i ∧ t.repeat.getD 0 ≠ 0 then throw (.validationError "") else pure ()

/-- The checks of `clean` before `scheduled_time` is looked at. -/
def cleanFields (env : Env) (t : Task) : Except PyError Unit := do
  t.cleanQueue env
  t.cleanCallable env
  match t.taskType with
  | .cron => t.cleanCronString env
  | .repeatable => do
      t.cleanIntervalUnit env
      t.cleanResultTtl
  | .once => pure ()

/-- `clean`: the object, with a first `scheduled_time` for a repeatable task without one. -/
def clean (env : Env) (t : Task) (now : Int) : Except PyError Task := do
  t.cleanFields env
  match t.taskType, t.scheduledTime with
  | .repeatable, none => pure { t with scheduledTime := some (now + secs 2) }
  | .once, none => throw (.validationError "scheduled_time")
  | .once, some s =>
      if s < now then throw (.validationError "scheduled_time") else pure t
  | _, _ => pure t

/-! ## Saving, unscheduling, callbacks -/

/-- `save` once `clean` has accepted the object. -/
def saveCleaned (env : Env) (t : Task) (scheduleJob : Bool) : Py Task := do
  t.store
  if scheduleJob then do
    let t ← t.schedule env
    t.store
    pure t
  else pure t

/-- `save`. -/
def save (env : Env) (t : Task) (clean scheduleJob : Bool) : Py Task := do
  if clean then do
    let now ← utcnow
    match t.clean env now with
    | .error x => throw x
    | .ok t => t.saveCleaned env scheduleJob
  else t.saveCleaned env scheduleJob

/-- The first part of `unschedule`: the job named by `job_name` is deleted. -/
def deleteNextJob (env : Env) (t : Task) : Py Task :=
  match t.jobName with
  | none => pure t
  | some n => do
      let q ← t.rqueue env
      q.deleteJob env n true
      pure { t with jobName := none }

/-- `unschedule`. -/
def unschedule (env : Env) (t : Task) : Py Task := do
  let t ← t.deleteNextJob env
  t.save env false false

/-- `_get_task_for_job`. -/
def getTaskForJob (job : JobModel) : Py (Option Task) :=
  match job.taskType, job.scheduledTaskId with
  | some _, some id => Prog.read fun w => w.tasks.find? id
  | _, _ => pure none

/-- `success_callback`. -/
def successCallback (env : Env) (job : JobModel) : Py Unit := do
  match ← getTaskForJob job with
  | none => pure ()
  | some t => do
      let now ← utcnow
      let _ ← save env { t with jobName := none, successfulRuns := t.successfulRuns + 1,
                                lastSuccessfulRun := some now } false true

/-- `failure_callback`; `mail` is what becomes of `mail_admins`. -/
def failureCallback (env : Env) (mail : Except PyError Unit) (job : JobModel) : Py Unit := do
  match ← getTaskForJob job with
  | none => pure ()
  | some t =>
      match mail with
      | .error x => throw x
      | .ok () => do
          let now ← utcnow
          let _ ← save env { t with jobName := none, failedRuns := t.failedRuns + 1,
                                    lastFailedRun := some now } false true

end Task

end DailyScheduler
