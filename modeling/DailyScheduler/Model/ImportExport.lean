import DailyScheduler.Model.Task

set_option autoImplicit false

/-! # Export and import of tasks

`Task.to_dict` and `management/commands/import.py`. A dictionary holds `scheduled_time` as an ISO
text; it is kept here as the time that the text stands for.
-/

namespace DailyScheduler

open AtomicProg

/-- What `to_dict` returns. -/
structure TaskDict where
  model : String
  name : String
  callable : String
  callableArgs : List TaskArg
  callableKwargs : List TaskKwarg
  enabled : Bool
  queue : QueueName
  «repeat» : Option Nat
  atFront : Bool
  timeout : Option Int
  resultTtl : Option Int
  cronString : Option String
  scheduledTime : Option Int
  interval : Option Nat
  intervalUnit : Option TimeUnit
  successfulRuns : Nat
  failedRuns : Nat
  lastSuccessfulRun : Option Int
  lastFailedRun : Option Int
  deriving DecidableEq

namespace TaskTable

/-- The primary key of the next row that is inserted: that of no earlier row. -/
def nextId (t : TaskTable) : Nat := t.next

/-- The next primary key is not in use. -/
theorem find?_nextId (t : TaskTable) : t.find? t.nextId = none := by
  refine List.find?_eq_none.2 fun r hr => ?_
  have hlt := t.fresh r hr
  simp only [decide_eq_true_eq]
  unfold nextId
  omega

/-- `Task.objects.filter(name=name).first()`. -/
def withName (t : TaskTable) (name : String) : Option Task :=
  t.rows.find? (fun r => r.name = name)

/-- The table without the row of a primary key. -/
def erase (t : TaskTable) (id : Nat) : TaskTable where
  rows := t.rows.filter fun r => r.id ≠ id
  next := t.next
  nodup := (List.filter_sublist.map Task.id).nodup t.nodup
  fresh := fun r hr => t.fresh r (List.mem_filter.1 hr).1

end TaskTable

namespace World

/-- `INSERT` of an argument of a task. -/
def addTaskArg (w : World) (id : Nat) (a : TaskArg) : World :=
  { w with taskArgs := Function.update w.taskArgs id (w.taskArgs id ++ [a]) }

/-- `INSERT` of a keyword argument of a task. -/
def addTaskKwarg (w : World) (id : Nat) (a : TaskKwarg) : World :=
  { w with taskKwargs := Function.update w.taskKwargs id (w.taskKwargs id ++ [a]) }

/-- `DELETE` of a task and of its arguments. -/
def deleteTask (w : World) (id : Nat) : World :=
  { w with
    tasks := w.tasks.erase id
    taskArgs := Function.update w.taskArgs id []
    taskKwargs := Function.update w.taskKwargs id [] }

/-- `delete` of a query set: the tasks with some ids are deleted, `Task.delete` is not called. -/
def deleteTasks (w : World) (ids : List Nat) : World := ids.foldl deleteTask w

end World

namespace Task

/-! ## Export -/

/-- The dictionary of a task with the given arguments and schedule time. -/
def dict (t : Task) (args : List TaskArg) (kwargs : List TaskKwarg) (scheduledTime : Option Int) :
    TaskDict where
  model := t.taskType.value
  name := t.name
  callable := t.callable
  callableArgs := args
  callableKwargs := kwargs
  enabled := t.enabled
  queue := t.queue
  «repeat» := t.repeat
  atFront := t.atFront
  timeout := t.timeout
  resultTtl := t.resultTtl
  cronString := t.cronString
  scheduledTime := scheduledTime
  interval := t.interval
  intervalUnit := t.intervalUnit
  successfulRuns := t.successfulRuns
  failedRuns := t.failedRuns
  lastSuccessfulRun := t.lastSuccessfulRun
  lastFailedRun := t.lastFailedRun

/-- `to_dict`. `_schedule_time` moves `scheduled_time` and uses up repeats after `repeat` was
read. -/
def toDict (env : Env) (t : Task) : Py TaskDict := do
  let args ← Prog.read fun w => w.taskArgs t.id
  let kwargs ← Prog.read fun w => w.taskKwargs t.id
  let now ← utcnow
  match t.scheduleTime env now with
  | .error x => throw x
  | .ok t' =>
      match t'.scheduledTime with
      | none => throw (.attributeError "isoformat")
      | some s => pure (t.dict args kwargs (some s))

/-! ## Import -/

/-- `delete`. -/
def delete (env : Env) (t : Task) : Py Unit := do
  let t ← t.unschedule env
  Prog.write (·.deleteTask t.id)

/-- `Task.objects.create`: a new row is saved under the next primary key. -/
def create (env : Env) (t : Task) : Py Task := do
  let id ← Prog.read fun w => w.tasks.nextId
  save env { t with id := id } true true

/-- `self.content_object.save()`. -/
def saveContentObject (env : Env) (id : Nat) : Py Unit := do
  match ← Prog.read fun w => w.tasks.find? id with
  | none => throw (.attributeError "save")
  | some t => do
      let _ ← t.save env true true

/-- `TaskArg.objects.create`. -/
def createArg (env : Env) (id : Nat) (a : TaskArg) : Py Unit := do
  Prog.write (·.addTaskArg id a)
  saveContentObject env id

/-- `TaskKwarg.objects.create`. -/
def createKwarg (env : Env) (id : Nat) (a : TaskKwarg) : Py Unit := do
  Prog.write (·.addTaskKwarg id a)
  saveContentObject env id

end Task

/-- The index of the first `"Job"` in a text. -/
def findJob : List Char → Option Nat
  | [] => none
  | c :: l => if ['J', 'o', 'b'].isPrefixOf (c :: l) then some 0 else (findJob l).map (· + 1)

/-- `str.find("Job")`. -/
def pyFindJob (s : String) : Int :=
  match findJob s.toList with
  | none => -1
  | some i => i

/-- `job_model_str`. -/
def jobModelStr (modelStr : String) : String :=
  if pyFindJob modelStr = (modelStr.length : Int) - 3 then
    String.ofList (modelStr.toList.take (modelStr.length - 3)) ++ "Task"
  else modelStr

/-- `get_task_type`. -/
def getTaskType (modelStr : String) : Except PyError TaskType :=
  let modelStr := jobModelStr modelStr
  if modelStr = "CronTaskType" ∨ modelStr = "CronTask" then .ok .cron
  else if modelStr = "RepeatableTaskType" ∨ modelStr = "RepeatableTask" then .ok .repeatable
  else if modelStr = "OnceTaskType" ∨ modelStr = "ScheduledTask" ∨ modelStr = "OnceTask" then
    .ok .once
  else .error (.valueError modelStr)

/-- The name of a type is read as the type. -/
theorem getTaskType_value (t : TaskType) : getTaskType t.value = .ok t := by
  cases t <;> rfl

namespace TaskDict

/-- The object `Task(**kwargs)`; the fields that the dictionary lacks have their defaults. -/
def toTask (d : TaskDict) (taskType : TaskType) : Task where
  id := 0
  name := d.name
  taskType := taskType
  callable := d.callable
  enabled := d.enabled
  queue := d.queue
  jobName := none
  atFront := d.atFront
  timeout := d.timeout
  resultTtl := d.resultTtl
  failedRuns := d.failedRuns
  successfulRuns := d.successfulRuns
  lastSuccessfulRun := d.lastSuccessfulRun
  lastFailedRun := d.lastFailedRun
  interval := d.interval
  intervalUnit := d.intervalUnit
  «repeat» := d.repeat
  scheduledTime := d.scheduledTime
  cronString := d.cronString

/-- `create_task_from_dict` once there is no task of that name. -/
def insert (env : Env) (d : TaskDict) (taskType : TaskType) : Py Task := do
  let task ← (d.toTask taskType).create env
  -- the new task is printed
  task.describe env
  Prog.forEach d.callableArgs fun a => Task.createArg env task.id a
  Prog.forEach d.callableKwargs fun a => Task.createKwarg env task.id a
  pure task

/-- `create_task_from_dict`. -/
def createTask (env : Env) (d : TaskDict) (update : Bool) : Py (Option Task) := do
  let existing ← Prog.read fun w => w.tasks.withName d.name
  match getTaskType d.model with
  | .error x => throw x
  | .ok taskType =>
      match existing with
      | none => do
          let task ← d.insert env taskType
          pure (some task)
      | some t =>
          if update then do
            t.describe env
            t.delete env
            let task ← d.insert env taskType
            pure (some task)
          else do
            t.describe env
            pure none

end TaskDict

/-! ## Any dictionary of the file -/

/-- A dictionary as the file may hold it. A key that `to_dict` writes may be missing, and it may have
the keys of the two other fields that a new row takes from it, `id` and `job_name`; a key whose field
may be empty is missing where it holds no value. The text of `scheduled_time` need not be a date, and
the entry of an argument need not be accepted by `TaskArg(**arg)`.

The other values are those of the fields' types. `refused` is what `clean` or the `INSERT` raises where
the dictionary has one that its field does not convert to its type, or its column does not hold: a
negative number of repeats, one beyond the range of the column, a `timeout` that is no number, a text
that is too long. -/
structure TaskEntry where
  id : Option Nat
  jobName : Option JobName
  model : Option String
  name : Option String
  callable : Option String
  callableArgs : Option (List (Except PyError TaskArg))
  callableKwargs : Option (List (Except PyError TaskKwarg))
  enabled : Option Bool
  queue : Option QueueName
  «repeat» : Option Nat
  atFront : Option Bool
  timeout : Option Int
  resultTtl : Option Int
  cronString : Option String
  scheduledTime : Option String
  interval : Option Nat
  intervalUnit : Option (Option TimeUnit)
  successfulRuns : Option Nat
  failedRuns : Option Nat
  lastSuccessfulRun : Option Int
  lastFailedRun : Option Int
  refused : Option PyError

namespace TaskEntry

/-- The value of `scheduled_time`. An empty text is left as it is, and no task is saved with it. -/
def readTime (env : Env) (d : TaskEntry) : Except PyError (Option Int) :=
  match d.scheduledTime with
  | none => .ok none
  | some s =>
      if s = "" then .error (.validationError "scheduled_time")
      else match env.fromisoformat s with
        | some t => .ok (some t)
        | none => .error (.valueError s)

/-- The object `Task(**kwargs)`. -/
def toTask (d : TaskEntry) (taskType : TaskType) (scheduledTime : Option Int) : Task where
  id := 0
  name := d.name.getD ""
  taskType := taskType
  callable := d.callable.getD ""
  enabled := d.enabled.getD true
  queue := d.queue.getD ""
  jobName := d.jobName
  atFront := d.atFront.getD false
  timeout := d.timeout
  resultTtl := d.resultTtl
  failedRuns := d.failedRuns.getD 0
  successfulRuns := d.successfulRuns.getD 0
  lastSuccessfulRun := d.lastSuccessfulRun
  lastFailedRun := d.lastFailedRun
  interval := d.interval
  intervalUnit := d.intervalUnit.getD (some .hours)
  «repeat» := d.repeat
  scheduledTime := scheduledTime
  cronString := d.cronString

/-- `Task.objects.create`: what is refused, and a row under a primary key in use, raise before anything
is stored. -/
def create (env : Env) (d : TaskEntry) (t : Task) : Py Task :=
  match d.refused with
  | some x => throw x
  | none =>
      match d.id with
      | none => t.create env
      | some id => do
          match ← Prog.read fun w => w.tasks.find? id with
          | some _ => throw (.exception "IntegrityError")
          | none => ({ t with id := id } : Task).save env true true

/-- A loop over the entries of arguments. -/
def forEntries {α : Type} (l : List (Except PyError α)) (f : α → Py Unit) : Py Unit :=
  Prog.forEach l fun a =>
    match a with
    | .error x => throw x
    | .ok a => f a

/-- The part of `create_task_from_dict` after the task of that name was deleted. -/
def insert (env : Env) (d : TaskEntry) (taskType : TaskType) : Py Task :=
  match d.callableArgs, d.callableKwargs with
  | none, _ => throw (.keyError "callable_args")
  | some _, none => throw (.keyError "callable_kwargs")
  | some args, some kwargs =>
      match d.readTime env with
      | .error x => throw x
      | .ok scheduledTime => do
          let task ← d.create env (d.toTask taskType scheduledTime)
          task.describe env
          forEntries args fun a => Task.createArg env task.id a
          forEntries kwargs fun a => Task.createKwarg env task.id a
          pure task

/-- `create_task_from_dict`. -/
def createTask (env : Env) (d : TaskEntry) (update : Bool) : Py (Option Task) :=
  match d.name with
  | none => throw (.keyError "name")
  | some name => do
      let existing ← Prog.read fun w => w.tasks.withName name
      match d.model with
      | none => throw (.keyError "model")
      | some model =>
          match getTaskType model with
          | .error x => throw x
          | .ok taskType =>
              match existing with
              | none => do
                  let task ← d.insert env taskType
                  pure (some task)
              | some t =>
                  if update then do
                    t.describe env
                    t.delete env
                    let task ← d.insert env taskType
                    pure (some task)
                  else do
                    t.describe env
                    pure none

end TaskEntry

namespace TaskDict

/-- The dictionary in the file, with the given text of its time. -/
def entry (d : TaskDict) (scheduledTime : Option String) : TaskEntry where
  id := none
  jobName := none
  model := some d.model
  name := some d.name
  callable := some d.callable
  callableArgs := some (d.callableArgs.map .ok)
  callableKwargs := some (d.callableKwargs.map .ok)
  enabled := some d.enabled
  queue := some d.queue
  «repeat» := d.repeat
  atFront := some d.atFront
  timeout := d.timeout
  resultTtl := d.resultTtl
  cronString := d.cronString
  scheduledTime := scheduledTime
  interval := d.interval
  intervalUnit := some d.intervalUnit
  successfulRuns := some d.successfulRuns
  failedRuns := some d.failedRuns
  lastSuccessfulRun := d.lastSuccessfulRun
  lastFailedRun := d.lastFailedRun
  refused := none

end TaskDict

theorem TaskEntry.forEntries_ok {α : Type} (l : List α) (f : α → Py Unit) :
    TaskEntry.forEntries (l.map .ok) f = Prog.forEach l f := by
  unfold TaskEntry.forEntries
  induction l with
  | nil => rfl
  | cons a l ih =>
      rw [List.map_cons, Prog.forEach, Prog.forEach, ih]

/-- A dictionary that `to_dict` wrote is imported as it was written, if the text of its time is
read as that time. -/
theorem TaskEntry.createTask_entry {env : Env} {d : TaskDict} {text : Option String}
    (htext : (d.entry text).readTime env = .ok d.scheduledTime) (update : Bool) :
    (d.entry text).createTask env update = d.createTask env update := by
  have hinsert : ∀ ty, (d.entry text).insert env ty = d.insert env ty := by
    intro ty
    unfold TaskEntry.insert
    rw [htext]
    show ((d.toTask ty).create env >>= fun task => _) = d.insert env ty
    simp only [TaskEntry.forEntries_ok]
    rfl
  show (Prog.read (fun w : World => w.tasks.withName d.name) >>= fun existing => _) = _
  simp only [hinsert]
  rfl

/-- `Task.objects.all().delete()`. -/
def deleteAllTasks : Py Unit := Prog.write fun w => w.deleteTasks (w.tasks.rows.map Task.id)

end DailyScheduler
