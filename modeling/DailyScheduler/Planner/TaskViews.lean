import DailyScheduler.Planner.Requests
import Mathlib.Data.List.Sort

set_option autoImplicit false

/-! # The views of personal tasks

`forms.py` and the views of `views/personal_task_views.py` that write tasks: creating, editing,
copying from the day before, and the breaks inserted after long tasks.
-/

namespace DailyScheduler

open AtomicProg Calendar

/-! ## The form -/

/-- The cleaned fields of a `PersonalTaskForm`. -/
structure TaskFields where
  title : String
  description : Option String
  date : Date
  startTime : Time
  endTime : Time
  category : TaskCategory
  deriving DecidableEq

/-- The messages of `PersonalTaskForm.clean`. -/
def endBeforeStart : String := "End time must be after start time."

def pastDate : String := "Cannot create tasks for past dates."

def tooManyNonNegotiable : String :=
  "You already have 3 non-negotiable tasks for this day (the maximum recommended). " ++
    "Consider marking some as secondary or rescheduling."

namespace Planner

variable (db : Planner)

/-- The number of non-negotiable tasks on a date. -/
def nonNegotiable (d : Date) : Nat :=
  db.personalTasks.rows.countP fun t => decide (t.date = d ∧ t.category = .nonNegotiable)

/-- `PersonalTaskForm.clean`, once all fields are valid: `none`, or the message it raises. -/
def cleanFields (f : TaskFields) : Option String :=
  if f.startTime.micros ≥ f.endTime.micros then some endBeforeStart
  else if f.date.ordinal < db.now.date.ordinal then some pastDate
  else if f.category = .nonNegotiable ∧ db.nonNegotiable f.date ≥ 3 then some tooManyNonNegotiable
  else none

/-- Insert a row; its id is the next one. -/
def createTask (row : PersonalTask) : Planner :=
  { db with personalTasks := db.personalTasks.insert (fun k => { row with id := k }) fun _ => rfl }

def updateTask (row : PersonalTask) : Planner :=
  { db with personalTasks := db.personalTasks.update row }

def createSubTask (row : SubTask) : Planner :=
  { db with subTasks := db.subTasks.insert (fun k => { row with id := k }) fun _ => rfl }

/-- The ids of some tasks and of all breaks under them, `depth` levels deep. -/
def withBreaks (ids : List Nat) : Nat → List Nat
  | 0 => ids
  | depth + 1 =>
      withBreaks (ids ++ (db.personalTasks.rows.filter fun t =>
        match t.parentTask with
        | some p => decide (p ∈ ids)
        | none => false).map PersonalTask.id) depth

/-- `delete` of the tasks with some ids: the breaks under them and the subtasks of all of them are
deleted with them. -/
def deleteTasks (ids : List Nat) : Planner :=
  let all := db.withBreaks ids db.personalTasks.rows.length
  { db with
    personalTasks := db.personalTasks.delete fun t => decide (t.id ∈ all)
    subTasks := db.subTasks.delete fun s => decide (s.personalTask ∈ all) }

/-- The ids of the breaks of a task. -/
def breaksOf (id : Nat) : List Nat :=
  (db.personalTasks.rows.filter fun t => decide (t.parentTask = some id)).map PersonalTask.id

end Planner

/-- `objects.create`: the row as it is stored. -/
def createPersonalTask (row : PersonalTask) : View PersonalTask :=
  Prog.command (fun db => ({ row with id := db.personalTasks.next }, db.createTask row)) fun _ => []

/-- `get_object_or_404(PersonalTask, id=task_id)`. -/
def getTaskOr404 (id : Nat) : View PersonalTask := do
  match ← Prog.read (·.personalTasks.find? id) with
  | some t => pure t
  | none => throw .http404

/-! ## Breaks -/

/-- Ten minutes. -/
def breakLength : Int := 10 * 60 * 1000000

namespace Planner

variable (db : Planner)

/-- A break of the task that starts at its end exists. -/
def existingBreak (t : PersonalTask) : Bool :=
  db.personalTasks.rows.any fun r =>
    decide (r.date = t.date ∧ r.startTime = t.endTime ∧ r.isBreak = true ∧ r.parentTask = some t.id)

/-- Another task meets the time from the end of the task to `breakEnd`. -/
def conflictingTasks (t : PersonalTask) (breakEnd : Time) : Bool :=
  db.personalTasks.rows.any fun r =>
    decide (r.date = t.date ∧ r.startTime.micros < breakEnd.micros ∧
      t.endTime.micros < r.endTime.micros ∧ r.id ≠ t.id)

end Planner

/-- The break after a task, as `auto_insert_breaks` creates it. -/
def breakAfter (t : PersonalTask) (breakEnd : Time) : PersonalTask where
  id := 0
  title := "🔔 Break"
  description := some "Auto-inserted break to prevent burnout"
  date := t.date
  startTime := t.endTime
  endTime := breakEnd
  category := .fun
  isCompleted := false
  isBreak := true
  parentTask := some t.id

/-- `auto_insert_breaks`. -/
def autoInsertBreaks (t : PersonalTask) : View Unit :=
  if t.isBreak then pure ()
  else if t.endTime.micros - t.startTime.micros ≥ hourLength then do
    let breakEnd ← View.ofExcept (orOverflow ((DateTime.mk t.date t.endTime).add breakLength))
    let existing ← Prog.read (·.existingBreak t)
    if existing then pure ()
    else do
      let conflicting ← Prog.read (·.conflictingTasks t breakEnd.time)
      if conflicting then pure ()
      else do
        let _ ← createPersonalTask (breakAfter t breakEnd.time)
        pure ()
  else pure ()

/-! ## Creating and editing -/

/-- A POST request with the form: its fields, if each of them is valid, and the text of
`subtasks_json`. -/
structure TaskRequest where
  fields : Option TaskFields
  subtasksJson : Option String

/-- A value that goes into a column, unless that raises. -/
def intoColumn {α : Type} (a : α) : Option ViewError → Except ViewError α
  | none => .ok a
  | some e => .error e

/-- The title a subtask gets: a missing one violates `NOT NULL`. -/
def subTaskTitle (env : PlannerEnv) (data : Json) : Except ViewError String := do
  match ← data.get "title" with
  | none => .error .integrityError
  | some .null => .error .integrityError
  | some (.str s) => intoColumn s (env.titleRefused s)
  | some x => intoColumn (env.text x) (env.titleRefused (env.text x))

/-- The order a subtask gets: it may not be negative. -/
def subTaskOrder (env : PlannerEnv) (data : Json) : Except ViewError Nat := do
  match ← data.get "order" with
  | none => pure 0
  | some .null => .error .integrityError
  | some x => do
      let n ← x.toInt env
      if n < 0 then .error .integrityError else intoColumn n.toNat (env.orderRefused n.toNat)

/-- `SubTask.objects.create` for an element of `subtasks_data`. -/
def createSubTaskFrom (env : PlannerEnv) (taskId : Nat) (data : Json) : View Unit := do
  let title ← View.ofExcept (subTaskTitle env data)
  let order ← View.ofExcept (subTaskOrder env data)
  Prog.write (·.createSubTask ⟨0, taskId, title, false, order⟩)

/-- `task.subtasks.all().delete()`, when a task is edited. -/
def dropSubtasks (taskId : Nat) (replace : Bool) : View Unit :=
  if replace then
    Prog.write fun db =>
      { db with subTasks := db.subTasks.delete fun r => decide (r.personalTask = taskId) }
  else pure ()

/-- The handling of `subtasks_json`: only a text that is not JSON is caught. When a task is edited
its subtasks are deleted first. -/
def handleSubtasks (env : PlannerEnv) (taskId : Nat) (replace : Bool) : Option String → View Unit
  | none => pure ()
  | some s =>
      if s = "" then pure ()
      else match env.jsonLoads s with
        | none => pure ()
        | some data => do
            dropSubtasks taskId replace
            let items ← View.ofExcept data.elements
            Prog.forEach items fun x => createSubTaskFrom env taskId x

/-- The task a valid form creates. -/
def TaskFields.newTask (f : TaskFields) : PersonalTask where
  id := 0
  title := f.title
  description := f.description
  date := f.date
  startTime := f.startTime
  endTime := f.endTime
  category := f.category
  isCompleted := false
  isBreak := false
  parentTask := none

/-- The task after a valid form has changed it. -/
def TaskFields.edited (f : TaskFields) (t : PersonalTask) : PersonalTask :=
  { t with
    title := f.title
    description := f.description
    date := f.date
    startTime := f.startTime
    endTime := f.endTime
    category := f.category }

/-- `form.is_valid()`: the fields of a valid form. -/
def validForm (r : TaskRequest) : View (Option TaskFields) :=
  match r.fields with
  | none => pure none
  | some f => Prog.read fun db => if (db.cleanFields f).isNone then some f else none

/-- What `create_personal_task` does with the new task. -/
def finishCreate (env : PlannerEnv) (task : PersonalTask) (subtasksJson : Option String) :
    View Unit := do
  handleSubtasks env task.id false subtasksJson
  autoInsertBreaks task

/-- What `edit_personal_task` does after `form.save()`. -/
def finishEdit (env : PlannerEnv) (task : PersonalTask) (subtasksJson : Option String) :
    View Unit := do
  handleSubtasks env task.id true subtasksJson
  Prog.write fun db => db.deleteTasks (db.breaksOf task.id)
  autoInsertBreaks task

/-- `create_personal_task` for a POST request to the page of a date. -/
def createPersonalTaskView (env : PlannerEnv) (r : TaskRequest) : View Unit := do
  match ← validForm r with
  | none => pure ()
  | some f => do
      let task ← createPersonalTask f.newTask
      finishCreate env task r.subtasksJson

/-- `edit_personal_task` for a POST request. -/
def editPersonalTask (env : PlannerEnv) (taskId : Nat) (r : TaskRequest) : View Unit := do
  let task ← getTaskOr404 taskId
  match ← validForm r with
  | none => pure ()
  | some f => do
      Prog.write (·.updateTask (f.edited task))
      finishEdit env (f.edited task) r.subtasksJson

/-! ## Copying -/

/-- `copy_tasks_from_yesterday`'s answer. -/
structure CopyAnswer where
  copied : List Nat
  errors : List ViewError
  deriving DecidableEq

/-- The time of a task after its override, if there is one. -/
def overriddenTime (env : PlannerEnv) (override : Option Json) (key : String) (t : Time) :
    Except ViewError Time :=
  match override with
  | none => .ok t
  | some o => do
      match ← o.item key with
      | none => pure t
      | some x => x.toTime env

/-- The copy of a task: the same texts and category, on another date and at its own times. -/
def copyOf (t : PersonalTask) (date : Date) (startTime endTime : Time) : PersonalTask where
  id := 0
  title := t.title
  description := t.description
  date := date
  startTime := startTime
  endTime := endTime
  category := t.category
  isCompleted := false
  isBreak := false
  parentTask := none

/-- `PersonalTask.objects.get(id=task_id, date=yesterday)`. -/
def getForCopy (env : PlannerEnv) (yesterday : Date) (taskId : Json) : View PersonalTask := do
  let id ← View.ofExcept (env.idOf taskId)
  match ← Prog.read (·.personalTasks.find? id) with
  | none => throw .doesNotExist
  | some t => if t.date = yesterday then pure t else throw .doesNotExist

/-- The `try` block of the loop of `copy_tasks_from_yesterday`: the id of the copy. -/
def copyTask (env : PlannerEnv) (current yesterday : Date) (overrides : Json) (taskId : Json) :
    View Nat := do
  let original ← getForCopy env yesterday taskId
  let override ← View.ofExcept (overrides.item (env.text taskId))
  let startTime ← View.ofExcept (overriddenTime env override "start_time" original.startTime)
  let endTime ← View.ofExcept (overriddenTime env override "end_time" original.endTime)
  let task ← createPersonalTask (copyOf original current startTime endTime)
  let subtasks ← Prog.read fun db =>
    (db.subTasks.rows.filter fun s => decide (s.personalTask = original.id)).insertionSort
      fun s s' => s.order ≤ s'.order
  Prog.forEach subtasks fun s =>
    Prog.write (·.createSubTask ⟨0, task.id, s.title, false, s.order⟩)
  pure task.id

/-- The loop of `copy_tasks_from_yesterday`. -/
def copyTasks (env : PlannerEnv) (current yesterday : Date) (overrides : Json) :
    List Json → CopyAnswer → View CopyAnswer
  | [], acc => pure acc
  | taskId :: l, acc => do
      match ← (copyTask env current yesterday overrides taskId).attempt with
      | .ok id => copyTasks env current yesterday overrides l { acc with copied := acc.copied ++ [id] }
      | .error x => copyTasks env current yesterday overrides l { acc with errors := acc.errors ++ [x] }

/-- The overrides and the ids of a request to copy. -/
def readCopyRequest (data : Json) : Except ViewError (Json × List Json) := do
  let taskIds ← data.get "task_ids"
  let overrides ← data.get "time_overrides"
  let items ← (taskIds.getD (.arr [])).elements
  pure (overrides.getD (.obj []), items)

/-- `copy_tasks_from_yesterday` for a date; `none` is the answer to a body that is not JSON. -/
def copyTasksFromYesterday (env : PlannerEnv) (current : Date) (body : String) :
    View (Option CopyAnswer) := do
  let yesterday ← View.ofExcept (orOverflow (current.addDays (-1)))
  match env.jsonLoads body with
  | none => pure none
  | some data => do
      let (overrides, items) ← View.ofExcept (readCopyRequest data)
      let answer ← copyTasks env current yesterday overrides items ⟨[], []⟩
      pure (some answer)

end DailyScheduler
