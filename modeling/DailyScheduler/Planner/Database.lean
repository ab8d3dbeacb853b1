import DailyScheduler.Planner.Prayers
import DailyScheduler.Planner.Writes

set_option autoImplicit false

/-! # The whole database of the planner

The views of `views/personal_task_views.py`, `views/project_views.py` and `views/prayer_views.py` that
toggle and delete, and those that make subtasks, projects and prayer times. Together with the views of the
other modules these are all requests that write to the planner (`PlannerDb.step`).

A foreign key of the planner is declared with `on_delete=CASCADE`: a row is deleted together with the row
it refers to.
-/

namespace DailyScheduler

open AtomicProg Calendar

/-! ## Records -/

/-- A `TaskCompletion`: what a task was marked as, and when. -/
structure TaskCompletion where
  id : Nat
  task : Nat
  isCompleted : Bool
  completedAt : DateTime
  performanceRating : Option String
  deriving DecidableEq

/-- A `PrayerSchedule`. `choices` does not keep other names out of the table. -/
structure PrayerSchedule where
  id : Nat
  prayerName : String
  startTime : Time
  endTime : Time
  deriving DecidableEq

/-- The database with the tables that `Planner` does not have. -/
structure PlannerDb extends Planner where
  taskCompletions : Table TaskCompletion TaskCompletion.id
  prayerSchedules : Table PrayerSchedule PrayerSchedule.id

def PlannerDb.init (now : DateTime) : PlannerDb where
  toPlanner := Planner.init now
  taskCompletions := .empty
  prayerSchedules := .empty

/-- What the views of this module use besides. -/
structure DeskEnv extends PrayerEnv where
  /-- `str.strip`. -/
  strip : String → String
  /-- What a `TimeField` makes of a text, `none` when it is refused. -/
  parseTime : String → Option Time
  /-- Whether the database accepts a new project task. -/
  acceptsProjectTask : ProjectTask → Bool

/-- The answers of the views that catch exceptions; the texts in the answers of the framework are left
out. -/
inductive Reply (α : Type) where
  | success (data : α)
  | invalidJson
  /-- `data` has no `get`. -/
  | badRequest
  | titleRequired
  | failed
  deriving DecidableEq

/-! ## Reading requests -/

namespace Json

/-- What a `BooleanField` makes of a value: a number is compared with `True` and `False`, and `None` is
refused by the database. -/
def toBoolean : Json → Option Bool
  | .bool b => some b
  | .int n => if n = 1 then some true else if n = 0 then some false else none
  | .float x => if x = .finite 1 then some true else if x = .finite 0 then some false else none
  | .str s =>
      if s = "t" ∨ s = "True" ∨ s = "1" then some true
      else if s = "f" ∨ s = "False" ∨ s = "0" then some false
      else none
  | _ => none

/-- `data.get(key, "").strip()`. -/
def stripped (env : DeskEnv) (key : String) (data : Json) : Except ViewError String := do
  match ← data.get key with
  | none => pure (env.strip "")
  | some (.str s) => pure (env.strip s)
  | some _ => .error .attributeError

/-- `data.get("is_completed", False)`. -/
def completed (data : Json) : Except ViewError Json := do
  let value ← data.get "is_completed"
  pure (value.getD (.bool false))

end Json

/-! ## Ratings -/

/-- What `get_performance_rating` returns; `emoji` is there unless there are no subtasks. -/
structure Performance where
  rating : String
  percentage : ℚ
  label : String
  emoji : Option String
  deriving DecidableEq

/-- The rating of a percentage. -/
def performanceOf (percentage : ℚ) : Performance :=
  if percentage = 0 then ⟨"0%", 0, "No Performance", some "❌"⟩
  else if percentage < 50 then
    ⟨toString (Double.roundHalfEven percentage) ++ "%", percentage, "Poor Performance", some "⚠️"⟩
  else if percentage < 60 then ⟨"50%", 50, "Average Performance", some "📊"⟩
  else if percentage < 70 then ⟨"60%", 60, "Above Average", some "👍"⟩
  else if percentage < 80 then ⟨"70%", percentage, "Fairly Successful", some "😊"⟩
  else if percentage < 90 then ⟨"80%", percentage, "Excellent", some "⭐"⟩
  else ⟨"90%+", 100, "Fully Successful", some "🏆"⟩

namespace Planner

variable (db : Planner)

/-- `self.subtasks`. -/
def subTasksUnder (task : Nat) : List SubTask :=
  db.subTasks.rows.filter fun s => decide (s.personalTask = task)

/-- `get_performance_rating`. -/
def getPerformanceRating (task : Nat) : Performance :=
  let subtasks := db.subTasksUnder task
  if subtasks.isEmpty then ⟨"N/A", 0, "No subtasks", none⟩
  else performanceOf
    (((subtasks.filter (·.isCompleted)).length : ℚ) / subtasks.length * 100)

def updateSubTask (row : SubTask) : Planner := { db with subTasks := db.subTasks.update row }

def deleteSubTask (id : Nat) : Planner :=
  { db with subTasks := db.subTasks.delete fun s => decide (s.id = id) }

/-- The last of some numbers of an order, 0 if there are none. -/
def maxOrder (orders : List Nat) : Nat := orders.foldl max 0

def createProject (row : Project) : Planner :=
  { db with projects := db.projects.insert (fun k => { row with id := k }) fun _ => rfl }

def updateProject (row : Project) : Planner := { db with projects := db.projects.update row }

def createProjectTask (row : ProjectTask) : Planner :=
  { db with projectTasks := db.projectTasks.insert (fun k => { row with id := k }) fun _ => rfl }

/-- The tasks of a project. -/
def projectTasksOf (project : Nat) : List ProjectTask :=
  db.projectTasks.rows.filter fun t => decide (t.project = project)

/-- `delete` of project tasks: their schedules are deleted with them. -/
def deleteProjectTasks (ids : List Nat) : Planner :=
  { db with
    projectTasks := db.projectTasks.delete fun t => decide (t.id ∈ ids)
    projectSchedules := db.projectSchedules.delete fun s => decide (s.projectTask ∈ ids) }

/-- `delete` of a project: its tasks are deleted with it. -/
def deleteProject (id : Nat) : Planner :=
  { db.deleteProjectTasks ((db.projectTasksOf id).map ProjectTask.id) with
    projects := db.projects.delete fun p => decide (p.id = id) }

end Planner

/-! ## Tasks and subtasks -/

/-- `delete_personal_task`. -/
def deletePersonalTaskView (taskId : Nat) : View Unit := do
  let task ← getTaskOr404 taskId
  Prog.write (·.deleteTasks [task.id])

/-- `create_subtask`. Only a body that is not JSON is caught before the title is checked. -/
def createSubtaskView (env : DeskEnv) (taskId : Nat) (body : String) : View (Reply SubTask) := do
  let task ← getTaskOr404 taskId
  match env.jsonLoads body with
  | none => pure .invalidJson
  | some data => do
      let title ← View.ofExcept (data.stripped env "title")
      if title = "" then pure .titleRequired
      else do
        let order ← Prog.read fun db => Planner.maxOrder ((db.subTasksUnder task.id).map SubTask.order)
        let row : SubTask := ⟨0, task.id, title, false, order + 1⟩
        let subtask ← Prog.command
          (fun db : Planner => ({ row with id := db.subTasks.next }, db.createSubTask row)) fun _ => []
        pure (.success subtask)

/-- `get_object_or_404(SubTask, id=subtask_id)`. -/
def getSubTaskOr404 (id : Nat) : View SubTask := do
  match ← Prog.read (·.subTasks.find? id) with
  | some s => pure s
  | none => throw .http404

/-- `toggle_subtask_completion`. -/
def toggleSubtaskCompletion (env : DeskEnv) (subtaskId : Nat) (body : String) :
    View (Reply Performance) := do
  let subtask ← getSubTaskOr404 subtaskId
  match env.jsonLoads body with
  | none => pure .invalidJson
  | some data => do
      let isCompleted ← View.ofExcept data.completed
      match isCompleted.toBoolean with
      | none => pure .failed
      | some b => do
          Prog.write (·.updateSubTask { subtask with isCompleted := b })
          let performance ← Prog.read (·.getPerformanceRating subtask.personalTask)
          pure (.success performance)

/-- `delete_subtask`. -/
def deleteSubtaskView (subtaskId : Nat) : View (Reply Performance) := do
  let subtask ← getSubTaskOr404 subtaskId
  Prog.write (·.deleteSubTask subtask.id)
  match ← Prog.read (·.personalTasks.find? subtask.personalTask) with
  | none => pure .failed
  | some task => do
      let performance ← Prog.read (·.getPerformanceRating task.id)
      pure (.success performance)

/-! ## Projects -/

/-- The arguments of `Project.objects.create`. A status may be any text, but not `None`. -/
def readProject (env : DeskEnv) (data : Json) : Except ViewError Project := do
  let title ← data.stripped env "title"
  let _ ← data.stripped env "description"
  let startDate ← data.get "start_date"
  let startDate ← (startDate.getD .null).toDate env.toPrayerEnv
  let endDate ← data.get "end_date"
  let endDate ← (endDate.getD .null).toDate env.toPrayerEnv
  match ← data.get "status" with
  | some .null => .error .integrityError
  | _ => pure ⟨0, title, startDate, endDate⟩

/-- `create_project` for a POST request; the fields of a form are texts. -/
def createProjectView (env : DeskEnv) (body : String) : View (Reply Nat) :=
  match env.loads body >>= readProject env with
  | .error _ => pure .failed
  | .ok row => do
      let id ← Prog.command
        (fun db : Planner => (db.projects.next, db.createProject row)) fun _ => []
      pure (.success id)

/-- `get_object_or_404(Project, id=project_id)`. -/
def getProjectOr404 (id : Nat) : View Project := do
  match ← Prog.read (·.projects.find? id) with
  | some p => pure p
  | none => throw .http404

/-- `project_detail` for a POST request with a title, if there is one. -/
def projectDetail (projectId : Nat) (title : Option String) : View Unit := do
  let project ← getProjectOr404 projectId
  Prog.write (·.updateProject { project with title := title.getD project.title })

/-- The title and the duration of a request for a project task. -/
def readProjectTask (env : DeskEnv) (data : Json) : Except ViewError (String × Number) := do
  let title ← data.stripped env "title"
  let _ ← data.stripped env "description"
  let duration ← data.get "duration_hours"
  let duration ← (duration.getD (.float (.finite 1))).toFloat env.toPlannerEnv
  pure (title, duration)

/-- The row of a new project task. -/
def projectTaskRow (project : Project) (title : String) (duration : Number) (order : Nat)
    (now : DateTime) : ProjectTask where
  id := 0
  project := project.id
  title := title
  durationHours := duration
  order := order
  isScheduled := false
  updatedAt := now

/-- `create_project_task`. -/
def createProjectTaskView (env : DeskEnv) (projectId : Nat) (body : String) :
    View (Reply ProjectTask) := do
  let project ← getProjectOr404 projectId
  match env.loads body with
  | .error _ => pure .failed
  | .ok data => do
      let order ← Prog.read fun db =>
        Planner.maxOrder ((db.projectTasksOf project.id).map ProjectTask.order)
      match readProjectTask env data with
      | .error _ => pure .failed
      | .ok (title, duration) => do
          let now ← Prog.read (·.now)
          let row := projectTaskRow project title duration (order + 1) now
          if env.acceptsProjectTask row then do
            let task ← Prog.command
              (fun db : Planner => ({ row with id := db.projectTasks.next }, db.createProjectTask row))
              fun _ => []
            pure (.success task)
          else pure .failed

/-- `delete_project_task`. -/
def deleteProjectTaskView (taskId : Nat) : View Unit := do
  match ← Prog.read (·.projectTasks.find? taskId) with
  | none => throw .http404
  | some task => Prog.write (·.deleteProjectTasks [task.id])

/-- `delete_project`. -/
def deleteProjectView (projectId : Nat) : View Unit := do
  let project ← getProjectOr404 projectId
  Prog.write (·.deleteProject project.id)

/-! ## The other tables -/

abbrev DbView (α : Type) := Prog PlannerDb PlannerEvent ViewError α

namespace PlannerDb

variable (db : PlannerDb)

/-- Other tables of the planner are there. The completions of a task that is gone went with it. -/
def withPlanner (p : Planner) : PlannerDb where
  toPlanner := p
  taskCompletions := db.taskCompletions.delete fun c =>
    (db.personalTasks.find? c.task).isSome && (p.personalTasks.find? c.task).isNone
  prayerSchedules := db.prayerSchedules

def createCompletion (row : TaskCompletion) : PlannerDb :=
  { db with taskCompletions := db.taskCompletions.insert (fun k => { row with id := k }) fun _ => rfl }

def createSchedule (row : PrayerSchedule) : PlannerDb :=
  { db with prayerSchedules := db.prayerSchedules.insert (fun k => { row with id := k }) fun _ => rfl }

def updateSchedule (row : PrayerSchedule) : PlannerDb :=
  { db with prayerSchedules := db.prayerSchedules.update row }

def deleteSchedule (id : Nat) : PlannerDb :=
  { db with prayerSchedules := db.prayerSchedules.delete fun p => decide (p.id = id) }

/-- `task.is_completed = b; task.save()`. -/
def saveCompleted (task : PersonalTask) (b : Bool) : PlannerDb :=
  { db with toPlanner := db.updateTask { task with isCompleted := b } }

end PlannerDb

/-- The `try` block of `toggle_task_completion` that saves. -/
def recordCompletion (task : PersonalTask) (b : Bool) : DbView Performance := do
  Prog.write (·.saveCompleted task b)
  let performance ← Prog.read (·.getPerformanceRating task.id)
  let now ← Prog.read (·.now)
  Prog.write (·.createCompletion ⟨0, task.id, b, now, some performance.label⟩)
  pure performance

/-- `toggle_task_completion`. -/
def toggleTaskCompletion (env : DeskEnv) (taskId : Nat) (body : String) :
    DbView (Reply Performance) := do
  match ← Prog.read (·.personalTasks.find? taskId) with
  | none => throw .http404
  | some task =>
      match env.jsonLoads body with
      | none => pure .invalidJson
      | some data =>
          match data.completed with
          | .error _ => pure .badRequest
          | .ok value =>
              match value.toBoolean with
              | none => pure .failed
              | some b => do
                  let performance ← recordCompletion task b
                  pure (.success performance)

/-! ## Prayer times -/

/-- The fields of a form for prayer times; a field may be missing. -/
structure PrayerRequest where
  prayerName : Option String
  startTime : Option String
  endTime : Option String

/-- The texts of the form, if none is missing or empty. -/
def filled (s : Option String) : Option String := s.filter fun s => decide (s ≠ "")

/-- `create_prayer` for a POST request. -/
def createPrayerView (env : DeskEnv) (r : PrayerRequest) : DbView Unit :=
  match filled r.prayerName, filled r.startTime, filled r.endTime with
  | some prayerName, some startTime, some endTime => do
      let exists_ ← Prog.read fun db : PlannerDb =>
        db.prayerSchedules.rows.any fun p => decide (p.prayerName = prayerName)
      if exists_ then pure ()
      else
        match env.parseTime startTime, env.parseTime endTime with
        | some startTime, some endTime =>
            if env.acceptsName prayerName then
              Prog.write (·.createSchedule ⟨0, prayerName, startTime, endTime⟩)
            else pure ()
        | _, _ => pure ()
  | _, _, _ => pure ()

/-- `get_object_or_404(PrayerSchedule, id=prayer_id)`. -/
def getPrayerOr404 (id : Nat) : DbView PrayerSchedule := do
  match ← Prog.read (·.prayerSchedules.find? id) with
  | some p => pure p
  | none => throw .http404

/-- `update_prayer` for a POST request. -/
def updatePrayerView (env : DeskEnv) (prayerId : Nat) (r : PrayerRequest) : DbView Unit := do
  let prayer ← getPrayerOr404 prayerId
  match (filled r.startTime).bind env.parseTime, (filled r.endTime).bind env.parseTime with
  | some startTime, some endTime =>
      Prog.write (·.updateSchedule { prayer with startTime := startTime, endTime := endTime })
  | _, _ => pure ()

/-- `delete_prayer`. -/
def deletePrayerView (prayerId : Nat) : DbView Unit := do
  let prayer ← getPrayerOr404 prayerId
  Prog.write (·.deleteSchedule prayer.id)

/-! ## All requests -/

/-- A request that writes to the planner, or the clock. -/
inductive DbRequest where
  | planner (r : PlannerRequest)
  | deletePersonalTask (id : Nat)
  | createSubtask (taskId : Nat) (body : String)
  | toggleSubtask (id : Nat) (body : String)
  | deleteSubtask (id : Nat)
  | createProject (body : String)
  | projectDetail (id : Nat) (title : Option String)
  | createProjectTask (projectId : Nat) (body : String)
  | deleteProjectTask (id : Nat)
  | createSchedule (taskId : Nat) (body : String)
  | deleteProject (id : Nat)
  | togglePrayer (prayerName body : String)
  | toggleTask (id : Nat) (body : String)
  | createPrayer (r : PrayerRequest)
  | updatePrayer (id : Nat) (r : PrayerRequest)
  | deletePrayer (id : Nat)

/-- The tables of `Planner` after a request that writes to no other. -/
def Planner.serve (env : DeskEnv) (db : Planner) : DbRequest → Planner
  | .planner r => db.step env.toPlannerEnv r
  | .deletePersonalTask id => (deletePersonalTaskView id).exec db
  | .createSubtask taskId body => (createSubtaskView env taskId body).exec db
  | .toggleSubtask id body => (toggleSubtaskCompletion env id body).exec db
  | .deleteSubtask id => (deleteSubtaskView id).exec db
  | .createProject body => (createProjectView env body).exec db
  | .projectDetail id title => (DailyScheduler.projectDetail id title).exec db
  | .createProjectTask projectId body => (createProjectTaskView env projectId body).exec db
  | .deleteProjectTask id => (deleteProjectTaskView id).exec db
  | .createSchedule taskId body => (createScheduleView env.toPlannerEnv taskId body).exec db
  | .deleteProject id => (deleteProjectView id).exec db
  | .togglePrayer prayerName body => (togglePrayerCompletion env.toPrayerEnv prayerName body).exec db
  | .toggleTask _ _ | .createPrayer _ | .updatePrayer _ _ | .deletePrayer _ => db

/-- The database after a request. -/
def PlannerDb.step (env : DeskEnv) (db : PlannerDb) : DbRequest → PlannerDb
  | .toggleTask id body => (toggleTaskCompletion env id body).exec db
  | .createPrayer r => (createPrayerView env r).exec db
  | .updatePrayer id r => (updatePrayerView env id r).exec db
  | .deletePrayer id => (deletePrayerView id).exec db
  | r => db.withPlanner (db.serve env r)

end DailyScheduler
