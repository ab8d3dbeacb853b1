import DailyScheduler.Planner.TaskViews

set_option autoImplicit false

/-! # The views of project schedules

`create_schedule` and `generate_schedule` of `views/project_views.py`. Both catch every exception
and answer with it; neither of them runs in a transaction.
-/

namespace DailyScheduler

open AtomicProg Calendar

/-- The answer of a view that catches what its body raises: `success` true with some data, or
false with the error. -/
inductive Answer (α : Type) where
  | success (data : α)
  | failure (error : ViewError)
  /-- The schedule exists already. -/
  | duplicate

/-- Whether the answer says `success: false`. -/
def Answer.failed {α : Type} : Answer α → Bool
  | .success _ => false
  | .failure _ => true
  | .duplicate => true

/-! ## Creating a schedule -/

/-- `get_end_time` on a day. -/
def ProjectSchedule.getEndTime (s : ProjectSchedule) (today : Date) : Except ViewError Time := do
  let d ← timedeltaHours s.durationHours
  let i ← orOverflow ((DateTime.mk today s.startTime).add d)
  pure i.time

/-- The schedule a request asks for. -/
structure ScheduleRequest where
  startTime : Time
  durationHours : Number
  weeks : Nat
  deriving DecidableEq

/-- The arguments of `ProjectSchedule.objects.create`. A missing key is `None`. -/
def readSchedule (env : PlannerEnv) (task : ProjectTask) (data : Json) :
    Except ViewError ScheduleRequest := do
  let startTime ← data.get "start_time"
  let startTime ← (startTime.getD .null).toTime env
  let duration ← data.get "duration_hours"
  let duration ← (duration.getD (.float task.durationHours)).toFloat env
  let weeks ← data.get "weeks"
  let weeks ← (weeks.getD (.int 1)).toInt env
  -- `weeks` is a `PositiveIntegerField`
  if weeks < 0 then .error .integrityError else pure ⟨startTime, duration, weeks.toNat⟩

/-- `int(data.get("day_of_week"))`. -/
def readDayOfWeek (env : PlannerEnv) (data : Json) : Except ViewError Int := do
  let day ← data.get "day_of_week"
  (day.getD .null).toInt env

/-- What `create_schedule` answers about the new schedule, besides what was asked for. -/
structure ScheduleAnswer where
  scheduleId : Nat
  endTime : Time
  deriving DecidableEq

/-- The new row. -/
def scheduleRow (task : ProjectTask) (dayOfWeek : Int) (r : ScheduleRequest) :
    ProjectSchedule where
  id := 0
  projectTask := task.id
  dayOfWeek := dayOfWeek
  startTime := r.startTime
  durationHours := r.durationHours
  weeks := r.weeks
  isActive := true

namespace Planner

variable (db : Planner)

/-- A schedule of the task for the day exists. -/
def existingSchedule (task : ProjectTask) (dayOfWeek : Int) : Bool :=
  db.projectSchedules.rows.any fun s =>
    decide (s.projectTask = task.id ∧ s.dayOfWeek = dayOfWeek)

def createSchedule (row : ProjectSchedule) : Planner :=
  { db with projectSchedules :=
      db.projectSchedules.insert (fun k => { row with id := k }) fun _ => rfl }

end Planner

/-- `ProjectSchedule.objects.create`. -/
def createProjectSchedule (env : PlannerEnv) (row : ProjectSchedule) : View ProjectSchedule :=
  if env.acceptsSchedule row then
    Prog.command
      (fun db => ({ row with id := db.projectSchedules.next }, db.createSchedule row)) fun _ => []
  else throw .integrityError

/-- The `try` block of `create_schedule`. -/
def createScheduleBody (env : PlannerEnv) (task : ProjectTask) (body : String) :
    View (Answer ScheduleAnswer) := do
  let data ← View.ofExcept (env.loads body)
  let dayOfWeek ← View.ofExcept (readDayOfWeek env data)
  let existing ← Prog.read (·.existingSchedule task dayOfWeek)
  if existing then pure .duplicate
  else do
    let r ← View.ofExcept (readSchedule env task data)
    let schedule ← createProjectSchedule env (scheduleRow task dayOfWeek r)
    -- the answer is made from the stored row
    let today ← Prog.read (·.now.date)
    let endTime ← View.ofExcept (schedule.getEndTime today)
    pure (.success ⟨schedule.id, endTime⟩)

/-- `create_schedule`. -/
def createScheduleView (env : PlannerEnv) (taskId : Nat) (body : String) :
    View (Answer ScheduleAnswer) := do
  match ← Prog.read (·.projectTasks.find? taskId) with
  | none => throw .http404
  | some task => (createScheduleBody env task body).tryCatch fun x => pure (.failure x)

/-! ## Generating the sessions -/

/-- A conflict `generate_schedule` reports. -/
structure Conflict where
  task : String
  date : Date
  startTime : Time
  endTime : Time
  deriving DecidableEq

/-- What `generate_schedule` answers. -/
structure Generated where
  created : Nat
  conflicts : List Conflict
  deriving DecidableEq

/-- `target_date`: the next date, from `current` on, with the schedule's day of the week. -/
def targetDate (p : Project) (s : ProjectSchedule) (current : Date) : Except ViewError Date :=
  let daysAhead := (s.dayOfWeek - current.weekday) % 7
  if daysAhead = 0 ∧ current ≠ p.startDate then orOverflow (current.addDays 7)
  else orOverflow (current.addDays daysAhead)

/-- A session that `generate_schedule` comes to: its date, its clock times, its length in
microseconds, and the task it belongs to. -/
structure Session where
  date : Date
  startTime : Time
  endTime : Time
  length : Int
  task : ProjectTask
  deriving DecidableEq

/-- The session of a schedule on a date. -/
def sessionOn (t : ProjectTask) (s : ProjectSchedule) (target : Date) :
    Except ViewError Session := do
  let d ← timedeltaHours s.durationHours
  let i ← orOverflow ((DateTime.mk target s.startTime).add d)
  pure ⟨target, s.startTime, i.time, d, t⟩

/-- The row of a session. -/
def Session.row (p : Project) (s : Session) : PersonalTask where
  id := 0
  title := "📊 " ++ p.title ++ ": " ++ s.task.title
  description := some ("Project task for " ++ p.title)
  date := s.date
  startTime := s.startTime
  endTime := s.endTime
  category := .nonNegotiable
  isCompleted := false
  isBreak := false
  parentTask := none

def Session.conflict (s : Session) : Conflict := ⟨s.task.title, s.date, s.startTime, s.endTime⟩

/-- A task that is no break meets the clock times of the session on its date. -/
def Planner.conflicting (db : Planner) (s : Session) : Bool :=
  db.personalTasks.rows.any fun t =>
    decide (t.date = s.date ∧ t.startTime.micros < s.endTime.micros ∧
      s.startTime.micros < t.endTime.micros ∧ t.isBreak = false)

/-- The part of the loop that reports a conflict or creates the task. -/
def bookSession (p : Project) (s : Session) (acc : Generated) : View Generated := do
  let conflicting ← Prog.read (·.conflicting s)
  if conflicting then pure { acc with conflicts := acc.conflicts ++ [s.conflict] }
  else do
    let _ ← (Prog.command
      (fun db => ((), db.createTask (s.row p)))
      (fun db => [PlannerEvent.session db.personalTasks.next s.length]) : View Unit)
    pure { acc with created := acc.created + 1 }

/-- The `while` loop of `generate_schedule`, with `weeks - week_count` rounds to go. -/
def generateWeeks (p : Project) (t : ProjectTask) (s : ProjectSchedule) :
    Nat → Date → Generated → View Generated
  | 0, _, acc => pure acc
  | rounds + 1, current, acc =>
      if current.ordinal ≤ p.endDate.ordinal then do
        let target ← View.ofExcept (targetDate p s current)
        if target.ordinal > p.endDate.ordinal then pure acc
        else do
          let session ← View.ofExcept (sessionOn t s target)
          let acc ← bookSession p session acc
          let next ← View.ofExcept (orOverflow (target.addDays 1))
          generateWeeks p t s rounds next acc
      else pure acc

/-- The project task with `is_scheduled` set, as it is saved at a given time. -/
def ProjectTask.scheduledAt (t : ProjectTask) (now : DateTime) : ProjectTask :=
  { t with isScheduled := true, updatedAt := now }

def Planner.saveScheduled (db : Planner) (t : ProjectTask) : Planner :=
  { db with projectTasks := db.projectTasks.update (t.scheduledAt db.now) }

/-- `project_task.is_scheduled = True; project_task.save()`. -/
def markScheduled (t : ProjectTask) : View Unit := Prog.write (·.saveScheduled t)

/-- The loop over the schedules of a project task. -/
def generateSchedules (p : Project) (t : ProjectTask) :
    List ProjectSchedule → Generated → View Generated
  | [], acc => pure acc
  | s :: l, acc => do
      let acc ← generateWeeks p t s s.weeks p.startDate acc
      markScheduled t
      generateSchedules p t l acc

namespace Planner

variable (db : Planner)

/-- `project.tasks.filter(id__in=task_ids)`, by `order`. -/
def tasksOf (p : Project) (ids : Nat → Bool) : List ProjectTask :=
  (db.projectTasks.rows.filter fun t => decide (t.project = p.id) && ids t.id).insertionSort
    fun t t' => t.order ≤ t'.order

/-- `project_task.schedules.filter(is_active=True)`. -/
def schedulesOf (t : ProjectTask) : List ProjectSchedule :=
  db.projectSchedules.rows.filter fun s => decide (s.projectTask = t.id) && s.isActive

end Planner

/-- The loop over the tasks of the project. -/
def generateTasks (p : Project) : List ProjectTask → Generated → View Generated
  | [], acc => pure acc
  | t :: l, acc => do
      let schedules ← Prog.read (·.schedulesOf t)
      let acc ← generateSchedules p t schedules acc
      generateTasks p l acc

/-- The ids of the tasks a request selects. -/
def readTaskIds (env : PlannerEnv) (body : String) : Except ViewError (Nat → Bool) := do
  let data ← env.loads body
  let taskIds ← data.get "task_ids"
  env.idsIn (taskIds.getD (.arr []))

/-- The `try` block of `generate_schedule`. -/
def generateScheduleBody (env : PlannerEnv) (p : Project) (body : String) :
    View (Answer Generated) := do
  let ids ← View.ofExcept (readTaskIds env body)
  let tasks ← Prog.read (·.tasksOf p ids)
  let g ← generateTasks p tasks ⟨0, []⟩
  pure (.success g)

/-- `generate_schedule`. -/
def generateScheduleView (env : PlannerEnv) (projectId : Nat) (body : String) :
    View (Answer Generated) := do
  match ← Prog.read (·.projects.find? projectId) with
  | none => throw .http404
  | some p => (generateScheduleBody env p body).tryCatch fun x => pure (.failure x)

end DailyScheduler
