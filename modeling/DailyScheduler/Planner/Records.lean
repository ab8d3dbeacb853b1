import DailyScheduler.Lib.Calendar
import DailyScheduler.Lib.Table

set_option autoImplicit false

/-! # The records of the planner

`models/personal_task.py`: the tables of the personal planner, which the views read and write.
`created_at`, `updated_at` of most tables and the texts only the admin site shows are left out:
no view reads them.
-/

namespace DailyScheduler

open Calendar

/-- `TaskCategory`. -/
inductive TaskCategory where
  | nonNegotiable | secondary | fun
  deriving DecidableEq

structure PersonalTask where
  id : Nat
  title : String
  description : Option String
  date : Date
  startTime : Time
  endTime : Time
  category : TaskCategory
  isCompleted : Bool
  isBreak : Bool
  parentTask : Option Nat
  deriving DecidableEq

structure SubTask where
  id : Nat
  personalTask : Nat
  title : String
  isCompleted : Bool
  order : Nat
  deriving DecidableEq

/-- `PrayerCompletionStatus`. -/
inductive PrayerCompletionStatus where
  | prayed | notYet | missed
  deriving DecidableEq

/-- A `PrayerCompletion`. The column of the name takes any text: `choices` restricts forms only. -/
structure PrayerCompletion where
  id : Nat
  prayerName : String
  date : Date
  isCompleted : Bool
  status : PrayerCompletionStatus
  completedAt : Option DateTime
  deriving DecidableEq

structure Project where
  id : Nat
  title : String
  startDate : Date
  endDate : Date
  deriving DecidableEq

/-- A `ProjectTask`; `updatedAt` is the clock at its last save. -/
structure ProjectTask where
  id : Nat
  project : Nat
  title : String
  durationHours : Number
  order : Nat
  isScheduled : Bool
  updatedAt : DateTime
  deriving DecidableEq

structure ProjectSchedule where
  id : Nat
  projectTask : Nat
  dayOfWeek : Int
  startTime : Time
  durationHours : Number
  weeks : Nat
  isActive : Bool
  deriving DecidableEq

/-- The planner's part of the database, and the clock of the server. -/
structure Planner where
  now : DateTime
  personalTasks : Table PersonalTask PersonalTask.id
  subTasks : Table SubTask SubTask.id
  prayerCompletions : Table PrayerCompletion PrayerCompletion.id
  projects : Table Project Project.id
  projectTasks : Table ProjectTask ProjectTask.id
  projectSchedules : Table ProjectSchedule ProjectSchedule.id

/-- A planner without rows at the time `now`. -/
def Planner.init (now : DateTime) : Planner where
  now := now
  personalTasks := .empty
  subTasks := .empty
  prayerCompletions := .empty
  projects := .empty
  projectTasks := .empty
  projectSchedules := .empty

/-- The exceptions the views meet. -/
inductive ViewError where
  | overflowError
  | valueError
  | typeError
  | attributeError
  | jsonDecodeError
  | doesNotExist
  | integrityError
  | dataError
  | http404
  deriving DecidableEq

end DailyScheduler
