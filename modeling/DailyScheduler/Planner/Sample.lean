import DailyScheduler.Planner.ProjectViews

set_option autoImplicit false

/-! # A small planner

A project with two tasks, a few texts that stand for the bodies of requests, and times of a day. The
concrete runs about the planner use them.
-/

namespace DailyScheduler.PlannerSample

open Calendar

instance neZero_days : NeZero 1000 := ⟨by decide⟩

instance neZero_minutes : NeZero 1440 := ⟨by decide⟩

/-- A Thursday. -/
def today : Date := ⟨738000, by decide, by decide⟩

/-- The date some days after it. -/
def later (days : Fin 1000) : Date :=
  ⟨738000 + days, by omega, by unfold lastOrdinal; omega⟩

/-- A time of day, in minutes since midnight. -/
def minutes (m : Fin 1440) : Time :=
  ⟨60000000 * m, by omega, by unfold dayLength hourLength; omega⟩

/-- The requests: `text` is not JSON, `all` selects the first and the second project task, `first`
the first one only, `one` copies the first task, and `late` does so with a late start. `endless`
asks for a schedule of endless sessions. -/
def bodies : String → Option Json
  | "all" => some (.obj [("task_ids", .arr [.int 1, .int 2])])
  | "first" => some (.obj [("task_ids", .arr [.int 1])])
  | "one" => some (.obj [("task_ids", .arr [.int 1])])
  | "late" => some (.obj [("task_ids", .arr [.int 1]),
      ("time_overrides", .obj [("1", .obj [("start_time", .str "23:00")])])])
  | "endless" => some (.obj [("day_of_week", .int 0), ("start_time", .str "10:00"),
      ("duration_hours", .float (.infinite true))])
  | _ => none

/-- The ids in a list. -/
def idsIn : Json → Except ViewError (Nat → Bool)
  | .arr l => .ok fun k => l.any fun x => match x with
      | .int n => decide (n = k)
      | _ => false
  | _ => .error .typeError

def env : PlannerEnv where
  jsonLoads := bodies
  intOfText := fun _ => none
  floatOfText := fun _ => none
  floatOfInt := fun n => some (.finite n)
  strptime := fun s => if s = "23:00" then some (minutes 1380)
    else if s = "10:00" then some (minutes 600) else none
  text := fun x => match x with
    | .int 1 => "1"
    | _ => ""
  idsIn := idsIn
  idOf := fun x => match x with
    | .int (.ofNat n) => .ok n
    | _ => .error .valueError
  acceptsSchedule := fun s => decide (s.durationHours ≠ .nan)
  titleRefused := fun _ => none
  orderRefused := fun n => if n < 2 ^ 63 then none else some .overflowError

/-- A project of some days from `today` on. -/
def project (last : Date) : Project := ⟨1, "P", today, last⟩

def projectTask (k : Nat) (hours : Number) : ProjectTask :=
  ⟨k, 1, "T", hours, k, false, ⟨today, minutes 0⟩⟩

/-- A schedule of the task `k` on Thursdays. -/
def schedule (k : Nat) (start : Time) (hours : Number) (weeks : Nat) : ProjectSchedule :=
  ⟨k, k, 3, start, hours, weeks, true⟩

/-- A planner with the project, its two tasks and one schedule for each of them. -/
def planner (last : Date) (s s' : Nat → ProjectSchedule) (hs : ∀ k, (s k).id = k)
    (hs' : ∀ k, (s' k).id = k) : Planner :=
  { Planner.init ⟨today, minutes 60⟩ with
    projects := Table.empty.insert (fun k => { project last with id := k }) fun _ => rfl
    projectTasks := (Table.empty.insert (fun k => projectTask k (.finite 1)) fun _ => rfl).insert
      (fun k => projectTask k (.finite 1)) fun _ => rfl
    projectSchedules := (Table.empty.insert s hs).insert s' hs' }

end DailyScheduler.PlannerSample
