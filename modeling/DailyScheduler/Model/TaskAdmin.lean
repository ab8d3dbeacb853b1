import DailyScheduler.Model.ImportExport

set_option autoImplicit false

/-! # The admin site's operations on tasks

`admin/task_admin.py`: deleting tasks, and the actions on selected tasks. A selection is a list of
ids; the rows are read when the loop starts.
-/

namespace DailyScheduler

open AtomicProg

namespace TaskTable

/-- The rows of some ids. -/
def select (t : TaskTable) (ids : List Nat) : List Task := t.rows.filter fun r => r.id ∈ ids

end TaskTable

namespace TaskAdmin

/-- `delete_model`: the object is unscheduled, and `Task.delete` unschedules it again. -/
def deleteModel (env : Env) (t : Task) : Py Unit := do
  let t ← t.unschedule env
  t.delete env

/-- `delete_queryset`: each task is unscheduled, then the query set is deleted. -/
def deleteQueryset (env : Env) (ids : List Nat) : Py Unit := do
  let tasks ← Prog.read fun w => w.tasks.select ids
  Prog.forEach tasks fun t => do
    let _ ← t.unschedule env
  Prog.write fun w => w.deleteTasks ((w.tasks.select ids).map Task.id)

/-- `disable_selected`. -/
def disableSelected (env : Env) (ids : List Nat) : Py Unit := do
  let tasks ← Prog.read fun w => (w.tasks.select ids).filter Task.enabled
  Prog.forEach tasks fun t => do
    let _ ← Task.unschedule env { t with enabled := false }

end TaskAdmin

end DailyScheduler
