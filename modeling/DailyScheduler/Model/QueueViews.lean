import DailyScheduler.Lib.Paging
import DailyScheduler.Model.Effects
import DailyScheduler.Model.Registry

set_option autoImplicit false

/-! # The pages of a registry

`_get_registry_job_list` of `views/queue_views.py`, where `items_per_page` is the setting
`EXECUTIONS_IN_PAGE`.
-/

namespace DailyScheduler.QueueViews

open AtomicProg

/-- The names that `get_many` found no record for. -/
def removeJobNames (jobNames : List JobName) (jobList : List (Option JobModel)) : List JobName :=
  (jobNames.zip jobList).filterMap fun p => if p.2.isNone then some p.1 else none

/-- `_get_registry_job_list`: the jobs of a page, the number of names and the numbers of the pages. The
last of these is `ceil(num_jobs / items_per_page)`. -/
def getRegistryJobList (env : Env) (itemsPerPage : Nat) (registry : Registry) (page : Int) :
    Py (List JobModel × Nat × List Nat) := do
  let numJobs ← registry.count
  if numJobs = 0 then pure ([], numJobs, [])
  else do
    let lastPage := Paging.pages itemsPerPage numJobs
    let offset := itemsPerPage * (page - 1)
    let jobNames ← registry.all offset (offset + itemsPerPage - 1)
    let jobList ← JobModel.getMany env jobNames
    Prog.forEach (removeJobNames jobNames jobList) registry.delete
    pure (jobList.filterMap id, numJobs, List.range' 1 lastPage)

/-- The requests for some pages, one after the other; `meanwhile` is what else happens after the one for
page `i`. The jobs they show, or the exception of the first that fails. -/
def requests (env : Env) (itemsPerPage : Nat) (registry : Registry) (meanwhile : Nat → World → World) :
    List Nat → World → Except PyError (List JobModel)
  | [], _ => .ok []
  | page :: pages, w =>
      let response := (getRegistryJobList env itemsPerPage registry page).run w
      match response.val with
      | .error x => .error x
      | .ok (jobs, _, _) =>
          (requests env itemsPerPage registry meanwhile pages (meanwhile page response.state)).map
            (jobs ++ ·)

/-- Page 1, and then the pages that it announced after it. -/
def browse (env : Env) (itemsPerPage : Nat) (registry : Registry) (meanwhile : Nat → World → World)
    (w : World) : Except PyError (List JobModel) :=
  let response := (getRegistryJobList env itemsPerPage registry 1).run w
  match response.val with
  | .error x => .error x
  | .ok (jobs, _, pageRange) =>
      (requests env itemsPerPage registry meanwhile pageRange.tail (meanwhile 1 response.state)).map
        (jobs ++ ·)

end DailyScheduler.QueueViews
