import DailyScheduler.Planner.Database

set_option autoImplicit false

/-! # The groups of tables

The tables of the planner fall into three groups, and a view writes to one of them. Only the sessions of a
project are generated from one group into another. So an invariant of a group is a matter of the few
views that write to it.
-/

namespace DailyScheduler

open AtomicProg Calendar

inductive Group where
  | tasks | projects | prayers
  deriving DecidableEq

namespace Planner

def taskTables (db : Planner) := (db.personalTasks, db.subTasks)

def projectTables (db : Planner) := (db.projects, db.projectTasks, db.projectSchedules)

end Planner

/-- A step that writes to one group only. -/
structure Only (g : Group) (db db' : Planner) (_ : List PlannerEvent) : Prop where
  now : db'.now = db.now
  tasks : g ≠ .tasks → db'.taskTables = db.taskTables
  projects : g ≠ .projects → db'.projectTables = db.projectTables
  prayers : g ≠ .prayers → db'.prayerCompletions = db.prayerCompletions

namespace Only

variable {g : Group} {db db' db'' : Planner} {es es' : List PlannerEvent}

theorem refl (g : Group) (db : Planner) : Only g db db es :=
  ⟨rfl, fun _ => rfl, fun _ => rfl, fun _ => rfl⟩

theorem trans (h : Only g db db' es) (h' : Only g db' db'' es') : Only g db db'' es :=
  ⟨h'.now.trans h.now, fun hg => (h'.tasks hg).trans (h.tasks hg),
    fun hg => (h'.projects hg).trans (h.projects hg), fun hg => (h'.prayers hg).trans (h.prayers hg)⟩

theorem ofTasks (hnow : db'.now = db.now) (hprojects : db'.projectTables = db.projectTables)
    (hprayers : db'.prayerCompletions = db.prayerCompletions) : Only .tasks db db' es :=
  ⟨hnow, fun h => absurd rfl h, fun _ => hprojects, fun _ => hprayers⟩

theorem ofProjects (hnow : db'.now = db.now) (htasks : db'.taskTables = db.taskTables)
    (hprayers : db'.prayerCompletions = db.prayerCompletions) : Only .projects db db' es :=
  ⟨hnow, fun _ => htasks, fun h => absurd rfl h, fun _ => hprayers⟩

theorem ofPrayers (hnow : db'.now = db.now) (htasks : db'.taskTables = db.taskTables)
    (hprojects : db'.projectTables = db.projectTables) : Only .prayers db db' es :=
  ⟨hnow, fun _ => htasks, fun _ => hprojects, fun h => absurd rfl h⟩

theorem personalTasks (h : Only g db db' es) (hg : g ≠ .tasks) :
    db'.personalTasks = db.personalTasks :=
  congrArg Prod.fst (h.tasks hg)

theorem projectTasks (h : Only g db db' es) (hg : g ≠ .projects) :
    db'.projectTasks = db.projectTasks :=
  congrArg (fun p => p.2.1) (h.projects hg)

/-- A view whose steps write to one group. -/
theorem exec {α : Type} {p : View α} {Q : α → Prop} (h : p.Steps (Only g) Q) (db : Planner) :
    Only g db (p.exec db) [] :=
  h.exec (I := fun db' => Only g db db' []) (fun _ _ _ hs hI => hI.trans hs) (refl g db)

/-! ## Steps of every group -/

theorem ofExcept {α : Type} (x : Except ViewError α) :
    (View.ofExcept x).Steps (Only g) fun _ => True := by
  cases x <;> trivial

theorem read {α : Type} (f : Planner → α) : (Prog.read f : View α).Steps (Only g) fun _ => True :=
  (Prog.Steps.read fun db => refl g db).of_true

theorem getTaskOr404 (id : Nat) : (getTaskOr404 id).Steps (Only g) fun _ => True := by
  refine Prog.Steps.bind (read _) fun t _ => ?_
  cases t <;> trivial

theorem getSubTaskOr404 (id : Nat) : (getSubTaskOr404 id).Steps (Only g) fun _ => True := by
  refine Prog.Steps.bind (read _) fun s _ => ?_
  cases s <;> trivial

theorem getProjectOr404 (id : Nat) : (getProjectOr404 id).Steps (Only g) fun _ => True := by
  refine Prog.Steps.bind (read _) fun p _ => ?_
  cases p <;> trivial

/-! ## Tasks -/

theorem createPersonalTask (row : PersonalTask) :
    (createPersonalTask row).Steps (Only .tasks) fun _ => True :=
  Prog.Steps.command fun _ => ofTasks rfl rfl rfl

theorem handleSubtasks (env : PlannerEnv) (id : Nat) (replace : Bool) (s : Option String) :
    (handleSubtasks env id replace s).Steps (Only .tasks) fun _ => True := by
  cases s with
  | none => trivial
  | some s =>
      refine Prog.Steps.ite (fun _ => trivial) fun _ => ?_
      cases env.jsonLoads s with
      | none => trivial
      | some data =>
          have hdrop : (dropSubtasks id replace).Steps (Only .tasks) fun _ => True :=
            Prog.Steps.ite (fun _ => Prog.Steps.write fun _ => ofTasks rfl rfl rfl) fun _ => trivial
          refine Prog.Steps.bind hdrop fun _ _ => ?_
          refine Prog.Steps.bind (ofExcept _) fun items _ => ?_
          refine Prog.Steps.forEach fun x _ => ?_
          refine Prog.Steps.bind (ofExcept _) fun title _ => ?_
          refine Prog.Steps.bind (ofExcept _) fun order _ => ?_
          exact Prog.Steps.write fun _ => ofTasks rfl rfl rfl

theorem autoInsertBreaks (t : PersonalTask) :
    (autoInsertBreaks t).Steps (Only .tasks) fun _ => True := by
  refine Prog.Steps.ite (fun _ => trivial) fun _ => ?_
  refine Prog.Steps.ite (fun _ => ?_) fun _ => trivial
  refine Prog.Steps.bind (ofExcept _) fun breakEnd _ => ?_
  refine Prog.Steps.bind (read _) fun existing _ => ?_
  refine Prog.Steps.ite (fun _ => trivial) fun _ => ?_
  refine Prog.Steps.bind (read _) fun conflicting _ => ?_
  refine Prog.Steps.ite (fun _ => trivial) fun _ => ?_
  exact Prog.Steps.bind (createPersonalTask _) fun _ _ => trivial

theorem validForm (r : TaskRequest) : (validForm r).Steps (Only .tasks) fun _ => True := by
  unfold DailyScheduler.validForm
  cases r.fields with
  | none => trivial
  | some f => exact read _

theorem createPersonalTaskView (env : PlannerEnv) (r : TaskRequest) :
    (createPersonalTaskView env r).Steps (Only .tasks) fun _ => True := by
  refine Prog.Steps.bind (validForm r) fun f _ => ?_
  cases f with
  | none => trivial
  | some f =>
      refine Prog.Steps.bind (createPersonalTask _) fun t _ => ?_
      exact Prog.Steps.bind (handleSubtasks _ _ _ _) fun _ _ => autoInsertBreaks t

theorem editPersonalTask (env : PlannerEnv) (id : Nat) (r : TaskRequest) :
    (editPersonalTask env id r).Steps (Only .tasks) fun _ => True := by
  refine Prog.Steps.bind (getTaskOr404 id) fun t _ => ?_
  refine Prog.Steps.bind (validForm r) fun f _ => ?_
  cases f with
  | none => trivial
  | some f =>
      refine Prog.Steps.bind (Prog.Steps.write fun _ => ofTasks rfl rfl rfl) fun _ _ => ?_
      refine Prog.Steps.bind (handleSubtasks _ _ _ _) fun _ _ => ?_
      refine Prog.Steps.bind (Prog.Steps.write fun _ => ofTasks rfl rfl rfl) fun _ _ => ?_
      exact autoInsertBreaks _

theorem copyTask (env : PlannerEnv) (current yesterday : Date) (overrides taskId : Json) :
    (copyTask env current yesterday overrides taskId).Steps (Only .tasks) fun _ => True := by
  refine Prog.Steps.bind (Q := fun _ => True) ?_ fun original _ => ?_
  · refine Prog.Steps.bind (ofExcept _) fun id _ => ?_
    refine Prog.Steps.bind (read _) fun t _ => ?_
    cases t with
    | none => trivial
    | some t => exact Prog.Steps.ite (fun _ => trivial) fun _ => trivial
  · refine Prog.Steps.bind (ofExcept _) fun override _ => ?_
    refine Prog.Steps.bind (ofExcept _) fun startTime _ => ?_
    refine Prog.Steps.bind (ofExcept _) fun endTime _ => ?_
    refine Prog.Steps.bind (createPersonalTask _) fun t _ => ?_
    refine Prog.Steps.bind (read _) fun subtasks _ => ?_
    refine Prog.Steps.bind (Prog.Steps.forEach fun s _ => ?_) fun _ _ => trivial
    exact Prog.Steps.write fun _ => ofTasks rfl rfl rfl

theorem copyTasks (env : PlannerEnv) (current yesterday : Date) (overrides : Json)
    (items : List Json) (acc : CopyAnswer) :
    (copyTasks env current yesterday overrides items acc).Steps (Only .tasks) fun _ => True := by
  induction items generalizing acc with
  | nil => trivial
  | cons taskId items ih =>
      unfold DailyScheduler.copyTasks
      refine Prog.Steps.bind (copyTask env current yesterday overrides taskId).attempt fun r _ => ?_
      cases r with
      | ok id => exact ih _
      | error x => exact ih _

theorem copyTasksFromYesterday (env : PlannerEnv) (current : Date) (body : String) :
    (copyTasksFromYesterday env current body).Steps (Only .tasks) fun _ => True := by
  refine Prog.Steps.bind (ofExcept _) fun yesterday _ => ?_
  cases env.jsonLoads body with
  | none => trivial
  | some data =>
      refine Prog.Steps.bind (ofExcept _) fun p _ => ?_
      exact Prog.Steps.bind (copyTasks env current yesterday p.1 p.2 _) fun _ _ => trivial

theorem deletePersonalTaskView (id : Nat) :
    (deletePersonalTaskView id).Steps (Only .tasks) fun _ => True :=
  Prog.Steps.bind (getTaskOr404 id) fun _ _ => Prog.Steps.write fun _ => ofTasks rfl rfl rfl

theorem createSubtaskView (env : DeskEnv) (id : Nat) (body : String) :
    (createSubtaskView env id body).Steps (Only .tasks) fun _ => True := by
  refine Prog.Steps.bind (getTaskOr404 id) fun t _ => ?_
  cases env.jsonLoads body with
  | none => trivial
  | some data =>
      refine Prog.Steps.bind (ofExcept _) fun title _ => ?_
      refine Prog.Steps.ite (fun _ => trivial) fun _ => ?_
      refine Prog.Steps.bind (read _) fun order _ => ?_
      exact Prog.Steps.bind (Prog.Steps.command fun _ => ofTasks rfl rfl rfl) fun _ _ => trivial

theorem toggleSubtaskCompletion (env : DeskEnv) (id : Nat) (body : String) :
    (toggleSubtaskCompletion env id body).Steps (Only .tasks) fun _ => True := by
  refine Prog.Steps.bind (getSubTaskOr404 id) fun s _ => ?_
  cases env.jsonLoads body with
  | none => trivial
  | some data =>
      refine Prog.Steps.bind (ofExcept _) fun isCompleted _ => ?_
      cases isCompleted.toBoolean with
      | none => trivial
      | some b =>
          refine Prog.Steps.bind (Prog.Steps.write fun _ => ofTasks rfl rfl rfl) fun _ _ => ?_
          exact Prog.Steps.bind (read _) fun _ _ => trivial

theorem deleteSubtaskView (id : Nat) : (deleteSubtaskView id).Steps (Only .tasks) fun _ => True := by
  refine Prog.Steps.bind (getSubTaskOr404 id) fun s _ => ?_
  refine Prog.Steps.bind (Prog.Steps.write fun _ => ofTasks rfl rfl rfl) fun _ _ => ?_
  refine Prog.Steps.bind (read _) fun t _ => ?_
  cases t with
  | none => trivial
  | some t => exact Prog.Steps.bind (read _) fun _ _ => trivial

/-! ## Projects -/

theorem createProjectView (env : DeskEnv) (body : String) :
    (createProjectView env body).Steps (Only .projects) fun _ => True := by
  unfold DailyScheduler.createProjectView
  cases env.loads body >>= readProject env with
  | error x => trivial
  | ok row =>
      exact Prog.Steps.bind (Prog.Steps.command fun _ => ofProjects rfl rfl rfl) fun _ _ => trivial

theorem projectDetail (id : Nat) (title : Option String) :
    (projectDetail id title).Steps (Only .projects) fun _ => True :=
  Prog.Steps.bind (getProjectOr404 id) fun _ _ => Prog.Steps.write fun _ => ofProjects rfl rfl rfl

theorem createProjectTaskView (env : DeskEnv) (id : Nat) (body : String) :
    (createProjectTaskView env id body).Steps (Only .projects) fun _ => True := by
  refine Prog.Steps.bind (getProjectOr404 id) fun p _ => ?_
  cases env.loads body with
  | error x => trivial
  | ok data =>
      refine Prog.Steps.bind (read _) fun order _ => ?_
      cases readProjectTask env data with
      | error x => trivial
      | ok r =>
          refine Prog.Steps.bind (read _) fun now _ => ?_
          refine Prog.Steps.ite (fun _ => ?_) fun _ => trivial
          exact Prog.Steps.bind (Prog.Steps.command fun _ => ofProjects rfl rfl rfl)
            fun _ _ => trivial

theorem deleteProjectTaskView (id : Nat) :
    (deleteProjectTaskView id).Steps (Only .projects) fun _ => True := by
  refine Prog.Steps.bind (read _) fun t _ => ?_
  cases t with
  | none => trivial
  | some t => exact Prog.Steps.write fun _ => ofProjects rfl rfl rfl

theorem deleteProjectView (id : Nat) :
    (deleteProjectView id).Steps (Only .projects) fun _ => True :=
  Prog.Steps.bind (getProjectOr404 id) fun _ _ => Prog.Steps.write fun _ => ofProjects rfl rfl rfl

theorem createScheduleView (env : PlannerEnv) (id : Nat) (body : String) :
    (createScheduleView env id body).Steps (Only .projects) fun _ => True := by
  refine Prog.Steps.bind (read _) fun t _ => ?_
  cases t with
  | none => trivial
  | some t =>
      refine Prog.Steps.tryCatch ?_ fun _ => trivial
      refine Prog.Steps.bind (ofExcept _) fun data _ => ?_
      refine Prog.Steps.bind (ofExcept _) fun day _ => ?_
      refine Prog.Steps.bind (read _) fun existing _ => ?_
      refine Prog.Steps.ite (fun _ => trivial) fun _ => ?_
      refine Prog.Steps.bind (ofExcept _) fun r _ => ?_
      refine Prog.Steps.bind (Q := fun _ => True) ?_ fun s _ => ?_
      · exact Prog.Steps.ite (fun _ => Prog.Steps.command fun _ => ofProjects rfl rfl rfl)
          fun _ => trivial
      · refine Prog.Steps.bind (read _) fun today _ => ?_
        exact Prog.Steps.bind (ofExcept _) fun _ _ => trivial

/-! ## Prayers -/

theorem recordPrayer (env : PrayerEnv) (prayerName : String) (dateStr status : Json) :
    (recordPrayer env prayerName dateStr status).Steps (Only .prayers) fun _ => True := by
  refine Prog.Steps.bind (ofExcept _) fun date _ => ?_
  refine Prog.Steps.bind (Q := fun _ => True) ?_ fun r _ => ?_
  · refine Prog.Steps.bind (read _) fun found _ => ?_
    cases found with
    | some r => trivial
    | none =>
        exact Prog.Steps.ite (fun _ => Prog.Steps.command fun _ => ofPrayers rfl rfl rfl)
          fun _ => trivial
  · refine Prog.Steps.bind (read _) fun now _ => ?_
    refine Prog.Steps.bind (Prog.Steps.write fun _ => ofPrayers rfl rfl rfl) fun _ _ => ?_
    exact ofExcept _

theorem togglePrayerCompletion (env : PrayerEnv) (prayerName body : String) :
    (togglePrayerCompletion env prayerName body).Steps (Only .prayers) fun _ => True := by
  unfold DailyScheduler.togglePrayerCompletion
  cases env.jsonLoads body with
  | none => trivial
  | some data =>
      refine Prog.Steps.bind (ofExcept _) fun p _ => ?_
      refine Prog.Steps.ite (fun _ => trivial) fun _ => ?_
      refine Prog.Steps.bind (recordPrayer _ _ _ _).attempt fun r _ => ?_
      cases r with
      | ok u => trivial
      | error x => cases x <;> trivial

end Only

/-! ## Requests -/

/-- The group that a request to the tables of `Planner` writes to, if it is one. -/
def DbRequest.group : DbRequest → Option Group
  | .planner (.generateSchedule _ _) | .planner (.clock _) => none
  | .planner _ | .deletePersonalTask _ | .createSubtask _ _ | .toggleSubtask _ _ | .deleteSubtask _ =>
      some .tasks
  | .createProject _ | .projectDetail _ _ | .createProjectTask _ _ | .deleteProjectTask _
  | .createSchedule _ _ | .deleteProject _ => some .projects
  | .togglePrayer _ _ => some .prayers
  | .toggleTask _ _ | .createPrayer _ | .updatePrayer _ _ | .deletePrayer _ => none

/-- A request writes to its group. -/
theorem Planner.serve_only (env : DeskEnv) (db : Planner) {q : DbRequest} {g : Group}
    (hq : q.group = some g) : Only g db (db.serve env q) [] := by
  cases q with
  | planner r =>
      cases r with
      | createPersonalTask r => cases hq; exact Only.exec (Only.createPersonalTaskView _ r) db
      | editPersonalTask id r => cases hq; exact Only.exec (Only.editPersonalTask _ id r) db
      | copyTasksFromYesterday date body =>
          cases hq
          exact Only.exec (Only.copyTasksFromYesterday _ date body) db
      | autoInsertBreaks id =>
          cases hq
          show Only _ db (db.step env.toPlannerEnv (.autoInsertBreaks id)) []
          cases hfind : db.personalTasks.find? id with
          | none =>
              rw [db.step_autoInsertBreaks_none env.toPlannerEnv hfind]
              exact Only.refl _ db
          | some t =>
              rw [db.step_autoInsertBreaks env.toPlannerEnv hfind]
              exact Only.exec (Only.autoInsertBreaks t) db
      | generateSchedule projectId body => cases hq
      | clock now => cases hq
  | deletePersonalTask id => cases hq; exact Only.exec (Only.deletePersonalTaskView id) db
  | createSubtask taskId body => cases hq; exact Only.exec (Only.createSubtaskView env taskId body) db
  | toggleSubtask id body => cases hq; exact Only.exec (Only.toggleSubtaskCompletion env id body) db
  | deleteSubtask id => cases hq; exact Only.exec (Only.deleteSubtaskView id) db
  | createProject body => cases hq; exact Only.exec (Only.createProjectView env body) db
  | projectDetail id title => cases hq; exact Only.exec (Only.projectDetail id title) db
  | createProjectTask id body => cases hq; exact Only.exec (Only.createProjectTaskView env id body) db
  | deleteProjectTask id => cases hq; exact Only.exec (Only.deleteProjectTaskView id) db
  | createSchedule id body => cases hq; exact Only.exec (Only.createScheduleView _ id body) db
  | deleteProject id => cases hq; exact Only.exec (Only.deleteProjectView id) db
  | togglePrayer name body => cases hq; exact Only.exec (Only.togglePrayerCompletion _ name body) db
  | toggleTask | createPrayer | updatePrayer | deletePrayer => cases hq

/-- Generating writes to the personal tasks and marks project tasks. -/
theorem generateSchedule_prayers (env : PlannerEnv) (projectId : Nat) (body : String) (db : Planner) :
    ((generateScheduleView env projectId body).exec db).prayerCompletions = db.prayerCompletions := by
  have hperform : ∀ (p : Project) (steps : List GenerateStep) (g : Progress),
      (steps.foldl (Progress.perform p) g).db.prayerCompletions = g.db.prayerCompletions := by
    intro p steps
    induction steps with
    | nil => exact fun _ => rfl
    | cons step steps ih =>
        intro g
        rw [List.foldl_cons, ih]
        cases step with
        | session s =>
            simp only [Progress.perform]
            split <;> rfl
        | mark t => rfl
  cases hp : db.projects.find? projectId with
  | none => rw [Prog.exec, run_generateScheduleView_none env hp]
  | some p =>
      rw [Prog.exec, run_generateScheduleView env hp]
      exact hperform p _ _

end DailyScheduler
