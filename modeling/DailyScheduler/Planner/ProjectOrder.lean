import DailyScheduler.Planner.History

set_option autoImplicit false

/-! # The order of project tasks

`create_project_task` gives a task the number after the largest of its project. Tasks that are deleted
leave gaps, and no request renumbers the others, so the page of a project lists its tasks in the order
of their creation.
-/

namespace DailyScheduler

open AtomicProg Calendar

/-- `project.tasks.all().order_by("order")`. -/
def Planner.detailTasks (db : Planner) (project : Nat) : List ProjectTask :=
  (db.projectTasksOf project).insertionSort fun t t' => t.order ≤ t'.order

/-- The rows are in the order of their ids, those of one project in that of their numbers too. -/
def InOrder (t : ProjectTaskRows) : Prop :=
  t.rows.Pairwise fun a b => a.id < b.id ∧ (a.project = b.project → a.order < b.order)

/-- A copy of a row that may only be marked otherwise. -/
structure SamePlace (r t : ProjectTask) : Prop where
  id : r.id = t.id
  project : r.project = t.project
  order : r.order = t.order

namespace InOrder

variable {t : ProjectTaskRows}

theorem insert (h : InOrder t) {row : Nat → ProjectTask} (hid : ∀ k, (row k).id = k)
    (hrow : ∀ r ∈ t.rows, r.project = (row t.next).project → r.order < (row t.next).order) :
    InOrder (t.insert row hid) := by
  refine List.pairwise_append.2 ⟨h, List.pairwise_singleton _ _, fun a ha b hb => ?_⟩
  rw [List.mem_singleton.1 hb, hid]
  exact ⟨t.fresh a ha, hrow a ha⟩

/-- A row takes the place of one it agrees with. -/
theorem update (h : InOrder t) {row : ProjectTask} (hrow : ∃ r ∈ t.rows, SamePlace r row) :
    InOrder (t.update row) := by
  obtain ⟨old, hold, hplace⟩ := hrow
  have hsame : ∀ r ∈ t.rows, SamePlace r (if r.id = row.id then row else r) := by
    intro r hr
    split
    · rename_i hkey
      have heq : r = old := t.eq_of_key_eq hr hold (hkey.trans hplace.id.symm)
      exact heq ▸ hplace
    · exact ⟨rfl, rfl, rfl⟩
  refine List.pairwise_map.2 (List.Pairwise.imp_of_mem ?_ h)
  intro a b ha hb hab
  have hsa := hsame a ha
  have hsb := hsame b hb
  rw [← hsa.id, ← hsb.id, ← hsa.project, ← hsb.project, ← hsa.order, ← hsb.order]
  exact hab

theorem delete (h : InOrder t) (p : ProjectTask → Bool) : InOrder (t.delete p) :=
  List.Pairwise.filter _ h

end InOrder

/-- No number of the list is larger. -/
theorem le_maxOrder {orders : List Nat} {n : Nat} (h : n ∈ orders) : n ≤ Planner.maxOrder orders := by
  have hfold : ∀ (l : List Nat) (acc : Nat), acc ≤ l.foldl max acc ∧ ∀ n ∈ l, n ≤ l.foldl max acc := by
    intro l
    induction l with
    | nil => exact fun acc => ⟨le_refl _, by simp⟩
    | cons m l ih =>
        intro acc
        obtain ⟨hacc, hl⟩ := ih (max acc m)
        rw [List.foldl_cons]
        refine ⟨(le_max_left acc m).trans hacc, fun n hn => ?_⟩
        rcases List.mem_cons.1 hn with rfl | hn
        · exact (le_max_right acc n).trans hacc
        · exact hl n hn
  exact (hfold orders 0).2 n h

/-! ## The views of projects -/

/-- The view keeps the order however it ends. -/
abbrev KeepsCreation {α : Type} (p : View α) (db : Planner) : Prop :=
  p.wp (fun _ db' => InOrder db'.projectTasks) (fun _ db' => InOrder db'.projectTasks) db

theorem KeepsCreation.exec {α : Type} {p : View α} {db : Planner} (h : KeepsCreation p db) :
    InOrder (p.exec db).projectTasks :=
  (Prog.wp_const (I := fun db' : Planner => InOrder db'.projectTasks)).1 h

section Views

variable {db : Planner} (h : InOrder db.projectTasks)
include h

theorem createProjectTaskView_inOrder (env : DeskEnv) (id : Nat) (body : String) :
    KeepsCreation (createProjectTaskView env id body) db := by
  unfold createProjectTaskView getProjectOr404
  simp only [Prog.wp_bind, Prog.wp_read]
  cases db.projects.find? id with
  | none => exact h
  | some p =>
      simp only [Prog.pure_eq, Prog.wp_ret]
      cases env.loads body with
      | error x => exact h
      | ok data =>
          simp only [Prog.wp_bind, Prog.wp_read]
          cases readProjectTask env data with
          | error x => exact h
          | ok r =>
              simp only [Prog.wp_bind, Prog.wp_read, Prog.wp_ite]
              refine ⟨fun _ => h.insert _ fun a ha hproject => ?_, fun _ => h⟩
              -- the task is one of those whose numbers were looked at
              have hmem : a.order ∈ (db.projectTasksOf p.id).map ProjectTask.order :=
                List.mem_map_of_mem (List.mem_filter.2 ⟨ha, decide_eq_true hproject⟩)
              exact Nat.lt_succ_of_le (le_maxOrder hmem)

theorem deleteProjectTaskView_inOrder (id : Nat) :
    KeepsCreation (deleteProjectTaskView id) db := by
  unfold deleteProjectTaskView
  simp only [Prog.wp_bind, Prog.wp_read]
  cases db.projectTasks.find? id with
  | none => exact h
  | some t => exact h.delete _

theorem deleteProjectView_inOrder (id : Nat) :
    KeepsCreation (deleteProjectView id) db := by
  unfold deleteProjectView getProjectOr404
  simp only [Prog.wp_bind, Prog.wp_read]
  cases db.projects.find? id with
  | none => exact h
  | some p => exact h.delete _

theorem createProjectView_inOrder (env : DeskEnv) (body : String) :
    KeepsCreation (createProjectView env body) db := by
  unfold createProjectView
  cases env.loads body >>= readProject env with
  | error x => exact h
  | ok row => exact h

theorem projectDetail_inOrder (id : Nat) (title : Option String) :
    KeepsCreation (projectDetail id title) db := by
  unfold projectDetail getProjectOr404
  simp only [Prog.wp_bind, Prog.wp_read]
  cases db.projects.find? id with
  | none => exact h
  | some p => exact h

theorem keepsCreation_ofExcept {α β : Type} {x : Except ViewError α} {k : α → View β}
    (hk : ∀ a, KeepsCreation (k a) db) : KeepsCreation (View.ofExcept x >>= k) db :=
  Prog.wp_bind.2 (wp_ofExcept (fun a _ => hk a) fun _ _ => h)

theorem createScheduleView_inOrder (env : PlannerEnv) (id : Nat) (body : String) :
    KeepsCreation (createScheduleView env id body) db := by
  unfold createScheduleView
  simp only [Prog.wp_bind, Prog.wp_read]
  cases db.projectTasks.find? id with
  | none => exact h
  | some t =>
      rw [Prog.wp_tryCatch]
      refine keepsCreation_ofExcept h fun data => ?_
      refine keepsCreation_ofExcept h fun day => ?_
      refine Prog.wp_bind.2 (Prog.wp_ite.2 ⟨fun _ => h, fun _ => ?_⟩)
      refine keepsCreation_ofExcept h fun r => ?_
      unfold createProjectSchedule
      simp only [Prog.wp_bind, Prog.wp_ite]
      refine ⟨fun _ => ?_, fun _ => h⟩
      -- the tables that are left differ in the schedules alone
      have hcreated : InOrder (db.createSchedule (scheduleRow t day r)).projectTasks := h
      exact keepsCreation_ofExcept hcreated fun _ => hcreated

/-- Sessions leave the project tasks alone, and marks keep their numbers. -/
theorem foldl_perform_inOrder {p : Project} (steps : List GenerateStep) (events : List PlannerEvent)
    (acc : Generated)
    (hsteps : ∀ t, .mark t ∈ steps → ∃ r ∈ db.projectTasks.rows, SamePlace r t) :
    InOrder (steps.foldl (Progress.perform p) ⟨db, events, acc⟩).db.projectTasks := by
  induction steps generalizing db events acc with
  | nil => exact h
  | cons step steps ih =>
      rw [List.foldl_cons]
      have hrest : ∀ t, .mark t ∈ steps → ∃ r ∈ db.projectTasks.rows, SamePlace r t :=
        fun t ht => hsteps t (List.mem_cons_of_mem _ ht)
      cases step with
      | session s =>
          by_cases hconflict : db.conflicting s = true
          · simp only [Progress.perform, hconflict, if_true]
            exact ih h _ _ hrest
          · simp only [Progress.perform, hconflict]
            exact @ih (db.createTask (s.row p)) h _ _ hrest
      | mark t =>
          obtain ⟨r, hr, hplace⟩ := hsteps t List.mem_cons_self
          have hmarked : SamePlace r (t.scheduledAt db.now) := ⟨hplace.id, hplace.project, hplace.order⟩
          refine @ih (db.saveScheduled t) (h.update ⟨r, hr, hmarked⟩) _ _ fun t' ht' => ?_
          obtain ⟨r', hr', hplace'⟩ := hrest t' ht'
          refine ⟨_, List.mem_map_of_mem hr', ?_⟩
          split
          · rename_i hkey
            have heq : r' = r :=
              db.projectTasks.eq_of_key_eq hr' hr (hkey.trans hmarked.id.symm)
            rw [heq] at hplace'
            exact ⟨hmarked.id.symm.trans hplace'.id, hmarked.project.symm.trans hplace'.project,
              hmarked.order.symm.trans hplace'.order⟩
          · exact hplace'

theorem generateScheduleView_inOrder (env : PlannerEnv) (projectId : Nat) (body : String) :
    InOrder ((generateScheduleView env projectId body).exec db).projectTasks := by
  cases hp : db.projects.find? projectId with
  | none =>
      rw [Prog.exec, run_generateScheduleView_none env hp]
      exact h
  | some p =>
      rw [Prog.exec, run_generateScheduleView env hp]
      refine foldl_perform_inOrder h _ _ _ fun t ht => ?_
      obtain ⟨ids, -, hfrom⟩ := mem_generatePlan ht
      have hmem : t ∈ db.tasksOf p ids := hfrom
      unfold Planner.tasksOf at hmem
      rw [List.mem_insertionSort] at hmem
      exact ⟨t, (List.mem_filter.1 hmem).1, rfl, rfl, rfl⟩

/-- What every request keeps. -/
theorem Planner.serve_inOrder (env : DeskEnv) (q : DbRequest) :
    InOrder (db.serve env q).projectTasks := by
  have honly : ∀ {g : Group}, q.group = some g → g ≠ .projects →
      InOrder (db.serve env q).projectTasks := by
    intro g hq hg
    rw [(Planner.serve_only env db hq).projectTasks hg]
    exact h
  cases q with
  | planner r =>
      cases r with
      | createPersonalTask | editPersonalTask | copyTasksFromYesterday | autoInsertBreaks =>
          exact honly (g := .tasks) rfl (by decide)
      | generateSchedule projectId body =>
          exact generateScheduleView_inOrder h env.toPlannerEnv projectId body
      | clock now => exact h
  | deletePersonalTask | createSubtask | toggleSubtask | deleteSubtask =>
      exact honly (g := .tasks) rfl (by decide)
  | togglePrayer => exact honly (g := .prayers) rfl (by decide)
  | createProjectTask id body => exact (createProjectTaskView_inOrder h env id body).exec
  | deleteProjectTask id => exact (deleteProjectTaskView_inOrder h id).exec
  | deleteProject id => exact (deleteProjectView_inOrder h id).exec
  | createProject body => exact (createProjectView_inOrder h env body).exec
  | projectDetail id title => exact (projectDetail_inOrder h id title).exec
  | createSchedule id body => exact (createScheduleView_inOrder h env.toPlannerEnv id body).exec
  | toggleTask | createPrayer | updatePrayer | deletePrayer => exact h

end Views

/-- The tasks of a project, in the order of their ids and of their numbers alike. -/
theorem InOrder.detailTasks {db : Planner} (h : InOrder db.projectTasks) (project : Nat) :
    (db.projectTasksOf project).Pairwise fun t t' => t.id < t'.id ∧ t.order < t'.order := by
  have hrows := List.Pairwise.filter (fun t => decide (t.project = project)) h
  refine List.Pairwise.imp_of_mem ?_ hrows
  intro a b ha hb hab
  have hproject : a.project = b.project :=
    calc a.project = project := of_decide_eq_true (List.mem_filter.1 ha).2
      _ = b.project := (of_decide_eq_true (List.mem_filter.1 hb).2).symm
  exact ⟨hab.1, hab.2 hproject⟩

/-- **The page of a project lists its tasks in the order of their creation**, whatever has been created,
deleted and scheduled, and no two of them have the same number. -/
theorem PlannerDb.tasks_in_creation_order (env : DeskEnv) (now : DateTime)
    (requests : List DbRequest) :
    Run.Along (PlannerDb.step env) (fun db => ∀ project,
      db.detailTasks project = db.projectTasksOf project ∧
        (db.projectTasksOf project).Pairwise fun t t' => t.id < t'.id ∧ t.order < t'.order)
      (PlannerDb.init now) requests := by
  have horder : Run.Along (PlannerDb.step env) (fun db => InOrder db.projectTasks)
      (PlannerDb.init now) requests := by
    apply Run.along_of_keeps
    · intro db q h
      rcases PlannerDb.step_cases env db q with ⟨hplanner, -⟩ | ⟨t, b, now, label, -, hdone⟩ | hplain
      · rw [hplanner]
        exact h
      · rw [hdone]
        exact h
      · rw [hplain]
        exact Planner.serve_inOrder h env q
    · exact List.Pairwise.nil
  refine horder.mono fun db h project => ⟨?_, h.detailTasks project⟩
  apply List.Pairwise.insertionSort_eq
  refine List.Pairwise.imp ?_ (h.detailTasks project)
  intro a b hab
  exact Nat.le_of_lt hab.2

end DailyScheduler
