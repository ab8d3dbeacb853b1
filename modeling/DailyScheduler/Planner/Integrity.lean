import DailyScheduler.Lib.Closure
import DailyScheduler.Lib.Unique
import DailyScheduler.Lib.Weakest
import DailyScheduler.Planner.Database

set_option autoImplicit false

/-! # What the rows of the planner refer to

No request leaves a row behind that refers to one that is gone, and a task is a break exactly if it has a
parent, which is no break. The tables here do not refuse duplicates, as `unique` and `unique_together` of
the models would, and never get any: a project task has one schedule for each day, a prayer one record for
each date and one time.

The tables fall into three groups that no view mixes up. Each group has its own invariant with one lemma
for each way to change it; the views use the lemmas through their weakest preconditions.
-/

namespace DailyScheduler

open AtomicProg Calendar

abbrev SubTaskRows := Table SubTask SubTask.id
abbrev ProjectRows := Table Project Project.id
abbrev ProjectTaskRows := Table ProjectTask ProjectTask.id
abbrev ProjectScheduleRows := Table ProjectSchedule ProjectSchedule.id
abbrev PrayerRows := Table PrayerCompletion PrayerCompletion.id

/-! ## Tasks, breaks and subtasks -/

/-- There is a task with the id. -/
def HasTask (t : TaskRows) (id : Nat) : Prop := ∃ r ∈ t.rows, r.id = id

/-- There is a task with the id that is no break. -/
def HasMain (t : TaskRows) (id : Nat) : Prop := ∃ r ∈ t.rows, r.id = id ∧ r.isBreak = false

theorem HasMain.hasTask {t : TaskRows} {id : Nat} (h : HasMain t id) : HasTask t id := by
  obtain ⟨r, hr, hid, -⟩ := h
  exact ⟨r, hr, hid⟩

/-- The row may stand in the table: it is a break of a task that is there, or no break. -/
structure Placed (t : TaskRows) (r : PersonalTask) : Prop where
  isBreak : r.isBreak = r.parentTask.isSome
  parent : ∀ p, r.parentTask = some p → HasMain t p

theorem Placed.plain {t : TaskRows} {r : PersonalTask} (hbreak : r.isBreak = false)
    (hparent : r.parentTask = none) : Placed t r := by
  refine ⟨by rw [hbreak, hparent]; rfl, fun p hp => ?_⟩
  rw [hparent] at hp
  cases hp

theorem Placed.mono {t t' : TaskRows} (h : ∀ p, HasMain t p → HasMain t' p) {r : PersonalTask}
    (hr : Placed t r) : Placed t' r :=
  ⟨hr.isBreak, fun p hp => h p (hr.parent p hp)⟩

/-- What personal tasks and subtasks refer to is there. -/
structure TaskLinks (t : TaskRows) (s : SubTaskRows) : Prop where
  placed : ∀ r ∈ t.rows, Placed t r
  subTasks : ∀ r ∈ s.rows, HasTask t r.personalTask

namespace TaskLinks

variable {t : TaskRows} {s : SubTaskRows}

theorem hasMain_addTask {row : PersonalTask} {p : Nat} (h : HasMain t p) :
    HasMain (addTask t row) p := by
  obtain ⟨r, hr, hp⟩ := h
  exact ⟨r, mem_addTask.2 (.inl hr), hp⟩

theorem hasTask_addTask {row : PersonalTask} {p : Nat} (h : HasTask t p) :
    HasTask (addTask t row) p := by
  obtain ⟨r, hr, hp⟩ := h
  exact ⟨r, mem_addTask.2 (.inl hr), hp⟩

theorem addTask (h : TaskLinks t s) {row : PersonalTask} (hrow : Placed t row) :
    TaskLinks (DailyScheduler.addTask t row) s where
  placed := by
    intro r hr
    rcases mem_addTask.1 hr with hr | rfl
    · exact (h.placed r hr).mono fun _ => hasMain_addTask
    · exact ⟨hrow.isBreak, fun p hp => hasMain_addTask (hrow.parent p hp)⟩
  subTasks := fun r hr => hasTask_addTask (h.subTasks r hr)

/-- A row that replaces one with the same parent. -/
theorem update (h : TaskLinks t s) {old row : PersonalTask} (hold : old ∈ t.rows)
    (hid : row.id = old.id) (hbreak : row.isBreak = old.isBreak)
    (hparent : row.parentTask = old.parentTask) : TaskLinks (t.update row) s := by
  have hrow : ∀ r ∈ t.rows, ∃ r' ∈ (t.update row).rows, r'.id = r.id ∧ r'.isBreak = r.isBreak := by
    intro r hr
    refine ⟨_, List.mem_map_of_mem hr, ?_⟩
    by_cases hsame : r.id = row.id
    · rw [if_pos hsame]
      have heq : r = old := t.eq_of_key_eq hr hold (hsame.trans hid)
      exact ⟨hsame.symm, by rw [hbreak, heq]⟩
    · rw [if_neg hsame]
      exact ⟨rfl, rfl⟩
  have hmain : ∀ p, HasMain t p → HasMain (t.update row) p := by
    intro p hp
    obtain ⟨r, hr, hrid, hrbreak⟩ := hp
    obtain ⟨r', hr', hid', hbreak'⟩ := hrow r hr
    exact ⟨r', hr', hid'.trans hrid, hbreak'.trans hrbreak⟩
  constructor
  · intro r hr
    rcases Table.mem_update hr with rfl | hr
    · have hplaced := (h.placed old hold).mono hmain
      exact ⟨by rw [hbreak, hparent]; exact hplaced.isBreak, by rw [hparent]; exact hplaced.parent⟩
    · exact (h.placed r hr).mono hmain
  · intro r hr
    obtain ⟨u, hu, hk⟩ := h.subTasks r hr
    obtain ⟨r', hr', hid', -⟩ := hrow u hu
    exact ⟨r', hr', hid'.trans hk⟩

theorem insertSubTask (h : TaskLinks t s) {row : Nat → SubTask} (hid : ∀ k, (row k).id = k)
    (hrow : ∀ k, HasTask t (row k).personalTask) : TaskLinks t (s.insert row hid) := by
  refine ⟨h.placed, fun r hr => ?_⟩
  rcases (Table.mem_insert _ _ _ _).1 hr with hr | rfl
  · exact h.subTasks r hr
  · exact hrow _

theorem updateSubTask (h : TaskLinks t s) {row : SubTask} (hrow : HasTask t row.personalTask) :
    TaskLinks t (s.update row) := by
  refine ⟨h.placed, fun r hr => ?_⟩
  rcases Table.mem_update hr with rfl | hr
  · exact hrow
  · exact h.subTasks r hr

theorem deleteSubTasks (h : TaskLinks t s) (p : SubTask → Bool) : TaskLinks t (s.delete p) :=
  ⟨h.placed, fun r hr => h.subTasks r (Table.mem_of_mem_delete hr)⟩

end TaskLinks

/-! ## Deleting tasks -/

theorem withBreaks_eq (db : Planner) (ids : List Nat) (depth : Nat) :
    db.withBreaks ids depth
      = Closure.under db.personalTasks.rows PersonalTask.id PersonalTask.parentTask ids depth := by
  induction depth generalizing ids with
  | zero => rfl
  | succ depth ih =>
      unfold Planner.withBreaks Closure.under
      rw [ih]
      refine congrArg (fun l => Closure.under _ _ _ (ids ++ l) depth) ?_
      unfold Closure.children
      congr 2
      funext t
      cases t.parentTask <;> rfl

/-- The ids of all tasks that are deleted. -/
def Planner.deleted (db : Planner) (ids : List Nat) : List Nat :=
  db.withBreaks ids db.personalTasks.rows.length

theorem mem_deleted_of_parent {db : Planner} {ids : List Nat} {r : PersonalTask} {p : Nat}
    (hr : r ∈ db.personalTasks.rows) (hparent : r.parentTask = some p) (hp : p ∈ db.deleted ids) :
    r.id ∈ db.deleted ids := by
  have hclosed := @Closure.under_closed Nat PersonalTask _ db.personalTasks.rows PersonalTask.id
    PersonalTask.parentTask ids
  unfold Planner.deleted at hp ⊢
  rw [withBreaks_eq] at hp ⊢
  exact hclosed r hr p hparent hp

/-- The breaks right under some tasks are the last that are deleted: no break has one of its own. -/
theorem mem_deleted_iff {db : Planner} (h : TaskLinks db.personalTasks db.subTasks) {ids : List Nat}
    {r : PersonalTask} (hr : r ∈ db.personalTasks.rows) :
    r.id ∈ db.deleted ids ↔ r.id ∈ ids ∨ ∃ p ∈ ids, r.parentTask = some p := by
  have hdeleted : db.deleted ids = Closure.under db.personalTasks.rows PersonalTask.id
      PersonalTask.parentTask ids db.personalTasks.rows.length := withBreaks_eq _ _ _
  constructor
  · intro hmem
    rw [hdeleted] at hmem
    have hleast : ∀ k, k ∈ Closure.under db.personalTasks.rows PersonalTask.id
        PersonalTask.parentTask ids db.personalTasks.rows.length →
        k ∈ ids ∨ ∃ u ∈ db.personalTasks.rows, u.id = k ∧ ∃ p ∈ ids, u.parentTask = some p := by
      intro k hk
      refine @Closure.under_least Nat PersonalTask _ _ _ _ (fun k => k ∈ ids ∨
        ∃ u ∈ db.personalTasks.rows, u.id = k ∧ ∃ p ∈ ids, u.parentTask = some p) ?_ _
        (fun k hk => .inl hk) _ _ hk
      intro u hu p hup hp
      rcases hp with hp | ⟨v, hv, rfl, q, -, hvq⟩
      · exact .inr ⟨u, hu, rfl, p, hp, hup⟩
      · -- the parent of a break is no break
        obtain ⟨w, hw, hwid, hwbreak⟩ := (h.placed u hu).parent _ hup
        have heq : w = v := db.personalTasks.eq_of_key_eq hw hv hwid
        have hbreak := (h.placed v hv).isBreak
        rw [← heq, hwbreak, heq, hvq] at hbreak
        cases hbreak
    rcases hleast r.id hmem with hk | ⟨u, hu, hid, p, hp, hparent⟩
    · exact .inl hk
    · have heq : u = r := db.personalTasks.eq_of_key_eq hu hr hid
      exact .inr ⟨p, hp, heq ▸ hparent⟩
  · rintro (hk | ⟨p, hp, hparent⟩)
    · rw [hdeleted]
      exact Closure.mem_under_of_mem hk _
    · refine mem_deleted_of_parent hr hparent ?_
      rw [hdeleted]
      exact Closure.mem_under_of_mem hp _

theorem mem_deleteTasks {db : Planner} {ids : List Nat} {r : PersonalTask} :
    r ∈ (db.deleteTasks ids).personalTasks.rows ↔
      r ∈ db.personalTasks.rows ∧ r.id ∉ db.deleted ids := by
  show r ∈ (db.personalTasks.rows.filter fun t => !decide (t.id ∈ db.deleted ids)) ↔ _
  simp

/-- With the tasks go their breaks and subtasks. -/
theorem TaskLinks.deleteTasks {db : Planner} (h : TaskLinks db.personalTasks db.subTasks)
    (ids : List Nat) :
    TaskLinks (db.deleteTasks ids).personalTasks (db.deleteTasks ids).subTasks where
  placed := by
    intro r hr
    obtain ⟨hmem, hstays⟩ := mem_deleteTasks.1 hr
    refine ⟨(h.placed r hmem).isBreak, fun p hp => ?_⟩
    obtain ⟨u, hu, hid, hbreak⟩ := (h.placed r hmem).parent p hp
    refine ⟨u, mem_deleteTasks.2 ⟨hu, ?_⟩, hid, hbreak⟩
    intro hgone
    exact hstays (mem_deleted_of_parent hmem hp (hid ▸ hgone))
  subTasks := by
    intro r hr
    obtain ⟨hmem, hfilter⟩ := List.mem_filter.1 hr
    have hstays : (!decide (r.personalTask ∈ db.deleted ids)) = true := hfilter
    obtain ⟨u, hu, hid⟩ := h.subTasks r hmem
    rw [← hid] at hstays
    exact ⟨u, mem_deleteTasks.2 ⟨hu, by simpa using hstays⟩, hid⟩

/-! ## Projects -/

/-- There is a project with the id. -/
def HasProject (p : ProjectRows) (id : Nat) : Prop := ∃ r ∈ p.rows, r.id = id

/-- There is a project task with the id. -/
def HasProjectTask (t : ProjectTaskRows) (id : Nat) : Prop := ∃ r ∈ t.rows, r.id = id

/-- What project tasks and their schedules refer to is there. -/
structure ProjectLinks (p : ProjectRows) (t : ProjectTaskRows) (s : ProjectScheduleRows) : Prop where
  projects : ∀ r ∈ t.rows, HasProject p r.project
  tasks : ∀ r ∈ s.rows, HasProjectTask t r.projectTask
  /-- For each day a task has one schedule. -/
  schedules : s.UniqueBy fun r => (r.projectTask, r.dayOfWeek)

namespace ProjectLinks

variable {p : ProjectRows} {t : ProjectTaskRows} {s : ProjectScheduleRows}

theorem insertProject (h : ProjectLinks p t s) {row : Nat → Project} (hid : ∀ k, (row k).id = k) :
    ProjectLinks (p.insert row hid) t s := by
  refine ⟨fun r hr => ?_, h.tasks, h.schedules⟩
  obtain ⟨u, hu, hk⟩ := h.projects r hr
  exact ⟨u, (Table.mem_insert _ _ _ _).2 (.inl hu), hk⟩

theorem hasProject_update {row : Project} {k : Nat} (h : HasProject p k) :
    HasProject (p.update row) k := by
  obtain ⟨u, hu, hk⟩ := h
  refine ⟨_, List.mem_map_of_mem hu, ?_⟩
  split
  · rename_i hsame
    exact hsame.symm.trans hk
  · exact hk

theorem updateProject (h : ProjectLinks p t s) (row : Project) : ProjectLinks (p.update row) t s :=
  ⟨fun r hr => hasProject_update (h.projects r hr), h.tasks, h.schedules⟩

theorem insertTask (h : ProjectLinks p t s) {row : Nat → ProjectTask} (hid : ∀ k, (row k).id = k)
    (hrow : ∀ k, HasProject p (row k).project) : ProjectLinks p (t.insert row hid) s := by
  refine ⟨fun r hr => ?_, fun r hr => ?_, h.schedules⟩
  · rcases (Table.mem_insert _ _ _ _).1 hr with hr | rfl
    · exact h.projects r hr
    · exact hrow _
  · obtain ⟨u, hu, hk⟩ := h.tasks r hr
    exact ⟨u, (Table.mem_insert _ _ _ _).2 (.inl hu), hk⟩

theorem updateTask (h : ProjectLinks p t s) {row : ProjectTask} (hrow : HasProject p row.project) :
    ProjectLinks p (t.update row) s := by
  refine ⟨fun r hr => ?_, fun r hr => ?_, h.schedules⟩
  · rcases Table.mem_update hr with rfl | hr
    · exact hrow
    · exact h.projects r hr
  · obtain ⟨u, hu, hk⟩ := h.tasks r hr
    refine ⟨_, List.mem_map_of_mem hu, ?_⟩
    split
    · rename_i hsame
      exact hsame.symm.trans hk
    · exact hk

theorem insertSchedule (h : ProjectLinks p t s) {row : Nat → ProjectSchedule}
    (hid : ∀ k, (row k).id = k) (hrow : ∀ k, HasProjectTask t (row k).projectTask)
    (hnew : ∀ k, ∀ r ∈ s.rows,
      (r.projectTask, r.dayOfWeek) ≠ ((row k).projectTask, (row k).dayOfWeek)) :
    ProjectLinks p t (s.insert row hid) := by
  refine ⟨h.projects, fun r hr => ?_, h.schedules.insert hid (hnew _)⟩
  rcases (Table.mem_insert _ _ _ _).1 hr with hr | rfl
  · exact h.tasks r hr
  · exact hrow _

/-- With the tasks go their schedules. -/
theorem deleteTasks (h : ProjectLinks p t s) (ids : List Nat) :
    ProjectLinks p (t.delete fun r => decide (r.id ∈ ids))
      (s.delete fun r => decide (r.projectTask ∈ ids)) where
  projects := fun r hr => h.projects r (Table.mem_of_mem_delete hr)
  tasks := by
    intro r hr
    obtain ⟨hmem, hstays⟩ := List.mem_filter.1 hr
    obtain ⟨u, hu, hid⟩ := h.tasks r hmem
    refine ⟨u, List.mem_filter.2 ⟨hu, ?_⟩, hid⟩
    show (!decide (u.id ∈ ids)) = true
    rw [hid]
    exact hstays
  schedules := h.schedules.delete _

/-- A project without tasks may go. -/
theorem deleteProject (h : ProjectLinks p t s) {id : Nat} (hnone : ∀ r ∈ t.rows, r.project ≠ id) :
    ProjectLinks (p.delete fun r => decide (r.id = id)) t s := by
  refine ⟨fun r hr => ?_, h.tasks, h.schedules⟩
  obtain ⟨u, hu, hid⟩ := h.projects r hr
  refine ⟨u, List.mem_filter.2 ⟨hu, ?_⟩, hid⟩
  have hne := hnone r hr
  rw [← hid] at hne
  simpa using hne

end ProjectLinks

/-! ## The planner -/

/-- Nothing in the tables of `Planner` refers to a row that is gone. -/
structure Intact (db : Planner) : Prop where
  tasks : TaskLinks db.personalTasks db.subTasks
  projects : ProjectLinks db.projects db.projectTasks db.projectSchedules
  /-- For each date a prayer has one record. -/
  prayers : db.prayerCompletions.UniqueBy fun r => (r.prayerName, r.date)

namespace Intact

variable {db : Planner}

theorem init (now : DateTime) : Intact (Planner.init now) := by
  refine ⟨⟨?_, ?_⟩, ⟨?_, ?_, Table.UniqueBy.empty⟩, Table.UniqueBy.empty⟩ <;> intro r hr <;> cases hr

theorem createTask (h : Intact db) {row : PersonalTask} (hrow : Placed db.personalTasks row) :
    Intact (db.createTask row) :=
  { h with tasks := h.tasks.addTask hrow }

theorem createSubTask (h : Intact db) {row : SubTask}
    (hrow : HasTask db.personalTasks row.personalTask) : Intact (db.createSubTask row) :=
  { h with
    tasks := @TaskLinks.insertSubTask _ _ h.tasks (fun k => { row with id := k }) (fun _ => rfl)
      fun _ => hrow }

theorem deleteTasks (h : Intact db) (ids : List Nat) : Intact (db.deleteTasks ids) :=
  { h with tasks := h.tasks.deleteTasks ids }

theorem deleteSubTasks (h : Intact db) (p : SubTask → Bool) :
    Intact { db with subTasks := db.subTasks.delete p } :=
  { h with tasks := h.tasks.deleteSubTasks p }

theorem updateTask (h : Intact db) {old row : PersonalTask} (hold : old ∈ db.personalTasks.rows)
    (hid : row.id = old.id) (hbreak : row.isBreak = old.isBreak)
    (hparent : row.parentTask = old.parentTask) : Intact (db.updateTask row) :=
  { h with tasks := h.tasks.update hold hid hbreak hparent }

theorem updateSubTask (h : Intact db) {row : SubTask}
    (hrow : HasTask db.personalTasks row.personalTask) : Intact (db.updateSubTask row) :=
  { h with tasks := h.tasks.updateSubTask hrow }

theorem createProject (h : Intact db) (row : Project) : Intact (db.createProject row) :=
  { h with
    projects := @ProjectLinks.insertProject _ _ _ h.projects (fun k => { row with id := k })
      fun _ => rfl }

theorem updateProject (h : Intact db) (row : Project) : Intact (db.updateProject row) :=
  { h with projects := h.projects.updateProject row }

theorem createProjectTask (h : Intact db) {row : ProjectTask}
    (hrow : HasProject db.projects row.project) : Intact (db.createProjectTask row) :=
  { h with
    projects := @ProjectLinks.insertTask _ _ _ h.projects (fun k => { row with id := k })
      (fun _ => rfl) fun _ => hrow }

theorem saveScheduled (h : Intact db) {t : ProjectTask} (ht : HasProject db.projects t.project) :
    Intact (db.saveScheduled t) :=
  { h with projects := @ProjectLinks.updateTask _ _ _ h.projects (t.scheduledAt db.now) ht }

theorem createSchedule (h : Intact db) {row : ProjectSchedule}
    (hrow : HasProjectTask db.projectTasks row.projectTask)
    (hnew : ∀ r ∈ db.projectSchedules.rows,
      (r.projectTask, r.dayOfWeek) ≠ (row.projectTask, row.dayOfWeek)) :
    Intact (db.createSchedule row) :=
  { h with
    projects := @ProjectLinks.insertSchedule _ _ _ h.projects (fun k => { row with id := k })
      (fun _ => rfl) (fun _ => hrow) fun _ => hnew }

theorem deleteProjectTasks (h : Intact db) (ids : List Nat) : Intact (db.deleteProjectTasks ids) :=
  { h with projects := h.projects.deleteTasks ids }

theorem deleteProject (h : Intact db) (id : Nat) : Intact (db.deleteProject id) := by
  refine { h with projects := (h.projects.deleteTasks _).deleteProject ?_ }
  intro r hr hproject
  obtain ⟨hmem, hstays⟩ := List.mem_filter.1 hr
  -- the task was among those of the project
  have hgone : r.id ∈ (db.projectTasksOf id).map ProjectTask.id :=
    List.mem_map_of_mem (List.mem_filter.2 ⟨hmem, decide_eq_true hproject⟩)
  rw [Bool.not_eq_true', decide_eq_false_iff_not] at hstays
  exact hstays hgone

theorem createPrayer (h : Intact db) {prayerName : String} {date : Date}
    (hnew : db.findPrayer prayerName date = none) :
    Intact (db.createPrayer (newPrayer prayerName date)) := by
  refine { h with prayers := h.prayers.insert _ fun r hr hsame => ?_ }
  have hnot := List.find?_eq_none.1 hnew r hr
  exact hnot (decide_eq_true (Prod.mk.inj hsame))

theorem updatePrayer (h : Intact db) {r : PrayerCompletion} (hr : r ∈ db.prayerCompletions.rows)
    (status : PrayerCompletionStatus) (now : DateTime) :
    Intact (db.updatePrayer (r.marked status now)) := by
  refine { h with prayers := h.prayers.update hr ?_ ?_ }
  · cases status <;> rfl
  · cases status <;> rfl

end Intact

/-! ## The views -/

/-- The view leaves the planner intact however it ends. -/
abbrev KeepsIntact {α : Type} (p : View α) (db : Planner) : Prop :=
  p.wp (fun _ => Intact) (fun _ => Intact) db

theorem wp_ofExcept {α : Type} {Q : α → Planner → Prop} {X : ViewError → Planner → Prop}
    {db : Planner} {x : Except ViewError α} (hQ : ∀ a, x = .ok a → Q a db)
    (hX : ∀ e, x = .error e → X e db) : (View.ofExcept x).wp Q X db := by
  cases x with
  | ok a => exact hQ a rfl
  | error e => exact hX e rfl

section Views

variable {db : Planner} (h : Intact db)
include h

theorem keepsIntact_ofExcept {α β : Type} {x : Except ViewError α} {k : α → View β}
    (hk : ∀ a, x = .ok a → KeepsIntact (k a) db) : KeepsIntact (View.ofExcept x >>= k) db :=
  Prog.wp_bind.2 (wp_ofExcept hk fun _ _ => h)

/-- The row of an id, or an answer that nothing was found. -/
theorem keepsIntact_getTaskOr404 {β : Type} {id : Nat} {k : PersonalTask → View β}
    (hk : ∀ t ∈ db.personalTasks.rows, t.id = id → KeepsIntact (k t) db) :
    KeepsIntact (getTaskOr404 id >>= k) db := by
  unfold getTaskOr404
  simp only [Prog.wp_bind, Prog.wp_read]
  cases hfind : db.personalTasks.find? id with
  | none => exact h
  | some t =>
      obtain ⟨ht, hid⟩ := Table.find?_eq_some.1 hfind
      exact hk t ht hid

omit h in
/-- The subtasks of a task are written while it is there. -/
theorem handleSubtasks_links (env : PlannerEnv) (id : Nat) (replace : Bool) (s : Option String) :
    (handleSubtasks env id replace s).Steps
      (fun db db' _ => Intact db ∧ HasTask db.personalTasks id →
        Intact db' ∧ HasTask db'.personalTasks id) fun _ => True := by
  cases s with
  | none => trivial
  | some s =>
      unfold handleSubtasks
      refine Prog.Steps.ite (fun _ => trivial) fun _ => ?_
      cases env.jsonLoads s with
      | none => trivial
      | some data =>
          have hdrop : (dropSubtasks id replace).Steps
              (fun db db' _ => Intact db ∧ HasTask db.personalTasks id →
                Intact db' ∧ HasTask db'.personalTasks id) fun _ => True :=
            Prog.Steps.ite
              (fun _ => Prog.Steps.write fun db hdb => ⟨hdb.1.deleteSubTasks _, hdb.2⟩) fun _ => trivial
          have hof : ∀ {α : Type} (x : Except ViewError α), (View.ofExcept x).Steps
              (fun db db' _ => Intact db ∧ HasTask db.personalTasks id →
                Intact db' ∧ HasTask db'.personalTasks id) fun _ => True := by
            intro α x
            cases x <;> trivial
          refine Prog.Steps.bind hdrop fun _ _ => ?_
          refine Prog.Steps.bind (hof _) fun items _ => ?_
          refine Prog.Steps.forEach fun x _ => ?_
          refine Prog.Steps.bind (hof _) fun title _ => ?_
          refine Prog.Steps.bind (hof _) fun order _ => ?_
          exact Prog.Steps.write fun db hdb => ⟨hdb.1.createSubTask hdb.2, hdb.2⟩

omit h in
theorem Placed.breakAfter {t : PersonalTask} {e : Time} (hbreak : t.isBreak = false)
    (ht : ∃ r ∈ db.personalTasks.rows, r.id = t.id ∧ r.isBreak = t.isBreak) :
    Placed db.personalTasks (breakAfter t e) := by
  refine ⟨rfl, fun p hp => ?_⟩
  obtain ⟨r, hr, hid, hsame⟩ := ht
  have hp : t.id = p := Option.some.inj hp
  exact ⟨r, hr, hid.trans hp, hsame.trans hbreak⟩

/-- A break is inserted only after a task that is there. -/
theorem autoInsertBreaks_intact {t : PersonalTask}
    (ht : ∃ r ∈ db.personalTasks.rows, r.id = t.id ∧ r.isBreak = t.isBreak) :
    Intact ((autoInsertBreaks t).exec db) := by
  rcases autoInsertBreaks_cases t db with ⟨e, he, hadd⟩ | ⟨-, hsame⟩
  · rw [hadd]
    exact h.createTask (Placed.breakAfter he.1 ht)
  · rw [hsame]
    exact h

/-- After the subtasks the tasks are as before. -/
theorem handleSubtasks_intact {env : PlannerEnv} {id : Nat} (hid : HasTask db.personalTasks id)
    (replace : Bool) (s : Option String) :
    (handleSubtasks env id replace s).wp
      (fun _ db' => Intact db' ∧ db'.personalTasks = db.personalTasks)
      (fun _ db' => Intact db' ∧ db'.personalTasks = db.personalTasks) db := by
  have hsteps := (handleSubtasks_links env id replace s).and (handleSubtasks_steps env id replace s)
  have hkeep := Prog.wp_of_steps (I := fun db' => (Intact db' ∧ HasTask db'.personalTasks id) ∧
    db'.personalTasks = db.personalTasks) (s := db) hsteps
    (fun _ _ _ hs hI => ⟨hs.1 hI.1, hs.2.1.trans hI.2⟩) ⟨⟨h, hid⟩, rfl⟩
  exact Prog.wp_mono hkeep (fun _ _ hdb => ⟨hdb.1.1, hdb.2⟩) fun _ _ hdb => ⟨hdb.1.1, hdb.2⟩

theorem finishCreate_intact (env : PlannerEnv) {t : PersonalTask} (ht : t ∈ db.personalTasks.rows)
    (s : Option String) : KeepsIntact (finishCreate env t s) db := by
  refine Prog.wp_bind.2 (Prog.wp_mono (handleSubtasks_intact h ⟨t, ht, rfl⟩ false s) ?_ ?_)
  · intro _ db' hdb
    refine Prog.wp_const.2 (autoInsertBreaks_intact hdb.1 ?_)
    rw [hdb.2]
    exact ⟨t, ht, rfl, rfl⟩
  · exact fun _ _ hdb => hdb.1

omit h in
/-- The breaks of a task do not include the task. -/
theorem mem_dropBreaks {t : PersonalTask} (h : Intact db) (ht : t ∈ db.personalTasks.rows) :
    t ∈ (db.dropBreaks t.id).personalTasks.rows := by
  refine mem_deleteTasks.2 ⟨ht, fun hgone => ?_⟩
  have hbreaks : ∀ k ∈ db.breaksOf t.id, ∃ r ∈ db.personalTasks.rows, r.id = k ∧
      r.parentTask = some t.id := by
    intro k hk
    obtain ⟨r, hr, hrk⟩ := List.mem_map.1 hk
    obtain ⟨hmem, hparent⟩ := List.mem_filter.1 hr
    exact ⟨r, hmem, hrk, of_decide_eq_true hparent⟩
  -- a break of the task would be the task itself or its parent, and the task is the parent of a break
  have hmain : ∀ r ∈ db.personalTasks.rows, r.parentTask = some t.id → t.isBreak = false := by
    intro r hr hparent
    obtain ⟨u, hu, huid, hubreak⟩ := (h.tasks.placed r hr).parent _ hparent
    rw [← db.personalTasks.eq_of_key_eq hu ht huid]
    exact hubreak
  have hnone : t.isBreak = false → t.parentTask = none := by
    intro hbreak
    have hplaced := (h.tasks.placed t ht).isBreak
    rw [hbreak] at hplaced
    exact Option.not_isSome_iff_eq_none.1 (by simp [← hplaced])
  rcases (mem_deleted_iff h.tasks ht).1 hgone with hk | ⟨p, hp, hparent⟩
  · obtain ⟨r, hr, hid, hrparent⟩ := hbreaks _ hk
    have heq : r = t := db.personalTasks.eq_of_key_eq hr ht hid
    have hparent := hnone (hmain r hr hrparent)
    rw [heq, hparent] at hrparent
    cases hrparent
  · obtain ⟨r, hr, -, hrparent⟩ := hbreaks _ hp
    rw [hnone (hmain r hr hrparent)] at hparent
    cases hparent

theorem finishEdit_intact (env : PlannerEnv) {t : PersonalTask} (ht : t ∈ db.personalTasks.rows)
    (s : Option String) : KeepsIntact (finishEdit env t s) db := by
  refine Prog.wp_bind.2 (Prog.wp_mono (handleSubtasks_intact h ⟨t, ht, rfl⟩ true s) ?_ ?_)
  · intro _ db' hdb
    rw [Prog.wp_bind, Prog.wp_write]
    have hstays : t ∈ (db'.dropBreaks t.id).personalTasks.rows := by
      apply mem_dropBreaks hdb.1
      rw [hdb.2]
      exact ht
    exact Prog.wp_const.2 (autoInsertBreaks_intact (hdb.1.deleteTasks _) ⟨t, hstays, rfl, rfl⟩)
  · exact fun _ _ hdb => hdb.1

omit h in
theorem wp_validForm {r : TaskRequest} {Q : Option TaskFields → Planner → Prop}
    {X : ViewError → Planner → Prop} (hQ : ∀ f, Q f db) : (validForm r).wp Q X db := by
  unfold validForm
  cases r.fields with
  | none => exact hQ none
  | some f => exact hQ _

theorem createPersonalTaskView_intact (env : PlannerEnv) (r : TaskRequest) :
    KeepsIntact (createPersonalTaskView env r) db := by
  refine Prog.wp_bind.2 (wp_validForm fun f => ?_)
  cases f with
  | none => exact h
  | some f =>
      rw [Prog.wp_bind]
      have hdb : Intact (db.createTask f.newTask) := h.createTask (Placed.plain rfl rfl)
      exact finishCreate_intact hdb env (mem_addTask.2 (.inr rfl)) r.subtasksJson

omit h in
theorem mem_update_self {t : TaskRows} {old row : PersonalTask} (hold : old ∈ t.rows)
    (hid : row.id = old.id) : row ∈ (t.update row).rows :=
  List.mem_map.2 ⟨old, hold, if_pos hid.symm⟩

theorem editPersonalTask_intact (env : PlannerEnv) (id : Nat) (r : TaskRequest) :
    KeepsIntact (editPersonalTask env id r) db := by
  refine keepsIntact_getTaskOr404 h fun t ht _ => ?_
  refine Prog.wp_bind.2 (wp_validForm fun f => ?_)
  cases f with
  | none => exact h
  | some f =>
      rw [Prog.wp_bind, Prog.wp_write]
      have hdb : Intact (db.updateTask (f.edited t)) := h.updateTask ht rfl rfl rfl
      exact finishEdit_intact hdb env (mem_update_self ht rfl) r.subtasksJson

/-- A copy is no break, and its subtasks are written under its own id. -/
theorem copyTask_intact (env : PlannerEnv) (current yesterday : Date) (overrides taskId : Json) :
    KeepsIntact (copyTask env current yesterday overrides taskId) db := by
  unfold copyTask getForCopy
  rw [Prog.bind_assoc]
  refine keepsIntact_ofExcept h fun id _ => ?_
  simp only [Prog.wp_bind, Prog.wp_read]
  cases db.personalTasks.find? id with
  | none => exact h
  | some original =>
      simp only [Prog.wp_ite]
      refine ⟨fun _ => ?_, fun _ => h⟩
      rw [Prog.pure_eq, Prog.wp_ret]
      refine keepsIntact_ofExcept h fun override _ => ?_
      refine keepsIntact_ofExcept h fun startTime _ => ?_
      refine keepsIntact_ofExcept h fun endTime _ => ?_
      refine Prog.wp_bind.2 ?_
      have hdb : Intact (db.createTask (copyOf original current startTime endTime)) :=
        h.createTask (Placed.plain rfl rfl)
      have hnew : HasTask (db.createTask (copyOf original current startTime endTime)).personalTasks
          db.personalTasks.next := ⟨_, mem_addTask.2 (.inr rfl), rfl⟩
      show (_ >>= _ : View Nat).wp _ _ (db.createTask (copyOf original current startTime endTime))
      rw [Prog.wp_bind, Prog.wp_read, Prog.wp_bind]
      refine Prog.wp_mono (Prog.wp_forEach (I := fun db' => Intact db' ∧
        HasTask db'.personalTasks db.personalTasks.next) ?_ ⟨hdb, hnew⟩) ?_ ?_
      · exact fun s _ db' hdb' => ⟨hdb'.1.createSubTask hdb'.2, hdb'.2⟩
      · exact fun _ _ hdb' => hdb'.1
      · exact fun _ _ hdb' => hdb'.1

end Views

/-- The loop goes on after a copy that failed. -/
theorem copyTasks_intact (env : PlannerEnv) (current yesterday : Date) (overrides : Json)
    (items : List Json) (acc : CopyAnswer) {db : Planner} (h : Intact db) :
    KeepsIntact (copyTasks env current yesterday overrides items acc) db := by
  induction items generalizing acc db with
  | nil => exact h
  | cons taskId items ih =>
      have hcopy := copyTask_intact h env current yesterday overrides taskId
      unfold copyTasks
      refine Prog.wp_bind.2 (Prog.wp_attempt.2 (Prog.wp_mono hcopy ?_ ?_))
      · exact fun _ _ hdb => ih _ hdb
      · exact fun _ _ hdb => ih _ hdb

section Views

variable {db : Planner} (h : Intact db)
include h

theorem copyTasksFromYesterday_intact (env : PlannerEnv) (current : Date) (body : String) :
    KeepsIntact (copyTasksFromYesterday env current body) db := by
  refine keepsIntact_ofExcept h fun yesterday _ => ?_
  cases env.jsonLoads body with
  | none => exact h
  | some data =>
      refine keepsIntact_ofExcept h fun p _ => ?_
      refine Prog.wp_bind.2 (Prog.wp_mono (copyTasks_intact env current yesterday p.1 p.2 _ h) ?_ ?_)
      · exact fun _ _ hdb => hdb
      · exact fun _ _ hdb => hdb

/-- A plan is carried out: sessions are no breaks, and the tasks that are marked belong to the
project. -/
theorem foldl_perform_intact {p : Project} (steps : List GenerateStep) (events : List PlannerEvent)
    (acc : Generated) (hsteps : ∀ t, .mark t ∈ steps → HasProject db.projects t.project) :
    Intact (steps.foldl (Progress.perform p) ⟨db, events, acc⟩).db := by
  induction steps generalizing db events acc with
  | nil => exact h
  | cons step steps ih =>
      rw [List.foldl_cons]
      have hrest : ∀ t, .mark t ∈ steps → HasProject db.projects t.project :=
        fun t ht => hsteps t (List.mem_cons_of_mem _ ht)
      cases step with
      | session s =>
          have hdb : Intact (db.createTask (s.row p)) := h.createTask (Placed.plain rfl rfl)
          by_cases hconflict : db.conflicting s = true
          · simp only [Progress.perform, hconflict, if_true]
            exact ih h _ _ hrest
          · simp only [Progress.perform, hconflict]
            exact ih hdb _ _ hrest
      | mark t =>
          have hdb : Intact (db.saveScheduled t) := h.saveScheduled (hsteps t List.mem_cons_self)
          exact ih hdb _ _ hrest

theorem generateScheduleView_intact (env : PlannerEnv) (projectId : Nat) (body : String) :
    Intact ((generateScheduleView env projectId body).exec db) := by
  cases hp : db.projects.find? projectId with
  | none =>
      rw [Prog.exec, run_generateScheduleView_none env hp]
      exact h
  | some p =>
      rw [Prog.exec, run_generateScheduleView env hp]
      refine foldl_perform_intact h _ _ _ fun t ht => ?_
      obtain ⟨ids, -, hfrom⟩ := mem_generatePlan ht
      have hmem : t ∈ db.tasksOf p ids := hfrom
      unfold Planner.tasksOf at hmem
      rw [List.mem_insertionSort] at hmem
      exact h.projects.projects t (List.mem_filter.1 hmem).1

theorem deletePersonalTaskView_intact (id : Nat) : KeepsIntact (deletePersonalTaskView id) db :=
  keepsIntact_getTaskOr404 h fun _ _ _ => h.deleteTasks _

theorem createSubtaskView_intact (env : DeskEnv) (id : Nat) (body : String) :
    KeepsIntact (createSubtaskView env id body) db := by
  refine keepsIntact_getTaskOr404 h fun t ht _ => ?_
  cases env.jsonLoads body with
  | none => exact h
  | some data =>
      refine keepsIntact_ofExcept h fun title _ => ?_
      refine Prog.wp_ite.2 ⟨fun _ => h, fun _ => ?_⟩
      exact h.createSubTask ⟨t, ht, rfl⟩

theorem keepsIntact_getSubTaskOr404 {β : Type} {id : Nat} {k : SubTask → View β}
    (hk : ∀ s ∈ db.subTasks.rows, KeepsIntact (k s) db) : KeepsIntact (getSubTaskOr404 id >>= k) db := by
  unfold getSubTaskOr404
  simp only [Prog.wp_bind, Prog.wp_read]
  cases hfind : db.subTasks.find? id with
  | none => exact h
  | some s => exact hk s (Table.find?_eq_some.1 hfind).1

theorem toggleSubtaskCompletion_intact (env : DeskEnv) (id : Nat) (body : String) :
    KeepsIntact (toggleSubtaskCompletion env id body) db := by
  refine keepsIntact_getSubTaskOr404 h fun s hs => ?_
  cases env.jsonLoads body with
  | none => exact h
  | some data =>
      refine keepsIntact_ofExcept h fun isCompleted _ => ?_
      cases isCompleted.toBoolean with
      | none => exact h
      | some b => exact h.updateSubTask (h.tasks.subTasks s hs)

theorem deleteSubtaskView_intact (id : Nat) : KeepsIntact (deleteSubtaskView id) db := by
  refine keepsIntact_getSubTaskOr404 h fun s _ => ?_
  have hdb : Intact (db.deleteSubTask s.id) := h.deleteSubTasks _
  simp only [Prog.wp_bind, Prog.wp_write, Prog.wp_read]
  cases (db.deleteSubTask s.id).personalTasks.find? s.personalTask with
  | none => exact hdb
  | some t => exact hdb

theorem createProjectView_intact (env : DeskEnv) (body : String) :
    KeepsIntact (createProjectView env body) db := by
  unfold createProjectView
  cases env.loads body >>= readProject env with
  | error x => exact h
  | ok row => exact h.createProject row

theorem keepsIntact_getProjectOr404 {β : Type} {id : Nat} {k : Project → View β}
    (hk : ∀ p ∈ db.projects.rows, KeepsIntact (k p) db) : KeepsIntact (getProjectOr404 id >>= k) db := by
  unfold getProjectOr404
  simp only [Prog.wp_bind, Prog.wp_read]
  cases hfind : db.projects.find? id with
  | none => exact h
  | some p => exact hk p (Table.find?_eq_some.1 hfind).1

theorem projectDetail_intact (id : Nat) (title : Option String) :
    KeepsIntact (projectDetail id title) db :=
  keepsIntact_getProjectOr404 h fun p _ => h.updateProject { p with title := title.getD p.title }

theorem createProjectTaskView_intact (env : DeskEnv) (id : Nat) (body : String) :
    KeepsIntact (createProjectTaskView env id body) db := by
  refine keepsIntact_getProjectOr404 h fun p hp => ?_
  cases env.loads body with
  | error x => exact h
  | ok data =>
      simp only [Prog.wp_bind, Prog.wp_read]
      cases readProjectTask env data with
      | error x => exact h
      | ok r =>
          simp only [Prog.wp_bind, Prog.wp_read, Prog.wp_ite]
          exact ⟨fun _ => h.createProjectTask ⟨p, hp, rfl⟩, fun _ => h⟩

theorem deleteProjectTaskView_intact (id : Nat) : KeepsIntact (deleteProjectTaskView id) db := by
  unfold deleteProjectTaskView
  simp only [Prog.wp_bind, Prog.wp_read]
  cases db.projectTasks.find? id with
  | none => exact h
  | some t => exact h.deleteProjectTasks _

theorem deleteProjectView_intact (id : Nat) : KeepsIntact (deleteProjectView id) db :=
  keepsIntact_getProjectOr404 h fun _ _ => h.deleteProject _

/-- The view looks for a schedule of the day before it creates one. -/
theorem createScheduleView_intact (env : PlannerEnv) (id : Nat) (body : String) :
    KeepsIntact (createScheduleView env id body) db := by
  unfold createScheduleView
  simp only [Prog.wp_bind, Prog.wp_read]
  cases hfind : db.projectTasks.find? id with
  | none => exact h
  | some t =>
      have ht : HasProjectTask db.projectTasks t.id := ⟨t, (Table.find?_eq_some.1 hfind).1, rfl⟩
      rw [Prog.wp_tryCatch]
      refine keepsIntact_ofExcept h fun data _ => ?_
      refine keepsIntact_ofExcept h fun day _ => ?_
      refine Prog.wp_bind.2 (Prog.wp_ite.2 ⟨fun _ => h, fun hnone => ?_⟩)
      refine keepsIntact_ofExcept h fun r _ => ?_
      have hnew : ∀ u ∈ db.projectSchedules.rows, (u.projectTask, u.dayOfWeek) ≠ (t.id, day) := by
        intro u hu hsame
        exact hnone (List.any_eq_true.2 ⟨u, hu, decide_eq_true (Prod.mk.inj hsame)⟩)
      have hdb : Intact (db.createSchedule (scheduleRow t day r)) := h.createSchedule ht hnew
      unfold createProjectSchedule
      simp only [Prog.wp_bind, Prog.wp_ite]
      refine ⟨fun _ => ?_, fun _ => h⟩
      simp only [Prog.wp_command]
      exact keepsIntact_ofExcept hdb fun _ _ => hdb

/-- The record of a prayer is looked for before it is created. -/
theorem getOrCreatePrayer_intact (env : PrayerEnv) (prayerName : String) (date : Date) :
    (getOrCreatePrayer env prayerName date).wp
      (fun r db' => Intact db' ∧ r ∈ db'.prayerCompletions.rows) (fun _ => Intact) db := by
  unfold getOrCreatePrayer
  simp only [Prog.wp_bind, Prog.wp_read]
  cases hfind : db.findPrayer prayerName date with
  | some r => exact ⟨h, (Prayers.findPrayer_eq_some hfind).1⟩
  | none =>
      refine Prog.wp_ite.2 ⟨fun _ => ?_, fun _ => h⟩
      exact ⟨h.createPrayer hfind, (Table.mem_insert _ _ _ _).2 (.inr rfl)⟩

theorem recordPrayer_intact (env : PrayerEnv) (prayerName : String) (dateStr status : Json) :
    KeepsIntact (recordPrayer env prayerName dateStr status) db := by
  refine keepsIntact_ofExcept h fun date _ => ?_
  refine Prog.wp_bind.2 (Prog.wp_mono (getOrCreatePrayer_intact h env prayerName date) ?_ ?_)
  · intro r db' hdb
    refine Prog.wp_bind.2 (Prog.wp_bind.2 ?_)
    have hmarked : Intact (db'.updatePrayer (r.marked status.toStatus db'.now)) :=
      hdb.1.updatePrayer hdb.2 _ _
    exact wp_ofExcept (fun _ _ => hmarked) fun _ _ => hmarked
  · exact fun _ _ hdb => hdb

theorem togglePrayerCompletion_intact (env : PrayerEnv) (prayerName body : String) :
    KeepsIntact (togglePrayerCompletion env prayerName body) db := by
  unfold togglePrayerCompletion
  cases env.jsonLoads body with
  | none => exact h
  | some data =>
      refine keepsIntact_ofExcept h fun p _ => ?_
      refine Prog.wp_ite.2 ⟨fun _ => h, fun _ => ?_⟩
      refine Prog.wp_bind.2 (Prog.wp_attempt.2 (Prog.wp_mono
        (recordPrayer_intact h env prayerName _ _) ?_ ?_))
      · exact fun _ _ hdb => hdb
      · intro x db' hdb
        cases x <;> exact hdb

/-- A request that writes to the tables of `Planner` leaves them intact. -/
theorem Planner.serve_intact (env : DeskEnv) (r : DbRequest) : Intact (db.serve env r) := by
  cases r with
  | planner r =>
      cases r with
      | createPersonalTask r => exact Prog.wp_const.1 (createPersonalTaskView_intact h _ r)
      | editPersonalTask id r => exact Prog.wp_const.1 (editPersonalTask_intact h _ id r)
      | copyTasksFromYesterday date body =>
          exact Prog.wp_const.1 (copyTasksFromYesterday_intact h _ date body)
      | generateSchedule projectId body => exact generateScheduleView_intact h _ projectId body
      | autoInsertBreaks id =>
          cases hfind : db.personalTasks.find? id with
          | none =>
              unfold Planner.serve
              dsimp only
              rw [db.step_autoInsertBreaks_none _ hfind]
              exact h
          | some t =>
              unfold Planner.serve
              dsimp only
              rw [db.step_autoInsertBreaks _ hfind]
              exact autoInsertBreaks_intact h ⟨t, (Table.find?_eq_some.1 hfind).1, rfl, rfl⟩
      | clock now => exact { h with }
  | deletePersonalTask id => exact Prog.wp_const.1 (deletePersonalTaskView_intact h id)
  | createSubtask taskId body => exact Prog.wp_const.1 (createSubtaskView_intact h env taskId body)
  | toggleSubtask id body => exact Prog.wp_const.1 (toggleSubtaskCompletion_intact h env id body)
  | deleteSubtask id => exact Prog.wp_const.1 (deleteSubtaskView_intact h id)
  | createProject body => exact Prog.wp_const.1 (createProjectView_intact h env body)
  | projectDetail id title => exact Prog.wp_const.1 (projectDetail_intact h id title)
  | createProjectTask id body => exact Prog.wp_const.1 (createProjectTaskView_intact h env id body)
  | deleteProjectTask id => exact Prog.wp_const.1 (deleteProjectTaskView_intact h id)
  | createSchedule id body => exact Prog.wp_const.1 (createScheduleView_intact h _ id body)
  | deleteProject id => exact Prog.wp_const.1 (deleteProjectView_intact h id)
  | togglePrayer name body => exact Prog.wp_const.1 (togglePrayerCompletion_intact h _ name body)
  | toggleTask id body => exact h
  | createPrayer r => exact h
  | updatePrayer id r => exact h
  | deletePrayer id => exact h

end Views

/-! ## The whole database -/

/-- Nothing in the database refers to a row that is gone. -/
structure PlannerDb.Intact (db : PlannerDb) : Prop where
  planner : DailyScheduler.Intact db.toPlanner
  completions : ∀ c ∈ db.taskCompletions.rows, HasTask db.personalTasks c.task
  /-- A name has one prayer time. -/
  prayerTimes : db.prayerSchedules.UniqueBy PrayerSchedule.prayerName

namespace PlannerDb.Intact

variable {db : PlannerDb}

theorem hasTask_iff {t : TaskRows} {id : Nat} : HasTask t id ↔ (t.find? id).isSome = true := by
  rw [Option.isSome_iff_exists]
  constructor
  · rintro ⟨r, hr, hid⟩
    exact ⟨r, Table.find?_eq_some.2 ⟨hr, hid⟩⟩
  · rintro ⟨r, hr⟩
    exact ⟨r, Table.find?_eq_some.1 hr⟩

/-- The completions of tasks that are gone went with them. -/
theorem withPlanner (h : db.Intact) {p : Planner} (hp : DailyScheduler.Intact p) :
    (db.withPlanner p).Intact := by
  refine ⟨hp, fun c hc => ?_, h.prayerTimes⟩
  obtain ⟨hmem, hstays⟩ := List.mem_filter.1 hc
  have hold := hasTask_iff.1 (h.completions c hmem)
  show HasTask p.personalTasks c.task
  rw [hasTask_iff]
  by_contra hgone
  rw [Bool.not_eq_true, Option.isSome_eq_false_iff] at hgone
  simp [hold, hgone] at hstays

/-- A task is saved and its completion recorded. -/
theorem toggled (h : db.Intact) {t : PersonalTask} (ht : t ∈ db.personalTasks.rows) (b : Bool)
    (row : TaskCompletion) (hrow : row.task = t.id) :
    ((db.saveCompleted t b).createCompletion row).Intact := by
  have hplanner : DailyScheduler.Intact (db.saveCompleted t b).toPlanner :=
    h.planner.updateTask ht rfl rfl rfl
  have hstays : ∀ k, HasTask db.personalTasks k →
      HasTask (db.saveCompleted t b).personalTasks k := by
    rintro k ⟨r, hr, hk⟩
    refine ⟨_, List.mem_map_of_mem hr, ?_⟩
    split
    · rename_i hsame
      exact hsame.symm.trans hk
    · exact hk
  refine ⟨hplanner, fun c hc => ?_, h.prayerTimes⟩
  rcases (Table.mem_insert _ _ _ _).1 hc with hc | rfl
  · exact hstays _ (h.completions c hc)
  · exact hstays _ ⟨t, ht, hrow.symm⟩

end PlannerDb.Intact

/-- The view leaves the database intact however it ends. -/
abbrev KeepsDb {α : Type} (p : DbView α) (db : PlannerDb) : Prop :=
  p.wp (fun _ => PlannerDb.Intact) (fun _ => PlannerDb.Intact) db

section DbViews

variable {db : PlannerDb} (h : db.Intact)
include h

theorem toggleTaskCompletion_intact (env : DeskEnv) (id : Nat) (body : String) :
    KeepsDb (toggleTaskCompletion env id body) db := by
  unfold toggleTaskCompletion
  simp only [Prog.wp_bind, Prog.wp_read]
  cases hfind : db.personalTasks.find? id with
  | none => exact h
  | some t =>
      cases env.jsonLoads body with
      | none => exact h
      | some data =>
          cases hvalue : data.completed with
          | error x =>
              simp only [hvalue]
              exact h
          | ok value =>
              cases hb : value.toBoolean with
              | none =>
                  simp only [hvalue, hb]
                  exact h
              | some b =>
                  simp only [hvalue, hb]
                  exact h.toggled (Table.find?_eq_some.1 hfind).1 b _ rfl

/-- The view looks for a prayer time of the name before it creates one. -/
theorem createPrayerView_intact (env : DeskEnv) (r : PrayerRequest) :
    KeepsDb (createPrayerView env r) db := by
  unfold createPrayerView
  split
  · rename_i prayerName startTime endTime _ _ _
    refine Prog.wp_bind.2 (Prog.wp_ite.2 ⟨fun _ => h, fun hnone => ?_⟩)
    split
    · refine Prog.wp_ite.2 ⟨fun _ => ?_, fun _ => h⟩
      refine ⟨h.planner, h.completions, h.prayerTimes.insert _ fun p hp hsame => ?_⟩
      exact hnone (List.any_eq_true.2 ⟨p, hp, decide_eq_true hsame⟩)
    · exact h
  · exact h

theorem keepsDb_getPrayerOr404 {β : Type} {id : Nat} {k : PrayerSchedule → DbView β}
    (hk : ∀ p ∈ db.prayerSchedules.rows, KeepsDb (k p) db) : KeepsDb (getPrayerOr404 id >>= k) db := by
  unfold getPrayerOr404
  simp only [Prog.wp_bind, Prog.wp_read]
  cases hfind : db.prayerSchedules.find? id with
  | none => exact h
  | some p => exact hk p (Table.find?_eq_some.1 hfind).1

theorem updatePrayerView_intact (env : DeskEnv) (id : Nat) (r : PrayerRequest) :
    KeepsDb (updatePrayerView env id r) db := by
  refine keepsDb_getPrayerOr404 h fun p hp => ?_
  split
  · exact ⟨h.planner, h.completions, h.prayerTimes.update hp rfl rfl⟩
  · exact h

theorem deletePrayerView_intact (id : Nat) : KeepsDb (deletePrayerView id) db :=
  keepsDb_getPrayerOr404 h fun _ _ => ⟨h.planner, h.completions, h.prayerTimes.delete _⟩

/-- What every request keeps. -/
theorem PlannerDb.step_intact (env : DeskEnv) (r : DbRequest) : (db.step env r).Intact := by
  have hserve := Planner.serve_intact h.planner env r
  cases r with
  | toggleTask id body => exact Prog.wp_const.1 (toggleTaskCompletion_intact h env id body)
  | createPrayer r => exact Prog.wp_const.1 (createPrayerView_intact h env r)
  | updatePrayer id r => exact Prog.wp_const.1 (updatePrayerView_intact h env id r)
  | deletePrayer id => exact Prog.wp_const.1 (deletePrayerView_intact h id)
  | planner | deletePersonalTask | createSubtask | toggleSubtask | deleteSubtask | createProject
  | projectDetail | createProjectTask | deleteProjectTask | createSchedule | deleteProject
  | togglePrayer => exact h.withPlanner hserve

end DbViews

theorem PlannerDb.Intact.init (now : DateTime) : (PlannerDb.init now).Intact := by
  refine ⟨DailyScheduler.Intact.init now, ?_, Table.UniqueBy.empty⟩
  intro c hc
  cases hc

/-- **Whatever requests come, no row refers to one that is gone**, breaks are those with a parent, and no
schedule of a day, record of a prayer or prayer time is there twice. -/
theorem PlannerDb.intact_along (env : DeskEnv) (now : DateTime) (requests : List DbRequest) :
    Run.Along (PlannerDb.step env) PlannerDb.Intact (PlannerDb.init now) requests := by
  apply Run.along_of_keeps
  · intro db r h
    exact PlannerDb.step_intact h env r
  · exact PlannerDb.Intact.init now

end DailyScheduler
