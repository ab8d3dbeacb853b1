import DailyScheduler.Planner.Groups
import DailyScheduler.Planner.Integrity

set_option autoImplicit false

/-! # The history of a task

Each request changes the table of tasks in one of few ways (`Evolves`): rows come with ids that no row
has had and not completed, rows go, and what stays keeps its id, its parent and its mark. Only a toggle
marks a task, and it records that. So the records of a task tell its mark, and a task is there until it
is deleted.
-/

namespace DailyScheduler

open AtomicProg Calendar

/-- What a row keeps through other requests than toggles. -/
structure SameTask (r r' : PersonalTask) : Prop where
  id : r'.id = r.id
  isCompleted : r'.isCompleted = r.isCompleted
  isBreak : r'.isBreak = r.isBreak
  parentTask : r'.parentTask = r.parentTask

theorem SameTask.refl (r : PersonalTask) : SameTask r r := ⟨rfl, rfl, rfl, rfl⟩

theorem SameTask.trans {r r' r'' : PersonalTask} (h : SameTask r r') (h' : SameTask r' r'') :
    SameTask r r'' :=
  ⟨h'.id.trans h.id, h'.isCompleted.trans h.isCompleted, h'.isBreak.trans h.isBreak,
    h'.parentTask.trans h.parentTask⟩

/-- From one table to a later one: only rows in `gone` are deleted, new rows are not completed. -/
structure Evolves (gone : Nat → Prop) (t t' : TaskRows) : Prop where
  next : t.next ≤ t'.next
  origin : ∀ r' ∈ t'.rows, (∃ r ∈ t.rows, SameTask r r') ∨ t.next ≤ r'.id ∧ r'.isCompleted = false
  kept : ∀ r ∈ t.rows, gone r.id ∨ HasTask t' r.id

namespace Evolves

variable {gone gone' : Nat → Prop} {t t' t'' : TaskRows}

theorem refl (t : TaskRows) : Evolves (fun _ => False) t t :=
  ⟨le_refl _, fun r hr => .inl ⟨r, hr, SameTask.refl r⟩, fun r hr => .inr ⟨r, hr, rfl⟩⟩

theorem of_eq (h : t' = t) : Evolves (fun _ => False) t t' := by
  rw [h]
  exact refl t

theorem mono (h : Evolves gone t t') (hgone : ∀ k, gone k → gone' k) : Evolves gone' t t' :=
  ⟨h.next, h.origin, fun r hr => (h.kept r hr).imp (hgone _) id⟩

theorem trans (h : Evolves gone t t') (h' : Evolves gone' t' t'') :
    Evolves (fun k => gone k ∨ gone' k) t t'' where
  next := h.next.trans h'.next
  origin := by
    intro r'' hr''
    rcases h'.origin r'' hr'' with ⟨r', hr', hsame⟩ | ⟨hnext, hfresh⟩
    · rcases h.origin r' hr' with ⟨r, hr, hsame'⟩ | ⟨hnext, hfresh⟩
      · exact .inl ⟨r, hr, hsame'.trans hsame⟩
      · rw [← hsame.id] at hnext
        exact .inr ⟨hnext, hsame.isCompleted.trans hfresh⟩
    · exact .inr ⟨h.next.trans hnext, hfresh⟩
  kept := by
    intro r hr
    rcases h.kept r hr with hgone | ⟨r', hr', hid⟩
    · exact .inl (.inl hgone)
    · rcases h'.kept r' hr' with hgone | hstays
      · exact .inl (.inr (hid ▸ hgone))
      · exact .inr (hid ▸ hstays)

theorem addTask (t : TaskRows) {row : PersonalTask} (hrow : row.isCompleted = false) :
    Evolves (fun _ => False) t (DailyScheduler.addTask t row) where
  next := Nat.le_succ _
  origin := by
    intro r hr
    rcases mem_addTask.1 hr with hr | rfl
    · exact .inl ⟨r, hr, SameTask.refl r⟩
    · exact .inr ⟨le_refl _, hrow⟩
  kept := fun r hr => .inr ⟨r, mem_addTask.2 (.inl hr), rfl⟩

theorem foldl_addTask (rows : List PersonalTask) (t : TaskRows)
    (hrows : ∀ r ∈ rows, r.isCompleted = false) :
    Evolves (fun _ => False) t (rows.foldl DailyScheduler.addTask t) := by
  induction rows generalizing t with
  | nil => exact refl t
  | cons row rows ih =>
      have hfirst := addTask t (hrows row List.mem_cons_self)
      have hrest := ih (DailyScheduler.addTask t row) fun r hr => hrows r (List.mem_cons_of_mem row hr)
      exact (hfirst.trans hrest).mono fun _ h => h.elim id id

theorem update (t : TaskRows) {old row : PersonalTask} (hold : old ∈ t.rows)
    (hsame : SameTask old row) : Evolves (fun _ => False) t (t.update row) where
  next := le_refl _
  origin := by
    intro r hr
    rcases Table.mem_update hr with rfl | hr
    · exact .inl ⟨old, hold, hsame⟩
    · exact .inl ⟨r, hr, SameTask.refl r⟩
  kept := by
    intro r hr
    refine .inr ⟨_, List.mem_map_of_mem hr, ?_⟩
    split
    · rename_i hkey
      exact hkey.symm
    · rfl

/-- Nothing but the deleted rows goes, and nothing comes. -/
theorem deleteTasks (db : Planner) (ids : List Nat) :
    Evolves (· ∈ db.deleted ids) db.personalTasks (db.deleteTasks ids).personalTasks where
  next := le_refl _
  origin := fun r hr => .inl ⟨r, (mem_deleteTasks.1 hr).1, SameTask.refl r⟩
  kept := by
    intro r hr
    by_cases hgone : r.id ∈ db.deleted ids
    · exact .inl hgone
    · exact .inr ⟨r, mem_deleteTasks.2 ⟨hr, hgone⟩, rfl⟩

/-- A row that was there keeps what it keeps. -/
theorem same (h : Evolves gone t t') {r r' : PersonalTask} (hr : r ∈ t.rows) (hr' : r' ∈ t'.rows)
    (hid : r'.id = r.id) : SameTask r r' := by
  rcases h.origin r' hr' with ⟨u, hu, hsame⟩ | ⟨hnext, -⟩
  · have heq : u = r := t.eq_of_key_eq hu hr (hsame.id.symm.trans hid)
    exact heq ▸ hsame
  · have hlt := t.fresh r hr
    omega

theorem stays (h : Evolves gone t t') {r : PersonalTask} (hr : r ∈ t.rows) (hgone : ¬ gone r.id) :
    ∃ r' ∈ t'.rows, SameTask r r' := by
  rcases h.kept r hr with hbad | ⟨r', hr', hid⟩
  · exact absurd hbad hgone
  · exact ⟨r', hr', h.same hr hr' hid⟩

end Evolves

/-! ## What the views do to the tasks -/

/-- The row `id` or a break of it. -/
def OrBreakOf (t : TaskRows) (id k : Nat) : Prop :=
  k = id ∨ ∃ r ∈ t.rows, r.id = k ∧ r.parentTask = some id

/-- A break of the row `id`. -/
def BreakOf (t : TaskRows) (id k : Nat) : Prop := ∃ r ∈ t.rows, r.id = k ∧ r.parentTask = some id

theorem WithBreak.evolves {db : Planner} {t : PersonalTask} {rows : TaskRows}
    (h : WithBreak db t rows) : Evolves (fun _ => False) db.personalTasks rows := by
  rcases h with rfl | ⟨e, -, rfl⟩
  · exact Evolves.refl _
  · exact Evolves.addTask _ rfl

theorem createPersonalTaskView_evolves (env : PlannerEnv) (r : TaskRequest) (db : Planner) :
    Evolves (fun _ => False) db.personalTasks
      ((createPersonalTaskView env r).exec db).personalTasks := by
  rcases createPersonalTaskView_writes env r db with hsame | ⟨f, -, hadd | ⟨-, hbreak⟩⟩
  · exact Evolves.of_eq hsame
  · rw [hadd]
    exact Evolves.addTask _ rfl
  · have hfirst : Evolves (fun _ => False) db.personalTasks (db.createTask f.newTask).personalTasks :=
      Evolves.addTask _ rfl
    exact (hfirst.trans hbreak.evolves).mono fun _ h => h.elim id id

/-- Only the breaks of the task go. -/
theorem dropBreaks_evolves {db : Planner} (h : TaskLinks db.personalTasks db.subTasks) (id : Nat) :
    Evolves (BreakOf db.personalTasks id) db.personalTasks (db.dropBreaks id).personalTasks := by
  have hbreaks : ∀ k ∈ db.breaksOf id, BreakOf db.personalTasks id k := by
    intro k hk
    obtain ⟨r, hr, hrk⟩ := List.mem_map.1 hk
    obtain ⟨hmem, hparent⟩ := List.mem_filter.1 hr
    exact ⟨r, hmem, hrk, of_decide_eq_true hparent⟩
  have hdrop := Evolves.deleteTasks db (db.breaksOf id)
  refine ⟨hdrop.next, hdrop.origin, fun r hr => ?_⟩
  rcases hdrop.kept r hr with hgone | hstays
  · rcases (mem_deleted_iff h hr).1 hgone with hk | ⟨p, hp, hparent⟩
    · exact .inl (hbreaks _ hk)
    · -- a break has no breaks
      obtain ⟨u, hu, rfl, huparent⟩ := hbreaks p hp
      obtain ⟨v, hv, hvid, hvbreak⟩ := (h.placed r hr).parent _ hparent
      have heq : v = u := db.personalTasks.eq_of_key_eq hv hu hvid
      have hplaced := (h.placed u hu).isBreak
      rw [← heq, hvbreak, heq, huparent] at hplaced
      cases hplaced
  · exact .inr hstays

theorem editPersonalTask_evolves (env : PlannerEnv) (id : Nat) (r : TaskRequest) {db : Planner}
    (h : Intact db) : Evolves (BreakOf db.personalTasks id) db.personalTasks
      ((editPersonalTask env id r).exec db).personalTasks := by
  rcases editPersonalTask_writes env id r db with hsame | ⟨t, f, hfind, -, hwrite⟩
  · exact (Evolves.of_eq hsame).mono fun _ => False.elim
  · obtain ⟨ht, hid⟩ := Table.find?_eq_some.1 hfind
    have hsame : SameTask t (f.edited t) := ⟨rfl, rfl, rfl, rfl⟩
    have hedit : Evolves (fun _ => False) db.personalTasks (db.updateTask (f.edited t)).personalTasks :=
      Evolves.update _ ht hsame
    rcases hwrite with hupdate | ⟨-, hbreak⟩
    · rw [hupdate]
      exact hedit.mono fun _ => False.elim
    · have hlinks : Intact (db.updateTask (f.edited t)) := h.updateTask ht rfl rfl rfl
      have hdrop := dropBreaks_evolves hlinks.tasks t.id
      refine ((hedit.trans hdrop).trans hbreak.evolves).mono fun k hk => ?_
      rcases hk with (hk | ⟨r', hr', hrk, hparent⟩) | hk
      · exact hk.elim
      · -- the edited row has the parent it had
        rcases hedit.origin r' hr' with ⟨r, hr, hrr⟩ | ⟨hnext, -⟩
        · exact ⟨r, hr, hrr.id.symm.trans hrk, hid ▸ hrr.parentTask.symm.trans hparent⟩
        · have hlt := (db.personalTasks.update (f.edited t)).fresh r' hr'
          have hnext' : (db.personalTasks.update (f.edited t)).next = db.personalTasks.next := rfl
          omega
      · exact hk.elim

/-! ## Views of subtasks -/

theorem sameTasks_ofExcept {α : Type} (x : Except ViewError α) :
    (View.ofExcept x).Steps SameTasks fun _ => True := by
  cases x <;> trivial

theorem sameTasks_read {α : Type} (g : Planner → α) :
    (Prog.read g : View α).Steps SameTasks fun _ => True :=
  (Prog.Steps.read fun _ => ⟨rfl, rfl⟩).of_true

theorem getTaskOr404_steps (id : Nat) : (getTaskOr404 id).Steps SameTasks fun _ => True := by
  refine Prog.Steps.bind (sameTasks_read _) fun t _ => ?_
  cases t <;> trivial

theorem createSubtaskView_steps (env : DeskEnv) (id : Nat) (body : String) :
    (createSubtaskView env id body).Steps SameTasks fun _ => True := by
  refine Prog.Steps.bind (getTaskOr404_steps id) fun t _ => ?_
  cases env.jsonLoads body with
  | none => trivial
  | some data =>
      refine Prog.Steps.bind (sameTasks_ofExcept _) fun title _ => ?_
      refine Prog.Steps.ite (fun _ => trivial) fun _ => ?_
      refine Prog.Steps.bind (sameTasks_read _) fun order _ => ?_
      exact Prog.Steps.bind (Prog.Steps.command fun _ => ⟨rfl, rfl⟩) fun _ _ => trivial

theorem getSubTaskOr404_steps (id : Nat) : (getSubTaskOr404 id).Steps SameTasks fun _ => True := by
  refine Prog.Steps.bind (sameTasks_read _) fun s _ => ?_
  cases s <;> trivial

theorem toggleSubtaskCompletion_steps (env : DeskEnv) (id : Nat) (body : String) :
    (toggleSubtaskCompletion env id body).Steps SameTasks fun _ => True := by
  refine Prog.Steps.bind (getSubTaskOr404_steps id) fun s _ => ?_
  cases env.jsonLoads body with
  | none => trivial
  | some data =>
      refine Prog.Steps.bind (sameTasks_ofExcept _) fun isCompleted _ => ?_
      cases isCompleted.toBoolean with
      | none => trivial
      | some b =>
          refine Prog.Steps.bind (Prog.Steps.write fun _ => ⟨rfl, rfl⟩) fun _ _ => ?_
          exact Prog.Steps.bind (sameTasks_read _) fun _ _ => trivial

theorem deleteSubtaskView_steps (id : Nat) :
    (deleteSubtaskView id).Steps SameTasks fun _ => True := by
  refine Prog.Steps.bind (getSubTaskOr404_steps id) fun s _ => ?_
  refine Prog.Steps.bind (Prog.Steps.write fun _ => ⟨rfl, rfl⟩) fun _ _ => ?_
  refine Prog.Steps.bind (sameTasks_read _) fun t _ => ?_
  cases t with
  | none => trivial
  | some t => exact Prog.Steps.bind (sameTasks_read _) fun _ _ => trivial

/-! ## One request -/

/-- The rows of tasks that a request may delete. -/
def DbRequest.Removes (t : TaskRows) : DbRequest → Nat → Prop
  | .deletePersonalTask id, k => OrBreakOf t id k
  | .planner (.editPersonalTask id _), k => BreakOf t id k
  | _, _ => False

theorem deletePersonalTaskView_evolves (id : Nat) {db : Planner} (h : Intact db) :
    Evolves (OrBreakOf db.personalTasks id) db.personalTasks
      ((deletePersonalTaskView id).exec db).personalTasks := by
  unfold deletePersonalTaskView
  cases hfind : db.personalTasks.find? id with
  | none =>
      have hsame : ((deletePersonalTaskView id).exec db).personalTasks = db.personalTasks := by
        simp [deletePersonalTaskView, getTaskOr404, Prog.exec, Prog.run_bind, hfind]
      exact (Evolves.of_eq hsame).mono fun _ => False.elim
  | some t =>
      obtain ⟨-, rfl⟩ := Table.find?_eq_some.1 hfind
      rw [exec_getTaskOr404 hfind]
      have hdelete := Evolves.deleteTasks db [t.id]
      refine ⟨hdelete.next, hdelete.origin, fun r hr => (hdelete.kept r hr).imp_left fun hgone => ?_⟩
      rcases (mem_deleted_iff h.tasks hr).1 hgone with hk | ⟨p, hp, hparent⟩
      · exact .inl (List.mem_singleton.1 hk)
      · exact .inr ⟨r, hr, rfl, List.mem_singleton.1 hp ▸ hparent⟩

/-- What a request other than a toggle does to the tasks. -/
theorem Planner.serve_evolves (env : DeskEnv) {db : Planner} (h : Intact db) (q : DbRequest) :
    Evolves (q.Removes db.personalTasks) db.personalTasks (db.serve env q).personalTasks := by
  have honly : ∀ {g : Group}, q.group = some g → g ≠ .tasks →
      Evolves (fun _ => False) db.personalTasks (db.serve env q).personalTasks :=
    fun hq hg => Evolves.of_eq ((Planner.serve_only env db hq).personalTasks hg)
  have hsteps : ∀ {α : Type} {p : View α}, p.Steps SameTasks (fun _ => True) →
      Evolves (fun _ => False) db.personalTasks (p.exec db).personalTasks :=
    fun hp => Evolves.of_eq (exec_of_sameTasks hp db).1
  cases q with
  | planner r =>
      cases r with
      | createPersonalTask r => exact createPersonalTaskView_evolves env.toPlannerEnv r db
      | editPersonalTask id r => exact editPersonalTask_evolves env.toPlannerEnv id r h
      | copyTasksFromYesterday date body =>
          show Evolves _ _ ((copyTasksFromYesterday _ date body).exec db).personalTasks
          rw [copyTasksFromYesterday_writes]
          refine Evolves.foldl_addTask _ _ fun row hrow => ?_
          obtain ⟨c, -, rfl⟩ := List.mem_map.1 hrow
          rfl
      | generateSchedule projectId body =>
          show Evolves _ _ ((generateScheduleView _ projectId body).exec db).personalTasks
          rw [generateScheduleView_writes]
          cases db.projects.find? projectId with
          | none => exact Evolves.refl _
          | some p =>
              refine Evolves.foldl_addTask _ _ fun row hrow => ?_
              obtain ⟨s, -, rfl⟩ := List.mem_map.1 hrow
              rfl
      | autoInsertBreaks id =>
          show Evolves _ _ (db.step env.toPlannerEnv (.autoInsertBreaks id)).personalTasks
          cases hfind : db.personalTasks.find? id with
          | none =>
              rw [db.step_autoInsertBreaks_none env.toPlannerEnv hfind]
              exact Evolves.refl _
          | some t =>
              rw [db.step_autoInsertBreaks env.toPlannerEnv hfind]
              exact (withBreak_autoInsertBreaks t db).evolves
      | clock now => exact Evolves.refl _
  | deletePersonalTask id => exact deletePersonalTaskView_evolves id h
  | createSubtask taskId body => exact hsteps (createSubtaskView_steps env taskId body)
  | toggleSubtask id body => exact hsteps (toggleSubtaskCompletion_steps env id body)
  | deleteSubtask id => exact hsteps (deleteSubtaskView_steps id)
  | createProject | projectDetail | createProjectTask | deleteProjectTask | createSchedule
  | deleteProject => exact honly (g := .projects) rfl (by decide)
  | togglePrayer => exact honly (g := .prayers) rfl (by decide)
  | toggleTask | createPrayer | updatePrayer | deletePrayer => exact Evolves.refl _

/-- A toggle fails and changes nothing, or marks a task and records that. -/
theorem toggleTaskCompletion_cases (env : DeskEnv) (id : Nat) (body : String) (db : PlannerDb) :
    (toggleTaskCompletion env id body).exec db = db ∨
      ∃ t b now label, db.personalTasks.find? id = some t ∧
        (toggleTaskCompletion env id body).exec db
          = (db.saveCompleted t b).createCompletion ⟨0, t.id, b, now, label⟩ := by
  unfold toggleTaskCompletion
  simp only [Prog.exec, Prog.run_bind, Prog.run_read, Prog.Outcome.andThen_ok]
  cases hfind : db.personalTasks.find? id with
  | none => exact .inl rfl
  | some t =>
      cases env.jsonLoads body with
      | none => exact .inl rfl
      | some data =>
          cases hvalue : data.completed with
          | error x =>
              simp only [hvalue]
              exact .inl rfl
          | ok value =>
              cases hb : value.toBoolean with
              | none =>
                  simp only [hvalue, hb]
                  exact .inl rfl
              | some b =>
                  simp only [hvalue, hb]
                  exact .inr ⟨t, b, _, _, rfl, rfl⟩

/-! ## Prayer times -/

/-- A step that is about prayer times only. -/
def PrayerTimesOnly (db db' : PlannerDb) (_ : List PlannerEvent) : Prop :=
  db'.toPlanner = db.toPlanner ∧ db'.taskCompletions = db.taskCompletions

theorem createPrayerView_steps (env : DeskEnv) (r : PrayerRequest) :
    (createPrayerView env r).Steps PrayerTimesOnly fun _ => True := by
  unfold createPrayerView
  split
  · refine Prog.Steps.bind (Prog.Steps.read fun _ => ⟨rfl, rfl⟩) fun exists_ _ => ?_
    refine Prog.Steps.ite (fun _ => trivial) fun _ => ?_
    split
    · exact Prog.Steps.ite (fun _ => Prog.Steps.write fun _ => ⟨rfl, rfl⟩) fun _ => trivial
    · trivial
  · trivial

theorem getPrayerOr404_steps (id : Nat) :
    (getPrayerOr404 id).Steps PrayerTimesOnly fun _ => True := by
  refine Prog.Steps.bind (Prog.Steps.read fun _ => ⟨rfl, rfl⟩) fun p _ => ?_
  cases p <;> trivial

theorem updatePrayerView_steps (env : DeskEnv) (id : Nat) (r : PrayerRequest) :
    (updatePrayerView env id r).Steps PrayerTimesOnly fun _ => True := by
  refine Prog.Steps.bind (getPrayerOr404_steps id) fun p _ => ?_
  split
  · exact Prog.Steps.write fun _ => ⟨rfl, rfl⟩
  · trivial

theorem deletePrayerView_steps (id : Nat) :
    (deletePrayerView id).Steps PrayerTimesOnly fun _ => True :=
  Prog.Steps.bind (getPrayerOr404_steps id) fun _ _ => Prog.Steps.write fun _ => ⟨rfl, rfl⟩

theorem exec_of_prayerTimesOnly {α : Type} {p : DbView α}
    (h : p.Steps PrayerTimesOnly fun _ => True) (db : PlannerDb) :
    (p.exec db).toPlanner = db.toPlanner ∧ (p.exec db).taskCompletions = db.taskCompletions :=
  h.exec (I := fun db' => db'.toPlanner = db.toPlanner ∧ db'.taskCompletions = db.taskCompletions)
    (fun _ _ _ hs hI => ⟨hs.1.trans hI.1, hs.2.trans hI.2⟩) ⟨rfl, rfl⟩

/-- A request changes the prayer times, marks a task, or is one to the tables of `Planner`. -/
theorem PlannerDb.step_cases (env : DeskEnv) (db : PlannerDb) (q : DbRequest) :
    ((db.step env q).toPlanner = db.toPlanner ∧
      (db.step env q).taskCompletions = db.taskCompletions) ∨
    (∃ t b now label, t ∈ db.personalTasks.rows ∧
      db.step env q = (db.saveCompleted t b).createCompletion ⟨0, t.id, b, now, label⟩) ∨
    db.step env q = db.withPlanner (db.serve env q) := by
  cases q with
  | toggleTask id body =>
      rcases toggleTaskCompletion_cases env id body db with hsame | ⟨t, b, now, label, hfind, hdone⟩
      · exact .inl ⟨congrArg PlannerDb.toPlanner hsame, congrArg PlannerDb.taskCompletions hsame⟩
      · exact .inr (.inl ⟨t, b, now, label, (Table.find?_eq_some.1 hfind).1, hdone⟩)
  | createPrayer r => exact .inl (exec_of_prayerTimesOnly (createPrayerView_steps env r) db)
  | updatePrayer id r => exact .inl (exec_of_prayerTimesOnly (updatePrayerView_steps env id r) db)
  | deletePrayer id => exact .inl (exec_of_prayerTimesOnly (deletePrayerView_steps id) db)
  | planner | deletePersonalTask | createSubtask | toggleSubtask | deleteSubtask | createProject
  | projectDetail | createProjectTask | deleteProjectTask | createSchedule | deleteProject
  | togglePrayer => exact .inr (.inr rfl)

/-! ## The records of a task -/

/-- What the last record of a task says; a task without one is not completed. -/
def PlannerDb.lastMark (db : PlannerDb) (task : Nat) : Bool :=
  (((db.taskCompletions.rows.filter fun c => decide (c.task = task)).getLast?).map
    TaskCompletion.isCompleted).getD false

/-- Each task is marked as its last record says. -/
def PlannerDb.Recorded (db : PlannerDb) : Prop :=
  ∀ r ∈ db.personalTasks.rows, r.isCompleted = db.lastMark r.id

namespace PlannerDb

variable {db : PlannerDb}

/-- The records of a task that is still there stay. -/
theorem lastMark_withPlanner {p : Planner} {id : Nat} (hid : HasTask p.personalTasks id) :
    (db.withPlanner p).lastMark id = db.lastMark id := by
  have hrows : ((db.withPlanner p).taskCompletions.rows.filter fun c => decide (c.task = id))
      = db.taskCompletions.rows.filter fun c => decide (c.task = id) := by
    show (db.taskCompletions.rows.filter _).filter _ = _
    rw [List.filter_filter]
    refine List.filter_congr fun c _ => ?_
    by_cases hc : c.task = id
    · have hsome := Intact.hasTask_iff.1 (hc ▸ hid)
      have hnone : (p.personalTasks.find? c.task).isNone = false := by
        rw [← Option.not_isSome, hsome]
        rfl
      simp [hnone]
    · simp [hc]
  unfold lastMark
  rw [hrows]

/-- A task without records. -/
theorem lastMark_of_none {id : Nat} (h : ∀ c ∈ db.taskCompletions.rows, c.task ≠ id) :
    db.lastMark id = false := by
  have hrows : (db.taskCompletions.rows.filter fun c => decide (c.task = id)) = [] :=
    List.filter_eq_nil_iff.2 fun c hc => by simpa using h c hc
  unfold lastMark
  rw [hrows]
  rfl

theorem lastMark_createCompletion (row : TaskCompletion) (id : Nat) :
    (db.createCompletion row).lastMark id = if row.task = id then row.isCompleted else db.lastMark id := by
  unfold lastMark createCompletion Table.insert
  simp only [List.filter_append]
  by_cases hrow : row.task = id
  · simp [hrow]
  · simp [hrow]

theorem recorded_step (env : DeskEnv) (h : db.Intact) (hdb : db.Recorded) (q : DbRequest) :
    (db.step env q).Recorded := by
  have hserve : (db.withPlanner (db.serve env q)).Recorded := by
    have hevolves := Planner.serve_evolves env h.planner q
    intro r' hr'
    have hid : HasTask (db.serve env q).personalTasks r'.id := ⟨r', hr', rfl⟩
    rcases hevolves.origin r' hr' with ⟨r, hr, hsame⟩ | ⟨hnext, hfresh⟩
    · calc r'.isCompleted = r.isCompleted := hsame.isCompleted
        _ = db.lastMark r.id := hdb r hr
        _ = db.lastMark r'.id := by rw [hsame.id]
        _ = (db.withPlanner (db.serve env q)).lastMark r'.id := (lastMark_withPlanner hid).symm
    · rw [lastMark_withPlanner hid, hfresh]
      symm
      apply lastMark_of_none
      intro c hc htask
      -- no record is about an id that was not yet given
      obtain ⟨r, hr, hrid⟩ := h.completions c hc
      have hlt := db.personalTasks.fresh r hr
      omega
  rcases PlannerDb.step_cases env db q with ⟨hplanner, hrecords⟩ | ⟨t, b, now, label, ht, hdone⟩ | hplain
  · unfold Recorded lastMark
    rw [hplanner, hrecords]
    exact hdb
  · rw [hdone]
    intro r hr
    rw [lastMark_createCompletion]
    obtain ⟨u, hu, rfl⟩ := List.mem_map.1 hr
    by_cases hkey : u.id = t.id
    · simp [hkey]
    · simp only [hkey, if_false]
      rw [if_neg (Ne.symm hkey)]
      exact hdb u hu
  · rw [hplain]
    exact hserve

/-- **In every run a task is marked as its last record says.** -/
theorem recorded_along (env : DeskEnv) (now : DateTime) (requests : List DbRequest) :
    Run.Along (PlannerDb.step env) Recorded (PlannerDb.init now) requests := by
  have hboth : Run.Along (PlannerDb.step env) (fun db => db.Intact ∧ db.Recorded)
      (PlannerDb.init now) requests := by
    apply Run.along_of_keeps
    · intro db q h
      exact ⟨PlannerDb.step_intact h.1 env q, recorded_step env h.1 h.2 q⟩
    · refine ⟨Intact.init now, fun r hr => ?_⟩
      cases hr
  exact hboth.mono fun _ h => h.2

/-! ## How long a task is there -/

/-- What a row keeps as long as it is there. -/
structure Stays (r r' : PersonalTask) : Prop where
  id : r'.id = r.id
  isBreak : r'.isBreak = r.isBreak
  parentTask : r'.parentTask = r.parentTask

/-- The ids a later table has are new or had before. -/
theorem step_tasks (env : DeskEnv) (h : db.Intact) (q : DbRequest) :
    db.personalTasks.next ≤ (db.step env q).personalTasks.next ∧
    (∀ r' ∈ (db.step env q).personalTasks.rows,
      HasTask db.personalTasks r'.id ∨ db.personalTasks.next ≤ r'.id) ∧
    ∀ r ∈ db.personalTasks.rows, q.Removes db.personalTasks r.id ∨
      ∃ r' ∈ (db.step env q).personalTasks.rows, Stays r r' := by
  rcases PlannerDb.step_cases env db q with ⟨hplanner, -⟩ | ⟨t, b, now, label, ht, hdone⟩ | hplain
  · rw [hplanner]
    exact ⟨le_refl _, fun r hr => .inl ⟨r, hr, rfl⟩, fun r hr => .inr ⟨r, hr, rfl, rfl, rfl⟩⟩
  · rw [hdone]
    refine ⟨le_refl _, fun r' hr' => ?_, fun r hr => .inr ⟨_, List.mem_map_of_mem hr, ?_⟩⟩
    · rcases Table.mem_update hr' with rfl | hr'
      · exact .inl ⟨t, ht, rfl⟩
      · exact .inl ⟨r', hr', rfl⟩
    · by_cases hkey : r.id = t.id
      · have heq : r = t := db.personalTasks.eq_of_key_eq hr ht hkey
        subst heq
        rw [if_pos rfl]
        exact ⟨rfl, rfl, rfl⟩
      · simp only [hkey, if_false]
        exact ⟨rfl, rfl, rfl⟩
  · rw [hplain]
    have hevolves := Planner.serve_evolves env h.planner q
    refine ⟨hevolves.next, fun r' hr' => ?_, fun r hr => ?_⟩
    · exact (hevolves.origin r' hr').imp (fun ⟨r, hr, hsame⟩ => ⟨r, hr, hsame.id.symm⟩) And.left
    · by_cases hgone : q.Removes db.personalTasks r.id
      · exact .inl hgone
      · obtain ⟨r', hr', hsame⟩ := hevolves.stays hr hgone
        exact .inr ⟨r', hr', hsame.id, hsame.isBreak, hsame.parentTask⟩

end PlannerDb

/-- The request is none that deletes a task with the id and the parent. -/
def DbRequest.Spares (id : Nat) (parentTask : Option Nat) : DbRequest → Prop
  | .deletePersonalTask k => k ≠ id ∧ parentTask ≠ some k
  | .planner (.editPersonalTask k _) => parentTask ≠ some k
  | _ => True

/-- The ids of breaks are told by their parents. -/
theorem DbRequest.Spares.not_removes {t : TaskRows} {r : PersonalTask} (hr : r ∈ t.rows)
    {q : DbRequest} (hq : q.Spares r.id r.parentTask) : ¬ q.Removes t r.id := by
  have hbreak : ∀ k, BreakOf t k r.id → r.parentTask = some k := by
    rintro k ⟨u, hu, hid, hparent⟩
    rw [← t.eq_of_key_eq hu hr hid]
    exact hparent
  unfold DbRequest.Removes
  unfold DbRequest.Spares at hq
  split
  · rintro (hid | hparent)
    · exact hq.1 hid.symm
    · exact hq.2 (hbreak _ hparent)
  · intro hparent
    exact hq (hbreak _ hparent)
  · exact id

namespace PlannerDb

/-- The databases that some requests lead to. -/
def Reachable (env : DeskEnv) (db : PlannerDb) : Prop :=
  ∃ now requests, db = Run.last (step env) (init now) requests

theorem Reachable.intact {env : DeskEnv} {db : PlannerDb} (h : db.Reachable env) : db.Intact := by
  obtain ⟨now, requests, rfl⟩ := h
  exact (intact_along env now requests).last

theorem task_stays (env : DeskEnv) (requests : List DbRequest) {db : PlannerDb} (h : db.Intact)
    {r : PersonalTask} (hr : r ∈ db.personalTasks.rows)
    (hspares : ∀ q ∈ requests, q.Spares r.id r.parentTask) :
    ∃ r' ∈ (Run.last (step env) db requests).personalTasks.rows, Stays r r' := by
  induction requests generalizing db r with
  | nil => exact ⟨r, hr, rfl, rfl, rfl⟩
  | cons q requests ih =>
      obtain ⟨-, -, hkept⟩ := step_tasks env h q
      have hnot := (hspares q List.mem_cons_self).not_removes hr
      rcases hkept r hr with hgone | ⟨r', hr', hstays⟩
      · exact absurd hgone hnot
      · have hrest : ∀ q' ∈ requests, q'.Spares r'.id r'.parentTask := by
          intro q' hq'
          rw [hstays.id, hstays.parentTask]
          exact hspares q' (List.mem_cons_of_mem q hq')
        obtain ⟨r'', hr'', hstays'⟩ := ih (step_intact h env q) hr' hrest
        exact ⟨r'', hr'', hstays'.id.trans hstays.id, hstays'.isBreak.trans hstays.isBreak,
          hstays'.parentTask.trans hstays.parentTask⟩

/-- **A task is there until it is deleted**: it goes when it or its parent is deleted, and as a break
when its parent is edited. -/
theorem task_stays_until_deleted (env : DeskEnv) {db : PlannerDb} (h : db.Reachable env)
    {r : PersonalTask} (hr : r ∈ db.personalTasks.rows) (requests : List DbRequest)
    (hspares : ∀ q ∈ requests, q.Spares r.id r.parentTask) :
    ∃ r' ∈ (Run.last (step env) db requests).personalTasks.rows, Stays r r' :=
  task_stays env requests h.intact hr hspares

/-- An id that was given and is free is never given again. -/
theorem gone_along (env : DeskEnv) (requests : List DbRequest) {db : PlannerDb} (h : db.Intact)
    {id : Nat} (hlt : id < db.personalTasks.next) (hgone : ¬ HasTask db.personalTasks id) :
    ¬ HasTask (Run.last (step env) db requests).personalTasks id := by
  induction requests generalizing db with
  | nil => exact hgone
  | cons q requests ih =>
      obtain ⟨hnext, horigin, -⟩ := step_tasks env h q
      apply ih (step_intact h env q)
      · omega
      · rintro ⟨r, hr, rfl⟩
        rcases horigin r hr with hold | hnew
        · exact hgone hold
        · omega

theorem deleted_at_once (env : DeskEnv) {db : PlannerDb} (id : Nat) :
    ¬ HasTask (db.step env (.deletePersonalTask id)).personalTasks id := by
  show ¬ HasTask ((deletePersonalTaskView id).exec db.toPlanner).personalTasks id
  cases hfind : db.personalTasks.find? id with
  | none =>
      have hsame : (deletePersonalTaskView id).exec db.toPlanner = db.toPlanner := by
        simp [deletePersonalTaskView, getTaskOr404, Prog.exec, Prog.run_bind, hfind]
      rw [hsame, Intact.hasTask_iff, hfind]
      simp
  | some t =>
      obtain ⟨-, rfl⟩ := Table.find?_eq_some.1 hfind
      unfold deletePersonalTaskView
      rw [exec_getTaskOr404 hfind]
      rintro ⟨r, hr, hid⟩
      have hdeleted : t.id ∈ db.deleted [t.id] := by
        have heq : db.deleted [t.id] = Closure.under db.personalTasks.rows PersonalTask.id
          PersonalTask.parentTask [t.id] db.personalTasks.rows.length := withBreaks_eq _ _ _
        rw [heq]
        exact Closure.mem_under_of_mem (List.mem_singleton.2 rfl) _
      exact (mem_deleteTasks.1 hr).2 (hid ▸ hdeleted)

/-- **What is deleted is gone for good**, with its breaks, subtasks and records: no later row has its id
or refers to it. -/
theorem deleted_for_good (env : DeskEnv) {db : PlannerDb} (h : db.Reachable env) {id : Nat}
    (hid : HasTask db.personalTasks id) (requests : List DbRequest) :
    let db' := Run.last (step env) db (.deletePersonalTask id :: requests)
    (∀ r ∈ db'.personalTasks.rows, r.id ≠ id ∧ r.parentTask ≠ some id) ∧
      (∀ s ∈ db'.subTasks.rows, s.personalTask ≠ id) ∧
      ∀ c ∈ db'.taskCompletions.rows, c.task ≠ id := by
  intro db'
  have hlt : id < (db.step env (.deletePersonalTask id)).personalTasks.next := by
    obtain ⟨r, hr, rfl⟩ := hid
    have hfresh := db.personalTasks.fresh r hr
    have hnext := (step_tasks env h.intact (.deletePersonalTask r.id)).1
    omega
  have hgone : ¬ HasTask db'.personalTasks id :=
    gone_along env requests (step_intact h.intact env _) hlt (deleted_at_once env id)
  have halong : Run.Along (step env) Intact db (.deletePersonalTask id :: requests) :=
    Run.along_of_keeps (P := Intact) (fun _ q hdb => step_intact hdb env q) h.intact _
  have hintact : db'.Intact := halong.last
  refine ⟨fun r hr => ⟨fun hr' => hgone ⟨r, hr, hr'⟩, fun hparent => ?_⟩, fun s hs hs' => ?_,
    fun c hc hc' => ?_⟩
  · exact hgone ((hintact.planner.tasks.placed r hr).parent id hparent).hasTask
  · exact hgone (hs' ▸ hintact.planner.tasks.subTasks s hs)
  · exact hgone (hc' ▸ hintact.completions c hc)

end PlannerDb

namespace PlannerSample

/-- `done` marks a task. -/
def desk : DeskEnv where
  toPlannerEnv := { env with
    jsonLoads := fun s => if s = "done" then some (.obj [("is_completed", .bool true)]) else none }
  strptimeDate := fun s => if s = "d" then some today else none
  acceptsName := fun s => decide (s.length ≤ 20)
  strip := id
  parseTime := fun s => if s = "10:00" then some (minutes 600) else none
  acceptsProjectTask := fun _ => true

/-- A request for a task of two hours, which gets a break. -/
def newTask : DbRequest :=
  .planner (.createPersonalTask
    ⟨some ⟨"T", none, today, minutes 600, minutes 720, .secondary⟩, none⟩)

/-- The planner with that task and its break. -/
def oneTask : PlannerDb := Run.last (PlannerDb.step desk) (PlannerDb.init ⟨today, minutes 60⟩) [newTask]

theorem oneTask_reachable : oneTask.Reachable desk := ⟨_, [newTask], rfl⟩

end PlannerSample

namespace PlannerDb

open PlannerSample

/-- A task that is marked stays, with its break. -/
theorem task_stays_when_marked : ∃ r' ∈ (Run.last (step desk) oneTask [.toggleTask 1 "done"]
    ).personalTasks.rows, r'.id = 1 ∧ r'.isBreak = false := by
  have hrow : ∃ r ∈ oneTask.personalTasks.rows, r.id = 1 ∧ r.isBreak = false := by decide +kernel
  obtain ⟨r, hr, hid, hbreak⟩ := hrow
  obtain ⟨r', hr', hstays⟩ := task_stays_until_deleted desk oneTask_reachable hr
    [.toggleTask 1 "done"] (by simp [DbRequest.Spares])
  exact ⟨r', hr', hstays.id.trans hid, hstays.isBreak.trans hbreak⟩

/-- The task is deleted; a new one has another id. -/
theorem deleted_before_new :
    ¬HasTask (Run.last (step desk) oneTask [.deletePersonalTask 1, newTask]).personalTasks 1 := by
  have htask : ∃ r ∈ oneTask.personalTasks.rows, r.id = 1 := by decide +kernel
  obtain ⟨hrows, -, -⟩ := deleted_for_good desk oneTask_reachable htask [newTask]
  rintro ⟨r, hr, hid⟩
  exact (hrows r hr).1 hid

end PlannerDb

end DailyScheduler
