import DailyScheduler.Planner.Writes

set_option autoImplicit false

/-! # Tasks that start before they end

The views' conflict checks rely on `start_time < end_time`. Only the form checks it. The end of a
break and of a session is computed on a clock, and a copy takes its times from the request; so the
order is kept in every run whose requests put no such end at or before its start.
-/

namespace DailyScheduler

open AtomicProg Calendar

/-- The task starts before it ends, by its clock times. -/
def PersonalTask.InOrder (t : PersonalTask) : Prop := t.startTime.micros < t.endTime.micros

instance (t : PersonalTask) : Decidable t.InOrder :=
  inferInstanceAs (Decidable (t.startTime.micros < t.endTime.micros))

/-- Every task starts before it ends. -/
def TasksOrdered (t : TaskRows) : Prop := ∀ r ∈ t.rows, r.InOrder

instance (t : TaskRows) : Decidable (TasksOrdered t) :=
  inferInstanceAs (Decidable (∀ r ∈ t.rows, r.InOrder))

/-! ## The writes -/

section

variable {t : TaskRows}

theorem ordered_addTask (ht : TasksOrdered t) {row : PersonalTask} (h : row.InOrder) :
    TasksOrdered (addTask t row) := by
  intro r hr
  rcases mem_addTask.1 hr with hr | rfl
  · exact ht r hr
  · exact h

theorem ordered_foldl_addTask {l : List PersonalTask} (ht : TasksOrdered t) (hl : ∀ r ∈ l, r.InOrder) :
    TasksOrdered (l.foldl addTask t) := by
  induction l generalizing t with
  | nil => exact ht
  | cons row l ih =>
      exact ih (ordered_addTask ht (hl row List.mem_cons_self))
        fun r hr => hl r (List.mem_cons_of_mem row hr)

theorem ordered_update (ht : TasksOrdered t) {row : PersonalTask} (h : row.InOrder) :
    TasksOrdered (t.update row) := by
  intro r hr
  rcases Table.mem_update hr with rfl | hr
  · exact h
  · exact ht r hr

/-- A break is in order when it ends before midnight. -/
theorem ordered_withBreak {db : Planner} {task : PersonalTask} {rows : TaskRows}
    (hdb : TasksOrdered db.personalTasks) (h : WithBreak db task rows)
    (hbreak : ∀ e, InsertsBreak db task e → task.endTime.micros + breakLength < dayLength) :
    TasksOrdered rows := by
  rcases h with rfl | ⟨e, he, rfl⟩
  · exact hdb
  · refine ordered_addTask hdb ?_
    have hend := he.micros
    have hpos := task.endTime.nonneg
    have hlength : breakLength = 600000000 := rfl
    rw [Int.emod_eq_of_lt (by omega) (hbreak e he)] at hend
    show task.endTime.micros < e.micros
    omega

end

/-! ## One request -/

/-- A request that puts no end at or before its start: the break it inserts ends before midnight, the
times of the tasks it selects are in order after its overrides, and so are the start of a planned
session that meets no stored task and its end on a clock. -/
def KeepsOrder (env : PlannerEnv) (db : Planner) : PlannerRequest → Prop
  | .createPersonalTask r => ∀ f, Accepted db r f → SubtasksRead env r.subtasksJson →
      ∀ e, InsertsBreak (db.createTask f.newTask)
        { f.newTask with id := db.personalTasks.next } e →
      f.endTime.micros + breakLength < dayLength
  | .editPersonalTask id r => ∀ t f, db.personalTasks.find? id = some t → Accepted db r f →
      SubtasksRead env r.subtasksJson →
      ∀ e, InsertsBreak ((db.updateTask (f.edited t)).dropBreaks t.id) (f.edited t) e →
      f.endTime.micros + breakLength < dayLength
  | .copyTasksFromYesterday date body =>
      ∀ c ∈ selectedCopies env db.personalTasks date body, c.startTime.micros < c.endTime.micros
  | .generateSchedule projectId body => ∀ p, db.projects.find? projectId = some p →
      ∀ s ∈ plannedSessions env db p body, db.conflicting s = false →
        s.startTime.micros < (s.startTime.micros + s.length) % dayLength
  | .autoInsertBreaks id => ∀ t, db.personalTasks.find? id = some t →
      ∀ e, InsertsBreak db t e → t.endTime.micros + breakLength < dayLength
  | .clock _ => True

theorem ordered_step (env : PlannerEnv) (db : Planner) (request : PlannerRequest)
    (hdb : TasksOrdered db.personalTasks) (h : KeepsOrder env db request) :
    TasksOrdered (db.step env request).personalTasks := by
  cases request with
  | createPersonalTask r =>
      rcases createPersonalTaskView_writes env r db with hsame | ⟨f, hf, hrows⟩
      · show TasksOrdered ((createPersonalTaskView env r).exec db).personalTasks
        rw [hsame]
        exact hdb
      · have hadd : TasksOrdered (addTask db.personalTasks f.newTask) :=
          ordered_addTask hdb hf.checked.1
        rcases hrows with hrows | ⟨hread, hrows⟩
        · show TasksOrdered ((createPersonalTaskView env r).exec db).personalTasks
          rw [hrows]
          exact hadd
        · exact ordered_withBreak hadd hrows (h f hf hread)
  | editPersonalTask id r =>
      rcases editPersonalTask_writes env id r db with hsame | ⟨t, f, ht, hf, hrows⟩
      · show TasksOrdered ((editPersonalTask env id r).exec db).personalTasks
        rw [hsame]
        exact hdb
      · have hupdate : TasksOrdered (db.personalTasks.update (f.edited t)) :=
          ordered_update hdb hf.checked.1
        rcases hrows with hrows | ⟨hread, hrows⟩
        · show TasksOrdered ((editPersonalTask env id r).exec db).personalTasks
          rw [hrows]
          exact hupdate
        · have hdrop : TasksOrdered ((db.updateTask (f.edited t)).dropBreaks t.id).personalTasks :=
            fun row hrow => hupdate row (Planner.mem_of_mem_dropBreaks hrow)
          exact ordered_withBreak hdrop hrows (h t f ht hf hread)
  | copyTasksFromYesterday date body =>
      show TasksOrdered ((copyTasksFromYesterday env date body).exec db).personalTasks
      rw [copyTasksFromYesterday_writes]
      refine ordered_foldl_addTask hdb fun row hrow => ?_
      obtain ⟨c, hc, rfl⟩ := List.mem_map.1 hrow
      exact h c hc
  | generateSchedule projectId body =>
      show TasksOrdered ((generateScheduleView env projectId body).exec db).personalTasks
      rw [generateScheduleView_writes]
      cases hp : db.projects.find? projectId with
      | none => exact hdb
      | some p =>
          refine ordered_foldl_addTask hdb fun row hrow => ?_
          obtain ⟨s, hs, rfl⟩ := List.mem_map.1 hrow
          have hplanned : s ∈ plannedSessions env db p body := (createdBy_sublist _ _).subset hs
          have horder := h p hp s hplanned (not_conflicting_of_created hs)
          obtain ⟨ids, -, t, -, schedule, -, target, hsession⟩ := mem_plannedSessions hplanned
          rw [← (sessionOn_endTime hsession).2.2] at horder
          exact horder
  | autoInsertBreaks id =>
      cases ht : db.personalTasks.find? id with
      | none =>
          rw [Planner.step_autoInsertBreaks_none env ht]
          exact hdb
      | some t =>
          rw [Planner.step_autoInsertBreaks env ht]
          exact ordered_withBreak hdb (withBreak_autoInsertBreaks t db) (h t ht)
  | clock now => exact hdb

/-! ## Runs -/

/-- **Tasks stay in order.** In a run that starts with tasks in order, whose breaks end before
midnight, whose selected tasks are in order after the overrides, and whose schedules plan no session,
apart from those that meet a stored task, that ends on the clock before it starts, the tasks are in
order all along. -/
theorem tasks_ordered_along (env : PlannerEnv) {db : Planner} {requests : List PlannerRequest}
    (hdb : TasksOrdered db.personalTasks)
    (h : Run.Meets (Planner.step env) (KeepsOrder env) db requests) :
    Run.Along (Planner.step env) (fun db => TasksOrdered db.personalTasks) db requests :=
  Run.along_of_step (fun db request => ordered_step env db request) hdb h

/-- A request to create a task on a day. -/
def taskRequest (date : Date) (start finish : Fin 1440) (category : TaskCategory) : TaskRequest :=
  ⟨some ⟨"T", none, date, PlannerSample.minutes start, PlannerSample.minutes finish, category⟩, none⟩

/-- A task from 22:00 to 23:30, its break and its copy. -/
theorem tasks_ordered_along_evening :
    Run.Along (Planner.step PlannerSample.env) (fun db => TasksOrdered db.personalTasks)
      (Planner.init ⟨PlannerSample.today, PlannerSample.minutes 60⟩)
      [.createPersonalTask (taskRequest PlannerSample.today 1320 1410 .secondary),
        .copyTasksFromYesterday (PlannerSample.later 1) "one"] := by
  have hcopy : ∀ c ∈ selectedCopies PlannerSample.env
      ((Planner.init ⟨PlannerSample.today, PlannerSample.minutes 60⟩).step PlannerSample.env
        (.createPersonalTask (taskRequest PlannerSample.today 1320 1410 .secondary))).personalTasks
      (PlannerSample.later 1) "one", c.startTime.micros < c.endTime.micros := by
    decide +kernel
  refine tasks_ordered_along _ (by decide) ⟨?_, hcopy, trivial⟩
  rintro f ⟨hf, -⟩ - e -
  cases hf
  decide

/-- The break after a task that ends at 23:55 ends before it starts. -/
theorem not_tasks_ordered_midnight :
    ¬ ∀ env db requests, TasksOrdered db.personalTasks →
      Run.Along (Planner.step env) (fun db => TasksOrdered db.personalTasks) db requests := by
  intro h
  have hnight := h PlannerSample.env (Planner.init ⟨PlannerSample.today, PlannerSample.minutes 60⟩)
    [.createPersonalTask (taskRequest PlannerSample.today 1365 1435 .secondary)] (by decide)
  exact absurd (show TasksOrdered _ from hnight.last) (by decide +kernel)

end DailyScheduler
