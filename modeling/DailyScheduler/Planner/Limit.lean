import DailyScheduler.Planner.Writes

set_option autoImplicit false

/-! # Three non-negotiable tasks a day

The form admits a non-negotiable task only to a date with fewer than three of them. Copies and
sessions are created without this check, so the limit holds in every run whose copies and sessions
leave room for it.
-/

namespace DailyScheduler

open AtomicProg Calendar

/-- The task counts towards the limit of a date. -/
def PersonalTask.countsOn (t : PersonalTask) (d : Date) : Bool :=
  decide (t.date = d ∧ t.category = .nonNegotiable)

/-- The number of non-negotiable tasks on a date. -/
def nonNegotiableOn (t : TaskRows) (d : Date) : Nat := t.rows.countP fun r => r.countsOn d

/-- No date has more than three. -/
def WithinLimit (t : TaskRows) : Prop := ∀ d, nonNegotiableOn t d ≤ 3

theorem nonNegotiable_eq (db : Planner) (d : Date) :
    db.nonNegotiable d = nonNegotiableOn db.personalTasks d := rfl

/-! ## The writes -/

theorem nonNegotiableOn_addTask (t : TaskRows) (row : PersonalTask) (d : Date) :
    nonNegotiableOn (addTask t row) d = nonNegotiableOn t d + if row.countsOn d then 1 else 0 := by
  show (t.rows ++ [{ row with id := t.next }]).countP _ = _
  rw [List.countP_append, List.countP_singleton]
  rfl

theorem nonNegotiableOn_foldl_addTask (t : TaskRows) (l : List PersonalTask) (d : Date) :
    nonNegotiableOn (l.foldl addTask t) d
      = nonNegotiableOn t d + l.countP fun r => r.countsOn d := by
  induction l generalizing t with
  | nil => rfl
  | cons row l ih =>
      rw [List.foldl_cons, ih, nonNegotiableOn_addTask, List.countP_cons]
      omega

/-- Among rows with distinct keys a write changes one at most. -/
theorem countP_write_le (row : PersonalTask) (d : Date) {l : List PersonalTask}
    (hl : (l.map PersonalTask.id).Nodup) :
    (l.map fun r => if r.id = row.id then row else r).countP (fun r => r.countsOn d)
      ≤ l.countP (fun r => r.countsOn d) + if row.countsOn d then 1 else 0 := by
  induction l with
  | nil => exact Nat.zero_le _
  | cons r l ih =>
      rw [List.map_cons, List.nodup_cons] at hl
      rw [List.map_cons, List.countP_cons, List.countP_cons]
      by_cases hid : r.id = row.id
      · -- the key of `row` does not come again
        have hrest : (l.map fun r => if r.id = row.id then row else r) = l := by
          conv => rhs; rw [← List.map_id l]
          refine List.map_congr_left fun r' hr' => if_neg fun hkey => hl.1 ?_
          rw [hid, ← hkey]
          exact List.mem_map_of_mem hr'
        rw [if_pos hid, hrest]
        split <;> omega
      · have hle := ih hl.2
        rw [if_neg hid]
        omega

theorem nonNegotiableOn_update_le (t : TaskRows) (row : PersonalTask) (d : Date) :
    nonNegotiableOn (t.update row) d ≤ nonNegotiableOn t d + if row.countsOn d then 1 else 0 :=
  countP_write_le row d t.nodup

theorem nonNegotiableOn_delete_le (t : TaskRows) (p : PersonalTask → Bool) (d : Date) :
    nonNegotiableOn (t.delete p) d ≤ nonNegotiableOn t d :=
  List.filter_sublist.countP_le

/-- Breaks do not count. -/
theorem withinLimit_withBreak {db : Planner} {task : PersonalTask} {rows : TaskRows}
    (hdb : WithinLimit db.personalTasks) (h : WithBreak db task rows) : WithinLimit rows := by
  rcases h with rfl | ⟨e, -, rfl⟩
  · exact hdb
  · intro d
    have hbreak : (breakAfter task e).countsOn d = false := by
      simp [PersonalTask.countsOn, breakAfter]
    have hle := hdb d
    rw [nonNegotiableOn_addTask, hbreak]
    exact hle

/-- A row that the form admits leaves the limit. -/
theorem room_of_accepted {db : Planner} {r : TaskRequest} {f : TaskFields} {row : PersonalTask}
    (hdb : WithinLimit db.personalTasks) (hf : Accepted db r f) (hdate : row.date = f.date)
    (hcategory : row.category = f.category) (d : Date) :
    (nonNegotiableOn db.personalTasks d + if row.countsOn d then 1 else 0) ≤ 3 := by
  have hle := hdb d
  by_cases hcounts : row.countsOn d = true
  · have hboth := of_decide_eq_true hcounts
    have hroom := hf.checked.2 (hcategory ▸ hboth.2)
    rw [nonNegotiable_eq, ← hdate, hboth.1] at hroom
    rw [if_pos hcounts]
    omega
  · rw [if_neg hcounts]
    omega

/-! ## One request -/

/-- A request that leaves room: for the selected tasks that are non-negotiable on the date they are
copied to, and on each date for as many planned sessions as can stand beside the stored tasks and
beside each other. -/
def KeepsLimit (env : PlannerEnv) (db : Planner) : PlannerRequest → Prop
  | .copyTasksFromYesterday date body =>
      db.nonNegotiable date + (selectedCopies env db.personalTasks date body).countP
        (fun c => decide (c.task.category = .nonNegotiable)) ≤ 3
  | .generateSchedule projectId body => ∀ p, db.projects.find? projectId = some p →
      ∀ d, ∀ l : List Session, l.Sublist (plannedSessions env db p body) →
        (∀ s ∈ l, s.date = d ∧ db.conflicting s = false) → l.Pairwise (fun s s' => ¬ s.Meets s') →
        db.nonNegotiable d + l.length ≤ 3
  | _ => True

/-- Copies are dated the day of the request. -/
theorem countP_copies (l : List CopyRequest) (current d : Date) :
    (l.map (CopyRequest.row current)).countP (fun r => r.countsOn d)
      = if current = d then l.countP fun c => decide (c.task.category = .nonNegotiable) else 0 := by
  rw [List.countP_map]
  split
  · rename_i hd
    refine List.countP_congr fun c _ => ?_
    exact decide_eq_true_iff.trans ((and_iff_right hd).trans decide_eq_true_iff.symm)
  · rename_i hd
    rw [List.countP_eq_zero]
    exact fun c _ hc => hd (of_decide_eq_true hc).1

/-- The sessions created on a date are such a choice of planned sessions. -/
theorem length_createdOn_le {env : PlannerEnv} {db : Planner} {projectId : Nat} {p : Project}
    {body : String} (hp : db.projects.find? projectId = some p)
    (h : KeepsLimit env db (.generateSchedule projectId body)) (d : Date) :
    db.nonNegotiable d + (createdBy p ⟨db, [], ⟨0, []⟩⟩ (generatePlan env db p body).1).countP
      (fun s => decide (s.date = d)) ≤ 3 := by
  rw [List.countP_eq_length_filter]
  have hsub := @List.filter_sublist _ (fun s : Session => decide (s.date = d))
    (createdBy p ⟨db, [], ⟨0, []⟩⟩ (generatePlan env db p body).1)
  refine h p hp d _ (hsub.trans (createdBy_sublist _ _)) (fun s hs => ?_)
    ((createdBy_pairwise _ _).sublist hsub)
  obtain ⟨hs, hdate⟩ := List.mem_filter.1 hs
  exact ⟨of_decide_eq_true hdate, not_conflicting_of_created hs⟩

theorem withinLimit_step (env : PlannerEnv) (db : Planner) (request : PlannerRequest)
    (hdb : WithinLimit db.personalTasks) (h : KeepsLimit env db request) :
    WithinLimit (db.step env request).personalTasks := by
  cases request with
  | createPersonalTask r =>
      rcases createPersonalTaskView_writes env r db with hsame | ⟨f, hf, hrows⟩
      · show WithinLimit ((createPersonalTaskView env r).exec db).personalTasks
        rw [hsame]
        exact hdb
      · have hadd : WithinLimit (addTask db.personalTasks f.newTask) := by
          intro d
          rw [nonNegotiableOn_addTask]
          exact room_of_accepted hdb hf rfl rfl d
        rcases hrows with hrows | ⟨-, hrows⟩
        · show WithinLimit ((createPersonalTaskView env r).exec db).personalTasks
          rw [hrows]
          exact hadd
        · exact withinLimit_withBreak hadd hrows
  | editPersonalTask id r =>
      rcases editPersonalTask_writes env id r db with hsame | ⟨t, f, -, hf, hrows⟩
      · show WithinLimit ((editPersonalTask env id r).exec db).personalTasks
        rw [hsame]
        exact hdb
      · have hupdate : WithinLimit (db.personalTasks.update (f.edited t)) := fun d =>
          (nonNegotiableOn_update_le _ _ d).trans (room_of_accepted hdb hf rfl rfl d)
        rcases hrows with hrows | ⟨-, hrows⟩
        · show WithinLimit ((editPersonalTask env id r).exec db).personalTasks
          rw [hrows]
          exact hupdate
        · have hdrop : WithinLimit ((db.updateTask (f.edited t)).dropBreaks t.id).personalTasks :=
            fun d => (nonNegotiableOn_delete_le _ _ d).trans (hupdate d)
          exact withinLimit_withBreak hdrop hrows
  | copyTasksFromYesterday date body =>
      intro d
      show nonNegotiableOn ((copyTasksFromYesterday env date body).exec db).personalTasks d ≤ 3
      rw [copyTasksFromYesterday_writes, nonNegotiableOn_foldl_addTask, countP_copies]
      split
      · rename_i hd
        exact hd ▸ h
      · exact hdb d
  | generateSchedule projectId body =>
      show WithinLimit ((generateScheduleView env projectId body).exec db).personalTasks
      rw [generateScheduleView_writes]
      cases hp : db.projects.find? projectId with
      | none => exact hdb
      | some p =>
          intro d
          have hsessions : (fun r : PersonalTask => r.countsOn d) ∘ Session.row p
              = fun s : Session => decide (s.date = d) := by
            funext s
            exact decide_eq_decide.2 (and_iff_left rfl)
          simp only []
          rw [nonNegotiableOn_foldl_addTask, List.countP_map, hsessions]
          exact length_createdOn_le hp h d
  | autoInsertBreaks id =>
      cases ht : db.personalTasks.find? id with
      | none =>
          rw [Planner.step_autoInsertBreaks_none env ht]
          exact hdb
      | some t =>
          rw [Planner.step_autoInsertBreaks env ht]
          exact withinLimit_withBreak hdb (withBreak_autoInsertBreaks t db)
  | clock now => exact hdb

/-! ## Runs -/

/-- **The limit holds.** In a run that starts within the limit, and whose selected tasks and planned
sessions leave room for it, no date ever has more than three non-negotiable tasks. -/
theorem withinLimit_along (env : PlannerEnv) {db : Planner} {requests : List PlannerRequest}
    (hdb : WithinLimit db.personalTasks)
    (h : Run.Meets (Planner.step env) (KeepsLimit env) db requests) :
    Run.Along (Planner.step env) (fun db => WithinLimit db.personalTasks) db requests :=
  Run.along_of_step (fun db request => withinLimit_step env db request) hdb h

/-- A request to create a non-negotiable task on a day. -/
def nonNegotiableRequest (date : Date) : TaskRequest where
  fields := some ⟨"T", none, date, PlannerSample.minutes 600, PlannerSample.minutes 630,
    .nonNegotiable⟩
  subtasksJson := none

/-- A planner without tasks, at one o'clock. -/
def morningPlanner : Planner := Planner.init ⟨PlannerSample.today, PlannerSample.minutes 60⟩

/-- A non-negotiable task is created and copied once. -/
theorem withinLimit_along_one_copy :
    Run.Along (Planner.step PlannerSample.env) (fun db => WithinLimit db.personalTasks)
      morningPlanner [.createPersonalTask (nonNegotiableRequest PlannerSample.today),
        .copyTasksFromYesterday (PlannerSample.later 1) "one"] := by
  have hroom : KeepsLimit PlannerSample.env (morningPlanner.step PlannerSample.env
      (.createPersonalTask (nonNegotiableRequest PlannerSample.today)))
      (.copyTasksFromYesterday (PlannerSample.later 1) "one") := by
    show (_ : Nat) ≤ 3
    decide +kernel
  exact withinLimit_along _ (fun _ => Nat.zero_le 3) ⟨trivial, hroom, trivial⟩

/-- A non-negotiable task that is copied four times: the fourth copy is one too many. -/
theorem not_withinLimit_copies :
    ¬ ∀ env db requests, WithinLimit db.personalTasks →
      Run.Along (Planner.step env) (fun db => WithinLimit db.personalTasks) db requests := by
  intro h
  have hcopies := h PlannerSample.env morningPlanner
    (.createPersonalTask (nonNegotiableRequest PlannerSample.today) ::
      List.replicate 4 (.copyTasksFromYesterday (PlannerSample.later 1) "one"))
    fun _ => Nat.zero_le 3
  have hlast : WithinLimit _ := hcopies.last
  exact absurd (hlast (PlannerSample.later 1)) (by decide +kernel)

end DailyScheduler
