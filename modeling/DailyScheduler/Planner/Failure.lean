import DailyScheduler.Planner.Plan
import DailyScheduler.Planner.Sample

set_option autoImplicit false

/-! # What a failed request leaves behind

`create_schedule` and `generate_schedule` answer `success: false` to every exception, and neither of
them undoes what was written before it. A request of `create_schedule` writes its row before it
computes the end time for the answer. A request of `generate_schedule` writes session by session and
task by task, so that it leaves the tables alone only if each step before the exception had nothing
to write.
-/

namespace DailyScheduler

open AtomicProg Calendar

/-- The rows of the three tables are the same. -/
def SameRows (db db' : Planner) : Prop :=
  db'.projectSchedules.rows = db.projectSchedules.rows ∧
    db'.projectTasks.rows = db.projectTasks.rows ∧
    db'.personalTasks.rows = db.personalTasks.rows

/-- A request that answers `success: false` leaves the rows as they were. -/
def RowsKept {α : Type} (v : View (Answer α)) (db : Planner) : Prop :=
  ∀ answer, (v.run db).val = .ok answer → answer.failed = true → SameRows db (v.exec db)

/-! ## `create_schedule` -/

/-- The end time of the request's session can be computed on a day. -/
def ScheduleRequest.EndExists (r : ScheduleRequest) (today : Date) : Prop :=
  ∃ d i, timedeltaHours r.durationHours = .ok d ∧ (DateTime.mk today r.startTime).add d = some i

theorem getEndTime_ok_iff (s : ProjectSchedule) (today : Date) :
    (∃ t, s.getEndTime today = .ok t) ↔
      ∃ d i, timedeltaHours s.durationHours = .ok d ∧
        (DateTime.mk today s.startTime).add d = some i := by
  unfold ProjectSchedule.getEndTime
  cases hd : timedeltaHours s.durationHours with
  | error x => simp [bind, Except.bind]
  | ok d =>
      cases hi : (DateTime.mk today s.startTime).add d with
      | none => simp [bind, Except.bind, hi, orOverflow]
      | some i => simp [bind, Except.bind, pure, Except.pure, hi, orOverflow]

/-- The request passes all checks of `create_schedule`, and its row is stored. -/
def RowStored (env : PlannerEnv) (db : Planner) (taskId : Nat) (body : String)
    (r : ScheduleRequest) : Prop :=
  ∃ task data day, db.projectTasks.find? taskId = some task ∧ env.loads body = .ok data ∧
    readDayOfWeek env data = .ok day ∧ db.existingSchedule task day = false ∧
    readSchedule env task data = .ok r ∧ env.acceptsSchedule (scheduleRow task day r) = true

/-- A new row is a change. -/
theorem not_sameRows_createSchedule (db : Planner) (row : ProjectSchedule) :
    ¬ SameRows db (db.createSchedule row) := by
  rintro ⟨hrows, -⟩
  have hlength := congrArg List.length hrows
  simp [Planner.createSchedule, Table.insert] at hlength

/-- The stored row. -/
def storedRow (db : Planner) (task : ProjectTask) (day : Int) (r : ScheduleRequest) :
    ProjectSchedule :=
  { scheduleRow task day r with id := db.projectSchedules.next }

/-- Once the row is stored only the end time can fail. -/
theorem run_createScheduleBody_stored {env : PlannerEnv} {db : Planner} {task : ProjectTask}
    {body : String} {data : Json} {day : Int} {r : ScheduleRequest}
    (hdata : env.loads body = .ok data) (hday : readDayOfWeek env data = .ok day)
    (hnew : db.existingSchedule task day = false) (hr : readSchedule env task data = .ok r)
    (haccept : env.acceptsSchedule (scheduleRow task day r) = true) :
    (createScheduleBody env task body).run db
      = ⟨((storedRow db task day r).getEndTime db.now.date).map
          fun t => .success ⟨db.projectSchedules.next, t⟩,
        db.createSchedule (scheduleRow task day r), []⟩ := by
  have hnow : (db.createSchedule (scheduleRow task day r)).now = db.now := rfl
  simp only [createScheduleBody, hdata, hday, hnew, hr, View.ofExcept, Prog.ret_bind,
    Prog.run_bind, Prog.run_read, Prog.Outcome.andThen_ok, createProjectSchedule, haccept, if_true,
    Bool.false_eq_true, if_false, Prog.run_command, hnow]
  show _ = Prog.Outcome.mk (((storedRow db task day r).getEndTime db.now.date).map _) _ _
  unfold storedRow
  cases ProjectSchedule.getEndTime _ _ <;> rfl

/-- A request whose row is not stored changes nothing. -/
theorem exec_createScheduleBody {env : PlannerEnv} {db : Planner} {task : ProjectTask}
    {body : String} (h : ∀ data day r, env.loads body = .ok data →
      readDayOfWeek env data = .ok day → db.existingSchedule task day = false →
      readSchedule env task data = .ok r → env.acceptsSchedule (scheduleRow task day r) = false) :
    (createScheduleBody env task body).exec db = db := by
  unfold createScheduleBody
  cases hdata : env.loads body with
  | error x => rfl
  | ok data =>
      cases hday : readDayOfWeek env data with
      | error x => simp [View.ofExcept, hday, Prog.exec]
      | ok day =>
          cases hnew : db.existingSchedule task day with
          | true => simp [View.ofExcept, hday, hnew, Prog.exec, Prog.run_bind]
          | false =>
              cases hr : readSchedule env task data with
              | error x => simp [View.ofExcept, hday, hnew, hr, Prog.exec, Prog.run_bind]
              | ok r =>
                  have hreject := h data day r hdata hday hnew hr
                  simp [View.ofExcept, hday, hnew, hr, Prog.exec, Prog.run_bind,
                    createProjectSchedule, hreject]

theorem run_createScheduleView {env : PlannerEnv} {db : Planner} {taskId : Nat}
    {task : ProjectTask} (htask : db.projectTasks.find? taskId = some task) (body : String) :
    (createScheduleView env taskId body).run db
      = ((createScheduleBody env task body).run db).orElse fun x => .ret (.failure x) := by
  unfold createScheduleView
  rw [Prog.run_bind, Prog.run_read, Prog.Outcome.andThen_ok, htask]
  simp only [Prog.run_tryCatch, List.nil_append]
  rfl

/-- `create_schedule` keeps the rows when it fails, exactly if the end of what it stores exists. -/
theorem createSchedule_rowsKept_iff (env : PlannerEnv) (db : Planner) (taskId : Nat)
    (body : String) :
    RowsKept (createScheduleView env taskId body) db ↔
      ∀ r, RowStored env db taskId body r → r.EndExists db.now.date := by
  constructor
  · rintro h r ⟨task, data, day, htask, hdata, hday, hnew, hr, haccept⟩
    have hrun := run_createScheduleBody_stored hdata hday hnew hr haccept
    by_contra hno
    have herror : ∃ x, (storedRow db task day r).getEndTime db.now.date = .error x := by
      cases hend : (storedRow db task day r).getEndTime db.now.date with
      | error x => exact ⟨x, rfl⟩
      | ok t => exact absurd ((getEndTime_ok_iff _ _).1 ⟨t, hend⟩) hno
    obtain ⟨x, hx⟩ := herror
    have hview := @run_createScheduleView env _ _ _ htask body
    rw [hrun, hx] at hview
    have hsame := h (.failure x) (by rw [hview]; rfl) rfl
    rw [Prog.exec, hview] at hsame
    exact not_sameRows_createSchedule db _ hsame
  · intro h answer hanswer hfailed
    cases htask : db.projectTasks.find? taskId with
    | none =>
        unfold createScheduleView at hanswer
        rw [Prog.run_bind, Prog.run_read, Prog.Outcome.andThen_ok, htask] at hanswer
        cases hanswer
    | some task =>
        have hview := @run_createScheduleView env _ _ _ htask body
        by_cases hstored : ∃ data day r, env.loads body = .ok data ∧
            readDayOfWeek env data = .ok day ∧ db.existingSchedule task day = false ∧
            readSchedule env task data = .ok r ∧
            env.acceptsSchedule (scheduleRow task day r) = true
        · -- the row is stored, and then the answer is a success
          obtain ⟨data, day, r, hdata, hday, hnew, hr, haccept⟩ := hstored
          have hend := h r ⟨task, data, day, htask, hdata, hday, hnew, hr, haccept⟩
          obtain ⟨t, ht⟩ := (getEndTime_ok_iff (storedRow db task day r) db.now.date).2 hend
          rw [run_createScheduleBody_stored hdata hday hnew hr haccept, ht] at hview
          rw [hview] at hanswer
          cases hanswer
          cases hfailed
        · have hsame : (createScheduleBody env task body).exec db = db := by
            refine exec_createScheduleBody fun data day r hdata hday hnew hr => ?_
            by_contra haccept
            exact hstored ⟨data, day, r, hdata, hday, hnew, hr, by simpa using haccept⟩
          have hexec : (createScheduleView env taskId body).exec db = db := by
            rw [Prog.exec, hview]
            unfold Prog.exec at hsame
            cases hval : (createScheduleBody env task body).run db with
            | mk val state trace =>
                rw [hval] at hsame
                cases val <;> exact hsame
          rw [hexec]
          exact ⟨rfl, rfl, rfl⟩

/-! ## `generate_schedule` -/

/-- A step that writes nothing: the session meets a conflict, the mark is there already. -/
def GenerateStep.Idle (db : Planner) : GenerateStep → Prop
  | .session s => db.conflicting s = true
  | .mark t => t.scheduledAt db.now = t

instance (db : Planner) (s : GenerateStep) : Decidable (s.Idle db) :=
  match s with
  | .session s => inferInstanceAs (Decidable (db.conflicting s = true))
  | .mark t => inferInstanceAs (Decidable (t.scheduledAt db.now = t))

/-- The marks of a plan are about stored tasks. -/
def Marks (db : Planner) (l : List GenerateStep) : Prop :=
  ∀ t, .mark t ∈ l → t ∈ db.projectTasks.rows

section

variable {p : Project}

theorem perform_now (g : Progress) (s : GenerateStep) : (g.perform p s).db.now = g.db.now := by
  cases s with
  | session s =>
      simp only [Progress.perform]
      split <;> rfl
  | mark t => rfl

/-- No step deletes a personal task. -/
theorem length_le_perform (g : Progress) (s : GenerateStep) :
    g.db.personalTasks.rows.length ≤ (g.perform p s).db.personalTasks.rows.length := by
  cases s with
  | session s =>
      simp only [Progress.perform]
      split
      · exact Nat.le_refl _
      · simp [Planner.createTask, Table.insert]
  | mark t => exact Nat.le_refl _

theorem length_le_foldl (l : List GenerateStep) (g : Progress) :
    g.db.personalTasks.rows.length
      ≤ (l.foldl (Progress.perform p) g).db.personalTasks.rows.length := by
  induction l generalizing g with
  | nil => exact Nat.le_refl _
  | cons s l ih => exact (length_le_perform g s).trans (ih _)

/-- If no personal task was created, every session met a conflict. -/
theorem conflicting_of_length {l : List GenerateStep} {g : Progress}
    (h : (l.foldl (Progress.perform p) g).db.personalTasks.rows.length
      ≤ g.db.personalTasks.rows.length) :
    ∀ s, .session s ∈ l → g.db.conflicting s = true := by
  induction l generalizing g with
  | nil => intro s hs; cases hs
  | cons step l ih =>
      have hgrow := length_le_foldl (p := p) l (g.perform p step)
      cases step with
      | session s' =>
          by_cases hc : g.db.conflicting s' = true
          · have hdb : (g.perform p (.session s')).db = g.db := by
              simp only [Progress.perform, hc, if_true]
            have hrest := ih (g := g.perform p (.session s')) (by rw [hdb]; exact h)
            rw [hdb] at hrest
            intro s hs
            rcases List.mem_cons.1 hs with heq | hs
            · cases heq
              exact hc
            · exact hrest s hs
          · have hcreated : (g.perform p (.session s')).db.personalTasks.rows.length
                = g.db.personalTasks.rows.length + 1 := by
              simp [Progress.perform, hc, Planner.createTask, Table.insert]
            rw [List.foldl_cons] at h
            omega
      | mark t =>
          intro s hs
          rcases List.mem_cons.1 hs with heq | hs
          · cases heq
          · exact ih (g := g.perform p (.mark t)) h s hs

/-- What a step leaves of the row of a task. -/
theorem find?_perform {db : Planner} {g : Progress} {step : GenerateStep} (hl : Marks db [step])
    (hnow : g.db.now = db.now) {t : ProjectTask} (ht : t ∈ db.projectTasks.rows) :
    (g.perform p step).db.projectTasks.find? t.id
      = if step = .mark t then (g.db.projectTasks.find? t.id).map fun _ => t.scheduledAt db.now
        else g.db.projectTasks.find? t.id := by
  cases step with
  | session s =>
      rw [if_neg (by simp)]
      simp only [Progress.perform]
      split <;> rfl
  | mark t' =>
      show (g.db.projectTasks.update (t'.scheduledAt g.db.now)).find? t.id = _
      rw [Table.find?_update, hnow]
      show (if t.id = t'.id then _ else _) = _
      by_cases hid : t.id = t'.id
      · have hrow : t' ∈ db.projectTasks.rows := hl t' List.mem_cons_self
        have hsame : t' = t := db.projectTasks.eq_of_key_eq hrow ht hid.symm
        subst hsame
        simp
      · have hne : ¬ GenerateStep.mark t' = .mark t := by
          intro h
          cases h
          exact hid rfl
        rw [if_neg hid, if_neg hne]

/-- What a plan leaves of the row of a task. -/
theorem find?_foldl {db : Planner} {l : List GenerateStep} (hl : Marks db l) {g : Progress}
    (hnow : g.db.now = db.now) {t : ProjectTask} (ht : t ∈ db.projectTasks.rows) :
    (l.foldl (Progress.perform p) g).db.projectTasks.find? t.id
      = if .mark t ∈ l then (g.db.projectTasks.find? t.id).map fun _ => t.scheduledAt db.now
        else g.db.projectTasks.find? t.id := by
  induction l generalizing g with
  | nil => simp
  | cons step l ih =>
      have hstep := @find?_perform p db g step
        (fun t' ht' => hl t' (List.mem_singleton.1 ht' ▸ List.mem_cons_self)) hnow _ ht
      rw [List.foldl_cons, ih (fun t' ht' => hl t' (List.mem_cons_of_mem _ ht'))
        ((perform_now g step).trans hnow), hstep]
      by_cases hmark : step = .mark t
      · have hin : GenerateStep.mark t ∈ step :: l := hmark ▸ List.mem_cons_self
        rw [if_pos hmark, if_pos hin]
        split
        · rw [Option.map_map]
          rfl
        · rfl
      · have hmem : GenerateStep.mark t ∈ step :: l ↔ .mark t ∈ l := by
          rw [List.mem_cons]
          exact or_iff_right (Ne.symm hmark)
        rw [if_neg hmark]
        simp only [hmem]

/-- Steps that write nothing leave everything as it is. -/
theorem foldl_of_idle {db : Planner} {l : List GenerateStep} (hl : Marks db l)
    (hidle : ∀ s ∈ l, s.Idle db) {g : Progress} (hg : SameRows db g.db) (hnow : g.db.now = db.now) :
    SameRows db (l.foldl (Progress.perform p) g).db := by
  induction l generalizing g with
  | nil => exact hg
  | cons step l ih =>
      refine ih (fun t ht => hl t (List.mem_cons_of_mem _ ht))
        (fun s hs => hidle s (List.mem_cons_of_mem _ hs)) ?_ ((perform_now g step).trans hnow)
      have hstep := hidle step List.mem_cons_self
      cases step with
      | session s =>
          have hc : g.db.conflicting s = true := by
            unfold Planner.conflicting
            rw [hg.2.2]
            exact hstep
          simp only [Progress.perform, hc, if_true]
          exact hg
      | mark t =>
          refine ⟨hg.1, ?_, hg.2.2⟩
          have hrow : t ∈ g.db.projectTasks.rows := by
            rw [hg.2.1]
            exact hl t List.mem_cons_self
          show (g.db.projectTasks.update (t.scheduledAt g.db.now)).rows = _
          rw [hnow, show t.scheduledAt db.now = t from hstep,
            g.db.projectTasks.rows_update_self hrow]
          exact hg.2.1

/-- The rows are left as they were exactly if no step writes anything. -/
theorem sameRows_foldl_iff {db : Planner} {l : List GenerateStep} (hl : Marks db l)
    (acc : Generated) :
    SameRows db (l.foldl (Progress.perform p) ⟨db, [], acc⟩).db ↔ ∀ s ∈ l, s.Idle db := by
  constructor
  · intro h s hs
    cases s with
    | session s =>
        refine conflicting_of_length (p := p) (l := l) (g := ⟨db, [], acc⟩) ?_ s hs
        rw [h.2.2]
    | mark t =>
        have hrow := hl t hs
        have hstored : db.projectTasks.find? t.id = some t := Table.find?_eq_some.2 ⟨hrow, rfl⟩
        have hfinal := find?_foldl (p := p) hl (g := ⟨db, [], acc⟩) rfl hrow
        rw [if_pos hs, Table.find?_congr h.2.1, hstored] at hfinal
        exact (Option.some.inj hfinal).symm
  · intro h
    exact foldl_of_idle hl h ⟨rfl, rfl, rfl⟩ rfl

end

theorem marks_generatePlan (env : PlannerEnv) (db : Planner) (p : Project) (body : String) :
    Marks db (generatePlan env db p body).1 := by
  intro t ht
  obtain ⟨ids, -, hmem⟩ := mem_generatePlan ht
  rw [FromTasks, Planner.tasksOf, List.mem_insertionSort] at hmem
  exact (List.mem_filter.1 hmem).1

/-- `generate_schedule` keeps the rows when it fails, exactly if nothing fails or no step before the
failure writes anything. -/
theorem generateSchedule_rowsKept_iff (env : PlannerEnv) (db : Planner) (projectId : Nat)
    (body : String) :
    RowsKept (generateScheduleView env projectId body) db ↔
      ∀ p, db.projects.find? projectId = some p → (generatePlan env db p body).2 = none ∨
        ∀ s ∈ (generatePlan env db p body).1, s.Idle db := by
  constructor
  · intro h p hp
    have hrun := run_generateScheduleView env hp body
    cases hfail : (generatePlan env db p body).2 with
    | none => exact .inl rfl
    | some x =>
        have hanswer : (generatePlan env db p body).answer (generated env db p body)
            = .failure x := by
          rw [Plan.answer, hfail]
        have hsame := h (.failure x) (by rw [hrun, hanswer]) rfl
        rw [Prog.exec, hrun] at hsame
        exact .inr ((sameRows_foldl_iff (marks_generatePlan env db p body) _).1 hsame)
  · intro h answer hval hfailed
    cases hp : db.projects.find? projectId with
    | none =>
        rw [run_generateScheduleView_none env hp body] at hval
        cases hval
    | some p =>
        have hrun := run_generateScheduleView env hp body
        rw [Prog.exec, hrun]
        rcases h p hp with hnone | hidle
        · rw [hrun, Plan.answer, hnone] at hval
          cases hval
          cases hfailed
        · exact (sameRows_foldl_iff (marks_generatePlan env db p body) _).2 hidle

/-- **What a failed request leaves behind.** When `create_schedule` answers `success: false` the rows
are as before, if and only if the end of the session exists for each request whose row is stored;
when `generate_schedule` does, if and only if its plan does not fail or has nothing to write before
it fails. -/
theorem rowsKept_iff (env : PlannerEnv) (db : Planner) :
    (∀ taskId body, RowsKept (createScheduleView env taskId body) db ↔
      ∀ r, RowStored env db taskId body r → r.EndExists db.now.date) ∧
    (∀ projectId body, RowsKept (generateScheduleView env projectId body) db ↔
      ∀ p, db.projects.find? projectId = some p → (generatePlan env db p body).2 = none ∨
        ∀ s ∈ (generatePlan env db p body).1, s.Idle db) :=
  ⟨createSchedule_rowsKept_iff env db, generateSchedule_rowsKept_iff env db⟩

/-- A planner whose second project task is to be scheduled without end. -/
def endlessPlanner : Planner :=
  PlannerSample.planner PlannerSample.today
    (fun k => { PlannerSample.schedule 1 (PlannerSample.minutes 600) (.finite 1) 1 with id := k })
    (fun k => { PlannerSample.schedule 2 (PlannerSample.minutes 600) (.infinite true) 1 with id := k })
    (fun _ => rfl) fun _ => rfl

/-- A request for endless sessions fails and leaves its schedule behind; a request to generate the
schedule fails at the second task and leaves the session of the first one behind. -/
theorem not_rowsKept :
    (¬ ∀ env db taskId body, RowsKept (createScheduleView env taskId body) db) ∧
    ¬ ∀ env db projectId body, RowsKept (generateScheduleView env projectId body) db := by
  constructor
  · intro h
    have hkept := h PlannerSample.env endlessPlanner 1 "endless" (.failure .overflowError) rfl rfl
    exact absurd hkept.1 (by decide +kernel)
  · intro h
    rcases (generateSchedule_rowsKept_iff _ _ _ _).1 (h PlannerSample.env endlessPlanner 1 "all")
      (PlannerSample.project PlannerSample.today) rfl with hnone | hidle
    · exact absurd hnone (by decide +kernel)
    · exact absurd hidle (by decide +kernel)

end DailyScheduler
