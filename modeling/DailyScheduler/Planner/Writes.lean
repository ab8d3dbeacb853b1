import DailyScheduler.Lib.Run
import DailyScheduler.Lib.Steps
import DailyScheduler.Planner.Plan
import DailyScheduler.Planner.Sample

set_option autoImplicit false

/-! # What the requests write

One lemma for each view that writes personal tasks, about its whole effect on their table: which
rows it adds, changes or deletes. The invariants of the table (`Planner/Ordered.lean`,
`Planner/Limit.lean`) are about runs of requests (`PlannerRequest`) and use the views through these
lemmas only.
-/

namespace DailyScheduler

open AtomicProg Calendar

abbrev TaskRows := Table PersonalTask PersonalTask.id

theorem addedTask_id (row : PersonalTask) (k : Nat) : { row with id := k }.id = k := rfl

/-- The table with a new row. -/
def addTask (t : TaskRows) (row : PersonalTask) : TaskRows :=
  t.insert (fun k => { row with id := k }) (addedTask_id row)

theorem createTask_personalTasks (db : Planner) (row : PersonalTask) :
    (db.createTask row).personalTasks = addTask db.personalTasks row := rfl

theorem mem_addTask {t : TaskRows} {row r : PersonalTask} :
    r ∈ (addTask t row).rows ↔ r ∈ t.rows ∨ r = { row with id := t.next } :=
  Table.mem_insert _ _ _ _

/-! ## Subtasks -/

/-- A step that leaves the personal tasks and the clock alone. -/
def SameTasks (db db' : Planner) (_ : List PlannerEvent) : Prop :=
  db'.personalTasks = db.personalTasks ∧ db'.now = db.now

theorem ofExcept_steps {α : Type} (x : Except ViewError α) :
    (View.ofExcept x).Steps SameTasks fun a => x = .ok a := by
  cases x with
  | ok a => exact rfl
  | error e => trivial

theorem createSubTaskFrom_steps (env : PlannerEnv) (id : Nat) (data : Json) :
    (createSubTaskFrom env id data).Steps SameTasks fun _ => True := by
  refine Prog.Steps.bind (ofExcept_steps _) fun title _ => ?_
  refine Prog.Steps.bind (ofExcept_steps _) fun order _ => ?_
  exact Prog.Steps.write fun db => ⟨rfl, rfl⟩

theorem handleSubtasks_steps (env : PlannerEnv) (id : Nat) (replace : Bool) (s : Option String) :
    (handleSubtasks env id replace s).Steps SameTasks fun _ => True := by
  cases s with
  | none => trivial
  | some s =>
      unfold handleSubtasks
      refine Prog.Steps.ite (fun _ => trivial) fun _ => ?_
      cases env.jsonLoads s with
      | none => trivial
      | some data =>
          have hdrop : (dropSubtasks id replace).Steps SameTasks fun _ => True :=
            Prog.Steps.ite (fun _ => Prog.Steps.write fun db => ⟨rfl, rfl⟩) fun _ => trivial
          refine Prog.Steps.bind hdrop fun _ _ => ?_
          refine Prog.Steps.bind (ofExcept_steps _) fun items _ => ?_
          exact Prog.Steps.forEach fun x _ => createSubTaskFrom_steps env id x

/-- A program of such steps leaves the personal tasks and the clock alone. -/
theorem exec_of_sameTasks {α : Type} {p : View α} {Q : α → Prop} (h : p.Steps SameTasks Q)
    (db : Planner) : (p.exec db).personalTasks = db.personalTasks ∧ (p.exec db).now = db.now :=
  h.exec (I := fun db' => db'.personalTasks = db.personalTasks ∧ db'.now = db.now)
    (fun _ _ _ hs hI => ⟨hs.1.trans hI.1, hs.2.trans hI.2⟩) ⟨rfl, rfl⟩

/-- `subtasks_json` can be handled: it is missing, empty or no JSON, or each element has a title
and an order. -/
def SubtasksRead (env : PlannerEnv) : Option String → Prop
  | none => True
  | some s => s = "" ∨ ∀ data, env.jsonLoads s = some data → ∃ items, data.elements = .ok items ∧
      ∀ x ∈ items, (subTaskTitle env x).isOk ∧ (subTaskOrder env x).isOk

theorem subtask_isOk {env : PlannerEnv} {id : Nat} {x : Json} {db : Planner}
    (h : ((createSubTaskFrom env id x).run db).val = .ok ()) :
    (subTaskTitle env x).isOk ∧ (subTaskOrder env x).isOk := by
  unfold createSubTaskFrom at h
  cases htitle : subTaskTitle env x with
  | error e =>
      rw [htitle] at h
      cases h
  | ok title =>
      cases horder : subTaskOrder env x with
      | error e =>
          rw [htitle, horder] at h
          cases h
      | ok order => exact ⟨rfl, rfl⟩

theorem subtasks_isOk {env : PlannerEnv} {id : Nat} {items : List Json} {db : Planner}
    (h : ((Prog.forEach items fun x => createSubTaskFrom env id x).run db).val = .ok ()) :
    ∀ x ∈ items, (subTaskTitle env x).isOk ∧ (subTaskOrder env x).isOk := by
  induction items generalizing db with
  | nil =>
      intro x hx
      cases hx
  | cons y items ih =>
      unfold Prog.forEach at h
      rw [Prog.run_bind] at h
      rcases hy : (createSubTaskFrom env id y).run db with ⟨v, db₁, es⟩
      rw [hy] at h
      cases v with
      | error e => cases h
      | ok u =>
          intro x hx
          rcases List.mem_cons.1 hx with rfl | hx
          · exact @subtask_isOk env id _ db (by rw [hy])
          · exact ih h x hx

/-- What comes after the subtasks is reached only if they can be handled. -/
theorem subtasksRead_of_run {env : PlannerEnv} {id : Nat} {replace : Bool} {s : Option String}
    {db : Planner} (h : ((handleSubtasks env id replace s).run db).val = .ok ()) :
    SubtasksRead env s := by
  cases s with
  | none => trivial
  | some s =>
      by_cases hs : s = ""
      · exact .inl hs
      · right
        intro data hdata
        simp only [handleSubtasks, hs, if_false, hdata, Prog.run_bind] at h
        have hdrop : ∃ db₁, (dropSubtasks id replace).run db = ⟨.ok (), db₁, []⟩ := by
          cases replace with
          | true => exact ⟨_, rfl⟩
          | false => exact ⟨_, rfl⟩
        obtain ⟨db₁, hdrop⟩ := hdrop
        rw [hdrop, Prog.Outcome.andThen_ok] at h
        cases hitems : data.elements with
        | error e =>
            rw [hitems] at h
            cases h
        | ok items =>
            rw [hitems] at h
            exact ⟨items, rfl, subtasks_isOk h⟩

/-! ## Breaks -/

/-- `auto_insert_breaks` inserts the break of `t` that ends at `e`. -/
def InsertsBreak (db : Planner) (t : PersonalTask) (e : Time) : Prop :=
  t.isBreak = false ∧ hourLength ≤ t.endTime.micros - t.startTime.micros ∧
    (∃ d, (DateTime.mk t.date t.endTime).add breakLength = some ⟨d, e⟩) ∧
    db.existingBreak t = false ∧ db.conflictingTasks t e = false

/-- The table after `auto_insert_breaks`: it is the same or has the break of `t`. -/
def WithBreak (db : Planner) (t : PersonalTask) (rows : TaskRows) : Prop :=
  rows = db.personalTasks ∨
    ∃ e, InsertsBreak db t e ∧ rows = addTask db.personalTasks (breakAfter t e)

theorem InsertsBreak.micros {db : Planner} {t : PersonalTask} {e : Time}
    (h : InsertsBreak db t e) : e.micros = (t.endTime.micros + breakLength) % dayLength := by
  obtain ⟨-, -, ⟨d, hd⟩, -⟩ := h
  exact (DateTime.add_eq_some hd).2

/-- Only the personal tasks matter. -/
theorem WithBreak.congr {db db' : Planner} {t : PersonalTask} {rows : TaskRows}
    (h : WithBreak db t rows) (hdb : db.personalTasks = db'.personalTasks) :
    WithBreak db' t rows := by
  unfold WithBreak InsertsBreak Planner.existingBreak Planner.conflictingTasks at h
  rw [hdb] at h
  exact h

/-- `auto_insert_breaks` inserts the break that it may insert, or nothing. -/
theorem autoInsertBreaks_cases (t : PersonalTask) (db : Planner) :
    (∃ e, InsertsBreak db t e ∧
      (autoInsertBreaks t).exec db = db.createTask (breakAfter t e)) ∨
    ((∀ e, ¬ InsertsBreak db t e) ∧ (autoInsertBreaks t).exec db = db) := by
  unfold autoInsertBreaks
  by_cases hbreak : t.isBreak = true
  · rw [if_pos hbreak]
    refine .inr ⟨fun e he => ?_, rfl⟩
    rw [he.1] at hbreak
    cases hbreak
  · rw [if_neg hbreak]
    by_cases hlong : t.endTime.micros - t.startTime.micros ≥ hourLength
    · rw [if_pos hlong]
      cases hend : (DateTime.mk t.date t.endTime).add breakLength with
      | none =>
          refine .inr ⟨fun e he => ?_, rfl⟩
          obtain ⟨-, -, ⟨d, hd⟩, -⟩ := he
          rw [hend] at hd
          cases hd
      | some breakEnd =>
          simp only [Prog.exec, orOverflow, View.ofExcept, Prog.ret_bind, Prog.run_bind,
            Prog.run_read, Prog.Outcome.andThen_ok]
          split
          · rename_i hexisting
            refine .inr ⟨fun e he => ?_, rfl⟩
            rw [he.2.2.2.1] at hexisting
            cases hexisting
          · rename_i hexisting
            simp only [Prog.run_bind, Prog.run_read, Prog.Outcome.andThen_ok]
            split
            · rename_i hconflicting
              refine .inr ⟨fun e he => ?_, rfl⟩
              obtain ⟨-, -, ⟨d, hd⟩, -, hnone⟩ := he
              rw [hend] at hd
              cases hd
              rw [hnone] at hconflicting
              cases hconflicting
            · rename_i hconflicting
              refine .inl ⟨breakEnd.time, ⟨?_, hlong, ⟨breakEnd.date, hend⟩, ?_, ?_⟩, rfl⟩
              · simpa using hbreak
              · simpa using hexisting
              · simpa using hconflicting
    · rw [if_neg hlong]
      exact .inr ⟨fun e he => hlong he.2.1, rfl⟩

theorem withBreak_autoInsertBreaks (t : PersonalTask) (db : Planner) :
    WithBreak db t ((autoInsertBreaks t).exec db).personalTasks := by
  rcases autoInsertBreaks_cases t db with ⟨e, he, hadd⟩ | ⟨-, hsame⟩
  · exact .inr ⟨e, he, by rw [hadd, createTask_personalTasks]⟩
  · exact .inl (by rw [hsame])

/-! ## Creating and editing -/

/-- The form of the request is valid. -/
def Accepted (db : Planner) (r : TaskRequest) (f : TaskFields) : Prop :=
  r.fields = some f ∧ db.cleanFields f = none

/-- What a valid form has been checked for. -/
theorem Accepted.checked {db : Planner} {r : TaskRequest} {f : TaskFields}
    (h : Accepted db r f) : f.startTime.micros < f.endTime.micros ∧
      (f.category = .nonNegotiable → db.nonNegotiable f.date < 3) := by
  have hclean := h.2
  unfold Planner.cleanFields at hclean
  split at hclean
  · cases hclean
  · rename_i horder
    split at hclean
    · cases hclean
    · split at hclean
      · cases hclean
      · rename_i hcount
        refine ⟨by omega, fun hcategory => ?_⟩
        by_contra hmany
        exact hcount ⟨hcategory, by omega⟩

theorem exec_validForm {α : Type} (db : Planner) (r : TaskRequest) (k : Option TaskFields → View α) :
    (∃ f, Accepted db r f ∧ (validForm r >>= k).exec db = (k (some f)).exec db) ∨
      (validForm r >>= k).exec db = (k none).exec db := by
  cases hfields : r.fields with
  | none =>
      right
      simp [validForm, hfields]
  | some f =>
      cases hclean : db.cleanFields f with
      | none =>
          left
          refine ⟨f, ⟨hfields, hclean⟩, ?_⟩
          simp [validForm, hfields, Prog.exec, Prog.run_bind, hclean]
      | some message =>
          right
          simp [validForm, hfields, Prog.exec, Prog.run_bind, hclean]

theorem exec_getTaskOr404 {α : Type} {db : Planner} {id : Nat} {t : PersonalTask}
    (h : db.personalTasks.find? id = some t) (k : PersonalTask → View α) :
    (getTaskOr404 id >>= k).exec db = (k t).exec db := by
  simp [getTaskOr404, Prog.exec, Prog.run_bind, h]

/-- The subtasks raise, or a break may be inserted. -/
theorem finishCreate_writes (env : PlannerEnv) (t : PersonalTask) (s : Option String)
    (db : Planner) :
    ((finishCreate env t s).exec db).personalTasks = db.personalTasks ∨
      SubtasksRead env s ∧ WithBreak db t ((finishCreate env t s).exec db).personalTasks := by
  obtain ⟨htasks, -⟩ := exec_of_sameTasks (handleSubtasks_steps env t.id false s) db
  unfold finishCreate
  rw [Prog.exec_bind]
  cases hval : ((handleSubtasks env t.id false s).run db).val with
  | error x => exact .inl htasks
  | ok u =>
      exact .inr ⟨subtasksRead_of_run hval, (withBreak_autoInsertBreaks t _).congr htasks⟩

/-- `create_personal_task` adds the task of a valid form, and perhaps a break. -/
theorem createPersonalTaskView_writes (env : PlannerEnv) (r : TaskRequest) (db : Planner) :
    ((createPersonalTaskView env r).exec db).personalTasks = db.personalTasks ∨
      ∃ f, Accepted db r f ∧
        (((createPersonalTaskView env r).exec db).personalTasks
            = addTask db.personalTasks f.newTask ∨
          SubtasksRead env r.subtasksJson ∧
            WithBreak (db.createTask f.newTask) { f.newTask with id := db.personalTasks.next }
              ((createPersonalTaskView env r).exec db).personalTasks) := by
  unfold createPersonalTaskView
  rcases exec_validForm db r _ with ⟨f, hf, hexec⟩ | hexec
  · rw [hexec]
    exact .inr ⟨f, hf, finishCreate_writes env { f.newTask with id := db.personalTasks.next }
      r.subtasksJson (db.createTask f.newTask)⟩
  · rw [hexec]
    exact .inl rfl

namespace Planner

/-- The database without the breaks of a task. -/
def dropBreaks (db : Planner) (id : Nat) : Planner := db.deleteTasks (db.breaksOf id)

theorem withBreaks_congr {db db' : Planner} (h : db.personalTasks = db'.personalTasks)
    (ids : List Nat) (depth : Nat) : db.withBreaks ids depth = db'.withBreaks ids depth := by
  induction depth generalizing ids with
  | zero => rfl
  | succ depth ih =>
      unfold withBreaks
      rw [h, ih]

theorem dropBreaks_congr {db db' : Planner} (h : db.personalTasks = db'.personalTasks) (id : Nat) :
    (db.dropBreaks id).personalTasks = (db'.dropBreaks id).personalTasks := by
  unfold dropBreaks deleteTasks breaksOf
  simp only [withBreaks_congr h, h]

/-- Nothing else than the deletion of rows. -/
theorem mem_of_mem_dropBreaks {db : Planner} {id : Nat} {r : PersonalTask}
    (h : r ∈ (db.dropBreaks id).personalTasks.rows) : r ∈ db.personalTasks.rows :=
  Table.mem_of_mem_delete h

end Planner

/-- After an edit the subtasks raise, or the breaks are deleted and a new one may be inserted. -/
theorem finishEdit_writes (env : PlannerEnv) (t : PersonalTask) (s : Option String)
    (db : Planner) :
    ((finishEdit env t s).exec db).personalTasks = db.personalTasks ∨
      SubtasksRead env s ∧
        WithBreak (db.dropBreaks t.id) t ((finishEdit env t s).exec db).personalTasks := by
  obtain ⟨htasks, -⟩ := exec_of_sameTasks (handleSubtasks_steps env t.id true s) db
  unfold finishEdit
  rw [Prog.exec_bind]
  cases hval : ((handleSubtasks env t.id true s).run db).val with
  | error x => exact .inl htasks
  | ok u =>
      right
      have hbreak := withBreak_autoInsertBreaks t
        (((handleSubtasks env t.id true s).exec db).dropBreaks t.id)
      exact ⟨subtasksRead_of_run hval, hbreak.congr (Planner.dropBreaks_congr htasks t.id)⟩

/-- `edit_personal_task` writes the fields of a valid form to the task; then its breaks may be
deleted and a new one inserted. -/
theorem editPersonalTask_writes (env : PlannerEnv) (id : Nat) (r : TaskRequest) (db : Planner) :
    ((editPersonalTask env id r).exec db).personalTasks = db.personalTasks ∨
      ∃ t f, db.personalTasks.find? id = some t ∧ Accepted db r f ∧
        (((editPersonalTask env id r).exec db).personalTasks
            = db.personalTasks.update (f.edited t) ∨
          SubtasksRead env r.subtasksJson ∧
            WithBreak ((db.updateTask (f.edited t)).dropBreaks t.id) (f.edited t)
              ((editPersonalTask env id r).exec db).personalTasks) := by
  unfold editPersonalTask
  cases hfind : db.personalTasks.find? id with
  | none =>
      left
      simp [getTaskOr404, Prog.exec, Prog.run_bind, hfind]
  | some t =>
      rw [exec_getTaskOr404 hfind]
      rcases exec_validForm db r _ with ⟨f, hf, hexec⟩ | hexec
      · rw [hexec]
        exact .inr ⟨t, f, rfl, hf,
          finishEdit_writes env (f.edited t) r.subtasksJson (db.updateTask (f.edited t))⟩
      · rw [hexec]
        exact .inl rfl

/-! ## Copying -/

/-- The task of an id, if it is dated `day`. -/
def taskOn (t : TaskRows) (day : Date) (id : Nat) : Option PersonalTask :=
  (t.find? id).filter fun r => decide (r.date = day)

/-- A task that a request selects to be copied, and the times of its copy. -/
structure CopyRequest where
  task : PersonalTask
  startTime : Time
  endTime : Time

/-- The row that is created for it. -/
def CopyRequest.row (current : Date) (c : CopyRequest) : PersonalTask :=
  copyOf c.task current c.startTime c.endTime

/-- The stored task of the day before that an id selects, with its overrides. -/
def selectedCopy (env : PlannerEnv) (t : TaskRows) (yesterday : Date) (overrides taskId : Json) :
    Except ViewError CopyRequest := do
  let id ← env.idOf taskId
  match taskOn t yesterday id with
  | none => .error .doesNotExist
  | some original => do
      let override ← overrides.item (env.text taskId)
      let startTime ← overriddenTime env override "start_time" original.startTime
      let endTime ← overriddenTime env override "end_time" original.endTime
      pure ⟨original, startTime, endTime⟩

theorem taskOn_addTask {t : TaskRows} {row : PersonalTask} {day : Date} (h : row.date ≠ day)
    (id : Nat) : taskOn (addTask t row) day id = taskOn t day id := by
  unfold taskOn addTask
  rw [Table.find?_insert]
  cases t.find? id with
  | some r => simp
  | none =>
      simp only [Option.none_or, Option.filter_none]
      split
      · simp [Option.filter, h]
      · rfl

theorem exec_ofExcept {α β : Type} (x : Except ViewError β) (k : β → View α) (db : Planner) :
    (View.ofExcept x >>= k).exec db = match x with
      | .ok a => (k a).exec db
      | .error _ => db := by
  cases x <;> rfl

theorem exec_getForCopy {α : Type} (env : PlannerEnv) (db : Planner) (yesterday : Date)
    (taskId : Json) (k : PersonalTask → View α) :
    (getForCopy env yesterday taskId >>= k).exec db = match env.idOf taskId with
      | .error _ => db
      | .ok id => match taskOn db.personalTasks yesterday id with
        | none => db
        | some t => (k t).exec db := by
  unfold getForCopy taskOn
  rw [Prog.bind_assoc, exec_ofExcept]
  cases env.idOf taskId with
  | error x => rfl
  | ok id =>
      simp only [Prog.exec, Prog.run_bind, Prog.run_read, Prog.Outcome.andThen_ok]
      cases db.personalTasks.find? id with
      | none => rfl
      | some t =>
          by_cases hdate : t.date = yesterday
          · simp [Option.filter, hdate]
          · simp [Option.filter, hdate]

/-- The table after one round of the loop: a copy that can be made is there. -/
def addCopy (current : Date) (t : TaskRows) : Except ViewError CopyRequest → TaskRows
  | .ok c => addTask t (c.row current)
  | .error _ => t

/-- A copy with its subtasks: one row of the table. -/
theorem exec_createCopy (original row : PersonalTask) (db : Planner) :
    ((do
      let task ← createPersonalTask row
      let subtasks ← Prog.read fun db =>
        (db.subTasks.rows.filter fun s => decide (s.personalTask = original.id)).insertionSort
          fun s s' => s.order ≤ s'.order
      Prog.forEach subtasks fun s =>
        Prog.write (·.createSubTask ⟨0, task.id, s.title, false, s.order⟩)
      pure task.id : View Nat).exec db).personalTasks = addTask db.personalTasks row := by
  have hsteps : ∀ (task : PersonalTask) (subtasks : List SubTask),
      ((Prog.forEach subtasks fun s =>
        Prog.write (·.createSubTask ⟨0, task.id, s.title, false, s.order⟩)) >>= fun _ =>
          pure task.id : View Nat).Steps SameTasks fun _ => True := by
    intro task subtasks
    refine Prog.Steps.bind (Prog.Steps.forEach fun s _ => Prog.Steps.write fun db => ⟨rfl, rfl⟩) ?_
    exact fun _ _ => trivial
  exact (exec_of_sameTasks (hsteps { row with id := db.personalTasks.next } _)
    (db.createTask row)).1

theorem exec_copyTask (env : PlannerEnv) (db : Planner) (current yesterday : Date)
    (overrides taskId : Json) :
    ((copyTask env current yesterday overrides taskId).exec db).personalTasks
      = addCopy current db.personalTasks
          (selectedCopy env db.personalTasks yesterday overrides taskId) := by
  unfold copyTask selectedCopy
  rw [exec_getForCopy]
  cases env.idOf taskId with
  | error x => rfl
  | ok id =>
      simp only [bind, Except.bind]
      cases taskOn db.personalTasks yesterday id with
      | none => rfl
      | some original =>
          simp only [← Prog.bind_eq, exec_ofExcept]
          cases overrides.item (env.text taskId) with
          | error x => rfl
          | ok override =>
              simp only []
              cases overriddenTime env override "start_time" original.startTime with
              | error x => rfl
              | ok startTime =>
                  simp only []
                  cases overriddenTime env override "end_time" original.endTime with
                  | error x => rfl
                  | ok endTime =>
                      exact exec_createCopy original (copyOf original current startTime endTime) db

/-- The loop of `copy_tasks_from_yesterday`, as an effect on the table. What it copies it reads from
the date before, where it creates nothing. -/
theorem exec_copyTasks (env : PlannerEnv) {current yesterday : Date} (hdate : current ≠ yesterday)
    (overrides : Json) {t : TaskRows} (items : List Json) (acc : CopyAnswer) (db : Planner)
    (hsame : ∀ id, taskOn db.personalTasks yesterday id = taskOn t yesterday id) :
    ((copyTasks env current yesterday overrides items acc).exec db).personalTasks
      = (items.map (selectedCopy env t yesterday overrides)).foldl (addCopy current)
          db.personalTasks := by
  induction items generalizing acc db with
  | nil => rfl
  | cons taskId items ih =>
      have hselected : selectedCopy env db.personalTasks yesterday overrides taskId
          = selectedCopy env t yesterday overrides taskId := by
        unfold selectedCopy
        simp only [hsame]
      have hcopy := exec_copyTask env db current yesterday overrides taskId
      rw [hselected] at hcopy
      -- the copy is a row of `current`, so the date before reads as in the beginning
      have hstill : ∀ id, taskOn ((copyTask env current yesterday overrides taskId).exec
          db).personalTasks yesterday id = taskOn t yesterday id := by
        intro id
        rw [hcopy]
        cases selectedCopy env t yesterday overrides taskId with
        | error x => exact hsame id
        | ok c => exact (taskOn_addTask hdate id).trans (hsame id)
      unfold copyTasks
      rw [Prog.exec_bind, Prog.exec_attempt, Prog.run_attempt, List.map_cons, List.foldl_cons,
        ← hcopy]
      simp only []
      split
      · exact ih _ _ hstill
      · exact ih _ _ hstill

/-! ## A request to copy -/

/-- The stored tasks that a request selects, with the times that its overrides give them, as far as
these can be read. -/
def selectedCopies (env : PlannerEnv) (t : TaskRows) (current : Date) (body : String) :
    List CopyRequest :=
  match current.addDays (-1), env.jsonLoads body with
  | some yesterday, some data => match readCopyRequest data with
    | .ok (overrides, items) =>
        (items.map (selectedCopy env t yesterday overrides)).filterMap Except.toOption
    | .error _ => []
  | _, _ => []

theorem foldl_addCopy (current : Date) (l : List (Except ViewError CopyRequest)) (t : TaskRows) :
    l.foldl (addCopy current) t
      = ((l.filterMap Except.toOption).map (CopyRequest.row current)).foldl addTask t := by
  induction l generalizing t with
  | nil => rfl
  | cons x l ih =>
      cases x with
      | error e => exact ih t
      | ok c => exact ih (addTask t (c.row current))

/-- `copy_tasks_from_yesterday` adds a copy of each selected task. -/
theorem copyTasksFromYesterday_writes (env : PlannerEnv) (current : Date) (body : String)
    (db : Planner) :
    ((copyTasksFromYesterday env current body).exec db).personalTasks
      = ((selectedCopies env db.personalTasks current body).map (CopyRequest.row current)).foldl
          addTask db.personalTasks := by
  unfold copyTasksFromYesterday selectedCopies
  rw [exec_ofExcept]
  cases hday : current.addDays (-1) with
  | none => rfl
  | some yesterday =>
      have hord := Date.addDays_eq_some.1 hday
      have hdate : current ≠ yesterday := by
        rintro rfl
        omega
      simp only [orOverflow]
      cases env.jsonLoads body with
      | none => rfl
      | some data =>
          simp only [exec_ofExcept]
          cases readCopyRequest data with
          | error x => rfl
          | ok request =>
              obtain ⟨overrides, items⟩ := request
              have hloop := exec_copyTasks env hdate overrides items ⟨[], []⟩ db fun _ => rfl
              simp only []
              rw [← foldl_addCopy, ← hloop]
              refine congrArg Planner.personalTasks (Prog.exec_bind_of_silent ?_)
              exact fun _ _ => rfl

/-! ## Generating -/

/-- The sessions of a plan that the loops create: those that meet no conflict when they are
reached. -/
def createdBy (p : Project) : Progress → List GenerateStep → List Session
  | _, [] => []
  | g, .session s :: l =>
      if g.db.conflicting s then createdBy p (g.perform p (.session s)) l
      else s :: createdBy p (g.perform p (.session s)) l
  | g, .mark t :: l => createdBy p (g.perform p (.mark t)) l

theorem foldl_perform_personalTasks (p : Project) (l : List GenerateStep) (g : Progress) :
    (l.foldl (Progress.perform p) g).db.personalTasks
      = ((createdBy p g l).map (Session.row p)).foldl addTask g.db.personalTasks := by
  induction l generalizing g with
  | nil => rfl
  | cons step l ih =>
      rw [List.foldl_cons, ih]
      cases step with
      | mark t => rfl
      | session s =>
          cases hconflict : g.db.conflicting s with
          | true =>
              simp only [createdBy, Progress.perform, hconflict, if_true]
          | false =>
              simp only [createdBy, Progress.perform, hconflict, Bool.false_eq_true, if_false,
                List.map_cons, List.foldl_cons]
              rfl

/-- The session of a step. -/
def GenerateStep.session? : GenerateStep → Option Session
  | .session s => some s
  | .mark _ => none

/-- The sessions that the schedules of the selected tasks give, in the order of the loops. -/
def plannedSessions (env : PlannerEnv) (db : Planner) (p : Project) (body : String) : List Session :=
  (generatePlan env db p body).1.filterMap GenerateStep.session?

/-- The query for the second session finds the task of the first. -/
def Session.Meets (s s' : Session) : Prop :=
  s.date = s'.date ∧ s.startTime.micros < s'.endTime.micros ∧ s'.startTime.micros < s.endTime.micros

instance (s s' : Session) : Decidable (s.Meets s') :=
  inferInstanceAs (Decidable (s.date = s'.date ∧ s.startTime.micros < s'.endTime.micros ∧
    s'.startTime.micros < s.endTime.micros))

/-- A planned session is that of an active schedule of a selected task, on some date. -/
theorem mem_plannedSessions {env : PlannerEnv} {db : Planner} {p : Project} {body : String}
    {s : Session} (h : s ∈ plannedSessions env db p body) :
    ∃ ids, readTaskIds env body = .ok ids ∧ ∃ t ∈ db.tasksOf p ids,
      ∃ schedule ∈ db.schedulesOf t, ∃ target, sessionOn t schedule target = .ok s := by
  obtain ⟨step, hstep, hs⟩ := List.mem_filterMap.1 h
  obtain ⟨ids, hids, hfrom⟩ := mem_generatePlan hstep
  cases step with
  | mark t => cases hs
  | session s' =>
      cases hs
      exact ⟨ids, hids, hfrom⟩

/-- More tasks, more conflicts. -/
theorem Planner.conflicting_mono {db db' : Planner} {s : Session}
    (hrows : ∀ t ∈ db.personalTasks.rows, t ∈ db'.personalTasks.rows)
    (h : db.conflicting s = true) : db'.conflicting s = true := by
  obtain ⟨t, ht, hmeets⟩ := List.any_eq_true.1 h
  exact List.any_eq_true.2 ⟨t, hrows t ht, hmeets⟩

section

variable {p : Project}

theorem Progress.rows_perform (g : Progress) (step : GenerateStep) :
    ∀ t ∈ g.db.personalTasks.rows, t ∈ (g.perform p step).db.personalTasks.rows := by
  intro t ht
  cases step with
  | mark t => exact ht
  | session s =>
      simp only [Progress.perform]
      split
      · exact ht
      · exact mem_addTask.2 (.inl ht)

/-- After a session without conflict its task is found. -/
theorem Progress.conflicting_perform {g : Progress} {s s' : Session}
    (hs : g.db.conflicting s = false) (hmeets : s.Meets s') :
    (g.perform p (.session s)).db.conflicting s' = true := by
  simp only [Progress.perform, hs, Bool.false_eq_true, if_false]
  refine List.any_eq_true.2 ⟨_, mem_addTask.2 (.inr rfl), decide_eq_true ?_⟩
  exact ⟨hmeets.1, hmeets.2.1, hmeets.2.2, rfl⟩

/-- What is created is planned, in the same order. -/
theorem createdBy_sublist (g : Progress) (l : List GenerateStep) :
    (createdBy p g l).Sublist (l.filterMap GenerateStep.session?) := by
  induction l generalizing g with
  | nil => exact .slnil
  | cons step l ih =>
      cases step with
      | mark t => exact ih _
      | session s =>
          unfold createdBy
          split
          · exact (ih _).cons s
          · exact (ih _).cons_cons s

/-- A session that is created met no conflict in the beginning. -/
theorem not_conflicting_of_created {g : Progress} {l : List GenerateStep} {s : Session}
    (h : s ∈ createdBy p g l) : g.db.conflicting s = false := by
  induction l generalizing g with
  | nil => cases h
  | cons step l ih =>
      -- a later step creates `s` only without a conflict, and rows are only added until then
      have hrest : s ∈ createdBy p (g.perform p step) l → g.db.conflicting s = false := by
        intro hs
        by_contra hconflict
        have hlater := Planner.conflicting_mono (g.rows_perform (p := p) step)
          (Bool.of_not_eq_false hconflict)
        rw [ih hs] at hlater
        cases hlater
      cases step with
      | mark t => exact hrest h
      | session s' =>
          unfold createdBy at h
          split at h
          · exact hrest h
          · rename_i hfree
            rcases List.mem_cons.1 h with rfl | h
            · exact Bool.of_not_eq_true hfree
            · exact hrest h

/-- The query for a session that is created finds none of those created before. -/
theorem createdBy_pairwise (g : Progress) (l : List GenerateStep) :
    (createdBy p g l).Pairwise fun s s' => ¬ s.Meets s' := by
  induction l generalizing g with
  | nil => exact .nil
  | cons step l ih =>
      cases step with
      | mark t => exact ih _
      | session s =>
          unfold createdBy
          split
          · exact ih _
          · rename_i hfree
            refine .cons (fun s' hs' hmeets => ?_) (ih _)
            -- the row of `s` is there when the query for `s'` is made
            have hfound := Progress.conflicting_perform (p := p) (Bool.of_not_eq_true hfree) hmeets
            rw [not_conflicting_of_created hs'] at hfound
            cases hfound

end

/-- `generate_schedule` adds the rows of the sessions it creates. -/
theorem generateScheduleView_writes (env : PlannerEnv) (projectId : Nat) (body : String)
    (db : Planner) :
    ((generateScheduleView env projectId body).exec db).personalTasks
      = match db.projects.find? projectId with
        | none => db.personalTasks
        | some p => ((createdBy p ⟨db, [], ⟨0, []⟩⟩ (generatePlan env db p body).1).map
            (Session.row p)).foldl addTask db.personalTasks := by
  cases hp : db.projects.find? projectId with
  | none =>
      rw [Prog.exec, run_generateScheduleView_none env hp]
  | some p =>
      rw [Prog.exec, run_generateScheduleView env hp]
      exact foldl_perform_personalTasks p _ _

/-! ## Runs -/

/-- A request to the planner, or the clock. -/
inductive PlannerRequest where
  | createPersonalTask (r : TaskRequest)
  | editPersonalTask (id : Nat) (r : TaskRequest)
  | copyTasksFromYesterday (date : Date) (body : String)
  | generateSchedule (projectId : Nat) (body : String)
  /-- `auto_insert_breaks` of a stored task. -/
  | autoInsertBreaks (id : Nat)
  | clock (now : DateTime)

/-- The database after a request. -/
def Planner.step (env : PlannerEnv) (db : Planner) : PlannerRequest → Planner
  | .createPersonalTask r => (createPersonalTaskView env r).exec db
  | .editPersonalTask id r => (DailyScheduler.editPersonalTask env id r).exec db
  | .copyTasksFromYesterday date body => (DailyScheduler.copyTasksFromYesterday env date body).exec db
  | .generateSchedule projectId body => (generateScheduleView env projectId body).exec db
  | .autoInsertBreaks id => match db.personalTasks.find? id with
      | some t => (DailyScheduler.autoInsertBreaks t).exec db
      | none => db
  | .clock now => { db with now := now }

theorem Planner.step_autoInsertBreaks_none (env : PlannerEnv) {db : Planner} {id : Nat}
    (h : db.personalTasks.find? id = none) : db.step env (.autoInsertBreaks id) = db := by
  unfold Planner.step
  dsimp only
  rw [h]

theorem Planner.step_autoInsertBreaks (env : PlannerEnv) {db : Planner} {id : Nat} {t : PersonalTask}
    (h : db.personalTasks.find? id = some t) :
    db.step env (.autoInsertBreaks id) = (DailyScheduler.autoInsertBreaks t).exec db := by
  unfold Planner.step
  dsimp only
  rw [h]

end DailyScheduler
