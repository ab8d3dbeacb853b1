import DailyScheduler.Planner.Limit

set_option autoImplicit false

/-! # The subtasks of an edited task

`edit_personal_task` deletes the subtasks of the task as soon as `subtasks_json` is JSON, whatever
it is, and then creates the new ones one after the other. Only a text that is not JSON is caught.
-/

namespace DailyScheduler

open AtomicProg Calendar

namespace EditSubtasks

/-- The title and the order that an element of the list has. -/
def fieldsOf (env : PlannerEnv) (x : Json) : Except ViewError (String × Nat) := do
  let title ← subTaskTitle env x
  let order ← subTaskOrder env x
  pure (title, order)

/-- The value of `subtasks_json`, unless it is missing, empty or not JSON. -/
def payload (env : PlannerEnv) : Option String → Option Json
  | none => none
  | some s => if s = "" then none else env.jsonLoads s

/-- The titles and orders of a list in which every element has them. -/
def allFields (env : PlannerEnv) : List Json → Option (List (String × Nat))
  | [] => some []
  | x :: l => match fieldsOf env x with
      | .ok p => (allFields env l).map (p :: ·)
      | .error _ => none

/-- What is submitted: a JSON list whose elements all have a title and an order. -/
def submitted (env : PlannerEnv) (s : Option String) : Option (List (String × Nat)) :=
  match payload env s with
  | some (.arr items) => allFields env items
  | _ => none

/-- The rows of the subtasks of a task. -/
def subtasksOf (db : Planner) (id : Nat) : List SubTask :=
  db.subTasks.rows.filter fun r => decide (r.personalTask = id)

/-- A new subtask for each title and order. -/
def IsNewList (rows : List SubTask) (l : List (String × Nat)) : Prop :=
  rows.map (fun r => (r.title, r.order)) = l ∧ ∀ r ∈ rows, r.isCompleted = false

/-- The edit replaces the subtasks by what is submitted, or leaves them as they are when nothing
that can be used is. -/
def ReplacesOrKeeps (env : PlannerEnv) (db : Planner) (id : Nat) (r : TaskRequest) : Prop :=
  match submitted env r.subtasksJson with
  | some l => IsNewList (subtasksOf ((editPersonalTask env id r).exec db) id) l
  | none => subtasksOf ((editPersonalTask env id r).exec db) id = subtasksOf db id

/-- The task is a break of one of its own breaks: deleting these deletes the task. -/
def UnderItself (db : Planner) (id : Nat) : Prop :=
  id ∈ db.withBreaks (db.breaksOf id) db.personalTasks.rows.length

instance (db : Planner) (id : Nat) : Decidable (UnderItself db id) :=
  inferInstanceAs (Decidable (_ ∈ _))

/-- No subtask is lost: the text is not JSON, or a list in which every element can be used; or there
was no subtask, and no element before the first that cannot be used. A task under its own breaks has
no subtasks afterwards. -/
def Harmless (env : PlannerEnv) (db : Planner) (t : PersonalTask) (f : TaskFields)
    (s : Option String) : Prop :=
  match payload env s with
  | none => UnderItself (db.updateTask (f.edited t)) t.id → subtasksOf db t.id = []
  | some (.arr items) =>
      (allFields env items).isSome ∧
          (UnderItself (db.updateTask (f.edited t)) t.id → items = []) ∨
        subtasksOf db t.id = [] ∧ ∃ x, items.head? = some x ∧ ¬ (fieldsOf env x).isOk
  | some _ => subtasksOf db t.id = []

section Proofs

variable {env : PlannerEnv} {db : Planner} {id : Nat}

/-! ## The loop -/

/-- The titles and orders before the first element without them. -/
def usable (env : PlannerEnv) : List Json → List (String × Nat)
  | [] => []
  | x :: l => match fieldsOf env x with
      | .ok p => p :: usable env l
      | .error _ => []

/-- `SubTask.objects.create`. -/
def addSubtask (id : Nat) (db : Planner) (p : String × Nat) : Planner :=
  db.createSubTask ⟨0, id, p.1, false, p.2⟩

theorem run_createSubTaskFrom (x : Json) (db : Planner) :
    (createSubTaskFrom env id x).run db = match fieldsOf env x with
      | .ok p => ⟨.ok (), addSubtask id db p, []⟩
      | .error e => ⟨.error e, db, []⟩ := by
  unfold createSubTaskFrom fieldsOf
  cases subTaskTitle env x with
  | error e => rfl
  | ok title =>
      cases subTaskOrder env x with
      | error e => rfl
      | ok order => rfl

/-- The loop creates a subtask for each usable element and raises at the first other one. -/
theorem run_loop (items : List Json) (db : Planner) :
    (Prog.forEach items fun x => createSubTaskFrom env id x).exec db
        = (usable env items).foldl (addSubtask id) db ∧
      (((Prog.forEach items fun x => createSubTaskFrom env id x).run db).val = .ok () ↔
        (allFields env items).isSome = true) := by
  induction items generalizing db with
  | nil => exact ⟨rfl, iff_of_true rfl rfl⟩
  | cons x l ih =>
      have hrun := @run_createSubTaskFrom env id x db
      unfold Prog.forEach usable allFields
      unfold Prog.exec
      rw [Prog.run_bind, hrun]
      cases fieldsOf env x with
      | error e => exact ⟨rfl, iff_of_false (fun h => by cases h) (fun h => by cases h)⟩
      | ok p =>
          obtain ⟨hexec, hval⟩ := ih (addSubtask id db p)
          refine ⟨hexec, hval.trans ?_⟩
          rw [Option.isSome_map]

theorem usable_of_allFields {items : List Json} {l : List (String × Nat)}
    (h : allFields env items = some l) : usable env items = l := by
  induction items generalizing l with
  | nil => exact Option.some_inj.1 h
  | cons x items ih =>
      unfold allFields at h
      unfold usable
      cases hx : fieldsOf env x with
      | error e =>
          rw [hx] at h
          cases h
      | ok p =>
          rw [hx] at h
          obtain ⟨l', hl', rfl⟩ := Option.map_eq_some_iff.1 h
          rw [ih hl']

theorem usable_eq_nil_iff (items : List Json) : usable env items = [] ↔
    items = [] ∨ ∃ x, items.head? = some x ∧ ¬ (fieldsOf env x).isOk := by
  cases items with
  | nil => simp [usable]
  | cons x l =>
      unfold usable
      cases hx : fieldsOf env x with
      | error e => simp [hx, Except.isOk, Except.toBool]
      | ok p => simp [hx, Except.isOk, Except.toBool]

/-- A text has no fields. -/
theorem usable_texts {items : List Json} (h : ∀ x ∈ items, ∃ s, x = .str s) :
    usable env items = [] := by
  cases items with
  | nil => rfl
  | cons x l =>
      obtain ⟨s, rfl⟩ := h x List.mem_cons_self
      rfl

theorem texts_of_elements {data : Json} {items : List Json} (h : data.elements = .ok items)
    (hdata : ∀ l, data ≠ .arr l) : ∀ x ∈ items, ∃ s, x = .str s := by
  intro x hx
  cases data with
  | arr l => exact absurd rfl (hdata l)
  | obj d =>
      cases h
      obtain ⟨p, -, rfl⟩ := List.mem_map.1 hx
      exact ⟨p.1, rfl⟩
  | str s =>
      cases h
      obtain ⟨c, -, rfl⟩ := List.mem_map.1 hx
      exact ⟨c.toString, rfl⟩
  | null => cases h
  | bool b => cases h
  | int n => cases h
  | float q => cases h

/-! ## The table of subtasks -/

theorem subtasksOf_addSubtask (p : String × Nat) (db : Planner) :
    subtasksOf (addSubtask id db p) id
      = subtasksOf db id ++ [⟨db.subTasks.next, id, p.1, false, p.2⟩] := by
  show (db.subTasks.rows ++ [_]).filter _ = _
  rw [List.filter_append]
  congr 1
  simp

/-- The new subtasks stand behind the old ones. -/
theorem subtasksOf_foldl (l : List (String × Nat)) (db : Planner) :
    ∃ rows, subtasksOf (l.foldl (addSubtask id) db) id = subtasksOf db id ++ rows ∧
      IsNewList rows l := by
  induction l generalizing db with
  | nil => exact ⟨[], (List.append_nil _).symm, rfl, fun r hr => by cases hr⟩
  | cons p l ih =>
      obtain ⟨rows, hrows, hmap, hnew⟩ := ih (addSubtask id db p)
      refine ⟨⟨db.subTasks.next, id, p.1, false, p.2⟩ :: rows, ?_, ?_, ?_⟩
      · rw [List.foldl_cons, hrows, subtasksOf_addSubtask, List.append_assoc]
        rfl
      · rw [List.map_cons, hmap]
      · intro r hr
        rcases List.mem_cons.1 hr with rfl | hr
        · rfl
        · exact hnew r hr

/-- The planner without the subtasks of a task. -/
def dropped (db : Planner) (id : Nat) : Planner :=
  { db with subTasks := db.subTasks.delete fun r => decide (r.personalTask = id) }

theorem subtasksOf_dropped (db : Planner) : subtasksOf (dropped db id) id = [] := by
  refine List.filter_eq_nil_iff.2 fun r hr => ?_
  have hkept := (List.mem_filter.1 hr).2
  simpa using hkept

/-- New rows are none of the old ones. -/
theorem mem_subtasksOf_foldl (l : List (String × Nat)) (db : Planner) :
    ∀ r ∈ subtasksOf (l.foldl (addSubtask id) db) id,
      r ∈ subtasksOf db id ∨ db.subTasks.next ≤ r.id := by
  induction l generalizing db with
  | nil => exact fun r hr => .inl hr
  | cons p l ih =>
      intro r hr
      rcases ih (addSubtask id db p) r hr with hold | hnew
      · rw [subtasksOf_addSubtask, List.mem_append, List.mem_singleton] at hold
        rcases hold with hold | rfl
        · exact .inl hold
        · exact .inr le_rfl
      · right
        exact (Nat.le_succ _).trans hnew

/-- What is not JSON is passed over; otherwise the old subtasks go first. -/
theorem handleSubtasks_eq (s : Option String) :
    handleSubtasks env id true s = (match payload env s with
      | none => pure ()
      | some data => do
          dropSubtasks id true
          let items ← View.ofExcept data.elements
          Prog.forEach items fun x => createSubTaskFrom env id x) := by
  cases s with
  | none => rfl
  | some s =>
      unfold handleSubtasks payload
      dsimp only
      by_cases hs : s = ""
      · simp only [hs, if_true]
      · cases env.jsonLoads s <;> simp only [hs, if_false]

/-- What the handling of a list leaves, and whether it returns. -/
theorem handled_list {s : Option String} {items : List Json}
    (h : payload env s = some (.arr items)) :
    IsNewList (subtasksOf ((handleSubtasks env id true s).exec db) id) (usable env items) ∧
      (∀ r ∈ subtasksOf ((handleSubtasks env id true s).exec db) id, db.subTasks.next ≤ r.id) ∧
      (((handleSubtasks env id true s).run db).val = .ok () ↔
        (allFields env items).isSome = true) := by
  have hrun : (handleSubtasks env id true s).run db
      = (Prog.forEach items fun x => createSubTaskFrom env id x).run (dropped db id) := by
    rw [handleSubtasks_eq, h]
    rfl
  obtain ⟨hexec, hval⟩ := @run_loop env id items (dropped db id)
  obtain ⟨rows, hrows, hnew⟩ := @subtasksOf_foldl id (usable env items) (dropped db id)
  rw [subtasksOf_dropped, List.nil_append] at hrows
  have hfresh := @mem_subtasksOf_foldl id (usable env items) (dropped db id)
  rw [subtasksOf_dropped] at hfresh
  unfold Prog.exec at hexec ⊢
  rw [hrun, hexec]
  refine ⟨hrows ▸ hnew, fun r hr => ?_, hval⟩
  exact (hfresh r hr).resolve_left List.not_mem_nil

/-- Another value leaves nothing. -/
theorem handled_other {s : Option String} {data : Json} (h : payload env s = some data)
    (hdata : ∀ l, data ≠ .arr l) :
    subtasksOf ((handleSubtasks env id true s).exec db) id = [] := by
  have hrest : (handleSubtasks env id true s).exec db
      = (View.ofExcept data.elements >>= fun items =>
          Prog.forEach items fun x => createSubTaskFrom env id x).exec (dropped db id) := by
    rw [handleSubtasks_eq, h]
    rfl
  rw [hrest]
  cases hitems : data.elements with
  | error e => exact subtasksOf_dropped db
  | ok items =>
      have hnone := @usable_texts env items (texts_of_elements hitems hdata)
      obtain ⟨hexec, -⟩ := @run_loop env id items (dropped db id)
      rw [hnone] at hexec
      refine (congrArg (fun d => subtasksOf d id) hexec).trans ?_
      exact subtasksOf_dropped db

theorem handled_none {s : Option String} (h : payload env s = none) :
    (handleSubtasks env id true s).run db = ⟨.ok (), db, []⟩ := by
  rw [handleSubtasks_eq, h]
  rfl

/-! ## The whole edit -/

theorem subtasksOf_dropBreaks (db : Planner) : subtasksOf (db.dropBreaks id) id
    = if UnderItself db id then [] else subtasksOf db id := by
  show (db.subTasks.rows.filter _).filter _ = _
  rw [List.filter_filter]
  split
  · rename_i hunder
    refine List.filter_eq_nil_iff.2 fun r _ hr => ?_
    simp only [Bool.and_eq_true, decide_eq_true_eq, Bool.not_eq_true', decide_eq_false_iff_not]
      at hr
    exact hr.2 (hr.1 ▸ hunder)
  · rename_i hunder
    refine List.filter_congr fun r _ => ?_
    by_cases hr : r.personalTask = id
    · simp only [hr, decide_true, Bool.true_and, Bool.not_eq_true', decide_eq_false_iff_not]
      exact hunder
    · simp [hr]

theorem underItself_congr {db' : Planner} (h : db.personalTasks = db'.personalTasks) :
    UnderItself db id ↔ UnderItself db' id := by
  unfold UnderItself Planner.breaksOf
  rw [Planner.withBreaks_congr h, h]

/-- The subtasks that the handling of `subtasks_json` leaves, unless the task goes with its breaks. -/
def rowsLeft (env : PlannerEnv) (db : Planner) (id : Nat) (s : Option String) : List SubTask :=
  if ((handleSubtasks env id true s).run db).val = .ok () ∧ UnderItself db id then []
  else subtasksOf ((handleSubtasks env id true s).exec db) id

theorem subtasksOf_finishEdit (t : PersonalTask) (s : Option String) (db : Planner) :
    subtasksOf ((finishEdit env t s).exec db) t.id = rowsLeft env db t.id s := by
  obtain ⟨htasks, -⟩ := exec_of_sameTasks (handleSubtasks_steps env t.id true s) db
  unfold finishEdit rowsLeft
  rw [Prog.exec_bind]
  cases hval : ((handleSubtasks env t.id true s).run db).val with
  | error e =>
      rw [if_neg fun h => by cases h.1]
  | ok u =>
      have hbreaks : subtasksOf ((autoInsertBreaks t).exec
            (((handleSubtasks env t.id true s).exec db).dropBreaks t.id)) t.id
          = subtasksOf (((handleSubtasks env t.id true s).exec db).dropBreaks t.id) t.id := by
        rcases autoInsertBreaks_cases t
          (((handleSubtasks env t.id true s).exec db).dropBreaks t.id) with ⟨e, -, h⟩ | ⟨-, h⟩
        · rw [h]
          rfl
        · rw [h]
      refine hbreaks.trans ?_
      rw [subtasksOf_dropBreaks]
      have hunder := @underItself_congr _ t.id _ htasks
      by_cases h : UnderItself db t.id
      · rw [if_pos (hunder.2 h), if_pos ⟨rfl, h⟩]
      · rw [if_neg fun h' => h (hunder.1 h'), if_neg fun h' => h h'.2]

theorem subtasksOf_editPersonalTask {t : PersonalTask} {f : TaskFields} {r : TaskRequest}
    (ht : db.personalTasks.find? id = some t) (hf : Accepted db r f) :
    subtasksOf ((editPersonalTask env id r).exec db) id
      = rowsLeft env (db.updateTask (f.edited t)) id r.subtasksJson := by
  have hid : t.id = id := (Table.find?_eq_some.1 ht).2
  have hexec : (editPersonalTask env id r).exec db
      = (finishEdit env (f.edited t) r.subtasksJson).exec (db.updateTask (f.edited t)) := by
    unfold editPersonalTask
    rw [exec_getTaskOr404 ht]
    simp only [validForm, hf.1, Prog.exec, Prog.run_bind, Prog.run_read, hf.2,
      Option.isNone_none, if_true, Prog.Outcome.andThen_ok, Prog.run_write]
  have hfinish := @subtasksOf_finishEdit env (f.edited t) r.subtasksJson
    (db.updateTask (f.edited t))
  have hid' : (f.edited t).id = id := hid
  rw [hid'] at hfinish
  rw [hexec]
  exact hfinish

theorem isNewList_nil_iff {l : List (String × Nat)} : IsNewList [] l ↔ l = [] := by
  constructor
  · intro h
    exact h.1.symm
  · rintro rfl
    exact ⟨rfl, fun r hr => by cases hr⟩

theorem subtasksOf_eq_nil_of_isNewList {rows : List SubTask} (h : IsNewList rows []) :
    rows = [] := List.map_eq_nil_iff.1 h.1

theorem allFields_eq_nil_iff {items : List Json} {l : List (String × Nat)}
    (h : allFields env items = some l) : l = [] ↔ items = [] := by
  cases items with
  | nil =>
      cases h
      exact iff_of_true rfl rfl
  | cons x items =>
      refine iff_of_false ?_ (List.cons_ne_nil _ _)
      rintro rfl
      unfold allFields at h
      cases hx : fieldsOf env x with
      | error e =>
          rw [hx] at h
          cases h
      | ok p =>
          rw [hx] at h
          obtain ⟨l', -, hl'⟩ := Option.map_eq_some_iff.1 h
          cases hl'

/-! ### What is left, by what was submitted -/

variable {s : Option String} {items : List Json}

theorem rowsLeft_none (h : payload env s = none) :
    rowsLeft env db id s = if UnderItself db id then [] else subtasksOf db id := by
  unfold rowsLeft Prog.exec
  rw [handled_none h]
  by_cases hunder : UnderItself db id
  · rw [if_pos ⟨rfl, hunder⟩, if_pos hunder]
  · rw [if_neg fun h => hunder h.2, if_neg hunder]

theorem rowsLeft_other {data : Json} (h : payload env s = some data) (hdata : ∀ l, data ≠ .arr l) :
    rowsLeft env db id s = [] := by
  unfold rowsLeft
  rw [handled_other h hdata, ite_self]

/-- A list with an element that cannot be used leaves new rows for those before it, which are the old
ones only if there are none. -/
theorem rowsLeft_failed (h : payload env s = some (.arr items)) (hall : allFields env items = none) :
    rowsLeft env db id s = subtasksOf db id ↔
      subtasksOf db id = [] ∧ ∃ x, items.head? = some x ∧ ¬ (fieldsOf env x).isOk := by
  obtain ⟨hnew, hfresh, hval⟩ := @handled_list env db id _ items h
  have hraises : ¬ ((handleSubtasks env id true s).run db).val = .ok () := by
    rw [hval, hall]
    exact Bool.false_ne_true
  unfold rowsLeft
  rw [if_neg fun h => hraises h.1]
  constructor
  · intro hkept
    -- a row that is left is a new one, so there was none before
    have hnone : subtasksOf db id = [] := by
      refine List.eq_nil_iff_forall_not_mem.2 fun r hr => ?_
      have hge := hfresh r (hkept ▸ hr)
      have hlt := db.subTasks.fresh r (List.mem_filter.1 hr).1
      exact absurd hlt (Nat.not_lt.2 hge)
    rw [hkept, hnone, isNewList_nil_iff] at hnew
    rcases (usable_eq_nil_iff items).1 hnew with rfl | hhead
    · cases hall
    · exact ⟨hnone, hhead⟩
  · rintro ⟨hnone, hhead⟩
    rw [(usable_eq_nil_iff items).2 (.inr hhead)] at hnew
    rw [hnone, subtasksOf_eq_nil_of_isNewList hnew]

/-- A list in which every element can be used is what is left, unless the task goes. -/
theorem rowsLeft_list {l : List (String × Nat)} (h : payload env s = some (.arr items))
    (hall : allFields env items = some l) :
    IsNewList (rowsLeft env db id s) l ↔ (UnderItself db id → items = []) := by
  obtain ⟨hnew, -, hval⟩ := @handled_list env db id _ items h
  have hok := hval.2 (by rw [hall]; rfl)
  rw [usable_of_allFields hall] at hnew
  unfold rowsLeft
  by_cases hunder : UnderItself db id
  · rw [if_pos ⟨hok, hunder⟩, isNewList_nil_iff, allFields_eq_nil_iff hall]
    exact ⟨fun h _ => h, fun h => h hunder⟩
  · rw [if_neg fun h => hunder h.2]
    exact iff_of_true hnew fun h => absurd h hunder

theorem head_isOk_of_allFields {l : List (String × Nat)} (hall : allFields env items = some l) :
    ¬ ∃ x, items.head? = some x ∧ ¬ (fieldsOf env x).isOk := by
  intro hhead
  have husable := (usable_eq_nil_iff items).2 (.inr hhead)
  rw [usable_of_allFields hall] at husable
  obtain rfl := (allFields_eq_nil_iff hall).1 husable
  obtain ⟨x, hx, -⟩ := hhead
  cases hx

end Proofs

/-- **An edit replaces the subtasks or keeps them exactly when it is harmless.** -/
theorem replacesOrKeeps_iff {env : PlannerEnv} {db : Planner} {id : Nat} {r : TaskRequest}
    {t : PersonalTask} {f : TaskFields} (ht : db.personalTasks.find? id = some t)
    (hf : Accepted db r f) :
    ReplacesOrKeeps env db id r ↔ Harmless env db t f r.subtasksJson := by
  have hid : t.id = id := (Table.find?_eq_some.1 ht).2
  have hedited : subtasksOf (db.updateTask (f.edited t)) id = subtasksOf db id := rfl
  unfold ReplacesOrKeeps Harmless submitted
  rw [subtasksOf_editPersonalTask ht hf, hid]
  cases hpayload : payload env r.subtasksJson with
  | none =>
      dsimp only
      rw [rowsLeft_none hpayload]
      by_cases hunder : UnderItself (db.updateTask (f.edited t)) id
      · rw [if_pos hunder]
        exact ⟨fun h _ => h.symm, fun h => (h hunder).symm⟩
      · rw [if_neg hunder]
        exact iff_of_true rfl fun h => absurd h hunder
  | some data =>
      have hother : (∀ l, data ≠ .arr l) →
          (rowsLeft env (db.updateTask (f.edited t)) id r.subtasksJson = subtasksOf db id ↔
            subtasksOf db id = []) := by
        intro hdata
        rw [rowsLeft_other hpayload hdata]
        exact eq_comm
      cases data with
      | arr items =>
          dsimp only
          cases hall : allFields env items with
          | none =>
              have hfailed := @rowsLeft_failed env (db.updateTask (f.edited t)) id _ items hpayload hall
              rw [hedited] at hfailed
              exact hfailed.trans ⟨.inr, fun h => h.resolve_left fun hsome => by cases hsome.1⟩
          | some l =>
              refine (rowsLeft_list hpayload hall).trans ⟨fun h => .inl ⟨rfl, h⟩, fun h => ?_⟩
              rcases h with h | h
              · exact h.2
              · exact absurd h.2 (head_isOk_of_allFields hall)
      | null => exact hother fun l h => by cases h
      | bool b => exact hother fun l h => by cases h
      | int n => exact hother fun l h => by cases h
      | float q => exact hother fun l h => by cases h
      | str s => exact hother fun l h => by cases h
      | obj d => exact hother fun l h => by cases h

/-- Texts of requests: a list of one subtask, and a list whose second element has no title. -/
def texts : String → Option Json
  | "one" => some (.arr [.obj [("title", .str "New")]])
  | "untitled" => some (.arr [.obj [("title", .str "New")], .obj []])
  | _ => none

def env : PlannerEnv := { PlannerSample.env with jsonLoads := texts }

/-- A task with one subtask. -/
def oneSubtask : Planner :=
  ((Planner.init ⟨PlannerSample.today, PlannerSample.minutes 60⟩).createTask
    (TaskFields.newTask ⟨"T", none, PlannerSample.today, PlannerSample.minutes 600,
      PlannerSample.minutes 630, .secondary⟩)).createSubTask ⟨0, 1, "Old", false, 0⟩

/-- The form is submitted as it is, with some subtasks. -/
def request (text : String) : TaskRequest where
  fields := some ⟨"T", none, PlannerSample.today, PlannerSample.minutes 600,
    PlannerSample.minutes 630, .secondary⟩
  subtasksJson := some text

theorem replaces_one : ReplacesOrKeeps env oneSubtask 1 (request "one") := by
  refine (replacesOrKeeps_iff (t := { TaskFields.newTask ⟨"T", none, PlannerSample.today,
    PlannerSample.minutes 600, PlannerSample.minutes 630, .secondary⟩ with id := 1 }) rfl
    ⟨rfl, by decide +kernel⟩).2 ?_
  refine .inl ⟨by decide +kernel, fun h => absurd h (by decide +kernel)⟩

/-- The title of the second element is missing: the old subtask is gone, the first new one stays. -/
theorem subtasks_lost : ¬ ∀ (env : PlannerEnv) (db : Planner) (id : Nat) (r : TaskRequest)
    (t : PersonalTask) (f : TaskFields), db.personalTasks.find? id = some t → Accepted db r f →
    ReplacesOrKeeps env db id r := by
  intro h
  have hkept := h env oneSubtask 1 (request "untitled") { TaskFields.newTask ⟨"T", none,
    PlannerSample.today, PlannerSample.minutes 600, PlannerSample.minutes 630, .secondary⟩ with
      id := 1 } _ rfl ⟨rfl, by decide +kernel⟩
  have hsame : subtasksOf ((editPersonalTask env 1 (request "untitled")).exec oneSubtask) 1
      = subtasksOf oneSubtask 1 := hkept
  revert hsame
  decide +kernel

end EditSubtasks

end DailyScheduler
