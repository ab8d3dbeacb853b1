import DailyScheduler.Planner.Sample
import DailyScheduler.Planner.Writes

set_option autoImplicit false

/-! # Copies of tasks

`copy_tasks_from_yesterday` creates a new task from the fields of the old one, and a new subtask for
each of its subtasks. It does not set `is_break`: the copy of a break is a task.
-/

namespace DailyScheduler

open AtomicProg Calendar

namespace Copies

/-- `task.subtasks.all()`: the subtasks of a task in their order. -/
def listed (db : Planner) (id : Nat) : List SubTask :=
  (db.subTasks.rows.filter fun s => decide (s.personalTask = id)).insertionSort
    fun s s' => s.order ≤ s'.order

/-- The row is a copy of the task for another date. -/
structure IsCopy (date : Date) (t c : PersonalTask) : Prop where
  title : c.title = t.title
  description : c.description = t.description
  date : c.date = date
  startTime : c.startTime = t.startTime
  endTime : c.endTime = t.endTime
  category : c.category = t.category
  isBreak : c.isBreak = t.isBreak
  isCompleted : c.isCompleted = false

/-- New subtasks of the copy: they list the titles of some subtasks in the same order. -/
structure SubtasksCopied (c : PersonalTask) (old new : List SubTask) : Prop where
  owner : ∀ s ∈ new, s.personalTask = c.id
  titles : (new.insertionSort fun s s' => s.order ≤ s'.order).map SubTask.title
    = old.map SubTask.title

/-- A request for the copies of some tasks, at their own times. -/
structure AsksFor (env : PlannerEnv) (db : Planner) (current yesterday : Date) (body : String)
    (originals : List PersonalTask) : Prop where
  before : current.addDays (-1) = some yesterday
  parsed : ∃ data items, env.jsonLoads body = some data ∧
    readCopyRequest data = .ok (.obj [], items) ∧
    List.Forall₂ (fun x t => env.idOf x = .ok t.id) items originals
  stored : ∀ t ∈ originals, t ∈ db.personalTasks.rows
  dated : ∀ t ∈ originals, t.date = yesterday

/-- Exactly one task is created for each of the tasks, it is a copy, and the created subtasks are
those of the copies. The answer has no error. -/
def CopiesEach (env : PlannerEnv) (db : Planner) (current : Date) (body : String)
    (originals : List PersonalTask) : Prop :=
  ∃ copies : List (PersonalTask × List SubTask),
    ((copyTasksFromYesterday env current body).exec db).personalTasks.rows
        = db.personalTasks.rows ++ copies.map Prod.fst ∧
      ((copyTasksFromYesterday env current body).exec db).subTasks.rows
        = db.subTasks.rows ++ copies.flatMap Prod.snd ∧
      List.Forall₂ (fun t c => IsCopy current t c.1 ∧ SubtasksCopied c.1 (listed db t.id) c.2)
        originals copies ∧
      ((copyTasksFromYesterday env current body).run db).val
        = .ok (some ⟨copies.map fun c => c.1.id, []⟩)

section Proofs

variable {env : PlannerEnv} {current yesterday : Date}

/-! ## One copy -/

theorem run_forEach_write {β : Type} (f : β → Planner → Planner) (l : List β) (db : Planner) :
    (Prog.forEach l fun s => (Prog.write (f s) : View Unit)).run db
      = ⟨.ok (), l.foldl (fun db s => f s db) db, []⟩ := by
  induction l generalizing db with
  | nil => rfl
  | cons s l ih =>
      rw [Prog.forEach, Prog.run_bind, Prog.run_write, Prog.Outcome.andThen_ok, ih]
      rfl

/-- The planner with copies of some subtasks for the task `id`. -/
def withSubtasks (id : Nat) (l : List SubTask) (db : Planner) : Planner :=
  l.foldl (fun db s => db.createSubTask ⟨0, id, s.title, false, s.order⟩) db

/-- The planner with a copy of the task. -/
def withCopy (current : Date) (t : PersonalTask) (db : Planner) : Planner :=
  withSubtasks db.personalTasks.next (listed db t.id)
    (db.createTask (copyOf t current t.startTime t.endTime))

theorem withSubtasks_rows (id : Nat) (l : List SubTask) (db : Planner) :
    (withSubtasks id l db).personalTasks = db.personalTasks ∧
      ∃ new : List SubTask, (withSubtasks id l db).subTasks.rows = db.subTasks.rows ++ new ∧
        (∀ s ∈ new, s.personalTask = id) ∧
        new.map SubTask.title = l.map SubTask.title ∧
        new.map SubTask.order = l.map SubTask.order := by
  induction l generalizing db with
  | nil => exact ⟨rfl, [], (List.append_nil _).symm, List.forall_mem_nil _, rfl, rfl⟩
  | cons s l ih =>
      obtain ⟨htasks, new, hrows, howner, htitle, horder⟩ :=
        ih (db.createSubTask ⟨0, id, s.title, false, s.order⟩)
      refine ⟨htasks, ⟨db.subTasks.next, id, s.title, false, s.order⟩ :: new, ?_, ?_, ?_, ?_⟩
      · refine hrows.trans ?_
        show (db.subTasks.rows ++ [_]) ++ new = _
        rw [List.append_assoc]
        rfl
      · exact List.forall_mem_cons.2 ⟨rfl, howner⟩
      · rw [List.map_cons, List.map_cons, htitle]
      · rw [List.map_cons, List.map_cons, horder]

/-- A list with the orders of a sorted one is sorted. -/
theorem insertionSort_of_orders {l new : List SubTask}
    (h : new.map SubTask.order
      = (l.insertionSort fun s s' => s.order ≤ s'.order).map SubTask.order) :
    (new.insertionSort fun s s' => s.order ≤ s'.order) = new := by
  have htotal : Std.Total fun s s' : SubTask => s.order ≤ s'.order := ⟨fun s s' => le_total _ _⟩
  have htrans : IsTrans SubTask fun s s' => s.order ≤ s'.order := ⟨fun _ _ _ => le_trans⟩
  apply List.Pairwise.insertionSort_eq
  have hsorted := List.pairwise_insertionSort (fun s s' : SubTask => s.order ≤ s'.order) l
  have horders : ((l.insertionSort fun s s' => s.order ≤ s'.order).map SubTask.order).Pairwise
      (· ≤ ·) := List.pairwise_map.2 hsorted
  rw [← h] at horders
  exact List.pairwise_map.1 horders

/-- What one copy adds to the tables. -/
theorem withCopy_rows (t : PersonalTask) (db : Planner) :
    ∃ (c : PersonalTask) (new : List SubTask),
      c = { copyOf t current t.startTime t.endTime with id := db.personalTasks.next } ∧
      (withCopy current t db).personalTasks.rows = db.personalTasks.rows ++ [c] ∧
      (withCopy current t db).subTasks.rows = db.subTasks.rows ++ new ∧
      SubtasksCopied c (listed db t.id) new := by
  obtain ⟨htasks, new, hrows, howner, htitle, horder⟩ :=
    withSubtasks_rows db.personalTasks.next (listed db t.id)
      (db.createTask (copyOf t current t.startTime t.endTime))
  refine ⟨_, new, rfl, ?_, hrows, howner, ?_⟩
  · show (withSubtasks _ _ _).personalTasks.rows = _
    rw [htasks]
    rfl
  · rw [insertionSort_of_orders horder, htitle]

theorem run_copyTask {x : Json} {t : PersonalTask} {db : Planner} (hid : env.idOf x = .ok t.id)
    (ht : t ∈ db.personalTasks.rows) (hdate : t.date = yesterday) :
    (copyTask env current yesterday (.obj []) x).run db
      = ⟨.ok db.personalTasks.next, withCopy current t db, []⟩ := by
  have hfind : db.personalTasks.find? t.id = some t := Table.find?_eq_some.2 ⟨ht, rfl⟩
  have hget : (getForCopy env yesterday x).run db = ⟨.ok t, db, []⟩ := by
    unfold getForCopy
    rw [Prog.run_bind, hid]
    simp only [View.ofExcept, Prog.run_ret, Prog.Outcome.andThen_ok, Prog.run_bind, Prog.run_read,
      hfind, hdate, if_true, Prog.pure_eq, List.append_nil]
  unfold copyTask
  rw [Prog.run_bind, hget, Prog.Outcome.andThen_ok]
  have hitem : Json.item (env.text x) (.obj []) = .ok none := rfl
  simp only [hitem, overriddenTime, View.ofExcept, Prog.ret_bind, Prog.run_bind, createPersonalTask,
    Prog.run_command, Prog.Outcome.andThen_ok, Prog.run_read, run_forEach_write, Prog.pure_eq,
    Prog.run_ret, List.append_nil]
  rfl

/-! ## The loop -/

/-- The subtasks of the tasks that are there already. -/
theorem listed_withCopy {t t' : PersonalTask} {db : Planner} (ht' : t' ∈ db.personalTasks.rows) :
    listed (withCopy current t db) t'.id = listed db t'.id := by
  obtain ⟨c, new, hc, -, hrows, hcopied⟩ := @withCopy_rows current t db
  unfold listed
  rw [hrows, List.filter_append]
  have hnone : (new.filter fun s => decide (s.personalTask = t'.id)) = [] := by
    refine List.filter_eq_nil_iff.2 fun s hs hsame => ?_
    have howner := hcopied.owner s hs
    have hlt := db.personalTasks.fresh t' ht'
    rw [of_decide_eq_true hsame, hc] at howner
    exact absurd howner (Nat.ne_of_lt hlt)
  rw [hnone, List.append_nil]

/-- The row that is made of a task, whatever its id. -/
def MadeOf (current : Date) (t c : PersonalTask) : Prop :=
  ∃ k, c = { copyOf t current t.startTime t.endTime with id := k }

/-- The row that is made is no break, and otherwise a copy. -/
theorem MadeOf.isCopy_iff {t c : PersonalTask} (h : MadeOf current t c) :
    IsCopy current t c ↔ t.isBreak = false := by
  obtain ⟨k, rfl⟩ := h
  constructor
  · intro hcopy
    exact hcopy.isBreak.symm
  · intro hbreak
    exact ⟨rfl, rfl, rfl, rfl, rfl, rfl, hbreak.symm, rfl⟩

theorem run_copyTasks {items : List Json} {originals : List PersonalTask}
    (h : List.Forall₂ (fun x t => env.idOf x = .ok t.id) items originals) (base : Planner)
    (acc : CopyAnswer) (db : Planner) (hstored : ∀ t ∈ originals, t ∈ db.personalTasks.rows)
    (hdated : ∀ t ∈ originals, t.date = yesterday)
    (hlisted : ∀ t ∈ originals, listed db t.id = listed base t.id) :
    ∃ (copies : List (PersonalTask × List SubTask)) (db' : Planner),
      (copyTasks env current yesterday (.obj []) items acc).run db
          = ⟨.ok ⟨acc.copied ++ copies.map fun c => c.1.id, acc.errors⟩, db', []⟩ ∧
        db'.personalTasks.rows = db.personalTasks.rows ++ copies.map Prod.fst ∧
        db'.subTasks.rows = db.subTasks.rows ++ copies.flatMap Prod.snd ∧
        List.Forall₂ (fun t c => MadeOf current t c.1 ∧
          SubtasksCopied c.1 (listed base t.id) c.2) originals copies := by
  induction h generalizing acc db with
  | nil =>
      refine ⟨[], db, ?_, (List.append_nil _).symm, (List.append_nil _).symm, .nil⟩
      rw [copyTasks, List.map_nil, List.append_nil]
      rfl
  | @cons x t items originals hid hrest ih =>
      have ht := hstored t List.mem_cons_self
      have hrun := @run_copyTask env current yesterday x t db hid ht (hdated t List.mem_cons_self)
      obtain ⟨c, new, hc, htasks, hsubtasks, hcopied⟩ := @withCopy_rows current t db
      -- the loop goes on with the copy in the tables
      have hstored' : ∀ t' ∈ originals, t' ∈ (withCopy current t db).personalTasks.rows := by
        intro t' ht'
        rw [htasks]
        exact List.mem_append_left _ (hstored t' (List.mem_cons_of_mem _ ht'))
      have hlisted' : ∀ t' ∈ originals,
          listed (withCopy current t db) t'.id = listed base t'.id := by
        intro t' ht'
        rw [listed_withCopy (hstored t' (List.mem_cons_of_mem _ ht'))]
        exact hlisted t' (List.mem_cons_of_mem _ ht')
      obtain ⟨copies, db', hloop, htasks', hsubtasks', hmade⟩ :=
        ih { acc with copied := acc.copied ++ [db.personalTasks.next] } (withCopy current t db)
          hstored' (fun t' ht' => hdated t' (List.mem_cons_of_mem _ ht')) hlisted'
      refine ⟨(c, new) :: copies, db', ?_, ?_, ?_, .cons ⟨⟨_, hc⟩, ?_⟩ hmade⟩
      · unfold copyTasks
        rw [Prog.run_bind, Prog.run_attempt, hrun]
        simp only [Prog.Outcome.andThen_ok]
        rw [hloop, hc]
        simp only [List.map_cons, List.append_assoc, List.nil_append, List.singleton_append]
      · rw [htasks', htasks, List.append_assoc]
        rfl
      · rw [hsubtasks', hsubtasks, List.append_assoc]
        rfl
      · rw [← hlisted t List.mem_cons_self]
        exact hcopied

/-- What the view does with a request for copies. -/
theorem made_of_asksFor {db : Planner} {body : String} {originals : List PersonalTask}
    (h : AsksFor env db current yesterday body originals) :
    ∃ copies : List (PersonalTask × List SubTask),
      ((copyTasksFromYesterday env current body).exec db).personalTasks.rows
          = db.personalTasks.rows ++ copies.map Prod.fst ∧
        ((copyTasksFromYesterday env current body).exec db).subTasks.rows
          = db.subTasks.rows ++ copies.flatMap Prod.snd ∧
        List.Forall₂ (fun t c => MadeOf current t c.1 ∧
          SubtasksCopied c.1 (listed db t.id) c.2) originals copies ∧
        ((copyTasksFromYesterday env current body).run db).val
          = .ok (some ⟨copies.map fun c => c.1.id, []⟩) := by
  obtain ⟨data, items, hloads, hread, hitems⟩ := h.parsed
  obtain ⟨copies, db', hrun, htasks, hsubtasks, hmade⟩ :=
    @run_copyTasks env current yesterday _ _ hitems db ⟨[], []⟩ db h.stored h.dated fun _ _ => rfl
  have hview : (copyTasksFromYesterday env current body).run db
      = ⟨.ok (some ⟨copies.map fun c => c.1.id, []⟩), db', []⟩ := by
    unfold copyTasksFromYesterday
    rw [h.before, hloads]
    simp only [orOverflow, View.ofExcept, Prog.ret_bind, hread]
    rw [Prog.run_bind, hrun]
    rfl
  refine ⟨copies, ?_, ?_, hmade, congrArg Prog.Outcome.val hview⟩
  · rw [Prog.exec_eq_of_run hview, htasks]
  · rw [Prog.exec_eq_of_run hview, hsubtasks]

end Proofs

/-- **Every task is copied exactly when none of them is a break.** -/
theorem copiesEach_iff {env : PlannerEnv} {db : Planner} {current yesterday : Date} {body : String}
    {originals : List PersonalTask} (h : AsksFor env db current yesterday body originals) :
    CopiesEach env db current body originals ↔ ∀ t ∈ originals, t.isBreak = false := by
  obtain ⟨copies, htasks, hsubtasks, hmade, hanswer⟩ := made_of_asksFor h
  constructor
  · rintro ⟨copies', htasks', -, hcopies, -⟩ t ht
    -- the rows that are there are those that have been made
    have hfst : copies'.map Prod.fst = copies.map Prod.fst :=
      List.append_cancel_left (htasks'.symm.trans htasks)
    have hcopy : List.Forall₂ (fun t c => IsCopy current t c) originals (copies'.map Prod.fst) :=
      List.forall₂_map_right_iff.2 (hcopies.imp fun _ _ hc => hc.1)
    have hrow : List.Forall₂ (fun t c => MadeOf current t c) originals (copies.map Prod.fst) :=
      List.forall₂_map_right_iff.2 (hmade.imp fun _ _ hc => hc.1)
    rw [hfst] at hcopy
    obtain ⟨i, hi, rfl⟩ := List.getElem_of_mem ht
    have hlen := hrow.length_eq
    have hmadeOf := hrow.get hi (hlen ▸ hi)
    have hisCopy := hcopy.get hi (hlen ▸ hi)
    exact hmadeOf.isCopy_iff.1 hisCopy
  · intro hbreaks
    refine ⟨copies, htasks, hsubtasks, ?_, hanswer⟩
    clear h htasks hsubtasks hanswer
    induction hmade with
    | nil => exact .nil
    | cons hc hrest ih =>
        have hfirst := hc.1.isCopy_iff.2 (hbreaks _ List.mem_cons_self)
        exact .cons ⟨hfirst, hc.2⟩ (ih fun t ht => hbreaks t (List.mem_cons_of_mem _ ht))

/-- A long task of today and its break, as the rows 1 and 2. -/
def taskAndBreak : Planner :=
  let task : PersonalTask := ⟨1, "T", none, PlannerSample.today, PlannerSample.minutes 540,
    PlannerSample.minutes 660, .secondary, false, false, none⟩
  ((Planner.init ⟨PlannerSample.today, PlannerSample.minutes 60⟩).createTask task).createTask
    (breakAfter task (PlannerSample.minutes 670))

/-- A body that asks for the row 1 or 2. -/
def env : PlannerEnv := { PlannerSample.env with
  jsonLoads := fun s =>
    if s = "1" then some (.obj [("task_ids", .arr [.int 1])])
    else if s = "2" then some (.obj [("task_ids", .arr [.int 2])])
    else none }

theorem copiesEach_first : CopiesEach env taskAndBreak (PlannerSample.later 1) "1"
    (taskAndBreak.personalTasks.rows.take 1) := by
  have hasks : AsksFor env taskAndBreak (PlannerSample.later 1) PlannerSample.today "1"
      (taskAndBreak.personalTasks.rows.take 1) :=
    ⟨by decide +kernel, ⟨_, _, rfl, rfl, .cons rfl .nil⟩, fun t ht => List.mem_of_mem_take ht,
      by decide +kernel⟩
  exact (copiesEach_iff hasks).2 (by decide +kernel)

/-- The copy of a break is a task. -/
theorem break_not_copied : ¬ ∀ (env : PlannerEnv) (db : Planner) (current yesterday : Date)
    (body : String) (originals : List PersonalTask),
    AsksFor env db current yesterday body originals → CopiesEach env db current body originals := by
  intro h
  obtain ⟨copies, htasks, -, hcopies, -⟩ := h env taskAndBreak (PlannerSample.later 1)
    PlannerSample.today "2" (taskAndBreak.personalTasks.rows.drop 1)
    ⟨by decide +kernel, ⟨_, _, rfl, rfl, .cons rfl .nil⟩, fun t ht => List.mem_of_mem_drop ht,
      by decide +kernel⟩
  obtain ⟨c, rest, hc, -, rfl⟩ := List.forall₂_cons_left_iff.1 hcopies
  have hmem : c.1 ∈ ((copyTasksFromYesterday env (PlannerSample.later 1) "2").exec
      taskAndBreak).personalTasks.rows := by
    rw [htasks]
    exact List.mem_append_right _ List.mem_cons_self
  have hnone : ((copyTasksFromYesterday env (PlannerSample.later 1) "2").exec
      taskAndBreak).personalTasks.rows.any
        (fun r => decide (r.date = PlannerSample.later 1) && r.isBreak) = false := by
    decide +kernel
  have hrow := List.any_eq_false.1 hnone c.1 hmem
  rw [hc.1.date, hc.1.isBreak] at hrow
  exact hrow (by decide +kernel)

end Copies

end DailyScheduler
