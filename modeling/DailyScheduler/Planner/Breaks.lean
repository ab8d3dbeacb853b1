import DailyScheduler.Planner.Overlap
import DailyScheduler.Planner.Writes

set_option autoImplicit false

/-! # Breaks after long tasks

`auto_insert_breaks` computes the end of a break as a time of day. The break of a task that ends ten
minutes before midnight or later ends at the beginning of the same date, before it starts, and the
query for conflicting tasks is made with that time.
-/

namespace DailyScheduler

open AtomicProg Calendar

namespace Breaks

variable (db : Planner) (t : PersonalTask)

/-- Another task goes on during the ten minutes after the task. -/
def Busy : Prop := ∃ r ∈ db.personalTasks.rows, r.id ≠ t.id ∧
  r.start < t.clockEnd + breakLength ∧ t.clockEnd < r.clockEnd

/-- The task is not a break, lasts an hour, and has no break at its end yet. -/
structure Eligible : Prop where
  noBreak : t.isBreak = false
  long : hourLength ≤ t.endTime.micros - t.startTime.micros
  missing : db.existingBreak t = false

/-- The row is a break of the task for the ten minutes after it, on the task's date, and overlaps
no task. -/
structure BreakOf (b : PersonalTask) : Prop where
  isBreak : b.isBreak = true
  parent : b.parentTask = some t.id
  start : b.start = t.clockEnd
  finish : b.clockEnd = t.clockEnd + breakLength
  ordered : b.startTime.micros < b.endTime.micros
  apart : ∀ r ∈ db.personalTasks.rows, r.id ≠ t.id →
    ¬ (r.start < b.clockEnd ∧ b.start < r.clockEnd)
  after : ¬ (t.start < b.clockEnd ∧ b.start < t.clockEnd)

/-- The personal tasks after `auto_insert_breaks`. -/
def inserted : Planner := (autoInsertBreaks t).exec db

/-- One break is inserted where it is due, nothing otherwise, and nothing the second time. -/
structure InsertsDue : Prop where
  due : Eligible db t → ¬ Busy db t →
    ∃ b, (inserted db t).personalTasks.rows = db.personalTasks.rows ++ [b] ∧ BreakOf db t b
  notDue : ¬ (Eligible db t ∧ ¬ Busy db t) →
    (inserted db t).personalTasks.rows = db.personalTasks.rows
  again : (inserted (inserted db t) t).personalTasks.rows = (inserted db t).personalTasks.rows

/-- When a break may be missing, the clock tells what it has to: the break ends later than the task
on the clock, and if another task goes on during it then one on the clock of the date does; or it
ends earlier, at the beginning of the date, and a task of the date goes on from before that time
until after the task; or its end is beyond the last date, and another task goes on. -/
def ClockTells : Prop :=
  Eligible db t → match (DateTime.mk t.date t.endTime).add breakLength with
    | none => Busy db t
    | some e =>
        if t.endTime.micros < e.time.micros then Busy db t → db.conflictingTasks t e.time = true
        else db.conflictingTasks t e.time = true

section Proofs

variable {db t}

/-! ## What the function does -/

theorem eligible_of_insertsBreak {e : Time} (h : InsertsBreak db t e) : Eligible db t := by
  obtain ⟨hbreak, hlong, -, hexisting, -⟩ := h
  exact ⟨hbreak, hlong, hexisting⟩

theorem insertsBreak_iff {e : DateTime}
    (he : (DateTime.mk t.date t.endTime).add breakLength = some e) (e' : Time) :
    InsertsBreak db t e' ↔
      Eligible db t ∧ e' = e.time ∧ db.conflictingTasks t e.time = false := by
  constructor
  · intro h
    have heligible := eligible_of_insertsBreak h
    obtain ⟨-, -, ⟨d, hd⟩, -, hconflict⟩ := h
    rw [he] at hd
    cases hd
    exact ⟨heligible, rfl, hconflict⟩
  · rintro ⟨⟨hbreak, hlong, hexisting⟩, rfl, hconflict⟩
    exact ⟨hbreak, hlong, ⟨e.date, he⟩, hexisting, hconflict⟩

theorem not_insertsBreak_of_none (he : (DateTime.mk t.date t.endTime).add breakLength = none)
    (e : Time) : ¬ InsertsBreak db t e := by
  rintro ⟨-, -, ⟨d, hd⟩, -⟩
  rw [he] at hd
  cases hd

/-- A task that the query finds goes on during the break, also when the break's end is an early
time of the date. -/
theorem busy_of_conflicting {e : DateTime}
    (he : (DateTime.mk t.date t.endTime).add breakLength = some e)
    (hordered : t.startTime.micros < t.endTime.micros)
    (h : db.conflictingTasks t e.time = true) : Busy db t := by
  obtain ⟨r, hr, hfound⟩ := List.any_eq_true.1 h
  obtain ⟨hdate, hstart, hend, hid⟩ := of_decide_eq_true hfound
  have htime := (DateTime.add_eq_some he).2
  have hlate : e.time.micros ≤ t.endTime.micros + breakLength := by
    have hday : dayLength = 86400000000 := rfl
    have hlength : breakLength = 600000000 := rfl
    have hnonneg := t.endTime.nonneg
    simp only [hday, hlength] at htime ⊢
    omega
  have hclock : t.clockEnd = t.date.ordinal * dayLength + t.endTime.micros := if_pos hordered
  refine ⟨r, hr, hid, ?_, ?_⟩
  · have hbegin : r.start = t.date.ordinal * dayLength + r.startTime.micros := by
      rw [← hdate]
      rfl
    omega
  · have hday : dayLength = 86400000000 := rfl
    rw [hclock, PersonalTask.clockEnd, hdate]
    split
    · omega
    · rw [hday]
      omega

/-- The break, when it does not run over midnight and nothing else goes on. -/
theorem breakOf_breakAfter {e : Time} (k : Nat)
    (hordered : t.startTime.micros < t.endTime.micros)
    (he : t.endTime.micros < e.micros) (hend : e.micros = t.endTime.micros + breakLength)
    (hfree : ¬ Busy db t) : BreakOf db t { breakAfter t e with id := k } := by
  have hclock : t.clockEnd = t.date.ordinal * dayLength + t.endTime.micros := if_pos hordered
  have hstart : ({ breakAfter t e with id := k } : PersonalTask).start = t.clockEnd := hclock.symm
  have hfinish : ({ breakAfter t e with id := k } : PersonalTask).clockEnd
      = t.clockEnd + breakLength := by
    have hlater : ({ breakAfter t e with id := k } : PersonalTask).clockEnd
        = t.date.ordinal * dayLength + e.micros := if_pos he
    rw [hlater, hclock, hend]
    omega
  refine ⟨rfl, rfl, hstart, hfinish, he, fun r hr hid hover => ?_, fun hover => ?_⟩
  · rw [hstart, hfinish] at hover
    exact hfree ⟨r, hr, hid, hover⟩
  · rw [hstart] at hover
    exact lt_irrefl _ hover.2

theorem rows_createTask (row : PersonalTask) : (db.createTask row).personalTasks.rows
    = db.personalTasks.rows ++ [{ row with id := db.personalTasks.next }] := rfl

theorem rows_createTask_ne (row : PersonalTask) :
    (db.createTask row).personalTasks.rows ≠ db.personalTasks.rows := by
  intro h
  have hlen := congrArg List.length h
  rw [rows_createTask, List.length_append, List.length_singleton] at hlen
  omega

/-- The second time the break exists, or what kept it away still does. -/
theorem inserted_twice :
    (inserted (inserted db t) t).personalTasks.rows = (inserted db t).personalTasks.rows := by
  rcases autoInsertBreaks_cases t (inserted db t) with ⟨e', he', -⟩ | ⟨-, hsame⟩
  · rcases autoInsertBreaks_cases t db with ⟨e, he, hadd⟩ | ⟨hnone, hsame⟩
    · exfalso
      have hmem : { breakAfter t e with id := db.personalTasks.next }
          ∈ (inserted db t).personalTasks.rows := by
        rw [inserted, hadd, rows_createTask]
        exact List.mem_append_right _ List.mem_cons_self
      have hexisting : (inserted db t).existingBreak t = true :=
        List.any_eq_true.2 ⟨_, hmem, decide_eq_true ⟨rfl, rfl, rfl, rfl⟩⟩
      rw [he'.2.2.2.1] at hexisting
      cases hexisting
    · rw [inserted, hsame] at he'
      exact absurd he' (hnone e')
  · exact congrArg (fun d : Planner => d.personalTasks.rows) hsame

end Proofs

/-! ## When the breaks are those that are due -/

/-- **Breaks are inserted where they are due exactly when the clock tells it**: not at the end of
the day, where the end of the break wraps, and not under a task that runs over midnight, which the
query does not find. -/
theorem insertsDue_iff (db : Planner) (t : PersonalTask)
    (hordered : t.startTime.micros < t.endTime.micros) :
    InsertsDue db t ↔ ClockTells db t := by
  have hcases := autoInsertBreaks_cases t db
  constructor
  · intro h heligible
    split
    · rename_i hnone
      by_contra hfree
      obtain ⟨b, hrows, -⟩ := h.due heligible hfree
      rcases hcases with ⟨e, he, -⟩ | ⟨-, hsame⟩
      · exact not_insertsBreak_of_none hnone e he
      · rw [inserted, hsame] at hrows
        exact absurd (congrArg List.length hrows) (by simp)
    · rename_i e he
      -- without a conflict the break is inserted, so it has to be due and as it should be
      have hinserts : db.conflictingTasks t e.time = false →
          (inserted db t) = db.createTask (breakAfter t e.time) := by
        intro hconflict
        have hins := (insertsBreak_iff he e.time).2 ⟨heligible, rfl, hconflict⟩
        rcases hcases with ⟨e', he', hadd⟩ | ⟨hnone, -⟩
        · have heq := ((insertsBreak_iff he e').1 he').2.1
          rw [inserted, hadd, heq]
        · exact absurd hins (hnone e.time)
      split
      · intro hbusy
        by_contra hconflict
        have hadd := hinserts (Bool.eq_false_iff.2 hconflict)
        have hsame := h.notDue fun hdue => hdue.2 hbusy
        rw [hadd] at hsame
        exact rows_createTask_ne _ hsame
      · rename_i hwraps
        by_contra hconflict
        have hadd := hinserts (Bool.eq_false_iff.2 hconflict)
        by_cases hbusy : Busy db t
        · have hsame := h.notDue fun hdue => hdue.2 hbusy
          rw [hadd] at hsame
          exact rows_createTask_ne _ hsame
        · obtain ⟨b, hrows, hb⟩ := h.due heligible hbusy
          rw [hadd, rows_createTask] at hrows
          obtain rfl := List.singleton_inj.1 (List.append_cancel_left hrows)
          exact hwraps hb.ordered
  · intro h
    refine ⟨fun heligible hfree => ?_, fun hnot => ?_, inserted_twice⟩
    · have htells := h heligible
      split at htells
      · exact absurd htells hfree
      · rename_i e he
        have hconflict : ¬ db.conflictingTasks t e.time = true :=
          fun hconflict => hfree (busy_of_conflicting he hordered hconflict)
        split at htells
        · rename_i hlater
          have hins := (insertsBreak_iff he e.time).2
            ⟨heligible, rfl, Bool.eq_false_iff.2 hconflict⟩
          rcases hcases with ⟨e', he', hadd⟩ | ⟨hnone, -⟩
          · obtain ⟨-, rfl, -⟩ := (insertsBreak_iff he e').1 he'
            have hend : e.time.micros = t.endTime.micros + breakLength := by
              have htime := (DateTime.add_eq_some he).2
              have hday : dayLength = 86400000000 := rfl
              have hlength : breakLength = 600000000 := rfl
              have hnonneg := t.endTime.nonneg
              have hlt := t.endTime.lt_day
              simp only [hday, hlength] at htime hlt ⊢
              omega
            refine ⟨_, ?_, breakOf_breakAfter db.personalTasks.next hordered hlater hend hfree⟩
            rw [inserted, hadd, rows_createTask]
          · exact absurd hins (hnone e.time)
        · exact absurd htells hconflict
    · rcases hcases with ⟨e, he, -⟩ | ⟨-, hsame⟩
      · exfalso
        have heligible := eligible_of_insertsBreak he
        have hbusy : Busy db t := by
          by_contra hfree
          exact hnot ⟨heligible, hfree⟩
        have htells := h heligible
        split at htells
        · rename_i hnone
          exact not_insertsBreak_of_none hnone e he
        · rename_i e' he'
          obtain ⟨-, -, hconflict⟩ := (insertsBreak_iff he' e).1 he
          rw [hconflict] at htells
          split at htells
          · exact absurd (htells hbusy) (by decide)
          · cases htells
      · rw [inserted, hsame]

/-- It is enough that the task ends before ten minutes to midnight and that every other task ends
after it starts. -/
theorem clockTells_of_ordered {db : Planner} {t : PersonalTask}
    (hordered : t.startTime.micros < t.endTime.micros)
    (hearly : t.endTime.micros + breakLength < dayLength)
    (hrows : ∀ r ∈ db.personalTasks.rows, r.id ≠ t.id → r.startTime.micros < r.endTime.micros) :
    ClockTells db t := by
  have hnonneg := t.endTime.nonneg
  have hlength : breakLength = 600000000 := rfl
  have hadd : (DateTime.mk t.date t.endTime).add breakLength
      = some ⟨t.date, ⟨t.endTime.micros + breakLength, by omega, hearly⟩⟩ :=
    DateTime.add_of_lt (i := ⟨t.date, t.endTime⟩) _ hearly
  intro _
  rw [hadd]
  dsimp only
  rw [if_pos (by omega)]
  rintro ⟨r, hr, hid, hstart, hend⟩
  have hclock : t.clockEnd = t.date.ordinal * dayLength + t.endTime.micros := if_pos hordered
  have hrclock : r.clockEnd = r.date.ordinal * dayLength + r.endTime.micros :=
    if_pos (hrows r hr hid)
  have hrstart : r.start = r.date.ordinal * dayLength + r.startTime.micros := rfl
  rw [hclock, hrclock] at hend
  rw [hclock, hrstart] at hstart
  -- the two tasks are on one date, since neither reaches midnight
  have hdate : r.date = t.date := by
    have hday : dayLength = 86400000000 := rfl
    have hr0 := r.startTime.nonneg
    have hr1 := r.endTime.lt_day
    rw [hday] at hearly hr1 hstart hend
    exact Date.ext_ordinal (by omega)
  rw [hdate] at hstart hend
  exact List.any_eq_true.2 ⟨r, hr, decide_eq_true ⟨hdate, by dsimp only; omega, by omega, hid⟩⟩

/-- A task of a planner without other tasks. -/
def onlyTask (row : PersonalTask) : Planner :=
  (Planner.init ⟨PlannerSample.today, PlannerSample.minutes 60⟩).createTask row

/-- A task from one time of a day to another, as the first row. -/
def task (first last : Time) : PersonalTask where
  id := 1
  title := "T"
  description := none
  date := PlannerSample.today
  startTime := first
  endTime := last
  category := .secondary
  isCompleted := false
  isBreak := false
  parentTask := none

theorem insertsDue_two_hours :
    InsertsDue (onlyTask (task (PlannerSample.minutes 540) (PlannerSample.minutes 660)))
      (task (PlannerSample.minutes 540) (PlannerSample.minutes 660)) := by
  refine (insertsDue_iff _ _ (by decide)).2 (clockTells_of_ordered (by decide) (by decide) ?_)
  intro r hr hne
  obtain rfl := List.mem_singleton.1 hr
  exact absurd rfl hne

/-- The break of a task that ends at five minutes to midnight ends before it starts. -/
theorem break_wraps : ¬ ∀ (db : Planner) (t : PersonalTask),
    t.startTime.micros < t.endTime.micros → InsertsDue db t := by
  intro h
  have hdue := h (onlyTask (task (PlannerSample.minutes 1365) (PlannerSample.minutes 1435)))
    (task (PlannerSample.minutes 1365) (PlannerSample.minutes 1435)) (by decide)
  have hfree : ¬ Busy (onlyTask (task (PlannerSample.minutes 1365) (PlannerSample.minutes 1435)))
      (task (PlannerSample.minutes 1365) (PlannerSample.minutes 1435)) := by
    rintro ⟨r, hr, hne, -⟩
    obtain rfl := List.mem_singleton.1 hr
    exact hne rfl
  obtain ⟨b, hrows, hb⟩ := hdue.due ⟨rfl, by decide, by decide +kernel⟩ hfree
  have hbefore : (inserted (onlyTask (task (PlannerSample.minutes 1365)
      (PlannerSample.minutes 1435))) (task (PlannerSample.minutes 1365)
      (PlannerSample.minutes 1435))).personalTasks.rows.any
        (fun r => r.isBreak && decide (r.startTime.micros < r.endTime.micros)) = false := by
    decide +kernel
  have hlater := List.any_eq_false.1 hbefore b (by
    rw [hrows]
    exact List.mem_append_right _ List.mem_cons_self)
  rw [hb.isBreak, Bool.true_and] at hlater
  exact hlater (decide_eq_true hb.ordered)

end Breaks

end DailyScheduler
