import DailyScheduler.Planner.Records
import Mathlib.Algebra.BigOperators.Group.List.Basic
import Mathlib.Data.Rat.Defs

set_option autoImplicit false

/-! # Completion statistics

`views/analytics_views.py`: the totals of a range of dates and the series with one entry per
date, for tasks, subtasks and prayers. Each of the six functions counts the rows of a table that
belong to a range or to a date; the main result is that the series partition the range.
-/

namespace DailyScheduler

open Calendar

/-- What a statistics function returns for a range. -/
structure CompletionStats where
  completed : Nat
  incomplete : Int
  total : Nat
  percentage : ℚ
  deriving DecidableEq

/-- An entry of a daily series. -/
structure DailyStats extends CompletionStats where
  date : Date
  day : String
  deriving DecidableEq

/-- The statistics of `total` rows of which `completed` are completed. -/
def CompletionStats.of (completed total : Nat) : CompletionStats where
  completed := completed
  incomplete := (total : Int) - completed
  total := total
  percentage := if total > 0 then (completed : ℚ) / total * 100 else 0

/-- The entry of a date. -/
def CompletionStats.on (s : CompletionStats) (d : Date) : DailyStats :=
  { s with date := d, day := d.dayName }

/-- The loop of the daily functions from the date `current` on: one entry for each date up to
`last`, then the next date. After the last date of the calendar there is no next one. -/
def dailySeries (entry : Date → CompletionStats) (last current : Date) :
    Except ViewError (List DailyStats) :=
  if current.ordinal ≤ last.ordinal then
    match _h : current.addDays 1 with
    | none => .error .overflowError
    | some next =>
        (dailySeries entry last next).map fun l => (entry current).on current :: l
  else .ok []
termination_by (last.ordinal + 1 - current.ordinal).toNat
decreasing_by
  have hnext := Date.addDays_eq_some.1 _h
  omega

namespace Planner

/-! ## Tasks -/

/-- `if category: tasks_query.filter(category=category)`. -/
def inCategory (category : Option TaskCategory) (t : PersonalTask) : Bool :=
  match category with
  | none => true
  | some c => decide (t.category = c)

def calculateCompletionStats (db : Planner) (startDate endDate : Date)
    (category : Option TaskCategory) : CompletionStats :=
  let tasksQuery := (db.personalTasks.rows.filter fun t => startDate.inRange endDate t.date).filter
    (inCategory category)
  .of (tasksQuery.filter (·.isCompleted)).length tasksQuery.length

/-- The entry of `get_daily_stats` for a date. -/
def dailyCompletion (db : Planner) (category : Option TaskCategory) (current : Date) :
    CompletionStats :=
  let tasksQuery := (db.personalTasks.rows.filter fun t => decide (t.date = current)).filter
    (inCategory category)
  .of (tasksQuery.filter (·.isCompleted)).length tasksQuery.length

def getDailyStats (db : Planner) (startDate endDate : Date) (category : Option TaskCategory) :
    Except ViewError (List DailyStats) :=
  dailySeries (db.dailyCompletion category) endDate startDate

/-! ## Subtasks -/

/-- `SubTask.objects.filter(personal_task__in=tasks)`. -/
def subTasksOf (db : Planner) (tasks : List PersonalTask) : List SubTask :=
  db.subTasks.rows.filter fun s => decide (s.personalTask ∈ tasks.map PersonalTask.id)

def calculateSubtaskCompletionStats (db : Planner) (startDate endDate : Date) : CompletionStats :=
  let tasks := db.personalTasks.rows.filter fun t => startDate.inRange endDate t.date
  let subtasks := db.subTasksOf tasks
  .of (subtasks.filter (·.isCompleted)).length subtasks.length

/-- The entry of `get_daily_subtask_stats` for a date. -/
def dailySubtaskCompletion (db : Planner) (current : Date) : CompletionStats :=
  let tasks := db.personalTasks.rows.filter fun t => decide (t.date = current)
  let subtasks := db.subTasksOf tasks
  .of (subtasks.filter (·.isCompleted)).length subtasks.length

def getDailySubtaskStats (db : Planner) (startDate endDate : Date) :
    Except ViewError (List DailyStats) :=
  dailySeries db.dailySubtaskCompletion endDate startDate

/-! ## Prayers -/

def calculatePrayerCompletionStats (db : Planner) (startDate endDate : Date) : CompletionStats :=
  let prayers := db.prayerCompletions.rows.filter fun p => startDate.inRange endDate p.date
  .of (prayers.filter (·.isCompleted)).length prayers.length

/-- The entry of `get_daily_prayer_stats` for a date. -/
def dailyPrayerCompletion (db : Planner) (current : Date) : CompletionStats :=
  let prayers := db.prayerCompletions.rows.filter fun p => decide (p.date = current)
  .of (prayers.filter (·.isCompleted)).length prayers.length

def getDailyPrayerStats (db : Planner) (startDate endDate : Date) :
    Except ViewError (List DailyStats) :=
  dailySeries db.dailyPrayerCompletion endDate startDate

end Planner

/-! ## Series and totals -/

/-- The statistics of the rows whose date is in a set. -/
def tally {β : Type} (rows : List β) (date : β → Option Date) (completed : β → Bool)
    (dates : Date → Bool) : CompletionStats :=
  .of (rows.countP fun r => (date r).any dates && completed r)
    (rows.countP fun r => (date r).any dates)

/-- A series has one entry for each date from `first` to `last`, and its sums are the totals. -/
def Agrees (series : Except ViewError (List DailyStats)) (stats : CompletionStats)
    (first last : Date) : Prop :=
  ∃ l, series = .ok l ∧
    (l.map (·.date)).Nodup ∧
    (∀ d, d ∈ l.map (·.date) ↔ first.ordinal ≤ d.ordinal ∧ d.ordinal ≤ last.ordinal) ∧
    (l.map (·.completed)).sum = stats.completed ∧
    (l.map (·.incomplete)).sum = stats.incomplete ∧
    (l.map (·.total)).sum = stats.total

section

variable {β : Type} (rows : List β) (date : β → Option Date) (completed : β → Bool)

/-- The rows of a range are those of its first date and those of the rest. -/
theorem countP_range {first next last : Date} (hnext : first.addDays 1 = some next)
    (h : first.ordinal ≤ last.ordinal) (p : β → Bool) :
    rows.countP (fun r => (date r).any (first.inRange last) && p r)
      = rows.countP (fun r => (date r).any (fun d => decide (d = first)) && p r)
        + rows.countP (fun r => (date r).any (next.inRange last) && p r) := by
  have hord := Date.addDays_eq_some.1 hnext
  induction rows with
  | nil => rfl
  | cons r rows ih =>
      rw [List.countP_cons, List.countP_cons, List.countP_cons, ih]
      cases hr : date r with
      | none => simp
      | some d =>
          have hsplit := Date.inRange_eq hnext h d
          -- no date is both the first one and in the rest
          have hnot : d = first → next.inRange last d = false := by
            rintro rfl
            simp only [Date.inRange, decide_eq_false_iff_not]
            omega
          simp only [Option.any_some, hsplit]
          by_cases hd : d = first
          · have hno := hnot hd
            subst hd
            simp only [hno, decide_true, Bool.true_or, Bool.true_and, Bool.false_and,
              Bool.false_eq_true, if_false]
            omega
          · simp only [hd, decide_false, Bool.false_or, Bool.false_and, Bool.false_eq_true, if_false]
            omega

/-- The dates of a series are exactly those of its range, and its sums are those of the range's
rows. -/
theorem dailySeries_agrees {entry : Date → CompletionStats} {last : Date}
    (hentry : ∀ d, entry d = tally rows date completed fun d' => decide (d' = d))
    (hlast : last.ordinal < lastOrdinal) (first : Date) :
    Agrees (dailySeries entry last first) (tally rows date completed (first.inRange last)) first
      last := by
  induction first using dailySeries.induct last with
  | case1 first h hnone =>
      -- the loop is not past `last`, so there is a next date
      have hover := Date.ofOrdinal_eq_none.1 hnone
      have hpos := first.pos
      omega
  | case2 first h next hnext ih =>
      obtain ⟨l, hl, hnodup, hmem, hcompleted, hincomplete, htotal⟩ := ih
      have hord := Date.addDays_eq_some.1 hnext
      have hc := countP_range rows date hnext h completed
      have ht := countP_range rows date hnext h fun _ => true
      simp only [Bool.and_true] at ht
      refine ⟨(entry first).on first :: l, ?_, ?_, fun d => ?_, ?_, ?_, ?_⟩
      · rw [dailySeries, if_pos h]
        split
        · rename_i hnone
          rw [hnext] at hnone
          cases hnone
        · rename_i next' hnext'
          rw [hnext] at hnext'
          cases hnext'
          rw [hl, Except.map]
      · refine List.nodup_cons.2 ⟨fun hin => ?_, hnodup⟩
        have hlow := ((hmem first).1 hin).1
        omega
      · have hfirst : d = first ↔ d.ordinal = first.ordinal :=
          ⟨congrArg Date.ordinal, Date.ext_ordinal⟩
        rw [List.map_cons, List.mem_cons, hmem d]
        show d = first ∨ _ ↔ _
        rw [hfirst]
        omega
      · rw [List.map_cons, List.sum_cons, hcompleted, hentry]
        exact hc.symm
      · rw [List.map_cons, List.sum_cons, hincomplete, hentry]
        simp only [tally, CompletionStats.of, CompletionStats.on] at hc ht ⊢
        omega
      · rw [List.map_cons, List.sum_cons, htotal, hentry]
        exact ht.symm
  | case3 first h =>
      refine ⟨[], ?_, List.nodup_nil, fun d => ?_, ?_, ?_, ?_⟩
      · rw [dailySeries, if_neg h]
      · simp only [List.map_nil, List.not_mem_nil, false_iff]
        omega
      all_goals
        have hempty : ∀ d, first.inRange last d = false := by
          intro d
          simp only [Date.inRange, decide_eq_false_iff_not]
          omega
        simp [tally, CompletionStats.of, funext hempty]

/-- Counting the selected rows is a tally. -/
theorem of_selected {rows : List β} {date : β → Option Date} {dates : Date → Bool}
    {selected : List β} (h : selected = rows.filter fun r => (date r).any dates) :
    CompletionStats.of (selected.filter completed).length selected.length
      = tally rows date completed dates := by
  subst h
  rw [tally, List.countP_eq_length_filter, List.countP_eq_length_filter, List.filter_filter]
  simp only [Bool.and_comm]

end

namespace Planner

variable (db : Planner)

/-! ## The three statistics are tallies -/

/-- The rows `tasks_query` selects when its dates are in a set. -/
theorem tasksQuery_eq (category : Option TaskCategory) (dates : Date → Bool) :
    (db.personalTasks.rows.filter fun t => dates t.date).filter (inCategory category)
      = (db.personalTasks.rows.filter (inCategory category)).filter
          fun t => (some t.date).any dates := by
  rw [List.filter_filter, List.filter_filter]
  simp only [Option.any_some, Bool.and_comm]

/-- The date of a subtask is that of its task. -/
def subTaskDate (s : SubTask) : Option Date := (db.personalTasks.find? s.personalTask).map (·.date)

theorem subTasksOf_eq (dates : Date → Bool) :
    db.subTasksOf (db.personalTasks.rows.filter fun t => dates t.date)
      = db.subTasks.rows.filter fun s => (db.subTaskDate s).any dates := by
  refine List.filter_congr fun s _ => ?_
  rewrite [Bool.eq_iff_iff, decide_eq_true_eq, Table.mem_map_key_filter, subTaskDate, Option.any_map]
  exact Iff.rfl

theorem getDailyStats_agrees {first last : Date} (h : last.ordinal < lastOrdinal)
    (category : Option TaskCategory) :
    Agrees (db.getDailyStats first last category) (db.calculateCompletionStats first last category)
      first last := by
  have htotal := of_selected (·.isCompleted) (db.tasksQuery_eq category (first.inRange last))
  have hentry := fun d => of_selected (·.isCompleted)
    (db.tasksQuery_eq category fun d' => decide (d' = d))
  rw [calculateCompletionStats, htotal]
  exact dailySeries_agrees _ _ _ hentry h first

theorem getDailySubtaskStats_agrees {first last : Date} (h : last.ordinal < lastOrdinal) :
    Agrees (db.getDailySubtaskStats first last) (db.calculateSubtaskCompletionStats first last)
      first last := by
  have htotal := of_selected (·.isCompleted) (db.subTasksOf_eq (first.inRange last))
  have hentry := fun d => of_selected (·.isCompleted) (db.subTasksOf_eq fun d' => decide (d' = d))
  rw [calculateSubtaskCompletionStats, htotal]
  exact dailySeries_agrees _ _ _ hentry h first

theorem getDailyPrayerStats_agrees {first last : Date} (h : last.ordinal < lastOrdinal) :
    Agrees (db.getDailyPrayerStats first last) (db.calculatePrayerCompletionStats first last)
      first last := by
  have hselect : ∀ dates : Date → Bool,
      (db.prayerCompletions.rows.filter fun p => dates p.date)
        = db.prayerCompletions.rows.filter fun p => (some p.date).any dates := fun _ => rfl
  have htotal := of_selected (·.isCompleted) (hselect (first.inRange last))
  have hentry := fun d => of_selected (·.isCompleted) (hselect fun d' => decide (d' = d))
  rw [calculatePrayerCompletionStats, htotal]
  exact dailySeries_agrees _ _ _ hentry h first

/-- The daily series of a range agree with its totals. -/
def SeriesAgree (first last : Date) : Prop :=
  (∀ category, Agrees (db.getDailyStats first last category)
    (db.calculateCompletionStats first last category) first last) ∧
  Agrees (db.getDailySubtaskStats first last) (db.calculateSubtaskCompletionStats first last)
    first last ∧
  Agrees (db.getDailyPrayerStats first last) (db.calculatePrayerCompletionStats first last)
    first last

/-- **Series and totals agree** for every range that ends before the last date of the
calendar. -/
theorem seriesAgree_of_lt {first last : Date} (h : last.ordinal < lastOrdinal) :
    db.SeriesAgree first last :=
  ⟨db.getDailyStats_agrees h, db.getDailySubtaskStats_agrees h, db.getDailyPrayerStats_agrees h⟩

end Planner

theorem one_le_firstOrdinal : (1 : Int) ≤ 1 := le_refl 1

theorem firstOrdinal_le : (1 : Int) ≤ lastOrdinal := by decide

/-- The first date of the calendar. -/
def firstDate : Date := ⟨1, one_le_firstOrdinal, firstOrdinal_le⟩

/-- A planner without rows. -/
def emptyPlanner : Planner := .init ⟨firstDate, timeOf 0⟩

/-- The series of one date, with no rows at all. -/
theorem init_seriesAgree : emptyPlanner.SeriesAgree firstDate firstDate :=
  Planner.seriesAgree_of_lt _ (by decide)

/-- The loop of a series that ends with the last date of the calendar asks for the next date. -/
theorem dailySeries_last (entry : Date → CompletionStats) :
    dailySeries entry Date.last Date.last = .error .overflowError := by
  have hnone : Date.last.addDays 1 = none := Date.ofOrdinal_eq_none.2 (.inr (by decide))
  rw [dailySeries, if_pos (Int.le_refl _)]
  split
  · rfl
  · rename_i next hnext
    rw [hnone] at hnext
    cases hnext

/-- A range of one day, the last of the calendar, has no series. -/
theorem not_seriesAgree_last :
    ¬ ∀ (db : Planner) (first last : Date), first.ordinal ≤ last.ordinal →
      db.SeriesAgree first last := by
  intro h
  obtain ⟨l, hl, -⟩ := (h emptyPlanner Date.last Date.last (Int.le_refl _)).1 none
  rw [Planner.getDailyStats, dailySeries_last] at hl
  cases hl

end DailyScheduler
