import DailyScheduler.Lib.Chunks
import DailyScheduler.Lib.Counting
import DailyScheduler.Lib.Gregorian
import DailyScheduler.Planner.TaskViews

set_option autoImplicit false

/-! # Weeks and months

`get_date_range` of `views/analytics_views.py` and `calendar_view` of `views/personal_task_views.py`: the
only functions that know of weeks and months. They go from date to date, and the calendar ends on a
Friday in the middle of a week and of a page.
-/

namespace DailyScheduler

open Calendar

/-- `datetime(year, month, 1).date()`. -/
def dateOfFirst (year month : Int) : Except ViewError Date :=
  match Date.firstOf year month with
  | some d => .ok d
  | none => .error .valueError

/-! ## Ranges of dates -/

/-- The date with which the month after that of a date begins. -/
def firstOfNextMonth (today : Date) : Except ViewError Date :=
  if today.month = 12 then dateOfFirst (today.year + 1) 1
  else dateOfFirst today.year (today.month + 1)

/-- `get_date_range`. -/
def getDateRange (filterType : String) (today : Date) : Except ViewError (Date × Date) :=
  if filterType = "month" then do
    let startDate ← dateOfFirst today.year today.month
    let next ← firstOfNextMonth today
    let endDate ← orOverflow (next.addDays (-1))
    pure (startDate, endDate)
  else do
    let startDate ← orOverflow (today.addDays (-today.weekday))
    let endDate ← orOverflow (startDate.addDays 6)
    pure (startDate, endDate)

theorem dateOfFirst_ok {year month : Int} {d : Date} :
    dateOfFirst year month = .ok d ↔ Date.firstOf year month = some d := by
  unfold dateOfFirst
  cases Date.firstOf year month with
  | none => simp
  | some d' => simp

theorem dateOfFirst_of_valid {year month : Int}
    (h : 1 ≤ year ∧ year ≤ 9999 ∧ 1 ≤ month ∧ month ≤ 12) :
    ∃ d, dateOfFirst year month = .ok d ∧ Date.firstOf year month = some d := by
  obtain ⟨d, hd⟩ := Date.firstOf_isSome h
  exact ⟨d, dateOfFirst_ok.2 hd, hd⟩

namespace DateRange

variable (today : Date)

/-- Year and month are within those of the calendar. -/
theorem year_month_bounds : (1 ≤ (today.year : Int) ∧ (today.year : Int) ≤ 9999) ∧
    1 ≤ (today.month : Int) ∧ (today.month : Int) ≤ 12 := by
  have hlt := today.monthIndex_lt
  have hcount : monthCount = 119988 := rfl
  unfold Date.year Date.month
  omega

theorem month_eq_iff (d : Date) :
    d.year = today.year ∧ d.month = today.month ↔ d.monthIndex = today.monthIndex := by
  unfold Date.year Date.month
  omega

/-- The last month has none after it. -/
theorem firstOfNextMonth_last (h : today.year = 9999 ∧ today.month = 12) :
    firstOfNextMonth today = .error .valueError := by
  obtain ⟨hyear, hmonth⟩ := h
  unfold firstOfNextMonth dateOfFirst Date.firstOf
  rw [if_pos hmonth, hyear]
  rfl

theorem firstOfNextMonth_ok (h : ¬ (today.year = 9999 ∧ today.month = 12)) :
    ∃ next, firstOfNextMonth today = .ok next ∧
      next.ordinal = monthStart (today.monthIndex + 1) + 1 := by
  obtain ⟨hyear, hmonth⟩ := year_month_bounds today
  have hindex := today.monthIndex_eq
  unfold firstOfNextMonth
  by_cases hlast : today.month = 12
  · obtain ⟨next, hok, hsome⟩ := @dateOfFirst_of_valid (today.year + 1) 1 (by omega)
    have hk : (12 * ((today.year + 1 : Int) - 1) + (1 - 1)).toNat = today.monthIndex + 1 := by omega
    refine ⟨next, by rw [if_pos hlast, hok], ?_⟩
    rw [(Date.firstOf_eq_some.1 hsome).2, hk]
  · obtain ⟨next, hok, hsome⟩ := @dateOfFirst_of_valid today.year (today.month + 1) (by omega)
    have hk : (12 * ((today.year : Int) - 1) + ((today.month + 1 : Int) - 1)).toNat
        = today.monthIndex + 1 := by omega
    refine ⟨next, by rw [if_neg hlast, hok], ?_⟩
    rw [(Date.firstOf_eq_some.1 hsome).2, hk]

theorem firstOfMonth_ok : ∃ first, dateOfFirst today.year today.month = .ok first ∧
    first.ordinal = monthStart today.monthIndex + 1 := by
  obtain ⟨hyear, hmonth⟩ := year_month_bounds today
  obtain ⟨first, hok, hsome⟩ := @dateOfFirst_of_valid today.year today.month (by omega)
  have hindex := today.monthIndex_eq
  have hk : (12 * ((today.year : Int) - 1) + ((today.month : Int) - 1)).toNat = today.monthIndex := by
    omega
  refine ⟨first, hok, ?_⟩
  rw [(Date.firstOf_eq_some.1 hsome).2, hk]

/-- The month of `today`, while there is a month after it. -/
theorem month_range (h : ¬ (today.year = 9999 ∧ today.month = 12)) :
    ∃ first last, getDateRange "month" today = .ok (first, last) ∧
      ∀ d, first.inRange last d = true ↔ d.year = today.year ∧ d.month = today.month := by
  obtain ⟨first, hfirst, hfirstOrd⟩ := firstOfMonth_ok today
  obtain ⟨next, hnext, hnextOrd⟩ := firstOfNextMonth_ok today h
  have hlt := monthStart_lt today.monthIndex
  have hnextLe := next.le_last
  cases hend : next.addDays (-1) with
  | none =>
      unfold Date.addDays at hend
      rw [Date.ofOrdinal_eq_none] at hend
      omega
  | some last =>
      have hlastOrd := Date.addDays_eq_some.1 hend
      refine ⟨first, last, ?_, fun d => ?_⟩
      · simp [getDateRange, hfirst, hnext, hend, orOverflow, bind, Except.bind, pure, Except.pure]
      · rw [month_eq_iff, Date.monthIndex_eq_iff]
        simp only [Date.inRange, decide_eq_true_eq]
        omega

theorem month_range_last (h : today.year = 9999 ∧ today.month = 12) :
    getDateRange "month" today = .error .valueError := by
  obtain ⟨first, hfirst, -⟩ := firstOfMonth_ok today
  simp [getDateRange, hfirst, firstOfNextMonth_last today h, bind, Except.bind]

/-- The number of the week that a date is in. -/
def weekIndex (d : Date) : Int := (d.ordinal - 1) / 7

/-- The first date of its week. -/
theorem monday_ok : ∃ first, today.addDays (-today.weekday) = some first ∧
    first.ordinal = 7 * weekIndex today + 1 := by
  have hpos := today.pos
  have hle := today.le_last
  cases hfirst : today.addDays (-today.weekday) with
  | none =>
      unfold Date.addDays at hfirst
      rw [Date.ofOrdinal_eq_none] at hfirst
      unfold Date.weekday at hfirst
      omega
  | some first =>
      have hord := Date.addDays_eq_some.1 hfirst
      refine ⟨first, rfl, ?_⟩
      unfold Date.weekday at hord
      unfold weekIndex
      omega

/-- The week of `today`, for every filter but `month`, while it does not go beyond the calendar. -/
theorem week_range {filterType : String} (hfilter : filterType ≠ "month")
    (h : 7 * weekIndex today + 7 ≤ lastOrdinal) :
    ∃ first last, getDateRange filterType today = .ok (first, last) ∧
      ∀ d, first.inRange last d = true ↔ weekIndex d = weekIndex today := by
  obtain ⟨first, hfirst, hfirstOrd⟩ := monday_ok today
  cases hend : first.addDays 6 with
  | none =>
      have hpos := first.pos
      unfold Date.addDays at hend
      rw [Date.ofOrdinal_eq_none] at hend
      omega
  | some last =>
      have hlastOrd := Date.addDays_eq_some.1 hend
      refine ⟨first, last, ?_, fun d => ?_⟩
      · simp [getDateRange, hfilter, hfirst, hend, orOverflow, bind, Except.bind, pure, Except.pure]
      · simp only [Date.inRange, decide_eq_true_eq]
        unfold weekIndex at hfirstOrd ⊢
        omega

theorem week_range_last {filterType : String} (hfilter : filterType ≠ "month")
    (h : lastOrdinal < 7 * weekIndex today + 7) :
    getDateRange filterType today = .error .overflowError := by
  obtain ⟨first, hfirst, hfirstOrd⟩ := monday_ok today
  have hend : first.addDays 6 = none := by
    unfold Date.addDays
    rw [Date.ofOrdinal_eq_none]
    omega
  simp [getDateRange, hfilter, hfirst, hend, orOverflow, bind, Except.bind]

/-- **The ranges of the statistics are whole months and whole weeks**: exactly the dates of the month, or
of the week from Monday to Sunday, that today is in. In the last month, and in the last week, which is not
whole, there is no range. -/
theorem range_of_today (filterType : String) : match getDateRange filterType today with
    | .ok (first, last) => ∀ d, first.inRange last d = true ↔
        if filterType = "month" then d.year = today.year ∧ d.month = today.month
        else weekIndex d = weekIndex today
    | .error .valueError => filterType = "month" ∧ today.year = 9999 ∧ today.month = 12
    | .error .overflowError => filterType ≠ "month" ∧ weekIndex today = weekIndex Date.last
    | .error _ => False := by
  by_cases hfilter : filterType = "month"
  · subst hfilter
    by_cases hlast : today.year = 9999 ∧ today.month = 12
    · rw [month_range_last today hlast]
      exact ⟨rfl, hlast⟩
    · obtain ⟨first, last, hrange, hdates⟩ := month_range today hlast
      rw [hrange]
      exact hdates
  · by_cases hlast : 7 * weekIndex today + 7 ≤ lastOrdinal
    · obtain ⟨first, last, hrange, hdates⟩ := week_range today hfilter hlast
      rw [hrange]
      simp only [hfilter, if_false]
      exact hdates
    · rw [week_range_last today hfilter (by omega)]
      refine ⟨hfilter, ?_⟩
      have hle := today.le_last
      have hord : Date.last.ordinal = lastOrdinal := rfl
      unfold weekIndex lastOrdinal at *
      omega

end DateRange

/-! ## The page of a month -/

/-- The entry of a day in `task_counts`. -/
structure DayCount where
  total : Nat
  completed : Nat
  percentage : ℚ
  deriving DecidableEq

/-- The entry of a day. -/
def Planner.dayCount (db : Planner) (day : Date) : DayCount :=
  let total := db.personalTasks.rows.countP fun t => decide (t.date = day)
  let completed := db.personalTasks.rows.countP fun t => decide (t.date = day) && t.isCompleted
  { total := total
    completed := completed
    percentage := if total > 0 then (completed : ℚ) / total * 100 else 0 }

/-- The page: its weeks, the counts of their days, and the year and month of the pages around it. -/
structure CalendarPage where
  weeks : List (List Date)
  taskCounts : List (Date × DayCount)
  prev : Int × Int
  next : Int × Int

/-- The `while` loop: some days from a date on. After each of them it goes on to the next date. -/
def calendarDays : Nat → Date → Except ViewError (List Date)
  | 0, _ => .ok []
  | n + 1, current => do
      let next ← orOverflow (current.addDays 1)
      let rest ← calendarDays n next
      pure (current :: rest)

/-- The slices of seven days. -/
def weeksOf (days : List Date) : List (List Date) :=
  (List.range ((days.length + 6) / 7)).map fun i => (days.drop (7 * i)).take 7

/-- Whether a number is a C integer. -/
def fitsInt (n : Int) : Prop := -2147483648 ≤ n ∧ n ≤ 2147483647

instance (n : Int) : Decidable (fitsInt n) := inferInstanceAs (Decidable (_ ∧ _))

/-- `calendar_view` for a year and a month. -/
def calendarView (db : Planner) (year month : Int) : Except ViewError CalendarPage := do
  -- `datetime` takes C integers
  if ¬ (fitsInt year ∧ fitsInt month) then throw .overflowError
  let firstDay ← dateOfFirst year month
  let startOfWeek ← orOverflow (firstDay.addDays (-firstDay.weekday))
  let days ← calendarDays 42 startOfWeek
  pure
    { weeks := weeksOf days
      taskCounts := days.map fun day => (day, db.dayCount day)
      prev := if month = 1 then (year - 1, 12) else (year, month - 1)
      next := if month = 12 then (year + 1, 1) else (year, month + 1) }

theorem calendarDays_ok (n : Nat) (d : Date) (h : d.ordinal + n ≤ lastOrdinal) :
    ∃ days, calendarDays n d = .ok days ∧
      days.map Date.ordinal = (List.range n).map fun i : Nat => d.ordinal + i := by
  induction n generalizing d with
  | zero => exact ⟨[], rfl, rfl⟩
  | succ n ih =>
      cases hnext : d.addDays 1 with
      | none =>
          have hpos := d.pos
          unfold Date.addDays at hnext
          rw [Date.ofOrdinal_eq_none] at hnext
          omega
      | some next =>
          have hord := Date.addDays_eq_some.1 hnext
          obtain ⟨days, hdays, hords⟩ := ih next (by omega)
          refine ⟨d :: days, ?_, ?_⟩
          · simp [calendarDays, hnext, hdays, orOverflow, bind, Except.bind, pure, Except.pure]
          · rw [List.map_cons, hords, List.range_succ_eq_map, List.map_cons, List.map_map]
            congr 1
            · simp
            · refine List.map_congr_left fun i _ => ?_
              simp only [Function.comp_apply, hord]
              push_cast
              omega

theorem calendarDays_overflow (n : Nat) (d : Date) (h : lastOrdinal < d.ordinal + n) :
    calendarDays n d = .error .overflowError := by
  induction n generalizing d with
  | zero =>
      have hle := d.le_last
      omega
  | succ n ih =>
      cases hnext : d.addDays 1 with
      | none => simp [calendarDays, hnext, orOverflow, bind, Except.bind]
      | some next =>
          have hord := Date.addDays_eq_some.1 hnext
          have hrest := ih next (by omega)
          simp [calendarDays, hnext, hrest, orOverflow, bind, Except.bind]

/-- The date is one of the month. -/
def InMonth (year month : Int) (d : Date) : Prop := (d.year : Int) = year ∧ (d.month : Int) = month

instance (year month : Int) (d : Date) : Decidable (InMonth year month d) :=
  inferInstanceAs (Decidable (_ ∧ _))

/-- What the page of a month is for. -/
structure ShowsMonth (db : Planner) (year month : Int) (page : CalendarPage) : Prop where
  /-- Six weeks from Monday to Sunday, without a gap. -/
  weeks : ∃ start : Date, start.weekday = 0 ∧ page.weeks.map (·.map Date.ordinal)
    = (List.range 6).map fun i => (List.range 7).map fun j => start.ordinal + ((7 * i + j : Nat) : Int)
  /-- The month begins in the first of them. -/
  first : ∃ d ∈ page.weeks.headD [], InMonth year month d ∧ d.day = 1
  /-- Every date of the month is there. -/
  dates : ∀ d, InMonth year month d → d ∈ page.weeks.flatten
  /-- Each task of the month is counted on one day. -/
  counts : ((page.taskCounts.filter fun e => decide (InMonth year month e.1)).map
    fun e => e.2.total).sum = db.personalTasks.rows.countP fun t => decide (InMonth year month t.date)
  /-- The pages around it are those of the months before and after. -/
  prev : 12 * page.prev.1 + page.prev.2 + 1 = 12 * year + month ∧ 1 ≤ page.prev.2 ∧ page.prev.2 ≤ 12
  next : 12 * page.next.1 + page.next.2 = 12 * year + month + 1 ∧ 1 ≤ page.next.2 ∧ page.next.2 ≤ 12

/-! ## The days of a page -/

theorem weeksOf_eq_chunks (days : List Date) : weeksOf days = Chunks.chunks 7 days := rfl

theorem flatten_weeks (days : List Date) : (weeksOf days).flatten = days := by
  rw [weeksOf_eq_chunks]
  exact Chunks.flatten_chunks (by decide) days

/-- The days of a page: consecutive dates from `start` on. -/
structure PageDays (start : Date) (days : List Date) : Prop where
  ordinals : days.map Date.ordinal = (List.range 42).map fun i : Nat => start.ordinal + i

namespace PageDays

variable {start : Date} {days : List Date}

theorem length (h : PageDays start days) : days.length = 42 := by
  have hlength := congrArg List.length h.ordinals
  simpa using hlength

theorem weeks (h : PageDays start days) : (weeksOf days).map (·.map Date.ordinal)
    = (List.range 6).map fun i => (List.range 7).map fun j => start.ordinal + ((7 * i + j : Nat) : Int) := by
  have hslices : ∀ i ∈ List.range 6,
      ((List.range 42).drop (7 * i)).take 7 = (List.range 7).map (7 * i + ·) := by decide
  unfold weeksOf
  rw [h.length, List.map_map]
  refine List.map_congr_left fun i hi => ?_
  simp only [Function.comp_apply, List.map_take, List.map_drop, h.ordinals]
  rw [← List.map_drop, ← List.map_take, hslices i hi, List.map_map]
  rfl

theorem mem_iff (h : PageDays start days) (d : Date) :
    d ∈ days ↔ start.ordinal ≤ d.ordinal ∧ d.ordinal < start.ordinal + 42 := by
  have hmem : d ∈ days ↔ d.ordinal ∈ days.map Date.ordinal := by
    rw [List.mem_map]
    exact ⟨fun hd => ⟨d, hd, rfl⟩, fun ⟨d', hd', heq⟩ => Date.ext_ordinal heq ▸ hd'⟩
  rw [hmem, h.ordinals, List.mem_map]
  constructor
  · rintro ⟨i, hi, heq⟩
    rw [List.mem_range] at hi
    omega
  · rintro ⟨hle, hlt⟩
    exact ⟨(d.ordinal - start.ordinal).toNat, List.mem_range.2 (by omega), by omega⟩

/-- The first week begins with `start`. -/
theorem mem_first_week (h : PageDays start days) {d : Date} (hle : start.ordinal ≤ d.ordinal)
    (hlt : d.ordinal < start.ordinal + 7) : d ∈ (weeksOf days).headD [] := by
  have hhead : (weeksOf days).headD [] = days.take 7 := by
    unfold weeksOf
    rw [h.length]
    rfl
  have hords : (days.take 7).map Date.ordinal = (List.range 7).map fun i : Nat => start.ordinal + i := by
    rw [List.map_take, h.ordinals, ← List.map_take]
    rfl
  rw [hhead]
  have hmem : d.ordinal ∈ (days.take 7).map Date.ordinal := by
    rw [hords, List.mem_map]
    exact ⟨(d.ordinal - start.ordinal).toNat, List.mem_range.2 (by omega), by omega⟩
  obtain ⟨d', hd', heq⟩ := List.mem_map.1 hmem
  exact Date.ext_ordinal heq ▸ hd'

theorem nodup (h : PageDays start days) : days.Nodup := by
  apply List.Nodup.of_map Date.ordinal
  rw [h.ordinals]
  refine List.Nodup.map ?_ List.nodup_range
  intro i j hij
  have hij : start.ordinal + (i : Int) = start.ordinal + (j : Int) := hij
  omega

end PageDays

/-- A month is told by its number. -/
theorem inMonth_iff {year month : Int} (h : 1 ≤ year ∧ year ≤ 9999 ∧ 1 ≤ month ∧ month ≤ 12) (d : Date) :
    InMonth year month d ↔ d.monthIndex = (12 * (year - 1) + (month - 1)).toNat := by
  unfold InMonth Date.year Date.month
  omega

section Page

variable {year month : Int} (hvalid : 1 ≤ year ∧ year ≤ 9999 ∧ 1 ≤ month ∧ month ≤ 12)
  {first start : Date} (hfirst : Date.firstOf year month = some first)
  (hstart : start.ordinal = first.ordinal - first.weekday)
include hvalid hfirst hstart

/-- The month is on the page that begins with the week of its first. -/
theorem month_on_page {d : Date} (hd : InMonth year month d) :
    start.ordinal ≤ d.ordinal ∧ d.ordinal < start.ordinal + 42 := by
  have hrange := (Date.monthIndex_eq_iff_of_firstOf hfirst).1 ((inMonth_iff hvalid d).1 hd)
  have hlength := monthLength_bounds ((12 * (year - 1) + (month - 1)).toNat / 12 + 1)
    ((12 * (year - 1) + (month - 1)).toNat % 12 + 1)
  unfold Date.weekday at hstart
  omega

omit hvalid hfirst in
theorem start_monday : start.weekday = 0 ∧ start.ordinal ≤ first.ordinal ∧
    first.ordinal < start.ordinal + 7 := by
  unfold Date.weekday at hstart ⊢
  omega

omit hstart in
theorem first_inMonth : InMonth year month first ∧ first.day = 1 := by
  have hord := (Date.firstOf_eq_some.1 hfirst).2
  have hlt := monthStart_lt (12 * (year - 1) + (month - 1)).toNat
  have hindex : first.monthIndex = (12 * (year - 1) + (month - 1)).toNat :=
    Date.monthIndex_eq_iff.2 (by omega)
  refine ⟨(inMonth_iff hvalid first).2 hindex, ?_⟩
  unfold Date.day
  rw [hindex]
  omega

/-- The page ends within the calendar unless the month is the last one. -/
theorem page_end : start.ordinal + 42 ≤ lastOrdinal ↔ ¬ (year = 9999 ∧ month = 12) := by
  have hord := (Date.firstOf_eq_some.1 hfirst).2
  obtain ⟨-, hle, hlt⟩ := start_monday hstart
  have hlastOrd : lastOrdinal = 3652059 := rfl
  have hlast : monthStart 119987 = 3652028 := by decide
  have hbefore : monthStart 119986 = 3651998 := by decide
  by_cases hdec : year = 9999 ∧ month = 12
  · have hk : (12 * (year - 1) + (month - 1)).toNat = 119987 := by omega
    rw [hk, hlast] at hord
    omega
  · have hk : (12 * (year - 1) + (month - 1)).toNat ≤ 119986 := by omega
    have hmono := monthStart_mono hk
    omega

theorem showsMonth (db : Planner) {days : List Date} (hdays : PageDays start days) :
    ShowsMonth db year month
      { weeks := weeksOf days
        taskCounts := days.map fun day => (day, db.dayCount day)
        prev := if month = 1 then (year - 1, 12) else (year, month - 1)
        next := if month = 12 then (year + 1, 1) else (year, month + 1) } where
  weeks := ⟨start, (start_monday hstart).1, hdays.weeks⟩
  first := by
    obtain ⟨-, hle, hlt⟩ := start_monday hstart
    exact ⟨first, hdays.mem_first_week hle hlt, first_inMonth hvalid hfirst⟩
  dates := by
    intro d hd
    rw [flatten_weeks, hdays.mem_iff]
    exact month_on_page hvalid hfirst hstart hd
  counts := by
    have hkeys := (hdays.nodup).filter fun d => decide (InMonth year month d)
    calc _ = ((days.filter fun d => decide (InMonth year month d)).map fun day =>
          db.personalTasks.rows.countP fun t => decide (t.date = day)).sum := by
            rw [List.filter_map, List.map_map]
            rfl
      _ = db.personalTasks.rows.countP fun t =>
          decide (t.date ∈ days.filter fun d => decide (InMonth year month d)) :=
            Counting.sum_countP PersonalTask.date _ hkeys
      _ = _ := by
            refine List.countP_congr fun t _ => ?_
            simp only [decide_eq_true_eq, List.mem_filter]
            refine ⟨And.right, fun ht => ⟨?_, ht⟩⟩
            rw [hdays.mem_iff]
            exact month_on_page hvalid hfirst hstart ht
  prev := by
    dsimp only
    split
    · omega
    · omega
  next := by
    dsimp only
    split
    · omega
    · omega

end Page

/-- **The page of a month shows the whole month** in six weeks from Monday to Sunday, and counts each of
its tasks on one day. A page beyond the calendar, and that of its last month, is an error. -/
theorem calendar_page (db : Planner) (year month : Int) : match calendarView db year month with
    | .ok page => ShowsMonth db year month page
    | .error .valueError => ¬ (1 ≤ year ∧ year ≤ 9999 ∧ 1 ≤ month ∧ month ≤ 12)
    | .error .overflowError => year = 9999 ∧ month = 12 ∨ ¬ (fitsInt year ∧ fitsInt month)
    | .error _ => False := by
  by_cases hfits : fitsInt year ∧ fitsInt month
  · by_cases hvalid : 1 ≤ year ∧ year ≤ 9999 ∧ 1 ≤ month ∧ month ≤ 12
    · obtain ⟨first, hfirst, hsome⟩ := dateOfFirst_of_valid hvalid
      obtain ⟨start, hstart, -⟩ := DateRange.monday_ok first
      have hord : start.ordinal = first.ordinal - first.weekday := by
        rw [Date.addDays_eq_some.1 hstart]
        omega
      have hend := page_end hvalid hsome hord
      by_cases hlast : year = 9999 ∧ month = 12
      · have hdays := calendarDays_overflow 42 start (by omega)
        have hview : calendarView db year month = .error .overflowError := by
          simp [calendarView, hfits, hfirst, hstart, hdays, orOverflow, bind, Except.bind]
        rw [hview]
        exact .inl hlast
      · obtain ⟨days, hdays, hords⟩ := calendarDays_ok 42 start (by omega)
        have hview : calendarView db year month = .ok
            { weeks := weeksOf days
              taskCounts := days.map fun day => (day, db.dayCount day)
              prev := if month = 1 then (year - 1, 12) else (year, month - 1)
              next := if month = 12 then (year + 1, 1) else (year, month + 1) } := by
          simp [calendarView, hfits, hfirst, hstart, hdays, orOverflow, bind, Except.bind, pure,
            Except.pure]
        rw [hview]
        exact showsMonth hvalid hsome hord db ⟨hords⟩
    · have hfirst : dateOfFirst year month = .error .valueError := by
        unfold dateOfFirst Date.firstOf
        rw [if_neg hvalid]
      have hview : calendarView db year month = .error .valueError := by
        simp [calendarView, hfits, hfirst, bind, Except.bind]
      rw [hview]
      exact hvalid
  · have hview : calendarView db year month = .error .overflowError := by
      simp [calendarView, hfits, bind, Except.bind]
      rfl
    rw [hview]
    exact .inr hfits

end DailyScheduler
