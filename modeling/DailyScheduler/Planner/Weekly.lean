import DailyScheduler.Planner.Plan
import DailyScheduler.Planner.Sample
import Mathlib.Data.List.Range
import Mathlib.Order.Bounds.Basic

set_option autoImplicit false

/-! # The weeks of a schedule

The loop of `generate_schedule` looks for the next date with the schedule's day of the week, from the
start of the project on and then from the day after each session on. So its sessions are a week apart,
from the first such date on, until the project ends or enough weeks have passed; each of them becomes
a task or a conflict.
-/

namespace DailyScheduler

open AtomicProg Calendar

/-! ## The dates -/

/-- The day of the week of the date with a number, 0 for Monday. -/
def weekdayOf (n : Int) : Int := (n + 6) % 7

section Dates

variable (p : Project) (s : ProjectSchedule)

/-- The number of the first date of a schedule. -/
def firstOrdinal : Int := p.startDate.ordinal + (s.dayOfWeek - p.startDate.weekday) % 7

/-- The number of the date a week `k` times later. -/
def sessionOrdinal (k : Nat) : Int := firstOrdinal p s + 7 * k

/-- `current_date` when `week_count` is `k`. -/
def roundStart : Nat → Int
  | 0 => p.startDate.ordinal
  | k + 1 => sessionOrdinal p s k + 1

/-- The dates of the rounds from `k` on. -/
def visitedFrom (k rounds : Nat) : List Int :=
  ((List.range' k rounds).map (sessionOrdinal p s)).filter fun n => n ≤ p.endDate.ordinal

/-- The dates of all rounds. -/
def visited : List Int :=
  ((List.range s.weeks).map (sessionOrdinal p s)).filter fun n => n ≤ p.endDate.ordinal

/-- No date of the round `k` is beyond the calendar, nor the end of its session. -/
structure RoundFits (k : Nat) : Prop where
  target : sessionOrdinal p s k ≤ lastOrdinal
  session : sessionOrdinal p s k ≤ p.endDate.ordinal →
    ∃ length, timedeltaHours s.durationHours = .ok length ∧
      ∀ d : Date, d.ordinal = sessionOrdinal p s k →
        ∃ i, (DateTime.mk d s.startTime).add length = some i
  next : sessionOrdinal p s k ≤ p.endDate.ordinal → sessionOrdinal p s k + 1 ≤ lastOrdinal

/-- No date of the loop is beyond the calendar. -/
def InCalendar : Prop :=
  ∀ k < s.weeks, roundStart p s k ≤ p.endDate.ordinal → RoundFits p s k

/-- The first date with the schedule's day of the week, from the start of the project on. -/
theorem isLeast_firstOrdinal :
    IsLeast {n | p.startDate.ordinal ≤ n ∧ weekdayOf n = s.dayOfWeek % 7} (firstOrdinal p s) := by
  unfold firstOrdinal weekdayOf Date.weekday
  constructor
  · constructor <;> omega
  · rintro n ⟨hle, hday⟩
    omega

theorem sessionOrdinal_lt {j k : Nat} (h : j < k) : sessionOrdinal p s j < sessionOrdinal p s k := by
  unfold sessionOrdinal
  omega

/-- The dates are in order, and none occurs twice. -/
theorem visited_sorted : (visited p s).Pairwise (· < ·) := by
  refine List.Pairwise.filter _ (List.pairwise_map.2 ?_)
  exact List.pairwise_lt_range.imp fun h => sessionOrdinal_lt p s h

theorem visited_eq : visited p s = visitedFrom p s 0 s.weeks := by
  unfold visited visitedFrom
  rw [List.range_eq_range']

theorem visitedFrom_succ {k : Nat} (rounds : Nat) (h : sessionOrdinal p s k ≤ p.endDate.ordinal) :
    visitedFrom p s k (rounds + 1) = sessionOrdinal p s k :: visitedFrom p s (k + 1) rounds := by
  unfold visitedFrom
  rw [List.range'_succ, List.map_cons, List.filter_cons, if_pos (decide_eq_true h)]

/-- After the end of the project no date is left. -/
theorem visitedFrom_of_lt {k : Nat} (rounds : Nat) (h : p.endDate.ordinal < sessionOrdinal p s k) :
    visitedFrom p s k rounds = [] := by
  refine List.filter_eq_nil_iff.2 fun n hn => ?_
  obtain ⟨j, hj, rfl⟩ := List.mem_map.1 hn
  have hle : k ≤ j := (List.mem_range'_1.1 hj).1
  have hlater : sessionOrdinal p s k ≤ sessionOrdinal p s j := by
    unfold sessionOrdinal
    omega
  simp only [decide_eq_true_eq, not_le]
  omega

/-- A round does not start after its date. -/
theorem roundStart_le (k : Nat) : roundStart p s k ≤ sessionOrdinal p s k := by
  cases k with
  | zero =>
      have hfirst := (isLeast_firstOrdinal p s).1.1
      show p.startDate.ordinal ≤ firstOrdinal p s + 7 * (0 : Nat)
      omega
  | succ k =>
      show firstOrdinal p s + 7 * k + 1 ≤ firstOrdinal p s + 7 * (k + 1 : Nat)
      omega

theorem lt_roundStart {j k : Nat} (h : j < k) : sessionOrdinal p s j < roundStart p s k := by
  cases k with
  | zero => omega
  | succ k =>
      show firstOrdinal p s + 7 * j < firstOrdinal p s + 7 * k + 1
      omega

theorem roundStart_mono {j k : Nat} (h : j ≤ k) : roundStart p s j ≤ roundStart p s k := by
  rcases h.lt_or_eq with hlt | rfl
  · exact (roundStart_le p s j).trans (lt_roundStart p s hlt).le
  · exact le_rfl

/-- The offset from the start of a round: after the first round it is never zero. -/
theorem targetDate_eq {k : Nat} {current : Date} (h : current.ordinal = roundStart p s k) :
    targetDate p s current = orOverflow (Date.ofOrdinal (sessionOrdinal p s k)) := by
  have hfirst := (isLeast_firstOrdinal p s).1
  obtain ⟨hle, hday⟩ := hfirst
  unfold weekdayOf at hday
  unfold targetDate Date.addDays Date.weekday
  cases k with
  | zero =>
      have hstart : current = p.startDate := Date.ext_ordinal h
      have hsame : ¬ ((s.dayOfWeek - (current.ordinal + 6) % 7) % 7 = 0 ∧ current ≠ p.startDate) :=
        fun hne => hne.2 hstart
      rw [if_neg hsame, hstart]
      unfold sessionOrdinal firstOrdinal Date.weekday
      rw [Int.natCast_zero, Int.mul_zero, Int.add_zero]
  | succ k =>
      have hcurrent : current.ordinal = firstOrdinal p s + 7 * k + 1 := h
      have hsix : (s.dayOfWeek - (current.ordinal + 6) % 7) % 7 = 6 := by omega
      rw [hsix, if_neg (fun hne => absurd hne.1 (by decide)), hcurrent]
      have hsum : firstOrdinal p s + 7 * k + 1 + 6 = sessionOrdinal p s (k + 1) := by
        unfold sessionOrdinal
        omega
      rw [hsum]

end Dates

/-! ## The rounds -/

section Rounds

variable {p : Project} {s : ProjectSchedule} (t : ProjectTask)

theorem sessionOn_ok {d : Date} {length : Int} {i : DateTime}
    (hlength : timedeltaHours s.durationHours = .ok length)
    (hadd : (DateTime.mk d s.startTime).add length = some i) :
    sessionOn t s d = .ok ⟨d, s.startTime, i.time, length, t⟩ := by
  unfold sessionOn
  simp only [hlength, hadd, bind, Except.bind, orOverflow, pure, Except.pure]

theorem sessionOn_inv {d : Date} {session : Session} (h : sessionOn t s d = .ok session) :
    ∃ length i, timedeltaHours s.durationHours = .ok length ∧
      (DateTime.mk d s.startTime).add length = some i := by
  unfold sessionOn at h
  cases hlength : timedeltaHours s.durationHours with
  | error x =>
      rw [hlength] at h
      cases h
  | ok length =>
      cases hadd : (DateTime.mk d s.startTime).add length with
      | none =>
          simp only [hlength, hadd, bind, Except.bind, orOverflow] at h
          cases h
      | some i => exact ⟨length, i, rfl, hadd⟩

/-- One session for each date that is left. -/
theorem weeksPlan_of_fits (rounds : Nat) {k : Nat} {current : Date}
    (hcurrent : current.ordinal = roundStart p s k)
    (hfits : ∀ j, k ≤ j → j < k + rounds → roundStart p s j ≤ p.endDate.ordinal → RoundFits p s j) :
    ∃ sessions : List Session,
      weeksPlan p t s rounds current = (sessions.map GenerateStep.session, none) ∧
      sessions.map (·.date.ordinal) = visitedFrom p s k rounds := by
  induction rounds generalizing k current with
  | zero => exact ⟨[], rfl, rfl⟩
  | succ rounds ih =>
      unfold weeksPlan
      have hbefore := roundStart_le p s k
      by_cases hend : current.ordinal ≤ p.endDate.ordinal
      · rw [if_pos hend]
        have hfit := hfits k le_rfl (by omega) (hcurrent ▸ hend)
        have hpos := p.startDate.pos
        have hleast := (isLeast_firstOrdinal p s).1.1
        have hone : 1 ≤ sessionOrdinal p s k := by
          unfold sessionOrdinal
          omega
        let target : Date := ⟨sessionOrdinal p s k, hone, hfit.target⟩
        have htarget : targetDate p s current = .ok target := by
          rw [targetDate_eq p s hcurrent, Date.ofOrdinal_eq_some.2 (show target.ordinal = _ from rfl)]
          rfl
        rw [htarget]
        dsimp only
        by_cases hlast : target.ordinal > p.endDate.ordinal
        · rw [if_pos hlast, visitedFrom_of_lt p s _ hlast]
          exact ⟨[], rfl, rfl⟩
        · rw [if_neg hlast]
          push Not at hlast
          obtain ⟨length, hlength, hadd⟩ := hfit.session hlast
          obtain ⟨i, hi⟩ := hadd target rfl
          let next : Date := ⟨sessionOrdinal p s k + 1, by omega, hfit.next hlast⟩
          have hnext : target.addDays 1 = some next := Date.addDays_eq_some.2 rfl
          obtain ⟨sessions, hplan, hdates⟩ := @ih (k + 1) next rfl fun j hle hlt hstart =>
            hfits j (by omega) (by omega) hstart
          rw [sessionOn_ok t hlength hi, hnext, visitedFrom_succ p s rounds hlast, ← hdates]
          refine ⟨⟨target, s.startTime, i.time, length, t⟩ :: sessions, ?_, rfl⟩
          show (Plan.step _).andThen (weeksPlan p t s rounds next) = _
          rw [hplan]
          rfl
      · rw [if_neg hend]
        have hlast : p.endDate.ordinal < sessionOrdinal p s k := by omega
        rw [visitedFrom_of_lt p s _ hlast]
        exact ⟨[], rfl, rfl⟩

/-- The exceptions of the loop are those of its dates. -/
theorem fits_of_weeksPlan (rounds : Nat) {k : Nat} {current : Date}
    (hcurrent : current.ordinal = roundStart p s k) (hok : (weeksPlan p t s rounds current).2 = none)
    {j : Nat} (hle : k ≤ j) (hlt : j < k + rounds) (hstart : roundStart p s j ≤ p.endDate.ordinal) :
    RoundFits p s j := by
  induction rounds generalizing k current with
  | zero => omega
  | succ rounds ih =>
      unfold weeksPlan at hok
      have hmono := roundStart_mono p s hle
      rw [if_pos (by omega)] at hok
      rw [targetDate_eq p s hcurrent] at hok
      cases htarget : Date.ofOrdinal (sessionOrdinal p s k) with
      | none =>
          rw [htarget] at hok
          cases hok
      | some target =>
          have hordinal := Date.ofOrdinal_eq_some.1 htarget
          have hlast := target.le_last
          rw [htarget] at hok
          dsimp only [orOverflow] at hok
          by_cases hend : target.ordinal > p.endDate.ordinal
          · -- the round `k` is the last one
            rcases hle.lt_or_eq with hlater | rfl
            · have hafter := lt_roundStart p s hlater
              omega
            · exact ⟨by omega, fun h => absurd h (by omega), fun h => absurd h (by omega)⟩
          · rw [if_neg hend] at hok
            cases hsession : sessionOn t s target with
            | error x =>
                rw [hsession] at hok
                cases hok
            | ok session =>
                obtain ⟨length, i, hlength, hi⟩ := sessionOn_inv t hsession
                rw [hsession] at hok
                cases hnext : target.addDays 1 with
                | none =>
                    rw [hnext] at hok
                    cases hok
                | some next =>
                    have hafter := Date.addDays_eq_some.1 hnext
                    have hlast' := next.le_last
                    rcases hle.lt_or_eq with hlater | rfl
                    · rw [hnext] at hok
                      refine @ih (k + 1) next ?_ hok (by omega) (by omega)
                      rw [hafter, hordinal]
                      rfl
                    · refine ⟨by omega, fun _ => ⟨length, hlength, fun d hd => ⟨i, ?_⟩⟩,
                        fun _ => by omega⟩
                      have hsame : d = target := Date.ext_ordinal (hd.trans hordinal.symm)
                      rw [hsame]
                      exact hi

/-- The loop raises an exception exactly when one of its dates is beyond the calendar. -/
theorem inCalendar_iff : InCalendar p s ↔ (weeksPlan p t s s.weeks p.startDate).2 = none := by
  constructor
  · intro h
    obtain ⟨sessions, hplan, -⟩ := @weeksPlan_of_fits p s t s.weeks 0 p.startDate rfl
      fun j _ hlt hstart => h j (by omega) hstart
    rw [hplan]
  · intro h k hk hstart
    exact fits_of_weeksPlan t s.weeks (k := 0) rfl h (Nat.zero_le k) (by omega) hstart

end Rounds

/-! ## What the rounds leave -/

/-- Each session has become a task or is reported as a conflict, in their order. -/
inductive Yields (p : Project) : List Session → List PersonalTask → List Conflict → Prop where
  | nil : Yields p [] [] []
  | created {s : Session} {l : List Session} {rows : List PersonalTask} {conflicts : List Conflict}
      (k : Nat) : Yields p l rows conflicts →
      Yields p (s :: l) ({ s.row p with id := k } :: rows) conflicts
  | conflict {s : Session} {l : List Session} {rows : List PersonalTask} {conflicts : List Conflict} :
      Yields p l rows conflicts → Yields p (s :: l) rows (s.conflict :: conflicts)

section Yields

variable {p : Project} {s : ProjectSchedule}

/-- As many tasks and conflicts on a date as there are sessions on it. -/
theorem Yields.count {l : List Session} {rows : List PersonalTask} {conflicts : List Conflict}
    (h : Yields p l rows conflicts) (n : Int) :
    (rows.map (·.date.ordinal)).count n + (conflicts.map (·.date.ordinal)).count n
      = (l.map (·.date.ordinal)).count n := by
  induction h with
  | nil => rfl
  | @created s l rows conflicts k h ih =>
      have hdate : (s.row p).date = s.date := rfl
      simp only [List.map_cons, List.count_cons, hdate]
      omega
  | @conflict s l rows conflicts h ih =>
      have hdate : s.conflict.date = s.date := rfl
      simp only [List.map_cons, List.count_cons, hdate]
      omega

/-- The tasks, conflicts and the counter after some sessions. -/
structure Booked (p : Project) (l : List Session) (rows : List PersonalTask)
    (conflicts : List Conflict) (g g' : Progress) : Prop where
  yields : Yields p l rows conflicts
  created : g'.acc.created = g.acc.created + rows.length
  tasks : g'.db.personalTasks.rows = g.db.personalTasks.rows ++ rows
  reported : g'.acc.conflicts = g.acc.conflicts ++ conflicts

theorem booked_foldl (l : List Session) (g : Progress) :
    ∃ rows conflicts, Booked p l rows conflicts g
      ((l.map GenerateStep.session).foldl (Progress.perform p) g) := by
  induction l generalizing g with
  | nil => exact ⟨[], [], .nil, rfl, by simp, by simp⟩
  | cons session l ih =>
      obtain ⟨rows, conflicts, hyields, hcreated, hrows, hconflicts⟩ :=
        ih (g.perform p (.session session))
      by_cases hc : g.db.conflicting session
      · have hstep : g.perform p (.session session)
            = { g with acc := { g.acc with conflicts := g.acc.conflicts ++ [session.conflict] } } :=
          if_pos hc
        refine ⟨rows, session.conflict :: conflicts, hyields.conflict, ?_, ?_, ?_⟩
        · exact hcreated.trans (by rw [hstep])
        · exact hrows.trans (by rw [hstep])
        · refine hconflicts.trans ?_
          rw [hstep, List.append_assoc]
          rfl
      · have hstep : g.perform p (.session session)
            = { db := g.db.createTask (session.row p)
                events := g.events ++ [.session g.db.personalTasks.next session.length]
                acc := { g.acc with created := g.acc.created + 1 } } := if_neg hc
        refine ⟨_ :: rows, conflicts, hyields.created g.db.personalTasks.next, ?_, ?_, ?_⟩
        · refine hcreated.trans ?_
          rw [hstep]
          show g.acc.created + 1 + rows.length = g.acc.created + (rows.length + 1)
          omega
        · refine hrows.trans ?_
          rw [hstep]
          exact List.append_assoc ..
        · exact hconflicts.trans (by rw [hstep])

end Yields

/-- **One task or conflict a week.** When no date is beyond the calendar, the loop for a schedule ends
with one task or one conflict on each of its dates, and these are the first date with its day of the
week and the dates some weeks later, as many as the schedule has, up to the end of the project. -/
theorem generateWeeks_visits (p : Project) (t : ProjectTask) (s : ProjectSchedule)
    (hfits : InCalendar p s) (acc : Generated) (db : Planner) :
    IsLeast {n | p.startDate.ordinal ≤ n ∧ weekdayOf n = s.dayOfWeek % 7} (firstOrdinal p s) ∧
    (∀ n, n ∈ visited p s ↔
      ∃ k < s.weeks, n = firstOrdinal p s + 7 * k ∧ n ≤ p.endDate.ordinal) ∧
    (visited p s).Pairwise (· < ·) ∧
    ∃ sessions rows conflicts, ∃ g : Progress,
      (generateWeeks p t s s.weeks p.startDate acc).run db = ⟨.ok g.acc, g.db, g.events⟩ ∧
      sessions.map (·.date.ordinal) = visited p s ∧
      Booked p sessions rows conflicts ⟨db, [], acc⟩ g ∧
      ∀ n ∈ visited p s,
        (rows.map (·.date.ordinal)).count n + (conflicts.map (·.date.ordinal)).count n = 1 := by
  refine ⟨isLeast_firstOrdinal p s, fun n => ?_, visited_sorted p s, ?_⟩
  · unfold visited sessionOrdinal
    simp only [List.mem_filter, List.mem_map, List.mem_range, decide_eq_true_eq]
    constructor
    · rintro ⟨⟨k, hk, rfl⟩, hle⟩
      exact ⟨k, hk, rfl, hle⟩
    · rintro ⟨k, hk, rfl, hle⟩
      exact ⟨⟨k, hk, rfl⟩, hle⟩
  · obtain ⟨sessions, hplan, hdates⟩ := @weeksPlan_of_fits p s t s.weeks 0 p.startDate
      rfl fun j _ hlt hstart => hfits j (by omega) hstart
    rw [← visited_eq] at hdates
    obtain ⟨rows, conflicts, hbooked⟩ := booked_foldl (p := p) sessions ⟨db, [], acc⟩
    refine ⟨sessions, rows, conflicts, _, ?_, hdates, hbooked, fun n hn => ?_⟩
    · rw [follows_generateWeeks p t s db s.weeks p.startDate acc db rfl, hplan]
      rfl
    · rw [hbooked.yields.count, hdates]
      exact List.count_eq_one_of_mem ((visited_sorted p s).imp fun h => h.ne) hn

/-- Two Thursdays of a project of thirty days. -/
theorem sample_inCalendar : InCalendar (PlannerSample.project (PlannerSample.later 30))
    (PlannerSample.schedule 1 (PlannerSample.minutes 600) (.finite 1) 2) :=
  (inCalendar_iff (PlannerSample.projectTask 1 (.finite 1))).2 (by decide +kernel)

theorem sample_visits : ∃ sessions rows conflicts, ∃ g : Progress,
    (generateWeeks (PlannerSample.project (PlannerSample.later 30))
      (PlannerSample.projectTask 1 (.finite 1))
      (PlannerSample.schedule 1 (PlannerSample.minutes 600) (.finite 1) 2) 2 PlannerSample.today
      ⟨0, []⟩).run (Planner.init ⟨PlannerSample.today, PlannerSample.minutes 60⟩)
        = ⟨.ok g.acc, g.db, g.events⟩ ∧
    sessions.map (·.date.ordinal) = [738000, 738007] ∧
    Booked (PlannerSample.project (PlannerSample.later 30)) sessions rows conflicts
      ⟨Planner.init ⟨PlannerSample.today, PlannerSample.minutes 60⟩, [], ⟨0, []⟩⟩ g := by
  obtain ⟨-, -, -, sessions, rows, conflicts, g, hrun, hdates, hbooked, -⟩ :=
    generateWeeks_visits _ (PlannerSample.projectTask 1 (.finite 1)) _ sample_inCalendar ⟨0, []⟩
      (Planner.init ⟨PlannerSample.today, PlannerSample.minutes 60⟩)
  refine ⟨sessions, rows, conflicts, g, hrun, ?_, hbooked⟩
  rw [hdates]
  decide

end DailyScheduler
