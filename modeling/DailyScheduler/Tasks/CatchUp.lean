import DailyScheduler.Lib.Occurrences
import DailyScheduler.Model.Sample
import DailyScheduler.Registries.ScheduledTime
import DailyScheduler.Tasks.Save
import Mathlib.Data.Rat.Floor

set_option autoImplicit false

/-! # Repeatable tasks that are late

`_schedule_time` moves a repeatable task whose time has passed on to its next occurrence, and takes
the occurrences that are left out from its repeats. A task is a timer then, and how often it is looked
at until it runs makes no difference.
-/

namespace DailyScheduler.Task

open Occurrences

variable {env : Env} {t : Task} {now s i : Int}

/-- `datetime.timestamp`. -/
def timestamp (x : Int) : ℚ := x / 1000000

/-! ## The number of intervals -/

/-- The task is scheduled for `now` or later. -/
def Due (t : Task) (now : Int) : Prop := ∃ s, t.scheduledTime = some s ∧ now ≤ s

/-- The scheduled time has not passed, or not enough repeats are left. -/
def Stays (t : Task) (now s i : Int) : Prop :=
  s ≥ now ∨ ∃ r : Nat, t.repeat = some r ∧ (r : Int) < ⌈(timestamp now - timestamp s) / i⌉

/-- The task is moved on by `g` intervals, to the first occurrence at or after `now`. -/
structure MovesOn (t t' : Task) (now s i g : Int) : Prop where
  same : t' = { t with scheduledTime := t'.scheduledTime, «repeat» := t'.repeat }
  time : t'.scheduledTime = some (s + g * secs i)
  unlimited : t.repeat = none → t'.repeat = none
  limited : ∀ r, t.repeat = some r → ∃ r', t'.repeat = some r' ∧ (r' : Int) = r - g ∧ (r : Int) - g ≥ 0
  reached : now ≤ s + g * secs i
  first : s + g * secs i < now + secs i

theorem MovesOn.unique {t₁ t₂ : Task} {g : Int} (h₁ : MovesOn t t₁ now s i g)
    (h₂ : MovesOn t t₂ now s i g) : t₁ = t₂ := by
  have htime : t₁.scheduledTime = t₂.scheduledTime := h₁.time.trans h₂.time.symm
  have hrepeat : t₁.repeat = t₂.repeat := by
    cases hr : t.repeat with
    | none => rw [h₁.unlimited hr, h₂.unlimited hr]
    | some r =>
        obtain ⟨r₁, hr₁, heq₁, -⟩ := h₁.limited r hr
        obtain ⟨r₂, hr₂, heq₂, -⟩ := h₂.limited r hr
        rw [hr₁, hr₂]
        congr 1
        omega
  rw [h₁.same, h₂.same, htime, hrepeat]

section Repeatable

variable (hty : t.taskType = .repeatable) (hi : t.intervalSeconds = .ok i)
  (hs : t.scheduledTime = some s) (hpos : 0 < i)
include hty hi hs hpos

end Repeatable

/-- How the server reads its clock. With `USE_TZ` datetimes are aware and their clock is UTC; without it
they are naive, and `utcoffset` is the offset in force at a local time, in microseconds. Of two times
that read alike, `fold` tells the later one. -/
structure Zone where
  useTz : Bool
  utcoffset : Int → Bool → Int

/-- The instant that `timestamp` gives a clock time. -/
def Zone.instant (z : Zone) (clock : Int) (fold : Bool) : Int :=
  if z.useTz then clock else clock - z.utcoffset clock fold

/-- The number of intervals that `_schedule_time` counts. -/
def Zone.gapAt (z : Zone) (s i now : Int) (fold : Bool) : Int :=
  gap (z.instant now fold) (z.instant s false) (secs i)

/-- The time has not passed; or the repeats do not last by the count of the clock, nor by that of the
instants, unless this is zero; or both count the same number of intervals, the repeats last, and the new
time is one of the calendar. -/
def Fits (z : Zone) (t : Task) (s i now : Int) (fold : Bool) : Prop :=
  now ≤ s ∨
  (∃ r : Nat, t.repeat = some r ∧ (r : Int) < gap now s (secs i) ∧
    ((r : Int) < z.gapAt s i now fold ∨ z.gapAt s i now fold = 0)) ∨
  (z.gapAt s i now fold = gap now s (secs i) ∧ (∀ r ∈ t.repeat, gap now s (secs i) ≤ (r : Nat)) ∧
    s + secs i * gap now s (secs i) ≤ ScheduledTime.lastTime)

section Zones

variable {z : Zone} {fold : Bool} {step g g' x : Int} {left : Option Nat} {r : Nat}

section Moving

variable (hs : t.scheduledTime = some s) (hstep : 0 < step)
  (hcalendar : ScheduledTime.firstTime ≤ s ∧ s ≤ ScheduledTime.lastTime)
include hs hstep hcalendar

end Moving

variable (hi : t.intervalSeconds = .ok i) (hs : t.scheduledTime = some s) (hpos : 0 < i)
  (hcalendar : ScheduledTime.firstTime ≤ s ∧ s ≤ ScheduledTime.lastTime)
include hi hs hpos hcalendar

end Zones

/-! ## Two calls -/

end DailyScheduler.Task
