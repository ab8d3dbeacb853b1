import DailyScheduler.Lib.Double
import DailyScheduler.Lib.SortedSet
import DailyScheduler.Model.Registry

set_option autoImplicit false

/-! # The time of a scheduled job

`ScheduledJobRegistry.schedule` and `get_scheduled_time` of `queue_registries.py`. An instant is a
number of microseconds since the epoch; the score of a scheduled job is the double nearest to its
number of seconds, and reading it gives whole microseconds again. A naive datetime is taken as local
time; the offset it is given is not the one in force at that time but one of the server's two, the
same all year round. A score of zero is taken for a missing one.

The other modules keep scores as instants, and have of the server's zone the timestamps that naive datetimes
get (`seconds_timestamp`). `seconds_lt_seconds` and `fromtimestamp_seconds` say when that makes no difference:
for 272 years on both sides of the epoch.
-/

namespace DailyScheduler.ScheduledTime

open Double

/-! ## Time zones and datetimes -/

/-- A `tzinfo` is less than a day ahead or behind. -/
def dayLength : Int := secs 86400

/-- The zone of the server: its offsets in seconds east of UTC, without daylight saving time and with
it, if the zone has one, and which of them is in force at each local time. -/
structure Zone where
  standard : Int
  daylightOffset : Option Int
  offset : Int → Int
  offset_cases : ∀ t, offset t = standard ∨ daylightOffset = some (offset t)
  standard_lt : |secs standard| < dayLength
  daylight_lt : ∀ o ∈ daylightOffset, |secs o| < dayLength

namespace Zone

/-- `time.timezone`, in seconds west of UTC. -/
def timezone (z : Zone) : Int := -z.standard

/-- `time.daylight`. -/
def daylight (z : Zone) : Int := if z.daylightOffset.isSome then 1 else 0

/-- `time.altzone`. -/
def altzone (z : Zone) : Int := -z.daylightOffset.getD z.standard

end Zone

/-- The first and the last microsecond of a year from 1 to 9999. -/
def firstTime : Int := -62135596800000000
def lastTime : Int := 253402300799999999

/-- A `datetime`: the time on the clock, in microseconds, and the offset of its `tzinfo`, in
microseconds, if it has one. -/
structure Datetime where
  clock : Int
  tzinfo : Option Int
  clock_mem : firstTime ≤ clock ∧ clock ≤ lastTime
  tzinfo_lt : ∀ o ∈ tzinfo, |o| < dayLength

/-- A number of microseconds as a `float` of seconds. -/
def seconds (t : Int) : ℚ := nearest (t / 1000000)

namespace Datetime

/-- The offset that `schedule` gives a datetime. -/
def offsetGiven (z : Zone) (d : Datetime) : Int :=
  match d.tzinfo with
  | none => secs (-(if z.daylight = 0 then z.timezone else z.altzone))
  | some o => o

/-- `scheduled_datetime.timestamp()`, once the datetime has an offset. -/
def timestamp (z : Zone) (d : Datetime) : ℚ := seconds (d.clock - d.offsetGiven z)

/-- The offset in force at the datetime. -/
def offsetInForce (z : Zone) (d : Datetime) : Int :=
  match d.tzinfo with
  | none => secs (z.offset d.clock)
  | some o => o

/-- The instant of the datetime. -/
def instant (z : Zone) (d : Datetime) : Int := d.clock - d.offsetInForce z

end Datetime

/-- The sorted set of a `ScheduledJobRegistry`. -/
abbrev Scores : Type := SortedSet ℚ JobName

/-- `ScheduledJobRegistry.schedule`. -/
def schedule (z : Zone) (n : JobName) (d : Datetime) (scores : Scores) : Scores :=
  scores.add (d.timestamp z) n

/-- The microseconds of a `float` of seconds: the fraction of a second is multiplied as a double and
rounded. -/
def micros (score : ℚ) : Int :=
  whole score * 1000000 + roundHalfEven (nearest ((score - whole score) * 1000000))

/-- `datetime.fromtimestamp(score, tz=timezone.utc)`. -/
def fromtimestamp (score : ℚ) : Except PyError Int :=
  if micros score < firstTime then .error (.valueError "year 0 is out of range")
  else if lastTime < micros score then .error (.valueError "year 10000 is out of range")
  else .ok (micros score)

/-- `get_scheduled_time`. -/
def getScheduledTime (n : JobName) (scores : Scores) : Except PyError (Option Int) :=
  match scores.score n with
  | none => .ok none
  | some score => if score = 0 then .ok none else (fromtimestamp score).map some

/-- The registry has the instant of the datetime as the score of the job, and the job's time is read
as that instant. -/
structure Kept (z : Zone) (n : JobName) (d : Datetime) (scores : Scores) : Prop where
  stored : scores.score n = some (seconds (d.instant z))
  read : getScheduledTime n scores = .ok (some (d.instant z))

/-! ## Datetimes in the other modules -/

section Moment

variable {env : Env} {z : Zone} {d : Datetime}

/-- A datetime as the other modules have it. -/
def Datetime.moment (z : Zone) (d : Datetime) : Registry.Moment :=
  match d.tzinfo with
  | none => .naive (d.instant z)
  | some _ => .aware (d.instant z)

/-- The environment has the timestamp of the datetime in the server's zone. -/
def AgreesAt (env : Env) (z : Zone) (d : Datetime) : Prop :=
  d.tzinfo = none → env.naiveTimestamp (d.instant z) = d.clock - d.offsetGiven z

theorem timestamp_moment (h : AgreesAt env z d) : (d.moment z).timestamp env = d.clock - d.offsetGiven z := by
  unfold Datetime.moment
  cases htz : d.tzinfo with
  | none => exact h htz
  | some o =>
      show d.instant z = _
      unfold Datetime.instant Datetime.offsetInForce Datetime.offsetGiven
      rw [htz]

/-- Both have the same score. -/
theorem seconds_timestamp (h : AgreesAt env z d) :
    seconds ((d.moment z).timestamp env) = d.timestamp z := by
  rw [timestamp_moment h]
  rfl

/-- The score is the instant if the offset that is given is the one in force. -/
theorem timestamp_moment_eq_iff (h : AgreesAt env z d) :
    (d.moment z).timestamp env = d.instant z ↔ d.offsetGiven z = d.offsetInForce z := by
  rw [timestamp_moment h]
  unfold Datetime.instant
  omega

end Moment

/-! ## Instants as doubles -/

/-- A double lies within half a microsecond of the instant, half a microsecond away only if the
instant is even. -/
def NearDouble (t : Int) : Prop := ∃ x, IsDouble x ∧ RoundsTo (x * 1000000) t

theorem abs_mul_million_sub (x : ℚ) (t : Int) :
    |x * 1000000 - t| = 1000000 * |x - t / 1000000| := by
  have hscale : x * 1000000 - t = 1000000 * (x - t / 1000000) := by ring
  rw [hscale, abs_mul, abs_of_pos (by norm_num : (0 : ℚ) < 1000000)]

/-- If any double is near enough, the nearest is. -/
theorem nearDouble_iff (t : Int) : NearDouble t ↔ RoundsTo (seconds t * 1000000) t := by
  constructor
  · rintro ⟨x, hx, hround⟩
    have hle : |seconds t * 1000000 - t| ≤ |x * 1000000 - t| := by
      rw [abs_mul_million_sub, abs_mul_million_sub]
      have := abs_nearest_sub_le (x := (t : ℚ) / 1000000) hx
      unfold seconds
      linarith
    rcases hround with hlt | ⟨heq, heven⟩
    · exact .inl (hle.trans_lt hlt)
    · rw [heq] at hle
      rcases hle.lt_or_eq with hlt | heq'
      · exact .inl hlt
      · exact .inr ⟨heq', heven⟩
  · exact fun h => ⟨seconds t, nearest_isDouble _, h⟩

theorem abs_div_million_lt {t : Int} {k : Nat} (h : |t| < secs (2 ^ k)) :
    |(t : ℚ) / 1000000| < (2 : ℚ) ^ (k : ℤ) := by
  have hcast : |(t : ℚ)| < 2 ^ k * 1000000 := by
    have : ((|t| : Int) : ℚ) < ((secs (2 ^ k) : Int) : ℚ) := by exact_mod_cast h
    unfold secs at this
    push_cast at this
    exact this
  rw [abs_div, abs_of_pos (by norm_num : (0 : ℚ) < 1000000), div_lt_iff₀ (by norm_num), zpow_natCast]
  exact hcast

/-- An instant less than 2 ^ 33 seconds, some 272 years, from the epoch. -/
def Recent (t : Int) : Prop := |t| < secs (2 ^ 33)

instance (t : Int) : Decidable (Recent t) := inferInstanceAs (Decidable (_ < _))

/-- A recent instant is less than half a microsecond from its double. -/
theorem Recent.abs_seconds_sub {t : Int} (h : Recent t) :
    |seconds t * 1000000 - t| ≤ 1000000 / 2 ^ 21 := by
  have hnear := abs_nearest_sub_le_of_lt (abs_div_million_lt h)
  rw [abs_mul_million_sub]
  unfold seconds
  norm_num at hnear ⊢
  linarith

theorem Recent.nearDouble {t : Int} (h : Recent t) : NearDouble t := by
  refine (nearDouble_iff t).2 (.inl (h.abs_seconds_sub.trans_lt ?_))
  norm_num

/-- The product with the fraction of a second is rounded so little that a recent instant is read as
it was. -/
theorem Recent.micros_seconds {t : Int} (h : Recent t) : micros (seconds t) = t := by
  have hnear := h.abs_seconds_sub
  have hfraction : |(seconds t - whole (seconds t)) * 1000000| < (2 : ℚ) ^ (20 : ℤ) := by
    rw [abs_mul, abs_of_pos (by norm_num : (0 : ℚ) < 1000000)]
    have := abs_sub_whole_lt (seconds t)
    norm_num
    linarith
  have hproduct := abs_nearest_sub_le_of_lt hfraction
  have hround : roundHalfEven (nearest ((seconds t - whole (seconds t)) * 1000000))
      = t - whole (seconds t) * 1000000 := by
    refine roundHalfEven_eq_iff.2 (.inl ?_)
    rw [abs_le] at hnear hproduct
    rw [abs_lt]
    norm_num at hproduct ⊢
    constructor <;> linarith
  unfold micros
  rw [hround]
  ring

/-- From 2 ^ 33 seconds on doubles are so far apart that the product is exact. -/
theorem micros_eq_iff {x : ℚ} (hx : IsDouble x) (hlarge : (2 : ℚ) ^ (33 : ℤ) ≤ |x|) (t : Int) :
    micros x = t ↔ RoundsTo (x * 1000000) t := by
  obtain ⟨n, hn⟩ := hx.multiple hlarge
  have hfraction : (x - whole x) * 1000000
      = ((n - whole x * 2 ^ 20) * 1000000 : Int) * (2 : ℚ) ^ (-20 : ℤ) := by
    conv_lhs => rw [show x - whole x = n * (2 : ℚ) ^ ((33 : ℤ) - 53) - whole x by rw [← hn]]
    push_cast
    norm_num
    ring
  have hbits : |(n - whole x * 2 ^ 20) * 1000000| ≤ 2 ^ 53 := by
    have hlt : |(((n - whole x * 2 ^ 20) * 1000000 : Int) : ℚ) * (2 : ℚ) ^ (-20 : ℤ)| < 1000000 := by
      rw [← hfraction, abs_mul, abs_of_pos (by norm_num : (0 : ℚ) < 1000000)]
      have := abs_sub_whole_lt x
      linarith
    rw [abs_mul, abs_of_pos (two_zpow_pos _)] at hlt
    have hlt' : ((|(n - whole x * 2 ^ 20) * 1000000| : Int) : ℚ) < 2 ^ 53 := by
      push_cast at hlt ⊢
      norm_num at hlt ⊢
      linarith
    exact (Int.cast_lt (R := ℚ).1 (by exact_mod_cast hlt')).le
  have hexact : nearest ((x - whole x) * 1000000) = (x - whole x) * 1000000 := by
    refine nearest_of_isDouble ?_
    rw [hfraction]
    exact ⟨_, -20, hbits, rfl⟩
  have hshift : x * 1000000 = (x - whole x) * 1000000 + (whole x * 1000000 : Int) := by
    push_cast
    ring
  unfold micros
  rw [hexact, hshift, ← sub_add_cancel t (whole x * 1000000), roundsTo_add_iff (by omega),
    ← roundHalfEven_eq_iff]
  constructor <;> intro h <;> omega

/-- **An instant is read as it was exactly when a double is near it.** -/
theorem micros_seconds_iff (t : Int) : micros (seconds t) = t ↔ NearDouble t := by
  by_cases hrecent : Recent t
  · exact iff_of_true hrecent.micros_seconds hrecent.nearDouble
  · have hpower : IsDouble ((2 : ℚ) ^ (33 : ℤ)) := ⟨1, 33, by norm_num, by norm_num⟩
    have hlarge : (2 : ℚ) ^ (33 : ℤ) ≤ |seconds t| := by
      unfold Recent secs at hrecent
      push Not at hrecent
      rcases le_or_gt 0 t with hsign | hsign
      · rw [abs_of_nonneg hsign] at hrecent
        refine (le_nearest hpower ?_).trans (le_abs_self _)
        rw [le_div_iff₀ (by norm_num)]
        exact_mod_cast hrecent
      · rw [abs_of_neg hsign] at hrecent
        have hneg : IsDouble (-(2 : ℚ) ^ (33 : ℤ)) := ⟨-1, 33, by norm_num, by norm_num⟩
        have hle : seconds t ≤ -(2 : ℚ) ^ (33 : ℤ) := by
          refine nearest_le hneg ?_
          rw [div_le_iff₀ (by norm_num)]
          have : ((2 ^ 33 * 1000000 : Int) : ℚ) ≤ ((-t : Int) : ℚ) := by exact_mod_cast hrecent
          push_cast at this
          norm_num at this ⊢
          linarith
        have := neg_le_abs (seconds t)
        linarith
    exact (micros_eq_iff (nearest_isDouble _) hlarge t).trans (nearDouble_iff t).symm

theorem fromtimestamp_seconds_iff (t : Int) : fromtimestamp (seconds t) = .ok t ↔
    NearDouble t ∧ firstTime ≤ t ∧ t ≤ lastTime := by
  rw [← micros_seconds_iff]
  unfold fromtimestamp
  split_ifs with hfirst hlast
  · constructor
    · intro h
      cases h
    · rintro ⟨heq, hle, -⟩
      omega
  · constructor
    · intro h
      cases h
    · rintro ⟨heq, -, hle⟩
      omega
  · rw [Except.ok.injEq]
    constructor
    · intro h
      exact ⟨h, by omega, by omega⟩
    · exact fun h => h.1

/-- A recent instant is read as it was. -/
theorem fromtimestamp_seconds {t : Int} (h : Recent t) : fromtimestamp (seconds t) = .ok t := by
  refine (fromtimestamp_seconds_iff t).2 ⟨h.nearDouble, ?_⟩
  unfold Recent at h
  rw [abs_lt] at h
  unfold firstTime lastTime
  unfold secs at h
  omega

/-- Recent instants are in the order of their doubles. -/
theorem seconds_lt_seconds {t u : Int} (ht : Recent t) (hu : Recent u) (htu : t < u) :
    seconds t < seconds u := by
  have h1 := abs_le.1 ht.abs_seconds_sub
  have h2 := abs_le.1 hu.abs_seconds_sub
  have hone : (t : ℚ) + 1 ≤ u := by exact_mod_cast htu
  norm_num at h1 h2
  linarith

/-- Only the epoch has the score zero. -/
theorem seconds_eq_zero_iff (t : Int) : seconds t = 0 ↔ t = 0 := by
  unfold seconds
  rw [nearest_eq_zero_iff]
  constructor
  · intro h
    have hzero : (t : ℚ) = 0 := by linarith
    exact_mod_cast hzero
  · rintro rfl
    norm_num

/-- Instants of the calendar that are whole seconds apart have different scores. -/
theorem eq_of_seconds_eq {t u : Int} (ht : |t| < secs (2 ^ 38)) (hu : |u| < secs (2 ^ 38))
    (hapart : ∃ k, t - u = secs k) (h : seconds t = seconds u) : t = u := by
  have hnear : ∀ v : Int, |v| < secs (2 ^ 38) → |seconds v * 1000000 - v| ≤ 1000000 / 2 ^ 16 := by
    intro v hv
    have := abs_nearest_sub_le_of_lt (abs_div_million_lt hv)
    rw [abs_mul_million_sub]
    unfold seconds
    norm_num at this ⊢
    linarith
  have h1 := abs_le.1 (hnear t ht)
  have h2 := abs_le.1 (hnear u hu)
  rw [h] at h1
  obtain ⟨k, hk⟩ := hapart
  have hlt : |(t : ℚ) - u| < 1000000 := by
    rw [abs_lt]
    norm_num at h1 h2
    constructor <;> linarith
  have hlt' : |t - u| < 1000000 := by exact_mod_cast hlt
  rw [abs_lt] at hlt'
  unfold secs at hk
  omega

/-! ## Keeping the time of a job -/

section Keeping

variable {z : Zone} {n : JobName} {d : Datetime}

/-- What a naive datetime is given. -/
theorem Zone.given_eq (z : Zone) : -(if z.daylight = 0 then z.timezone else z.altzone)
    = z.daylightOffset.getD z.standard := by
  unfold Zone.daylight Zone.timezone Zone.altzone
  cases z.daylightOffset with
  | none => simp
  | some o => simp

theorem offsetGiven_lt (z : Zone) (d : Datetime) : |d.offsetGiven z| < dayLength := by
  unfold Datetime.offsetGiven
  split
  · rw [z.given_eq]
    cases h : z.daylightOffset with
    | none => exact z.standard_lt
    | some o => exact z.daylight_lt o h
  · rename_i o h
    exact d.tzinfo_lt o h

theorem offsetInForce_lt (z : Zone) (d : Datetime) : |d.offsetInForce z| < dayLength := by
  unfold Datetime.offsetInForce
  split
  · rcases z.offset_cases d.clock with h | h
    · rw [h]
      exact z.standard_lt
    · exact z.daylight_lt _ h
  · rename_i o h
    exact d.tzinfo_lt o h

/-- A datetime less than a day off its clock is less than 2 ^ 38 seconds from the epoch. -/
theorem abs_clock_sub_lt (d : Datetime) {o : Int} (h : |o| < dayLength) :
    |d.clock - o| < secs (2 ^ 38) := by
  have hclock := d.clock_mem
  rw [abs_lt] at h ⊢
  unfold firstTime lastTime at hclock
  unfold dayLength secs at h
  unfold secs
  omega

/-- A datetime is given the offset in force exactly when it is aware or that is the daylight offset,
where the zone has one. -/
theorem offsetGiven_eq_iff : d.offsetGiven z = d.offsetInForce z ↔
    (d.tzinfo = none → z.offset d.clock = z.daylightOffset.getD z.standard) := by
  unfold Datetime.offsetGiven Datetime.offsetInForce
  cases d.tzinfo with
  | none =>
      dsimp only
      rw [z.given_eq]
      unfold secs
      constructor
      · intro h _
        omega
      · intro h
        rw [h rfl]
  | some o => exact iff_of_true rfl fun h => by cases h

/-- The offsets differ by whole seconds. -/
theorem offsets_apart (z : Zone) (d : Datetime) :
    ∃ k, d.clock - d.offsetGiven z - (d.clock - d.offsetInForce z) = secs k := by
  unfold Datetime.offsetGiven Datetime.offsetInForce
  cases d.tzinfo with
  | none =>
      refine ⟨z.offset d.clock - z.daylightOffset.getD z.standard, ?_⟩
      dsimp only
      rw [z.given_eq]
      unfold secs
      omega
  | some o =>
      refine ⟨0, ?_⟩
      dsimp only
      unfold secs
      omega

/-- The score is that of the instant exactly when the offset in force is the one that is given. -/
theorem timestamp_eq_iff : d.timestamp z = seconds (d.instant z) ↔
    d.offsetGiven z = d.offsetInForce z := by
  unfold Datetime.timestamp Datetime.instant
  constructor
  · intro h
    have := eq_of_seconds_eq (abs_clock_sub_lt d (offsetGiven_lt z d))
      (abs_clock_sub_lt d (offsetInForce_lt z d)) (offsets_apart z d) h
    omega
  · intro h
    rw [h]

theorem getScheduledTime_of_score {scores : Scores} {t : Int}
    (h : scores.score n = some (seconds t)) :
    getScheduledTime n scores = .ok (some t) ↔
      t ≠ 0 ∧ NearDouble t ∧ firstTime ≤ t ∧ t ≤ lastTime := by
  have hmap : (fromtimestamp (seconds t)).map some = .ok (some t) ↔
      fromtimestamp (seconds t) = .ok t := by
    cases fromtimestamp (seconds t) with
    | error x => simp [Except.map]
    | ok u => simp [Except.map]
  unfold getScheduledTime
  rw [h]
  dsimp only
  split
  · rename_i hzero
    constructor
    · intro hnone
      cases hnone
    · exact fun hand => absurd ((seconds_eq_zero_iff t).1 hzero) hand.1
  · rename_i hzero
    rw [seconds_eq_zero_iff] at hzero
    rw [hmap, fromtimestamp_seconds_iff]
    exact ⟨fun hand => ⟨hzero, hand⟩, fun hand => hand.2⟩

/-- **The time is kept exactly when the datetime is aware or daylight saving time is in force, where
the zone has it, and the instant is not the epoch**, as long as nobody changes the entry. An instant
cannot be read either when it is outside of the years 1 to 9999 in UTC or no double is near it, which
happens from the year 2242 on. -/
theorem kept_iff (z : Zone) (n : JobName) (d : Datetime) {scores scores' : Scores}
    (hsame : scores'.score n = (schedule z n d scores).score n) :
    Kept z n d scores' ↔
      (d.tzinfo = none → z.offset d.clock = z.daylightOffset.getD z.standard) ∧
      d.instant z ≠ 0 ∧ NearDouble (d.instant z) ∧
      firstTime ≤ d.instant z ∧ d.instant z ≤ lastTime := by
  rw [schedule, SortedSet.score_add_self] at hsame
  rw [← offsetGiven_eq_iff, ← timestamp_eq_iff]
  constructor
  · rintro ⟨hstored, hread⟩
    refine ⟨?_, (getScheduledTime_of_score hstored).1 hread⟩
    rw [hstored] at hsame
    exact (Option.some.inj hsame).symm
  · rintro ⟨heq, hread⟩
    rw [heq] at hsame
    exact ⟨hsame, (getScheduledTime_of_score hsame).2 hread⟩

end Keeping

/-! ## A winter's day -/

/-- One hour east of UTC, two hours in a summer from the end of March to the end of October 2024. -/
def centralEurope : Zone where
  standard := 3600
  daylightOffset := some 7200
  offset := fun t => if 1711850400000000 ≤ t ∧ t < 1729994400000000 then 7200 else 3600
  offset_cases := by
    intro t
    split
    · exact .inr rfl
    · exact .inl rfl
  standard_lt := by decide
  daylight_lt := by decide

/-- Noon of the 15th of January and of the 15th of July 2024, without an offset. -/
def winter : Datetime := ⟨1705320000000000, none, by decide, by decide⟩
def summer : Datetime := ⟨1721044800000000, none, by decide, by decide⟩

/-- The epoch, and the last microsecond of the year 9999, with the offset zero. -/
def epoch : Datetime := ⟨0, some 0, by decide, by decide⟩
def endOfTime : Datetime := ⟨lastTime, some 0, by decide, by decide⟩

theorem sample_kept : Kept centralEurope "a" summer (schedule centralEurope "a" summer .empty) :=
  (kept_iff centralEurope "a" summer rfl).2
    ⟨by decide, by decide, Recent.nearDouble (by decide), by decide, by decide⟩

/-- A job for noon in winter is scheduled an hour early, one for the epoch has no time, and the time
of one at the end of the year 9999 cannot be read. -/
theorem not_kept :
    ¬ Kept centralEurope "a" winter (schedule centralEurope "a" winter .empty) ∧
    ¬ Kept centralEurope "a" epoch (schedule centralEurope "a" epoch .empty) ∧
    ¬ Kept centralEurope "a" endOfTime (schedule centralEurope "a" endOfTime .empty) := by
  refine ⟨?_, ?_, ?_⟩
  · rintro ⟨hstored, -⟩
    rw [schedule, SortedSet.score_add_self, Option.some.injEq, timestamp_eq_iff] at hstored
    exact absurd hstored (by decide)
  · rintro ⟨hstored, hread⟩
    exact ((getScheduledTime_of_score hstored).1 hread).1 (by decide)
  · rintro ⟨hstored, hread⟩
    have hnear := ((getScheduledTime_of_score hstored).1 hread).2.1
    rw [← micros_seconds_iff] at hnear
    exact absurd hnear (by decide +kernel)

end DailyScheduler.ScheduledTime
