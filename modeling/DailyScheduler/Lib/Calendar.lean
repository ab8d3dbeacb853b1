import DailyScheduler.Lib.Double

set_option autoImplicit false

/-! # Dates, times of day and durations

The dates run from the 1st of January of the year 1 to the 31st of December of the year 9999
and are numbered from 1 on. A time of day has a resolution of one microsecond, and so has a
duration, which may not exceed 999999999 days. Arithmetic that leaves one of these ranges has
no result.
-/

namespace Calendar

/-- The number of the last date. -/
def lastOrdinal : Int := 3652059

/-- The microseconds of an hour. -/
def hourLength : Int := 3600000000

/-- The microseconds of a day. -/
def dayLength : Int := 24 * hourLength

/-- A date, by its number. -/
structure Date where
  ordinal : Int
  pos : 1 ≤ ordinal
  le_last : ordinal ≤ lastOrdinal
  deriving DecidableEq

/-- A time of day, by the microseconds since midnight. -/
structure Time where
  micros : Int
  nonneg : 0 ≤ micros
  lt_day : micros < dayLength
  deriving DecidableEq

namespace Date

/-- The date of a number, if there is one. -/
def ofOrdinal (n : Int) : Option Date :=
  if h : 1 ≤ n ∧ n ≤ lastOrdinal then some ⟨n, h.1, h.2⟩ else none

/-- The date some days later. -/
def addDays (d : Date) (days : Int) : Option Date := ofOrdinal (d.ordinal + days)

/-- The day of the week, 0 for Monday. -/
def weekday (d : Date) : Int := (d.ordinal + 6) % 7

/-- The English abbreviation of the day of the week. -/
def dayName (d : Date) : String :=
  if d.weekday = 0 then "Mon"
  else if d.weekday = 1 then "Tue"
  else if d.weekday = 2 then "Wed"
  else if d.weekday = 3 then "Thu"
  else if d.weekday = 4 then "Fri"
  else if d.weekday = 5 then "Sat"
  else "Sun"

/-- Whether a date is one of those from `first` to `last`. -/
def inRange (first last d : Date) : Bool :=
  decide (first.ordinal ≤ d.ordinal ∧ d.ordinal ≤ last.ordinal)

/-- The last date. -/
def last : Date := ⟨lastOrdinal, by decide, by decide⟩

theorem ext_ordinal {d d' : Date} (h : d.ordinal = d'.ordinal) : d = d' := by
  cases d
  cases d'
  cases h
  rfl

theorem ofOrdinal_eq_some {n : Int} {d : Date} : ofOrdinal n = some d ↔ d.ordinal = n := by
  unfold ofOrdinal
  constructor
  · intro h
    split at h
    · cases h
      rfl
    · cases h
  · rintro rfl
    rw [dif_pos ⟨d.pos, d.le_last⟩]

theorem ofOrdinal_eq_none {n : Int} : ofOrdinal n = none ↔ n < 1 ∨ lastOrdinal < n := by
  unfold ofOrdinal
  split
  · rename_i h
    simp only [reduceCtorEq, false_iff]
    omega
  · rename_i h
    simp only [true_iff]
    omega

theorem addDays_eq_some {d d' : Date} {k : Int} :
    d.addDays k = some d' ↔ d'.ordinal = d.ordinal + k :=
  ofOrdinal_eq_some

/-- A range is its first date and the range from the next date on. -/
theorem inRange_eq {first next last : Date} (hnext : first.addDays 1 = some next)
    (h : first.ordinal ≤ last.ordinal) (d : Date) :
    first.inRange last d = (decide (d = first) || next.inRange last d) := by
  have hord := addDays_eq_some.1 hnext
  have hfirst : d = first ↔ d.ordinal = first.ordinal := ⟨congrArg ordinal, ext_ordinal⟩
  rw [Bool.eq_iff_iff, Bool.or_eq_true]
  simp only [inRange, decide_eq_true_eq, hfirst]
  omega

end Date

/-! ## Instants -/

/-- A date and a time of it. -/
structure DateTime where
  date : Date
  time : Time
  deriving DecidableEq

/-- The microseconds from midnight of day 0 to a time of a date. -/
def DateTime.micros (i : DateTime) : Int := i.date.ordinal * dayLength + i.time.micros

/-- The time of day of a number of microseconds. -/
def timeOf (n : Int) : Time :=
  ⟨n % dayLength, Int.emod_nonneg _ (by decide), Int.emod_lt_of_pos _ (by decide)⟩

/-- The instant `delta` microseconds later, if its date exists. -/
def DateTime.add (i : DateTime) (delta : Int) : Option DateTime :=
  (Date.ofOrdinal ((i.micros + delta) / dayLength)).map fun d => ⟨d, timeOf (i.micros + delta)⟩

theorem DateTime.add_eq_some {i j : DateTime} {delta : Int} (h : i.add delta = some j) :
    j.micros = i.micros + delta ∧ j.time.micros = (i.time.micros + delta) % dayLength := by
  unfold DateTime.add at h
  obtain ⟨d, hd, rfl⟩ := Option.map_eq_some_iff.1 h
  have hord := Date.ofOrdinal_eq_some.1 hd
  constructor
  · show d.ordinal * dayLength + (i.micros + delta) % dayLength = _
    have hdiv := Int.ediv_mul_add_emod (i.micros + delta) dayLength
    rw [hord]
    exact hdiv
  · show (i.micros + delta) % dayLength = _
    rw [DateTime.micros, Int.add_assoc, Int.add_comm, Int.add_mul_emod_self_right]

/-- A sum that stays on the date. -/
theorem DateTime.add_of_lt {i : DateTime} {delta : Int} (h0 : 0 ≤ i.time.micros + delta)
    (h1 : i.time.micros + delta < dayLength) :
    i.add delta = some ⟨i.date, ⟨i.time.micros + delta, h0, h1⟩⟩ := by
  have hdiv : (i.micros + delta) / dayLength = i.date.ordinal := by
    rw [DateTime.micros, Int.add_assoc, Int.add_comm,
      Int.add_mul_ediv_right _ _ (by decide), Int.ediv_eq_zero_of_lt h0 h1, Int.zero_add]
  have hmod : timeOf (i.micros + delta) = ⟨i.time.micros + delta, h0, h1⟩ := by
    have hm : (i.micros + delta) % dayLength = i.time.micros + delta := by
      rw [DateTime.micros, Int.add_assoc, Int.add_comm, Int.add_mul_emod_self_right]
      exact Int.emod_eq_of_lt h0 h1
    unfold timeOf
    simp only [hm]
  rw [DateTime.add, hdiv, Date.ofOrdinal_eq_some.2 rfl, hmod]
  rfl

/-! ## Durations -/

/-- A number as a `float` holds it. -/
inductive Number where
  | finite (q : ℚ)
  | nan
  | infinite (positive : Bool)
  deriving DecidableEq

/-- A duration of some hours, in microseconds. The fraction of an hour is multiplied as a double. -/
def hours (x : Number) : Option Int :=
  match x with
  | .finite q =>
      let fraction := Double.nearest (hourLength * (q - Double.whole q))
      let d := Double.roundHalfEven (Double.whole q * hourLength + fraction)
      if -999999999 * dayLength ≤ d ∧ d < 1000000000 * dayLength then some d else none
  | .nan => none
  | .infinite _ => none

example : hours (.finite (5 / 2)) = some 9000000000 := by decide +kernel

end Calendar
