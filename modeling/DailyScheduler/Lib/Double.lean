import Mathlib.Algebra.Order.Field.Rat
import Mathlib.Algebra.Order.Round
import Mathlib.Data.Int.Log
import Mathlib.Data.Rat.Floor
import Mathlib.Tactic.Linarith
import Mathlib.Tactic.NormNum
import Mathlib.Tactic.Positivity
import Mathlib.Tactic.FieldSimp
import Mathlib.Tactic.Ring

set_option autoImplicit false

/-! # Doubles

Floating point numbers of 53 bits as rational numbers, and the rounding to the nearest of them, a
tie going to the even mantissa. Exponents have no bounds here: overflow, subnormal numbers and the
sign of zero are left out.

What users of a rounding need is `nearest_isDouble`, `abs_nearest_sub_le` (no double is nearer) and
`abs_nearest_sub_le_of_lt` (how far away the nearest is at most).
-/

namespace Double

/-! ## Rounding to a whole number -/

/-- The nearest whole number, the even one of two. -/
def roundHalfEven (x : ℚ) : ℤ :=
  if Int.fract x < 1 / 2 then ⌊x⌋
  else if 1 / 2 < Int.fract x then ⌊x⌋ + 1
  else if ⌊x⌋ % 2 = 0 then ⌊x⌋
  else ⌊x⌋ + 1

/-- `n` is what `x` is rounded to. -/
def RoundsTo (x : ℚ) (n : ℤ) : Prop := |x - n| < 1 / 2 ∨ |x - n| = 1 / 2 ∧ n % 2 = 0

instance (x : ℚ) (n : ℤ) : Decidable (RoundsTo x n) :=
  inferInstanceAs (Decidable (_ ∨ _))

theorem roundsTo_roundHalfEven (x : ℚ) : RoundsTo x (roundHalfEven x) := by
  have hsplit : x = ⌊x⌋ + Int.fract x := (Int.floor_add_fract x).symm
  have hnonneg : 0 ≤ Int.fract x := Int.fract_nonneg x
  have hlt : Int.fract x < 1 := Int.fract_lt_one x
  have hbelow : |x - ⌊x⌋| = Int.fract x := by
    rw [Int.self_sub_floor, abs_of_nonneg hnonneg]
  have habove : |x - (⌊x⌋ + 1 : ℤ)| = 1 - Int.fract x := by
    rw [abs_of_nonpos (by push_cast; linarith)]
    push_cast
    linarith
  unfold roundHalfEven RoundsTo
  split_ifs with hdown hup heven
  · left
    rw [hbelow]
    exact hdown
  · left
    rw [habove]
    linarith
  · right
    rw [hbelow]
    exact ⟨by linarith, heven⟩
  · right
    rw [habove]
    exact ⟨by linarith, by omega⟩

theorem abs_sub_roundHalfEven_le (x : ℚ) : |x - roundHalfEven x| ≤ 1 / 2 := by
  rcases roundsTo_roundHalfEven x with h | ⟨h, -⟩
  · exact h.le
  · exact h.le

/-- Only one number is what `x` is rounded to: of two at the same distance one is odd. -/
theorem RoundsTo.unique {x : ℚ} {m n : ℤ} (hm : RoundsTo x m) (hn : RoundsTo x n) : m = n := by
  have hdist : |(m : ℚ) - n| ≤ |x - m| + |x - n| := by
    calc |(m : ℚ) - n| ≤ |(m : ℚ) - x| + |x - n| := abs_sub_le _ _ _
      _ = |x - m| + |x - n| := by rw [abs_sub_comm (m : ℚ) x]
  have hcast : ((|m - n| : ℤ) : ℚ) = |(m : ℚ) - n| := by push_cast; rfl
  rcases hm with hm | ⟨hm, hm'⟩ <;> rcases hn with hn | ⟨hn, hn'⟩
  all_goals
    have hle : ((|m - n| : ℤ) : ℚ) ≤ 1 := by rw [hcast]; linarith
    have hone : |m - n| ≤ 1 := by exact_mod_cast hle
  · have hlt : ((|m - n| : ℤ) : ℚ) < 1 := by rw [hcast]; linarith
    have : |m - n| < 1 := by exact_mod_cast hlt
    rw [Int.abs_lt_one_iff] at this
    omega
  · have hlt : ((|m - n| : ℤ) : ℚ) < 1 := by rw [hcast]; linarith
    have : |m - n| < 1 := by exact_mod_cast hlt
    rw [Int.abs_lt_one_iff] at this
    omega
  · have hlt : ((|m - n| : ℤ) : ℚ) < 1 := by rw [hcast]; linarith
    have : |m - n| < 1 := by exact_mod_cast hlt
    rw [Int.abs_lt_one_iff] at this
    omega
  · rw [abs_le] at hone
    omega

theorem roundHalfEven_eq_iff {x : ℚ} {n : ℤ} : roundHalfEven x = n ↔ RoundsTo x n := by
  constructor
  · rintro rfl
    exact roundsTo_roundHalfEven x
  · exact fun h => (roundsTo_roundHalfEven x).unique h

/-- No whole number is nearer. -/
theorem abs_sub_roundHalfEven_le_of_int (x : ℚ) (n : ℤ) : |x - roundHalfEven x| ≤ |x - n| := by
  by_contra hlt
  push Not at hlt
  have hnear : RoundsTo x n := .inl (hlt.trans_le (abs_sub_roundHalfEven_le x))
  rw [roundHalfEven_eq_iff.2 hnear] at hlt
  exact lt_irrefl _ hlt

/-- A whole number can be taken out of the rounding if it is even. -/
theorem roundsTo_add_iff {x : ℚ} {n k : ℤ} (hk : k % 2 = 0) :
    RoundsTo (x + k) (n + k) ↔ RoundsTo x n := by
  have hdist : (x + k) - ((n + k : ℤ) : ℚ) = x - n := by push_cast; ring
  have hparity : (n + k) % 2 = n % 2 := by omega
  unfold RoundsTo
  rw [hdist, hparity]

/-- The whole part, as `modf` has it: cut off towards zero. -/
def whole (x : ℚ) : ℤ := if 0 ≤ x then ⌊x⌋ else ⌈x⌉

theorem abs_sub_whole_lt (x : ℚ) : |x - whole x| < 1 := by
  unfold whole
  split_ifs with h
  · rw [Int.self_sub_floor, abs_of_nonneg (Int.fract_nonneg x)]
    exact Int.fract_lt_one x
  · rw [abs_of_nonpos (sub_nonpos.2 (Int.le_ceil x))]
    linarith [Int.ceil_lt_add_one x]

/-! ## Doubles -/

/-- A number of at most 53 bits, times a power of two. -/
def IsDouble (x : ℚ) : Prop := ∃ m e : ℤ, |m| ≤ 2 ^ 53 ∧ x = m * (2 : ℚ) ^ e

/-- The distance of the doubles at `x`. -/
def ulp (x : ℚ) : ℚ := (2 : ℚ) ^ (Int.log 2 |x| - 52)

/-- The nearest double, of two the one with the even mantissa. -/
def nearest (x : ℚ) : ℚ := roundHalfEven (x / ulp x) * ulp x

theorem two_zpow_pos (e : ℤ) : (0 : ℚ) < 2 ^ e := zpow_pos (by norm_num) e

theorem ulp_pos (x : ℚ) : 0 < ulp x := two_zpow_pos _

/-- The nearest double is half an `ulp` away at most. -/
theorem abs_nearest_sub_le_ulp (x : ℚ) : |nearest x - x| ≤ ulp x / 2 := by
  have hpos := ulp_pos x
  have hscale : nearest x - x = -((x / ulp x - roundHalfEven (x / ulp x)) * ulp x) := by
    unfold nearest
    field_simp
    ring
  rw [hscale, abs_neg, abs_mul, abs_of_pos hpos]
  calc |x / ulp x - roundHalfEven (x / ulp x)| * ulp x
      ≤ 1 / 2 * ulp x := mul_le_mul_of_nonneg_right (abs_sub_roundHalfEven_le _) hpos.le
    _ = ulp x / 2 := by ring

@[simp] theorem nearest_zero : nearest 0 = 0 := by
  unfold nearest
  have : roundHalfEven (0 / ulp 0) = 0 := roundHalfEven_eq_iff.2 (.inl (by norm_num))
  rw [this]
  norm_num

theorem ulp_le_of_lt {x : ℚ} {k : ℤ} (hx : x ≠ 0) (h : |x| < (2 : ℚ) ^ k) :
    ulp x ≤ (2 : ℚ) ^ (k - 53) := by
  have hlog : Int.log 2 |x| < k := by
    rw [← Int.lt_zpow_iff_log_lt (by norm_num) (abs_pos.2 hx)]
    exact_mod_cast h
  exact zpow_le_zpow_right₀ (by norm_num) (by omega)

theorem abs_nearest_sub_le_of_lt {x : ℚ} {k : ℤ} (h : |x| < (2 : ℚ) ^ k) :
    |nearest x - x| ≤ (2 : ℚ) ^ (k - 54) := by
  by_cases hx : x = 0
  · rw [hx, nearest_zero, sub_zero, abs_zero]
    exact (two_zpow_pos _).le
  · calc |nearest x - x| ≤ ulp x / 2 := abs_nearest_sub_le_ulp x
      _ ≤ (2 : ℚ) ^ (k - 53) / 2 := by
          have := ulp_le_of_lt hx h
          linarith
      _ = (2 : ℚ) ^ (k - 54) := by
          rw [show k - 53 = k - 54 + 1 by ring, zpow_add_one₀ (by norm_num)]
          ring

theorem ulp_le {x : ℚ} (hx : x ≠ 0) : ulp x ≤ |x| := by
  calc ulp x ≤ (2 : ℚ) ^ Int.log 2 |x| := zpow_le_zpow_right₀ (by norm_num) (by omega)
    _ ≤ |x| := by exact_mod_cast Int.zpow_log_le_self (R := ℚ) (b := 2) (by norm_num) (abs_pos.2 hx)

/-- Only zero is rounded to zero. -/
theorem nearest_eq_zero_iff {x : ℚ} : nearest x = 0 ↔ x = 0 := by
  constructor
  · intro h
    by_contra hx
    have hhalf := abs_nearest_sub_le_ulp x
    have hulp := ulp_le hx
    have hpos := abs_pos.2 hx
    rw [h, zero_sub, abs_neg] at hhalf
    linarith
  · rintro rfl
    exact nearest_zero

/-- The numbers at `x` are between 52 and 53 bits long, in units of the `ulp`. -/
theorem abs_div_ulp_lt (x : ℚ) : |x / ulp x| < 2 ^ 53 := by
  have hlog : |x| < (2 : ℚ) ^ (Int.log 2 |x| + 1) := by
    exact_mod_cast Int.lt_zpow_succ_log_self (R := ℚ) (b := 2) (by norm_num) |x|
  rw [abs_div, abs_of_pos (ulp_pos x), div_lt_iff₀ (ulp_pos x)]
  calc |x| < (2 : ℚ) ^ (Int.log 2 |x| + 1) := hlog
    _ = 2 ^ 53 * ulp x := by
        unfold ulp
        rw [show Int.log 2 |x| + 1 = 53 + (Int.log 2 |x| - 52) by ring, zpow_add₀ (by norm_num)]
        norm_cast

theorem nearest_isDouble (x : ℚ) : IsDouble (nearest x) := by
  refine ⟨roundHalfEven (x / ulp x), Int.log 2 |x| - 52, ?_, rfl⟩
  have hlt : |(roundHalfEven (x / ulp x) : ℚ)| < 2 ^ 53 + 1 := by
    have hround := abs_sub_roundHalfEven_le (x / ulp x)
    have habs := abs_div_ulp_lt x
    rw [abs_le] at hround
    rw [abs_lt] at habs ⊢
    constructor <;> linarith
  have : |roundHalfEven (x / ulp x)| < 2 ^ 53 + 1 := by exact_mod_cast hlt
  omega

/-- A multiple of the `ulp` at `x` is not nearer to `x`. -/
theorem abs_nearest_sub_le_of_multiple (x : ℚ) (k : ℤ) : |nearest x - x| ≤ |k * ulp x - x| := by
  have hpos := ulp_pos x
  have hscale : ∀ n : ℤ, |n * ulp x - x| = |x / ulp x - n| * ulp x := by
    intro n
    rw [abs_sub_comm, ← abs_of_pos hpos, ← abs_mul, abs_of_pos hpos]
    congr 1
    field_simp
  unfold nearest
  rw [hscale, hscale]
  exact mul_le_mul_of_nonneg_right (abs_sub_roundHalfEven_le_of_int _ k) hpos.le

/-- **No double is nearer.** A double finer than the `ulp` at `x` lies on this side of the power of
two below `x`, which is a multiple of the `ulp`. -/
theorem abs_nearest_sub_le {x y : ℚ} (hy : IsDouble y) : |nearest x - x| ≤ |y - x| := by
  obtain ⟨m, e, hm, rfl⟩ := hy
  by_cases hx : x = 0
  · rw [hx, nearest_zero, sub_zero, abs_zero]
    exact abs_nonneg _
  have hle : (2 : ℚ) ^ Int.log 2 |x| ≤ |x| := by
    exact_mod_cast Int.zpow_log_le_self (R := ℚ) (b := 2) (by norm_num) (abs_pos.2 hx)
  rcases le_or_gt (Int.log 2 |x| - 52) e with he | he
  -- `y` is a multiple of the `ulp` at `x`
  · have hmultiple : (m : ℚ) * 2 ^ e = (m * 2 ^ (e - (Int.log 2 |x| - 52)).toNat : ℤ) * ulp x := by
      unfold ulp
      push_cast
      rw [mul_assoc, ← zpow_natCast, ← zpow_add₀ (by norm_num : (2 : ℚ) ≠ 0)]
      congr 2
      omega
    rw [hmultiple]
    exact abs_nearest_sub_le_of_multiple x _
  -- `y` is finer, so the power of two below `x` lies between `y` and `x`
  · have hsmall : |(m : ℚ) * 2 ^ e| ≤ (2 : ℚ) ^ Int.log 2 |x| := by
      rw [abs_mul, abs_of_pos (two_zpow_pos e)]
      calc |(m : ℚ)| * 2 ^ e ≤ 2 ^ 53 * 2 ^ e :=
            mul_le_mul_of_nonneg_right (by exact_mod_cast hm) (two_zpow_pos e).le
        _ = (2 : ℚ) ^ (53 + e) := by rw [zpow_add₀ (by norm_num)]; norm_cast
        _ ≤ (2 : ℚ) ^ Int.log 2 |x| := zpow_le_zpow_right₀ (by norm_num) (by omega)
    have hpower : (2 : ℚ) ^ Int.log 2 |x| = (2 ^ 52 : ℤ) * ulp x := by
      calc (2 : ℚ) ^ Int.log 2 |x| = 2 ^ (52 + (Int.log 2 |x| - 52)) := by
            congr 1
            ring
        _ = (2 ^ 52 : ℤ) * ulp x := by
            rw [zpow_add₀ (by norm_num)]
            unfold ulp
            norm_cast
    rcases le_or_gt 0 x with hsign | hsign
    · rw [abs_of_nonneg hsign] at hle hsmall hpower
      calc |nearest x - x| ≤ |((2 ^ 52 : ℤ) : ℚ) * ulp x - x| := abs_nearest_sub_le_of_multiple x _
        _ = x - (2 : ℚ) ^ Int.log 2 x := by
            rw [← hpower, abs_of_nonpos (by linarith)]
            ring
        _ ≤ x - m * 2 ^ e := by linarith [(abs_le.1 hsmall).2]
        _ ≤ |(m : ℚ) * 2 ^ e - x| := by
            rw [abs_sub_comm]
            exact le_abs_self _
    · rw [abs_of_neg hsign] at hle hsmall hpower
      calc |nearest x - x| ≤ |((-2 ^ 52 : ℤ) : ℚ) * ulp x - x| := abs_nearest_sub_le_of_multiple x _
        _ = -(2 : ℚ) ^ Int.log 2 (-x) - x := by
            rw [show ((-2 ^ 52 : ℤ) : ℚ) * ulp x = -(2 : ℚ) ^ Int.log 2 (-x) by
              rw [hpower]; push_cast; ring, abs_of_nonneg (by linarith)]
        _ ≤ m * 2 ^ e - x := by linarith [(abs_le.1 hsmall).1]
        _ ≤ |(m : ℚ) * 2 ^ e - x| := le_abs_self _

/-- A double is rounded to itself. -/
theorem nearest_of_isDouble {x : ℚ} (h : IsDouble x) : nearest x = x := by
  have := abs_nearest_sub_le (x := x) h
  rw [sub_self, abs_zero] at this
  exact sub_eq_zero.1 (abs_nonpos_iff.1 this)

/-- The rounding does not jump over a double. -/
theorem le_nearest {x y : ℚ} (hy : IsDouble y) (h : y ≤ x) : y ≤ nearest x := by
  by_contra hlt
  push Not at hlt
  have := abs_nearest_sub_le (x := x) hy
  rw [abs_of_nonpos (by linarith), abs_of_nonpos (by linarith)] at this
  linarith

theorem nearest_le {x y : ℚ} (hy : IsDouble y) (h : x ≤ y) : nearest x ≤ y := by
  by_contra hlt
  push Not at hlt
  have := abs_nearest_sub_le (x := x) hy
  rw [abs_of_nonneg (by linarith), abs_of_nonneg (by linarith)] at this
  linarith

/-- The doubles from `2 ^ k` on are multiples of `2 ^ (k - 53)`. -/
theorem IsDouble.multiple {x : ℚ} {k : ℤ} (hx : IsDouble x) (h : (2 : ℚ) ^ k ≤ |x|) :
    ∃ n : ℤ, x = n * (2 : ℚ) ^ (k - 53) := by
  obtain ⟨m, e, hm, rfl⟩ := hx
  have he : k - 53 ≤ e := by
    have hle : (2 : ℚ) ^ k ≤ (2 : ℚ) ^ (53 + e) := by
      calc (2 : ℚ) ^ k ≤ |(m : ℚ) * 2 ^ e| := h
        _ = |(m : ℚ)| * 2 ^ e := by rw [abs_mul, abs_of_pos (two_zpow_pos e)]
        _ ≤ 2 ^ 53 * 2 ^ e := mul_le_mul_of_nonneg_right (by exact_mod_cast hm) (two_zpow_pos e).le
        _ = (2 : ℚ) ^ (53 + e) := by rw [zpow_add₀ (by norm_num)]; norm_cast
    have := (zpow_le_zpow_iff_right₀ (by norm_num : (1 : ℚ) < 2)).1 hle
    omega
  refine ⟨m * 2 ^ (e - (k - 53)).toNat, ?_⟩
  push_cast
  rw [mul_assoc, ← zpow_natCast, ← zpow_add₀ (by norm_num : (2 : ℚ) ≠ 0)]
  congr 2
  omega

end Double
