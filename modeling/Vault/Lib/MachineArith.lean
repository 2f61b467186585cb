import Mathlib.Algebra.Order.Floor.Ring
import Mathlib.Data.Int.Log
import Mathlib.Data.Int.ModEq
import Mathlib.Data.Rat.Floor

/-!
# Machine arithmetic: two's-complement words and binary64 rounding

A signed 64-bit word is an `Int` in `[-2^63, 2^63)`; an operation whose exact result leaves
that range wraps around, `wrap64` being the reduction onto the range.

An IEEE 754 binary64 number of the normal range is a rational with a 53-bit significand.
Every floating-point operation rounds its exact result to the nearest such number, ties to
even (`roundSignificand 53`). Overflow to infinity and subnormal numbers are not modelled:
the values met here stay far inside the normal range. The conversion of a float to an
integer discards the fraction (`truncToInt`).
-/

namespace MachineArith

/-! ## Two's-complement words -/

section Wrap

/-- The integers a signed 64-bit word holds. -/
def InInt64 (x : ℤ) : Prop := -2 ^ 63 ≤ x ∧ x < 2 ^ 63

instance : DecidablePred InInt64 := fun x =>
  inferInstanceAs (Decidable (-2 ^ 63 ≤ x ∧ x < 2 ^ 63))

/-- The two's-complement reduction of an integer onto the signed 64-bit range. -/
def wrap64 (x : ℤ) : ℤ := (x + 2 ^ 63) % 2 ^ 64 - 2 ^ 63

theorem wrap64_inInt64 (x : ℤ) : InInt64 (wrap64 x) := by
  unfold InInt64 wrap64
  omega

theorem wrap64_of_inInt64 {x : ℤ} (h : InInt64 x) : wrap64 x = x := by
  unfold InInt64 at h
  unfold wrap64
  omega

/-- The wrapped value is the exact one precisely when the exact one fits. -/
theorem wrap64_eq_self_iff {x : ℤ} : wrap64 x = x ↔ InInt64 x :=
  ⟨fun h => h ▸ wrap64_inInt64 x, wrap64_of_inInt64⟩

/-- The reduction keeps the residue modulo `2 ^ 64`. -/
theorem wrap64_modEq (x : ℤ) : wrap64 x ≡ x [ZMOD 2 ^ 64] := by
  unfold wrap64
  calc (x + 2 ^ 63) % 2 ^ 64 - 2 ^ 63
      ≡ (x + 2 ^ 63) - 2 ^ 63 [ZMOD 2 ^ 64] := (Int.mod_modEq _ _).sub_right _
    _ = x := by ring

theorem wrap64_eq_of_modEq {x y : ℤ} (h : x ≡ y [ZMOD 2 ^ 64]) : wrap64 x = wrap64 y := by
  have hshift : (x + 2 ^ 63) % 2 ^ 64 = (y + 2 ^ 63) % 2 ^ 64 := h.add_right _
  unfold wrap64
  rw [hshift]

/-- Wrapping before a multiplication changes nothing: the product is reduced anyway. -/
theorem wrap64_mul_wrap64 (x y : ℤ) : wrap64 (wrap64 x * y) = wrap64 (x * y) :=
  wrap64_eq_of_modEq ((wrap64_modEq x).mul_right y)

/-- The difference of two non-negative words does not wrap. -/
theorem wrap64_sub_of_nonneg {a b : ℤ} (ha : InInt64 a) (hb : InInt64 b) (ha0 : 0 ≤ a)
    (hb0 : 0 ≤ b) : wrap64 (a - b) = a - b := by
  apply wrap64_of_inInt64
  unfold InInt64 at *
  omega

/-- The saturation of an integer onto the signed 64-bit range, as `time.Time.Sub` returns a
difference too large for a `Duration`. -/
def saturate64 (x : ℤ) : ℤ := max (-2 ^ 63) (min (2 ^ 63 - 1) x)

theorem saturate64_inInt64 (x : ℤ) : InInt64 (saturate64 x) := by
  unfold saturate64 InInt64
  omega

theorem saturate64_le_zero_iff {x : ℤ} : saturate64 x ≤ 0 ↔ x ≤ 0 := by
  unfold saturate64
  omega

theorem saturate64_le_self {x : ℤ} (hx : 0 ≤ x) : saturate64 x ≤ x := by
  unfold saturate64
  omega

end Wrap

/-! ## Rounding to a significand of `p` bits -/

section Round

/-- The integer nearest to `x`, an even one on a tie. -/
def roundHalfEven (x : ℚ) : ℤ :=
  let m := ⌊x⌋
  if 1 / 2 < x - m ∨ (x - m = 1 / 2 ∧ m % 2 = 1) then m + 1 else m

/-- The number nearest to `q` whose significand has `p` bits, an even significand on a tie:
the unit in the last place is `2 ^ (e + 1 - p)` for the exponent `e` of `q`. -/
def roundSignificand (p : ℕ) (q : ℚ) : ℚ :=
  if q = 0 then 0 else
    let ulp : ℚ := 2 ^ (Int.log 2 |q| + 1 - p)
    roundHalfEven (q / ulp) * ulp

/-- The conversion of a float to an integer: the fraction is discarded. -/
def truncToInt (x : ℚ) : ℤ := if 0 ≤ x then ⌊x⌋ else ⌈x⌉

@[simp] theorem roundHalfEven_intCast (z : ℤ) : roundHalfEven z = z := by
  simp [roundHalfEven]

@[simp] theorem roundSignificand_zero (p : ℕ) : roundSignificand p 0 = 0 := by
  simp [roundSignificand]

@[simp] theorem truncToInt_intCast (z : ℤ) : truncToInt z = z := by
  unfold truncToInt
  split <;> simp

/-- The exponent of a non-zero integer below `2 ^ p` is below `p`. -/
theorem log_lt_of_natAbs_lt {p : ℕ} {n : ℤ} (hn : n ≠ 0) (h : n.natAbs < 2 ^ p) :
    Int.log 2 |(n : ℚ)| < p := by
  have hpos : 0 < |(n : ℚ)| := abs_pos.mpr (Int.cast_ne_zero.mpr hn)
  have hle : (2 : ℚ) ^ Int.log 2 |(n : ℚ)| ≤ |(n : ℚ)| := by
    exact_mod_cast Int.zpow_log_le_self one_lt_two hpos
  have hlt : |(n : ℚ)| < (2 : ℚ) ^ (p : ℤ) := by
    rw [← Int.cast_abs, Int.abs_eq_natAbs, zpow_natCast]
    exact_mod_cast h
  exact (zpow_lt_zpow_iff_right₀ one_lt_two).mp (hle.trans_lt hlt)

/-- An integer with at most `p` bits is its own rounding. -/
theorem roundSignificand_intCast {p : ℕ} {n : ℤ} (h : n.natAbs < 2 ^ p) :
    roundSignificand p n = n := by
  rcases eq_or_ne n 0 with rfl | hn
  · simp
  have hlog := log_lt_of_natAbs_lt hn h
  -- the unit in the last place is `1 / 2 ^ k`, so `n` is a whole number of units
  obtain ⟨k, hk⟩ : ∃ k : ℕ, (p : ℤ) - 1 - Int.log 2 |(n : ℚ)| = k :=
    ⟨(p - 1 - Int.log 2 |(n : ℚ)|).toNat, by omega⟩
  have hulp : (2 : ℚ) ^ (Int.log 2 |(n : ℚ)| + 1 - p) = ((2 : ℚ) ^ k)⁻¹ := by
    rw [← zpow_natCast, ← zpow_neg]
    congr 1
    omega
  have hunits : (n : ℚ) / ((2 : ℚ) ^ k)⁻¹ = ((n * 2 ^ k : ℤ) : ℚ) := by
    push_cast
    rw [div_inv_eq_mul]
  simp only [roundSignificand, Int.cast_eq_zero, hn, if_false]
  rw [hulp, hunits, roundHalfEven_intCast]
  push_cast
  field_simp

/-- A binary64 float: the rounding to 53 significant bits. -/
def toBinary64 (q : ℚ) : ℚ := roundSignificand 53 q

/-- The conversion of a float to a signed 64-bit integer as amd64 performs it: the fraction is
discarded, and a value out of range gives the integer indefinite `-2 ^ 63`. -/
def floatToInt64 (x : ℚ) : ℤ := if InInt64 (truncToInt x) then truncToInt x else -2 ^ 63

@[simp] theorem toBinary64_zero : toBinary64 0 = 0 := roundSignificand_zero 53

theorem toBinary64_intCast {n : ℤ} (h : n.natAbs < 2 ^ 53) : toBinary64 n = n :=
  roundSignificand_intCast h

end Round

end MachineArith
