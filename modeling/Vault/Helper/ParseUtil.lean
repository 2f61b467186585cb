import Vault.Lib.GoRuntime
import Vault.Lib.GoStrings
import Vault.Lib.MachineArith

/-!
# `parseutil.ParseDurationSecond` and the duration fields of `framework`

`ParseDurationSecond` turns a request value into a `time.Duration`, a signed 64-bit count of
nanoseconds. A number or a string without a unit is a count of seconds, converted to a
duration and multiplied by `time.Second` in 64-bit arithmetic: the product wraps around when
it does not fit, and no error is returned. The field decoder of `framework` reads the
duration back as `int(dur.Seconds())`, through a float.

Go's `time.ParseDuration`, which reads strings with a unit, is a parameter of the model.
-/

namespace Vault.Helper

open GoRuntime GoStrings MachineArith

/-- The dynamic types `ParseDurationSecond` tells apart in its `interface{}` argument. Go's
`int` and `uint` are 64 bits wide; a float is given by its value. -/
inductive DurationInput where
  | nil
  | jsonNumber (s : String)
  | string (s : String)
  | int (i : Int64)
  | int32 (i : Int32)
  | int64 (i : Int64)
  | uint (u : UInt64)
  | uint32 (u : UInt32)
  | uint64 (u : UInt64)
  | float32 (x : ℚ)
  | float64 (x : ℚ)
  | duration (d : Int64)
  | other
deriving DecidableEq, Repr

/-- `time.Second`, in nanoseconds. -/
def second : ℤ := 1000000000

/-- `time.Duration(x) * time.Second` for a value `x` already converted to `int64`. -/
def secondsToDuration (x : ℤ) : ℤ := wrap64 (x * second)

/-- `parseutil.ParseDurationSecond(in)`. -/
def parseDurationSecond (parseDuration : String → Go ℤ) : DurationInput → Go ℤ
  | .nil => pure 0
  -- a `json.Number` is replaced by its text before the type switch
  | .jsonNumber inp | .string inp =>
    if inp = "" then pure 0
    else if hasSuffix inp "s" || hasSuffix inp "m" || hasSuffix inp "h" || hasSuffix inp "ms" then
      parseDuration inp
    else
      match parseInt inp with
      | some secs => pure (secondsToDuration secs)
      | none => throw (.error (parseIntError inp))
  | .int i | .int64 i => pure (secondsToDuration i.toInt)
  | .int32 i => pure (secondsToDuration i.toInt)
  -- the conversion of an unsigned value to `time.Duration` wraps as well
  | .uint u | .uint64 u => pure (secondsToDuration (wrap64 u.toNat))
  | .uint32 u => pure (secondsToDuration u.toNat)
  | .float32 x | .float64 x => pure (secondsToDuration (floatToInt64 x))
  | .duration d => pure d.toInt
  | .other => throw (.error "could not parse duration from input")

/-- `time.Duration.Seconds`: the whole seconds and the nanoseconds, each converted to a float
and added in floating point. -/
def durationSeconds (d : ℤ) : ℚ :=
  let sec := d.tdiv second
  let nsec := d.tmod second
  toBinary64 (toBinary64 sec + toBinary64 (toBinary64 nsec / 1000000000))

/-- The two field types that hold a number of seconds. -/
inductive DurationFieldType where
  | typeDurationSecond
  | typeSignedDurationSecond
deriving DecidableEq, Repr

/-- The duration case of `FieldData.getPrimitive`: `none` for a nil value, otherwise the
seconds `int(dur.Seconds())`, which a `TypeDurationSecond` field refuses when negative. -/
def getPrimitiveDuration (t : DurationFieldType) (parseDuration : String → Go ℤ)
    (raw : DurationInput) : Go (Option ℤ) :=
  match raw with
  | .nil => pure none
  | inp => do
    let dur ← parseDurationSecond parseDuration inp
    let result := truncToInt (durationSeconds dur)
    if t = .typeDurationSecond ∧ result < 0 then
      throw (.error ("cannot provide negative value \x27" ++ toString result ++ "\x27"))
    pure (some result)

/-! ## Inputs that count seconds -/

/-- The number of seconds an input gives without a unit: an integer of any width, or the
decimal text of one. This is the reading of the input, independent of the code. -/
def plainSeconds : DurationInput → Option ℤ
  | .jsonNumber s | .string s => parseInt s
  | .int i | .int64 i => some i.toInt
  | .int32 i => some i.toInt
  | .uint u | .uint64 u => some u.toNat
  | .uint32 u => some u.toNat
  | _ => none

/-- A decimal number has no unit suffix: its last character is a digit. -/
theorem parseInt_no_unit {s : String} {n : ℤ} (h : parseInt s = some n) :
    (hasSuffix s "s" || hasSuffix s "m" || hasSuffix s "h" || hasSuffix s "ms") = false := by
  obtain ⟨c, hc, hd⟩ := parseInt_getLast h
  have hne : ∀ d : Char, d.isDigit = false → c ≠ d := fun d hdd hcd => by
    rw [hcd, hdd] at hd
    cases hd
  rw [hasSuffix_eq_false_of_getLast hc rfl (hne 's' rfl),
    hasSuffix_eq_false_of_getLast hc rfl (hne 'm' rfl),
    hasSuffix_eq_false_of_getLast hc rfl (hne 'h' rfl),
    hasSuffix_eq_false_of_getLast hc rfl (hne 's' rfl)]
  rfl

theorem parseInt_ne_empty {s : String} {n : ℤ} (h : parseInt s = some n) : s ≠ "" := by
  rintro rfl
  cases h

/-- A decimal string is read as the product of its seconds by `time.Second`, wrapped. -/
theorem parseDurationSecond_text (parseDuration : String → Go ℤ) {s : String} {n : ℤ}
    (h : parseInt s = some n) :
    parseDurationSecond parseDuration (.string s) = .ok (secondsToDuration n) ∧
      parseDurationSecond parseDuration (.jsonNumber s) = .ok (secondsToDuration n) := by
  have hunit := parseInt_no_unit h
  simp only [parseDurationSecond, parseInt_ne_empty h, if_false, hunit, Bool.false_eq_true, h]
  exact ⟨rfl, rfl⟩

theorem parseDurationSecond_empty (parseDuration : String → Go ℤ) :
    parseDurationSecond parseDuration (.string "") = .ok 0 := by
  simp [parseDurationSecond, pure, Except.pure]

/-- A duration read from text fits in a `time.Duration` when those `time.ParseDuration` reads
do. -/
theorem parseDurationSecond_string_inInt64 {parseDuration : String → Go ℤ}
    (hparse : ∀ s d, parseDuration s = .ok d → InInt64 d) {s : String} {d : ℤ}
    (h : parseDurationSecond parseDuration (.string s) = .ok d) : InInt64 d := by
  simp only [parseDurationSecond] at h
  split_ifs at h with hempty hunit
  · cases h
    norm_num [InInt64]
  · exact hparse s d h
  · split at h
    · cases h
      exact wrap64_inInt64 _
    · cases h

/-- Every input that counts seconds is read as `n * time.Second` modulo `2 ^ 64`. -/
theorem parseDurationSecond_of_plainSeconds (parseDuration : String → Go ℤ)
    {input : DurationInput} {n : ℤ} (h : plainSeconds input = some n) :
    parseDurationSecond parseDuration input = .ok (secondsToDuration n) := by
  cases input with
  | jsonNumber s => exact (parseDurationSecond_text parseDuration h).2
  | string s => exact (parseDurationSecond_text parseDuration h).1
  | int i | int64 i | int32 i =>
    cases h
    rfl
  | uint u | uint64 u =>
    cases h
    simp only [parseDurationSecond, secondsToDuration, wrap64_mul_wrap64]
    rfl
  | uint32 u =>
    cases h
    rfl
  | nil | float32 | float64 | duration | other => cases h

/-- The duration is exact precisely when `n * time.Second` fits in 64 bits; otherwise it is
another number and no error is returned. -/
theorem secondsToDuration_eq_iff (n : ℤ) :
    secondsToDuration n = n * second ↔ InInt64 (n * second) :=
  wrap64_eq_self_iff

/-! ## Reading the seconds back -/

/-- A whole number of seconds within the 53 bits of a float is read back exactly. -/
theorem durationSeconds_mul_second {s : ℤ} (hs : s.natAbs < 2 ^ 53) :
    durationSeconds (s * second) = s := by
  have hsec : (s * second).tdiv second = s := Int.mul_tdiv_cancel s (by decide)
  have hnsec : (s * second).tmod second = 0 := Int.mul_tmod_left s second
  simp only [durationSeconds, hsec, hnsec, Int.cast_zero, toBinary64_zero, zero_div, add_zero,
    toBinary64_intCast hs]

/-- A field reads the seconds of a duration that is a whole number of them. -/
theorem getPrimitiveDuration_of_parse {t : DurationFieldType} {parseDuration : String → Go ℤ}
    {raw : DurationInput} {s : ℤ} (hraw : raw ≠ .nil) (hs : s.natAbs < 2 ^ 53)
    (h : parseDurationSecond parseDuration raw = .ok (s * second)) :
    getPrimitiveDuration t parseDuration raw =
      if t = .typeDurationSecond ∧ s < 0 then
        .error (.error ("cannot provide negative value \x27" ++ toString s ++ "\x27"))
      else .ok (some s) := by
  cases raw with
  | nil => exact absurd rfl hraw
  | _ =>
    simp only [getPrimitiveDuration, h, ok_bind, durationSeconds_mul_second hs, truncToInt_intCast]
    split_ifs <;> rfl

/-- Seconds whose product by `time.Second` fits in 64 bits fit in the 53 bits of a float. -/
theorem natAbs_lt_of_inInt64 {n : ℤ} (h : InInt64 (n * second)) : n.natAbs < 2 ^ 53 := by
  unfold InInt64 second at h
  omega

theorem plainSeconds_ne_nil {input : DurationInput} {n : ℤ} (h : plainSeconds input = some n) :
    input ≠ .nil := by
  rintro rfl
  cases h

theorem parseDurationSecond_wraps (parseDuration : String → Go ℤ) (input : DurationInput)
    (n : ℤ) (h : plainSeconds input = some n) :
    parseDurationSecond parseDuration input = .ok (wrap64 (n * second)) ∧
      (wrap64 (n * second) = n * second ↔ InInt64 (n * second)) ∧
      (InInt64 (n * second) → ∀ t, getPrimitiveDuration t parseDuration input =
        if t = .typeDurationSecond ∧ n < 0 then
          .error (.error ("cannot provide negative value \x27" ++ toString n ++ "\x27"))
        else .ok (some n)) := by
  have hparse := parseDurationSecond_of_plainSeconds parseDuration h
  refine ⟨hparse, secondsToDuration_eq_iff n, fun hfit t => ?_⟩
  -- in range the duration is exact, and the field reads its seconds back
  have hexact : parseDurationSecond parseDuration input = .ok (n * second) := by
    rw [hparse, (secondsToDuration_eq_iff n).mpr hfit]
  exact getPrimitiveDuration_of_parse (plainSeconds_ne_nil h) (natAbs_lt_of_inInt64 hfit) hexact

/-- `2 ^ 55 + 5` seconds, a non-negative number: the duration wraps to five seconds, and a
`TypeDurationSecond` field reads `5`. -/
theorem parseDurationSecond_wraps_to_five_seconds :
    parseDurationSecond (fun _ => .ok 0) (.string "36028797018963973") = .ok (5 * second) ∧
      ¬InInt64 (36028797018963973 * second) ∧
      getPrimitiveDuration .typeDurationSecond (fun _ => .ok 0) (.string "36028797018963973") =
        .ok (some 5) := by
  obtain ⟨hparse, -, -⟩ := parseDurationSecond_wraps (fun _ => .ok 0) (.string "36028797018963973")
    36028797018963973 (by decide)
  have hfive : parseDurationSecond (fun _ => .ok 0) (.string "36028797018963973") =
      .ok (5 * second) := hparse.trans (by decide)
  refine ⟨hfive, by decide, ?_⟩
  rw [getPrimitiveDuration_of_parse (by decide) (by decide) hfive]
  rfl

/-- Past `2 ^ 63` nanoseconds the duration turns negative instead of failing. -/
example : secondsToDuration 9223372037 = -9223372036709551616 := by decide

end Vault.Helper
