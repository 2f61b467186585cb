import Vault.Shamir.Tables

/-!
# The tables realise the field GF(2^8)

`GF256` is a byte read as an element of the field: `+` is `add`, `*` is `mult`, and the
inverse is read off the same tables. The field laws are not assumed: they follow from
three facts about the two tables, each checked over all 255 entries,

* `exp (log a) = a` for every non-zero byte `a`;
* `log (exp n) ≡ n` modulo 255;
* `exp (n + 1) = mulGen (exp n)`, where `mulGen` is multiplication by the generator
  `0xe5 = X^7 + X^6 + X^5 + X^2 + 1` modulo `X^8 + X^4 + X^3 + X + 1`, written with
  shifts and xors only.

The first two make `mult` the group law of `ℤ/255` on the non-zero bytes. The third is
what gives distributivity: multiplying by `exp k` is the `k`-th iterate of the xor-linear
map `mulGen`, so it is xor-linear itself.
-/

namespace Vault.Shamir

/-- `logTable[a]` as a number. -/
def tableLog (a : UInt8) : ℕ := (logTable.get a.toFin).toNat

/-- `expTable[n % 255]`: the generator to the power `n`. -/
def tableExp (n : ℕ) : UInt8 := expTable.get ⟨n % 255, mod_255_lt_256 n⟩

/-- The product `mult` takes apart: zero for a zero operand, else the sum of logarithms. -/
theorem mult_eq (a b : UInt8) :
    mult a b = if b = 0 then 0 else if a = 0 then 0 else tableExp (tableLog a + tableLog b) :=
  rfl

theorem div_eq (a b : UInt8) (hb : b ≠ 0) :
    div a b = .ok (if a = 0 then 0 else tableExp (tableLog a + 255 - tableLog b)) := by
  simp [div, hb, tableExp, tableLog]

theorem tableLog_le (a : UInt8) : tableLog a ≤ 255 := by
  have := (logTable.get a.toFin).toNat_lt
  unfold tableLog
  omega

theorem tableExp_mod (n : ℕ) : tableExp (n % 255) = tableExp n := by
  simp [tableExp]

theorem tableExp_congr {m n : ℕ} (h : m % 255 = n % 255) : tableExp m = tableExp n := by
  rw [← tableExp_mod m, h, tableExp_mod]

/-! ## The table facts -/

/-- `xtime`: multiplication by `X` modulo `X^8 + X^4 + X^3 + X + 1`. -/
def xtime (a : UInt8) : UInt8 := (a <<< 1) ^^^ (if a &&& 0x80 = 0 then 0 else 0x1b)

/-- Multiplication by the generator `0xe5`, one xor per set bit. -/
def mulGen (a : UInt8) : UInt8 :=
  a ^^^ xtime^[2] a ^^^ xtime^[5] a ^^^ xtime^[6] a ^^^ xtime^[7] a

/-- A byte list read as one number in base 256, first byte lowest. -/
def packBytes : List UInt8 → ℕ
  | [] => 0
  | a :: l => a.toNat + 256 * packBytes l

/-- Digit `i` of the packed number is byte `i`. -/
theorem packBytes_digit (l : List UInt8) (i : ℕ) (h : i < l.length) :
    packBytes l / 256 ^ i % 256 = l[i].toNat := by
  induction l generalizing i with
  | nil => simp at h
  | cons a l ih =>
    have ha := a.toNat_lt
    cases i with
    | zero =>
      simp only [packBytes, pow_zero, Nat.div_one, List.getElem_cons_zero]
      omega
    | succ i =>
      have hq : (a.toNat + 256 * packBytes l) / 256 = packBytes l := by omega
      rw [packBytes, Nat.pow_succ', ← Nat.div_div_eq_div_mul, hq, List.getElem_cons_succ]
      exact ih i (by simpa using h)

/-- `logTable[k]`, read off the table's packed number. -/
def logDigit (k : ℕ) : ℕ := packBytes logTable.toList / 256 ^ k % 256

/-- `expTable[n % 255]`, read off the table's packed number. -/
def expDigit (n : ℕ) : ℕ := packBytes expTable.toList / 256 ^ (n % 255) % 256

theorem tableLog_eq_logDigit (a : UInt8) : tableLog a = logDigit a.toNat := by
  rw [tableLog, logDigit, packBytes_digit _ _ (by simpa using a.toNat_lt)]
  simp [Vector.get]

theorem toNat_tableExp (n : ℕ) : (tableExp n).toNat = expDigit n := by
  rw [tableExp, expDigit, packBytes_digit _ _ (by simpa using mod_255_lt_256 n)]
  simp [Vector.get]

/-! `decide` checks the three facts entry by entry, and the kernel checks them again. Indexing a
table walks its list, and each keeps every step of every walk until the check ends; read through
`packBytes`, a lookup is one division of a number computed once. -/

set_option maxRecDepth 4000 in
theorem expDigit_logDigit : ∀ a : Fin 256, a ≠ 0 → expDigit (logDigit a) = a := by
  decide

set_option maxRecDepth 4000 in
theorem logDigit_expDigit : ∀ n : Fin 255, logDigit (expDigit n) % 255 = n := by
  decide

set_option maxRecDepth 4000 in
theorem expDigit_succ :
    ∀ n : Fin 255, expDigit (n + 1) = (mulGen (UInt8.ofNat (expDigit n))).toNat := by
  decide

theorem tableExp_tableLog {a : UInt8} (ha : a ≠ 0) : tableExp (tableLog a) = a := by
  apply UInt8.toNat_inj.mp
  rw [toNat_tableExp, tableLog_eq_logDigit]
  exact expDigit_logDigit a.toFin (by simpa [← UInt8.toFin_inj] using ha)

theorem tableLog_tableExp (n : ℕ) : tableLog (tableExp n) % 255 = n % 255 := by
  have h := logDigit_expDigit ⟨n % 255, Nat.mod_lt n (by decide)⟩
  rwa [← toNat_tableExp, tableExp_mod, ← tableLog_eq_logDigit] at h

theorem tableExp_succ (n : ℕ) : tableExp (n + 1) = mulGen (tableExp n) := by
  have h := expDigit_succ ⟨n % 255, Nat.mod_lt n (by decide)⟩
  simp only [← toNat_tableExp, UInt8.ofNat_toNat, tableExp_mod, UInt8.toNat_inj] at h
  rw [← h]
  exact tableExp_congr (by omega)

@[simp] theorem tableExp_zero : tableExp 0 = 1 := rfl

theorem tableLog_one : tableLog 1 = 255 := rfl

theorem tableExp_ne_zero (n : ℕ) : tableExp n ≠ 0 := by
  intro h
  have hl := tableLog_tableExp n
  rw [h, show tableLog 0 = 0 from rfl] at hl
  have hn : tableExp n = tableExp 0 := tableExp_congr hl.symm
  rw [h, tableExp_zero] at hn
  exact absurd hn (by decide)

/-! ## `mulGen` is xor-linear -/

set_option maxRecDepth 4000 in
theorem and_0x80 : ∀ a : Fin 256, UInt8.ofFin a &&& 0x80 = 0 ∨ UInt8.ofFin a &&& 0x80 = 0x80 := by
  decide

theorem and_xor_distrib (a b c : UInt8) : (a ^^^ b) &&& c = (a &&& c) ^^^ (b &&& c) := by
  apply UInt8.toNat_inj.mp
  simp [Nat.and_xor_distrib_right]

theorem xor_xor_xor_comm (a b c d : UInt8) : a ^^^ b ^^^ (c ^^^ d) = a ^^^ c ^^^ (b ^^^ d) := by
  ac_rfl

theorem xtime_xor (a b : UInt8) : xtime (a ^^^ b) = xtime a ^^^ xtime b := by
  have ha := and_0x80 a.toFin
  have hb := and_0x80 b.toFin
  simp only [UInt8.ofFin_toFin] at ha hb
  unfold xtime
  rw [UInt8.shiftLeft_xor, and_xor_distrib, xor_xor_xor_comm]
  congr 1
  rcases ha with ha | ha <;> rcases hb with hb | hb <;> simp [ha, hb]

theorem xtime_iterate_xor (k : ℕ) (a b : UInt8) :
    xtime^[k] (a ^^^ b) = xtime^[k] a ^^^ xtime^[k] b := by
  induction k with
  | zero => rfl
  | succ k ih => simp only [Function.iterate_succ_apply', ih, xtime_xor]

theorem mulGen_xor (a b : UInt8) : mulGen (a ^^^ b) = mulGen a ^^^ mulGen b := by
  simp only [mulGen, xtime_iterate_xor, xor_xor_xor_comm]

theorem mulGen_zero : mulGen 0 = 0 := by decide

theorem mulGen_iterate_xor (k : ℕ) (a b : UInt8) :
    mulGen^[k] (a ^^^ b) = mulGen^[k] a ^^^ mulGen^[k] b := by
  induction k with
  | zero => rfl
  | succ k ih => simp only [Function.iterate_succ_apply', ih, mulGen_xor]

theorem mulGen_iterate_zero (k : ℕ) : mulGen^[k] 0 = 0 :=
  Function.iterate_fixed mulGen_zero k

/-! ## `mult` as the group law of the logarithms -/

@[simp] theorem mult_zero (a : UInt8) : mult a 0 = 0 := by simp [mult_eq]

@[simp] theorem zero_mult (a : UInt8) : mult 0 a = 0 := by simp [mult_eq]

theorem mult_tableExp (m n : ℕ) : mult (tableExp m) (tableExp n) = tableExp (m + n) := by
  rw [mult_eq, if_neg (tableExp_ne_zero n), if_neg (tableExp_ne_zero m)]
  apply tableExp_congr
  rw [Nat.add_mod, tableLog_tableExp, tableLog_tableExp, ← Nat.add_mod]

theorem mult_tableExp_right {a : UInt8} (ha : a ≠ 0) (n : ℕ) :
    mult a (tableExp n) = tableExp (tableLog a + n) := by
  rw [mult_eq, if_neg (tableExp_ne_zero n), if_neg ha]
  apply tableExp_congr
  rw [Nat.add_mod, tableLog_tableExp, ← Nat.add_mod]

theorem mult_comm (a b : UInt8) : mult a b = mult b a := by
  simp only [mult_eq]
  by_cases ha : a = 0 <;> by_cases hb : b = 0 <;> simp [ha, hb, Nat.add_comm]

theorem one_mult (a : UInt8) : mult 1 a = a := by
  by_cases ha : a = 0
  · simp [ha]
  · rw [← tableExp_tableLog ha, ← tableExp_zero, mult_tableExp, Nat.zero_add]

theorem mult_assoc (a b c : UInt8) : mult (mult a b) c = mult a (mult b c) := by
  by_cases ha : a = 0
  · simp [ha]
  by_cases hb : b = 0
  · simp [hb]
  by_cases hc : c = 0
  · simp [hc]
  rw [← tableExp_tableLog ha, ← tableExp_tableLog hb, ← tableExp_tableLog hc]
  simp only [mult_tableExp, Nat.add_assoc]

/-- Multiplying by `exp k` is `k` rounds of `mulGen`. -/
theorem mult_tableExp_eq_iterate (k : ℕ) (x : UInt8) : mult (tableExp k) x = mulGen^[k] x := by
  induction k with
  | zero => simp [one_mult]
  | succ k ih =>
    rw [Function.iterate_succ_apply', ← ih]
    by_cases hx : x = 0
    · simp [hx, mulGen_zero]
    rw [← tableExp_tableLog hx, mult_tableExp, mult_tableExp, Nat.add_right_comm, tableExp_succ]

theorem mult_xor (a b c : UInt8) : mult a (b ^^^ c) = mult a b ^^^ mult a c := by
  by_cases ha : a = 0
  · simp [ha]
  rw [← tableExp_tableLog ha]
  simp only [mult_tableExp_eq_iterate, mulGen_iterate_xor]

/-! ## The field -/

/-- A byte read as an element of GF(2^8). -/
@[ext] structure GF256 where
  val : UInt8
deriving DecidableEq

namespace GF256

instance : Zero GF256 := ⟨⟨0⟩⟩
instance : One GF256 := ⟨⟨1⟩⟩
instance : Add GF256 := ⟨fun a b => ⟨add a.val b.val⟩⟩
instance : Neg GF256 := ⟨fun a => a⟩
instance : Sub GF256 := ⟨fun a b => ⟨add a.val b.val⟩⟩
instance : Mul GF256 := ⟨fun a b => ⟨mult a.val b.val⟩⟩

/-- The inverse read off the tables: `exp (255 - log a)`. -/
instance : Inv GF256 := ⟨fun a => ⟨if a.val = 0 then 0 else tableExp (255 - tableLog a.val)⟩⟩

@[simp] theorem val_zero : (0 : GF256).val = 0 := rfl
@[simp] theorem val_one : (1 : GF256).val = 1 := rfl
@[simp] theorem val_add (a b : GF256) : (a + b).val = add a.val b.val := rfl
@[simp] theorem val_neg (a : GF256) : (-a).val = a.val := rfl
@[simp] theorem val_sub (a b : GF256) : (a - b).val = add a.val b.val := rfl
@[simp] theorem val_mul (a b : GF256) : (a * b).val = mult a.val b.val := rfl

theorem val_inv (a : GF256) :
    a⁻¹.val = if a.val = 0 then 0 else tableExp (255 - tableLog a.val) := rfl

instance : AddCommGroup GF256 where
  add_assoc a b c := GF256.ext (UInt8.xor_assoc a.val b.val c.val)
  zero_add a := GF256.ext UInt8.zero_xor
  add_zero a := GF256.ext UInt8.xor_zero
  neg_add_cancel a := GF256.ext UInt8.xor_self
  add_comm a b := GF256.ext (UInt8.xor_comm a.val b.val)
  sub_eq_add_neg _ _ := rfl
  nsmul := nsmulRec
  zsmul := zsmulRec

instance : CommRing GF256 where
  mul_assoc a b c := GF256.ext (mult_assoc a.val b.val c.val)
  one_mul a := GF256.ext (one_mult a.val)
  mul_one a := GF256.ext (by simp [mult_comm a.val, one_mult])
  zero_mul a := GF256.ext (zero_mult a.val)
  mul_zero a := GF256.ext (mult_zero a.val)
  left_distrib a b c := GF256.ext (mult_xor a.val b.val c.val)
  right_distrib a b c := GF256.ext (by simp [mult_comm _ c.val, add, mult_xor])
  mul_comm a b := GF256.ext (mult_comm a.val b.val)

theorem mul_inv_cancel' (a : GF256) (ha : a ≠ 0) : a * a⁻¹ = 1 := by
  have hv : a.val ≠ 0 := fun h => ha (GF256.ext h)
  apply GF256.ext
  rw [val_mul, val_inv, if_neg hv, mult_tableExp_right hv, Nat.add_sub_cancel' (tableLog_le _)]
  rfl

instance : Field GF256 where
  exists_pair_ne := ⟨0, 1, by decide⟩
  mul_inv_cancel := mul_inv_cancel'
  inv_zero := rfl
  nnqsmul := _
  qsmul := _

/-- A byte and its field element. -/
def equivUInt8 : UInt8 ≃ GF256 := ⟨GF256.mk, GF256.val, fun _ => rfl, fun _ => rfl⟩

instance : Fintype GF256 := Fintype.ofEquiv UInt8 equivUInt8

@[simp] theorem mk_add (a b : UInt8) : (⟨add a b⟩ : GF256) = ⟨a⟩ + ⟨b⟩ := rfl
@[simp] theorem mk_mul (a b : UInt8) : (⟨mult a b⟩ : GF256) = ⟨a⟩ * ⟨b⟩ := rfl

/-- `div` refines field division wherever it does not panic. -/
theorem div_eq_ok (a b : UInt8) (hb : b ≠ 0) : div a b = .ok (⟨a⟩ / ⟨b⟩ : GF256).val := by
  rw [div_eq a b hb, div_eq_mul_inv, val_mul, val_inv, if_neg hb]
  by_cases ha : a = 0
  · simp [ha]
  · rw [if_neg ha, mult_tableExp_right ha, Nat.add_sub_assoc (tableLog_le b)]

end GF256

end Vault.Shamir
