import Vault.Shamir.Field
import Vault.Lib.Interpolation

/-!
# Polynomials of `shamir.go`

`makePolynomial`, `evaluate` and `interpolatePolynomial`, as the source writes them, over
bytes. Each is then read in `GF256`: `evaluate` is `Polynomial.eval` of the polynomial
whose coefficients the slice lists, and `interpolatePolynomial` at distinct samples is the
Lagrange form, hence the value of every polynomial of low enough degree through them.
-/

namespace Vault.Shamir
open GoRuntime Polynomial Finset

/-- `polynomial`: its coefficients, the intercept first. -/
structure polynomial where
  coefficients : List UInt8
deriving DecidableEq

/-- What `rand.Read` leaves in a buffer of `n` bytes: the bytes, or the error it returned. -/
abbrev RandomRead (n : ℕ) := Except String (Fin n → UInt8)

/-- `makePolynomial`: the intercept, then `degree` random coefficients. `make([]byte,
degree+1)` is an empty slice when `degree + 1` wraps to `0`, and storing the intercept
then panics. -/
def makePolynomial (intercept degree : UInt8) (random : RandomRead degree.toNat) :
    Go polynomial :=
  if degree + 1 = 0 then .error (.panic "index out of range")
  else match random with
    | .error err => .error (.error err)
    | .ok bytes => .ok ⟨intercept :: List.ofFn bytes⟩

/-- `evaluate`: the origin is special-cased; elsewhere Horner's method runs `i` from
`degree - 1` down to `0`. On an empty slice `coefficients[degree]` panics. -/
def polynomial.evaluate (p : polynomial) (x : UInt8) : Go UInt8 :=
  if x = 0 then index p.coefficients 0
  else do
    let degree := p.coefficients.length - 1
    let out ← index p.coefficients degree
    (List.range degree).reverse.foldlM
      (fun out i => do return add (mult out x) (← index p.coefficients i)) out

/-- `interpolatePolynomial`: the Lagrange form through the samples, at `x`. -/
def interpolatePolynomial (xSamples ySamples : List UInt8) (x : UInt8) : Go UInt8 :=
  let limit := xSamples.length
  (List.range limit).foldlM (fun result i => do
    let basis ← (List.range limit).foldlM (fun basis j =>
      if i = j then pure basis
      else do
        let num := add x (← index xSamples j)
        let denom := add (← index xSamples i) (← index xSamples j)
        let term ← div num denom
        pure (mult basis term)) 1
    let group := mult (← index ySamples i) basis
    pure (add result group)) 0

/-- The polynomial `makePolynomial` builds from the intercept `val` and the bytes `c`. -/
def splitPoly {n : ℕ} (val : UInt8) (c : Fin n → UInt8) : polynomial := ⟨val :: List.ofFn c⟩

theorem makePolynomial_ok {d : UInt8} (val : UInt8) (hd : d + 1 ≠ 0) (c : Fin d.toNat → UInt8) :
    makePolynomial val d (.ok c) = .ok (splitPoly val c) := by
  simp [makePolynomial, hd, splitPoly]

/-- The coefficient slice read in `GF256`, as a function of the index. -/
def coeffAt (cs : List UInt8) (i : ℕ) : GF256 := ⟨cs.getD i 0⟩

/-- The polynomial over `GF256` whose coefficients `p.coefficients` lists. -/
noncomputable def polynomial.toPoly (p : polynomial) : GF256[X] :=
  ofFn p.coefficients.length fun i => coeffAt p.coefficients i

theorem polynomial.degree_toPoly_lt (p : polynomial) :
    p.toPoly.degree < p.coefficients.length :=
  ofFn_degree_lt _

theorem polynomial.eval_toPoly (p : polynomial) (x : GF256) :
    p.toPoly.eval x = ∑ i ∈ range p.coefficients.length, coeffAt p.coefficients i * x ^ i := by
  rw [polynomial.toPoly, Interpolation.eval_ofFn,
    Fin.sum_univ_eq_sum_range (fun i => coeffAt p.coefficients i * x ^ i)]

theorem polynomial.eval_toPoly_zero (p : polynomial) (hp : p.coefficients ≠ []) :
    p.toPoly.eval 0 = coeffAt p.coefficients 0 := by
  rw [← coeff_zero_eq_eval_zero, polynomial.toPoly,
    ofFn_coeff_eq_val_of_lt _ (List.length_pos_iff.mpr hp)]

/-! ## `evaluate` is `Polynomial.eval` -/

/-- Horner's loop over bytes, read in `GF256`. -/
theorem horner_loop_eq (cs : List UInt8) (x out : UInt8) (k : ℕ) (hk : k ≤ cs.length) :
    (List.range k).reverse.foldlM
      (fun out i => do return add (mult out x) (← index cs i)) out =
      .ok (⟨out⟩ * ⟨x⟩ ^ k + ∑ i ∈ range k, coeffAt cs i * ⟨x⟩ ^ i : GF256).val := by
  have hstep (a : UInt8) (i : ℕ) :
      (⟨a⟩ : GF256) * ⟨x⟩ + coeffAt cs i = ⟨add (mult a x) (cs.getD i 0)⟩ := rfl
  rw [foldlM_ok _ (fun out i => add (mult out x) (cs.getD i 0))]
  · rw [← Interpolation.foldl_horner, List.foldl_hom GF256.mk hstep]
  · intro i hi out
    have hi' : i < cs.length := by simp at hi; omega
    rw [index_of_lt hi', List.getD_eq_getElem _ _ hi']
    rfl

theorem evaluate_eq_eval (p : polynomial) (hp : p.coefficients ≠ []) (x : UInt8) :
    p.evaluate x = .ok (p.toPoly.eval ⟨x⟩).val := by
  have hlen := List.length_pos_iff.mpr hp
  unfold polynomial.evaluate
  split_ifs with hx
  · subst hx
    rw [index_of_lt hlen]
    have h0 := p.eval_toPoly_zero hp
    simp only [coeffAt] at h0
    rw [show (⟨0⟩ : GF256) = 0 from rfl, h0, List.getD_eq_getElem _ _ hlen]
    rfl
  · dsimp only
    rw [index_of_lt (by omega), ok_bind, horner_loop_eq _ _ _ _ (by omega), p.eval_toPoly]
    congr 2
    conv_rhs => rw [← Nat.sub_add_cancel hlen, sum_range_succ]
    rw [add_comm, coeffAt, List.getD_eq_getElem _ _ (Nat.sub_lt hlen Nat.one_pos)]
    rfl

/-! ## `interpolatePolynomial` is the Lagrange form -/

/-- The Lagrange form through `xs i ↦ ys i`, `i < n`, at `x`, in `GF256`. -/
noncomputable def lagrangeAt (xs ys : List UInt8) (x : UInt8) : GF256 :=
  ∑ i ∈ range xs.length, coeffAt ys i *
    ∏ j ∈ (range xs.length).erase i, (⟨x⟩ - coeffAt xs j) / (coeffAt xs i - coeffAt xs j)

theorem coeffAt_injOn {xs : List UInt8} (hxs : xs.Nodup) :
    Set.InjOn (coeffAt xs) (range xs.length : Finset ℕ) := by
  intro i hi j hj h
  simp only [coe_range, Set.mem_Iio] at hi hj
  simp only [coeffAt, GF256.mk.injEq, List.getD_eq_getElem _ _ hi,
    List.getD_eq_getElem _ _ hj] at h
  exact (List.Nodup.getElem_inj_iff hxs).mp h

/-- One round of the inner loop, for `j ≠ i`: the division never panics. -/
theorem basis_step_eq {xs : List UInt8} (hxs : xs.Nodup) (x : UInt8) {i j : ℕ}
    (hi : i < xs.length) (hj : j < xs.length) (hij : i ≠ j) (basis : UInt8) :
    (do
      let num := add x (← index xs j)
      let denom := add (← index xs i) (← index xs j)
      let term ← div num denom
      pure (mult basis term) : Go UInt8) =
      .ok (⟨basis⟩ * ((⟨x⟩ - coeffAt xs j) / (coeffAt xs i - coeffAt xs j)) : GF256).val := by
  have hne : add xs[i] xs[j] ≠ 0 := by
    simp only [add, ne_eq, UInt8.xor_eq_zero_iff]
    exact fun h => hij ((List.Nodup.getElem_inj_iff hxs).mp h)
  simp only [index_of_lt hi, index_of_lt hj, ok_bind, List.get_eq_getElem,
    GF256.div_eq_ok _ _ hne]
  simp only [coeffAt, List.getD_eq_getElem _ _ hi, List.getD_eq_getElem _ _ hj]
  rfl

/-- The inner loop computes the Lagrange basis polynomial of node `i` at `x`. -/
theorem basis_loop_eq {xs : List UInt8} (hxs : xs.Nodup) (x : UInt8) {i : ℕ}
    (hi : i < xs.length) :
    (List.range xs.length).foldlM (fun basis j =>
      if i = j then pure basis
      else do
        let num := add x (← index xs j)
        let denom := add (← index xs i) (← index xs j)
        let term ← div num denom
        pure (mult basis term)) 1 =
      .ok (∏ j ∈ (range xs.length).erase i,
        (⟨x⟩ - coeffAt xs j) / (coeffAt xs i - coeffAt xs j) : GF256).val := by
  let q (j : ℕ) : GF256 := (⟨x⟩ - coeffAt xs j) / (coeffAt xs i - coeffAt xs j)
  have hstep (b : UInt8) (j : ℕ) :
      (if i = j then (⟨b⟩ : GF256) else ⟨b⟩ * q j) =
        ⟨if i = j then b else (⟨b⟩ * q j : GF256).val⟩ := by
    split_ifs <;> rfl
  rw [foldlM_ok _ (fun b j => if i = j then b else (⟨b⟩ * q j : GF256).val)]
  · rw [← one_mul (∏ j ∈ (range xs.length).erase i, q j),
      ← Interpolation.foldl_mul_range_skip, List.foldl_hom GF256.mk hstep]
    rfl
  · intro j hj b
    have hj' : j < xs.length := List.mem_range.mp hj
    by_cases hij : i = j
    · simp only [hij, if_true]
      rfl
    · simp only [hij, if_false]
      exact basis_step_eq hxs x hi hj' hij b

theorem interpolatePolynomial_eq (xs ys : List UInt8) (x : UInt8) (hxs : xs.Nodup)
    (hys : xs.length ≤ ys.length) :
    interpolatePolynomial xs ys x = .ok (lagrangeAt xs ys x).val := by
  let B (i : ℕ) : GF256 :=
    ∏ j ∈ (range xs.length).erase i, (⟨x⟩ - coeffAt xs j) / (coeffAt xs i - coeffAt xs j)
  have hstep (r : UInt8) (i : ℕ) :
      (⟨r⟩ : GF256) + coeffAt ys i * B i = ⟨(⟨r⟩ + coeffAt ys i * B i : GF256).val⟩ := rfl
  unfold interpolatePolynomial
  rw [foldlM_ok _ (fun r i => (⟨r⟩ + coeffAt ys i * B i : GF256).val)]
  · rw [lagrangeAt, ← zero_add (∑ i ∈ range xs.length, _), ← Interpolation.foldl_add_range,
      List.foldl_hom GF256.mk hstep]
    rfl
  · intro i hi r
    have hi' : i < xs.length := List.mem_range.mp hi
    rw [basis_loop_eq hxs x hi', ok_bind, index_of_lt (lt_of_lt_of_le hi' hys), ok_bind]
    simp only [coeffAt, List.getD_eq_getElem _ _ (lt_of_lt_of_le hi' hys)]
    rfl

/-- At distinct samples of a polynomial of degree below their number, the interpolation
returns that polynomial's value. -/
theorem interpolatePolynomial_eval (xs ys : List UInt8) (x : UInt8) (hxs : xs.Nodup)
    (hys : xs.length ≤ ys.length) (p : GF256[X]) (hp : p.degree < xs.length)
    (hval : ∀ i < xs.length, coeffAt ys i = p.eval (coeffAt xs i)) :
    interpolatePolynomial xs ys x = .ok (p.eval ⟨x⟩).val := by
  rw [interpolatePolynomial_eq xs ys x hxs hys,
    Interpolation.eval_eq_lagrange_sum (range xs.length) (coeffAt xs) (coeffAt_injOn hxs) p
      (by simpa using hp) ⟨x⟩, lagrangeAt]
  congr 2
  exact sum_congr rfl fun i hi => by rw [hval i (mem_range.mp hi)]

/-! ## Fewer shares than the threshold -/

set_option maxRecDepth 4000 in
/-- `uint8(threshold-1)` for a threshold that passed the checks of `Split`. -/
theorem degree_of_threshold : ∀ t : Fin 256, 2 ≤ t.val →
    UInt8.ofInt ((t.val : ℤ) - 1) + 1 ≠ 0 ∧ (UInt8.ofInt ((t.val : ℤ) - 1)).toNat = t.val - 1 := by
  decide

theorem toPoly_splitPoly {m : ℕ} (s : UInt8) (c : Fin m → UInt8) :
    (splitPoly s c).toPoly = ofFn (m + 1) (Fin.cons ⟨s⟩ (GF256.mk ∘ c) : Fin (m + 1) → GF256) := by
  refine Polynomial.ext fun k => ?_
  by_cases hk : k < m + 1
  · rw [polynomial.toPoly, ofFn_coeff_eq_val_of_lt _ (by simpa [splitPoly] using hk),
      ofFn_coeff_eq_val_of_lt _ hk]
    cases k with
    | zero => rfl
    | succ j =>
      have hj : j < m := by omega
      have h1 : coeffAt (splitPoly s c).coefficients (j + 1) = ⟨c ⟨j, hj⟩⟩ := by
        simp [coeffAt, splitPoly, hj]
      rw [show (⟨j + 1, hk⟩ : Fin (m + 1)) = Fin.succ ⟨j, hj⟩ from rfl, Fin.cons_succ]
      exact h1
  · rw [polynomial.toPoly, ofFn_coeff_eq_zero_of_ge _ (by simpa [splitPoly] using hk),
      ofFn_coeff_eq_zero_of_ge _ (by omega)]

/-- The random bytes with which `makePolynomial s degree` builds a polynomial that
`evaluate` sends to `y i` at each `x i`. -/
def consistentCoeffs (degree s : UInt8) (x y : Fin degree.toNat → UInt8) :
    Set (Fin degree.toNat → UInt8) :=
  {c | ∀ i, ((makePolynomial s degree (.ok c)).bind fun p => p.evaluate (x i)) = .ok (y i)}

/-- With the intercept fixed, `degree` values at distinct non-zero points leave exactly one
choice of the random bytes. -/
theorem card_consistentCoeffs {d : UInt8} (hd : d + 1 ≠ 0) (s : UInt8)
    {x : Fin d.toNat → UInt8} (hx : Function.Injective x) (hx0 : ∀ i, x i ≠ 0)
    (y : Fin d.toNat → UInt8) :
    Nat.card (consistentCoeffs d s x y) = 1 := by
  have hiff (c : Fin d.toNat → UInt8) : c ∈ consistentCoeffs d s x y ↔
      ∀ i, (ofFn (d.toNat + 1) (Fin.cons ⟨s⟩ (GF256.mk ∘ c) : Fin (d.toNat + 1) → GF256)).eval
        ⟨x i⟩ = ⟨y i⟩ := by
    refine forall_congr' fun i => ?_
    rw [makePolynomial_ok s hd c, Except.bind, evaluate_eq_eval _ (by simp [splitPoly]),
      toPoly_splitPoly, Except.ok.injEq, GF256.ext_iff]
  let e : consistentCoeffs d s x y ≃ {c : Fin d.toNat → GF256 //
      ∀ i, (ofFn (d.toNat + 1) (Fin.cons ⟨s⟩ c : Fin (d.toNat + 1) → GF256)).eval ⟨x i⟩ =
        ⟨y i⟩} :=
    (Equiv.arrowCongr (Equiv.refl (Fin d.toNat)) GF256.equivUInt8).subtypeEquiv hiff
  rw [Nat.card_congr e, Nat.card_eq_fintype_card]
  exact Interpolation.card_coeffs_of_eval (fun i j h => hx (congrArg GF256.val h))
    (fun i h => hx0 i (congrArg GF256.val h)) ⟨s⟩ (GF256.mk ∘ y)

/-- Perfect secrecy of `makePolynomial`: for a threshold `2 ≤ t ≤ 255`, `t - 1` distinct
non-zero points and any `t - 1` share bytes, every secret byte is consistent with
exactly one choice of the random coefficients, so the shares are independent of it. -/
theorem makePolynomial_secrecy (threshold : ℤ) (h2 : 2 ≤ threshold) (ht : threshold ≤ 255)
    (x y : Fin (UInt8.ofInt (threshold - 1)).toNat → UInt8) (hx : Function.Injective x)
    (hx0 : ∀ i, x i ≠ 0) (s s' : UInt8) :
    Nat.card (consistentCoeffs (UInt8.ofInt (threshold - 1)) s x y) =
      Nat.card (consistentCoeffs (UInt8.ofInt (threshold - 1)) s' x y) ∧
    Nat.card (consistentCoeffs (UInt8.ofInt (threshold - 1)) s x y) = 1 := by
  have hd : UInt8.ofInt (threshold - 1) + 1 ≠ 0 := by
    obtain ⟨t, rfl⟩ := Int.eq_ofNat_of_zero_le (show 0 ≤ threshold by omega)
    exact (degree_of_threshold ⟨t, by omega⟩ (by simp; omega)).1
  rw [card_consistentCoeffs hd s hx hx0 y, card_consistentCoeffs hd s' hx hx0 y]
  exact ⟨rfl, rfl⟩

/-- A 2-of-n sharing: one share at `x = 1` reading `5` fits the secrets `7` and `9` alike. -/
theorem makePolynomial_secrecy_one_share :
    Nat.card (consistentCoeffs (UInt8.ofInt (2 - 1)) 7 (fun _ => 1) (fun _ => 5)) =
      Nat.card (consistentCoeffs (UInt8.ofInt (2 - 1)) 9 (fun _ => 1) (fun _ => 5)) ∧
    Nat.card (consistentCoeffs (UInt8.ofInt (2 - 1)) 7 (fun _ => 1) (fun _ => 5)) = 1 :=
  makePolynomial_secrecy 2 (by decide) (by decide) (fun _ => 1) (fun _ => 5)
    (fun i j _ => Fin.ext (by have := i.isLt; have := j.isLt; simp at *; omega))
    (fun _ => by decide) 7 9

end Vault.Shamir
