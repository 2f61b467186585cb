import Mathlib

/-!
# Polynomial evaluation and interpolation, as loops compute them

Three facts about polynomials over a field, stated in the shape in which imperative code
computes them:

* Horner's loop, running an index from the top coefficient down, evaluates `ofFn n c`;
* the Lagrange double loop, a sum over the nodes of products over the other nodes,
  evaluates at any point the unique polynomial of degree `< n` through `n` distinct nodes;
* with the constant term fixed and `m` further distinct non-zero nodes, exactly one
  coefficient vector of length `m` hits any prescribed values (threshold secrecy).

Loops over `List.range n` are related to `Finset` sums and products once, here.
-/

open Polynomial Finset

namespace Interpolation

variable {F : Type*}

/-! ## Loops as sums and products -/

section Loops

variable [CommRing F]

theorem foldl_add_range (f : ℕ → F) (a : F) (n : ℕ) :
    (List.range n).foldl (fun acc i => acc + f i) a = a + ∑ i ∈ range n, f i := by
  induction n generalizing a with
  | zero => simp
  | succ n ih => rw [List.range_succ, List.foldl_append, ih, sum_range_succ]; simp [add_assoc]

/-- The inner loop of the Lagrange form: a product over the indices other than `i`. -/
theorem foldl_mul_range_skip (g : ℕ → F) (i : ℕ) (a : F) (n : ℕ) :
    (List.range n).foldl (fun acc j => if i = j then acc else acc * g j) a =
      a * ∏ j ∈ (range n).erase i, g j := by
  induction n generalizing a with
  | zero => simp
  | succ n ih =>
    rw [List.range_succ, List.foldl_append, ih, range_add_one]
    by_cases hin : i = n
    · subst hin
      simp [erase_insert notMem_range_self]
    · have hni : n ∉ (range n).erase i := by simp
      simp only [List.foldl_cons, List.foldl_nil, if_neg hin, erase_insert_of_ne (Ne.symm hin),
        prod_insert hni]
      ring

/-- Horner's loop from the top coefficient `out` down through `c (k-1), …, c 0`. -/
theorem foldl_horner (c : ℕ → F) (x out : F) (k : ℕ) :
    (List.range k).reverse.foldl (fun out i => out * x + c i) out =
      out * x ^ k + ∑ i ∈ range k, c i * x ^ i := by
  induction k generalizing out with
  | zero => simp
  | succ k ih =>
    rw [List.range_succ, List.reverse_append, List.reverse_singleton, List.singleton_append,
      List.foldl_cons, ih, sum_range_succ]
    ring

theorem eval_ofFn [DecidableEq F] (n : ℕ) (c : Fin n → F) (x : F) :
    (ofFn n c).eval x = ∑ i : Fin n, c i * x ^ (i : ℕ) := by
  simp [ofFn_eq_sum_monomial, eval_finsetSum, eval_monomial]

end Loops

/-! ## The Lagrange form at a point -/

section Lagrange

variable [Field F] {ι : Type*} [DecidableEq ι]

/-- A polynomial of degree below the number of distinct nodes is its Lagrange form,
evaluated at any point. -/
theorem eval_eq_lagrange_sum (s : Finset ι) (v : ι → F) (hvs : Set.InjOn v s) (p : F[X])
    (hp : p.degree < s.card) (x : F) :
    p.eval x = ∑ i ∈ s, p.eval (v i) * ∏ j ∈ s.erase i, (x - v j) / (v i - v j) := by
  conv_lhs => rw [Lagrange.eq_interpolate hvs hp]
  simp only [Lagrange.interpolate_apply, eval_finsetSum, eval_mul, eval_C, Lagrange.basis,
    eval_prod, Lagrange.basisDivisor, eval_sub, eval_X]
  refine sum_congr rfl fun i _ => ?_
  congr 1
  exact prod_congr rfl fun j _ => by rw [div_eq_inv_mul]

end Lagrange

/-! ## One interpolant through a fixed intercept -/

section Secrecy

variable [Field F]

/-- The nodes `0, x 0, …, x (m-1)`. -/
def withOrigin {m : ℕ} (x : Fin m → F) : Fin (m + 1) → F := Fin.cons 0 x

theorem withOrigin_injective {m : ℕ} {x : Fin m → F} (hx : Function.Injective x)
    (hx0 : ∀ i, x i ≠ 0) : Function.Injective (withOrigin x) := by
  intro i j h
  cases i using Fin.cases <;> cases j using Fin.cases
  · rfl
  · exact absurd h.symm (hx0 _)
  · exact absurd h (hx0 _)
  · simpa [withOrigin] using hx h

variable [DecidableEq F]

theorem eval_zero_ofFn_cons {m : ℕ} (s : F) (c : Fin m → F) :
    (ofFn (m + 1) (Fin.cons s c : Fin (m + 1) → F)).eval 0 = s := by
  rw [← coeff_zero_eq_eval_zero, ofFn_coeff_eq_val_of_lt _ (Nat.succ_pos m)]
  rfl

/-- Two coefficient vectors behind the same intercept that agree on `m` distinct non-zero
nodes are equal. -/
theorem coeffs_eq_of_eval_eq {m : ℕ} {x : Fin m → F} (hx : Function.Injective x)
    (hx0 : ∀ i, x i ≠ 0) (s : F) {c c' : Fin m → F}
    (h : ∀ i, (ofFn (m + 1) (Fin.cons s c : Fin (m + 1) → F)).eval (x i) =
      (ofFn (m + 1) (Fin.cons s c' : Fin (m + 1) → F)).eval (x i)) : c = c' := by
  have hp : ofFn (m + 1) (Fin.cons s c : Fin (m + 1) → F) =
      ofFn (m + 1) (Fin.cons s c' : Fin (m + 1) → F) := by
    apply Polynomial.eq_of_degrees_lt_of_eval_index_eq univ
      ((withOrigin_injective hx hx0).injOn)
    · rw [card_univ, Fintype.card_fin]
      exact ofFn_degree_lt _
    · rw [card_univ, Fintype.card_fin]
      exact ofFn_degree_lt _
    · intro i _
      cases i using Fin.cases with
      | zero => simp only [withOrigin, Fin.cons_zero, eval_zero_ofFn_cons]
      | succ i => simpa [withOrigin] using h i
  exact (Fin.cons_right_injective s) (injective_ofFn (m + 1) hp)

/-- Some coefficient vector behind intercept `s` takes the values `y` at the nodes `x`. -/
theorem exists_coeffs_of_eval {m : ℕ} {x : Fin m → F} (hx : Function.Injective x)
    (hx0 : ∀ i, x i ≠ 0) (s : F) (y : Fin m → F) :
    ∃ c : Fin m → F, ∀ i, (ofFn (m + 1) (Fin.cons s c : Fin (m + 1) → F)).eval (x i) = y i := by
  let p := Lagrange.interpolate univ (withOrigin x) (Fin.cons s y : Fin (m + 1) → F)
  have hinj : Set.InjOn (withOrigin x) (univ : Finset (Fin (m + 1))) :=
    (withOrigin_injective hx hx0).injOn
  have hdeg : p.natDegree < m + 1 := by
    by_cases hp0 : p = 0
    · simp [hp0]
    · have h := Lagrange.degree_interpolate_lt (Fin.cons s y : Fin (m + 1) → F) hinj
      rw [card_univ, Fintype.card_fin] at h
      exact (natDegree_lt_iff_degree_lt hp0).mpr h
  have hnode (i : Fin (m + 1)) : p.eval (withOrigin x i) = (Fin.cons s y : Fin (m + 1) → F) i :=
    Lagrange.eval_interpolate_at_node _ hinj (mem_univ i)
  refine ⟨fun i => p.coeff (i + 1), fun i => ?_⟩
  have hcoeffs : (Fin.cons s (fun i : Fin m => p.coeff (i + 1)) : Fin (m + 1) → F) =
      toFn (m + 1) p := by
    funext j
    cases j using Fin.cases with
    | zero => simpa [toFn, coeff_zero_eq_eval_zero, withOrigin] using (hnode 0).symm
    | succ j => simp [toFn]
  rw [hcoeffs, ofFn_comp_toFn_eq_id_of_natDegree_lt hdeg]
  simpa [withOrigin] using hnode i.succ

/-- Fixing the intercept and `m` values at `m` distinct non-zero nodes leaves exactly one
coefficient vector: the values carry no information about the intercept. -/
theorem card_coeffs_of_eval [Fintype F] {m : ℕ} {x : Fin m → F} (hx : Function.Injective x)
    (hx0 : ∀ i, x i ≠ 0) (s : F) (y : Fin m → F) :
    Fintype.card {c : Fin m → F //
      ∀ i, (ofFn (m + 1) (Fin.cons s c : Fin (m + 1) → F)).eval (x i) = y i} = 1 := by
  obtain ⟨c, hc⟩ := exists_coeffs_of_eval hx hx0 s y
  refine Fintype.card_eq_one_iff.mpr ⟨⟨c, hc⟩, fun ⟨c', hc'⟩ => Subtype.ext ?_⟩
  exact coeffs_eq_of_eval_eq hx hx0 s fun i => (hc' i).trans (hc i).symm

end Secrecy

end Interpolation
