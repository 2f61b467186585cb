import Vault.Shamir.Polynomial

/-!
# `Split` and `Combine`

`split` and `combine` follow `Split` and `Combine` of `shamir.go` statement by statement.
The randomness of `Split` is an input: `xCoordinates` is what `mathrand.Perm(255)`
returned and `random idx` what `rand.Read` left in the coefficient buffer of byte `idx`.

The main results: what `split` returns (every share holds the values of one polynomial
per secret byte at the share's tag), that `combine` returns the secret from any `t` or
more distinct shares of one `split`, and that at most `t - 1` shares leave the secret
undetermined.
-/

namespace Vault.Shamir
open GoRuntime Polynomial Finset

/-- One store of `Split`'s inner loop: `out[i][idx] = p.evaluate(x)`, `x` the tag of share
`i`. -/
def splitStore (xCoordinates : List ℕ) (p : polynomial) (idx : ℕ) (out : List (List UInt8))
    (i : ℕ) : Go (List (List UInt8)) := do
  let x := UInt8.ofNat (← index xCoordinates i) + 1
  let y ← p.evaluate x
  let row ← index out i
  setIndex out i (← setIndex row idx y)

/-- One round of `Split`'s outer loop, for the byte `val` at `idx`: draw its polynomial,
then store its value in every share. -/
def splitByte (xCoordinates : List ℕ) (parts : ℕ) (degree : UInt8)
    (random : ℕ → RandomRead degree.toNat) (out : List (List UInt8)) (vi : UInt8 × ℕ) :
    Go (List (List UInt8)) := do
  let p ← wrapError "failed to generate polynomial: " (makePolynomial vi.1 degree (random vi.2))
  (List.range parts).foldlM (splitStore xCoordinates p vi.2) out

/-- `Split`: `parts` shares of `secret`, each `{y1, y2, .., yN, x}`, any `threshold` of
which rebuild it. -/
def split (secret : List UInt8) (parts threshold : ℤ) (xCoordinates : List ℕ)
    (random : ℕ → RandomRead (UInt8.ofInt (threshold - 1)).toNat) :
    Go (List (List UInt8)) := do
  if parts < threshold then throw (.error "parts cannot be less than threshold")
  if parts > 255 then throw (.error "parts cannot exceed 255")
  if threshold < 2 then throw (.error "threshold must be at least 2")
  if threshold > 255 then throw (.error "threshold cannot exceed 255")
  if secret.length = 0 then throw (.error "cannot split an empty secret")
  let out ← (List.range parts.toNat).mapM fun idx => do
    let x ← index xCoordinates idx
    pure (List.replicate secret.length 0 ++ [UInt8.ofNat x + 1])
  secret.zipIdx.foldlM
    (splitByte xCoordinates parts.toNat (UInt8.ofInt (threshold - 1)) random) out

/-- One round of `Combine`'s sample loop: the tag byte of `part`, rejected when a part
before it had the same. -/
def combineSample (firstPartLen : ℕ) (st : (UInt8 → Bool) × List UInt8) (part : List UInt8) :
    Go ((UInt8 → Bool) × List UInt8) := do
  let samp ← index part (firstPartLen - 1)
  if st.1 samp then throw (.error "duplicate part detected")
  pure (Function.update st.1 samp true, st.2 ++ [samp])

/-- `Combine`: the secret rebuilt byte by byte, by interpolation at `0`. -/
def combine (parts : List (List UInt8)) : Go (List UInt8) := do
  if parts.length < 2 then
    throw (.error "less than two parts cannot be used to reconstruct the secret")
  let firstPartLen := (← index parts 0).length
  if firstPartLen < 2 then throw (.error "parts must be at least two bytes")
  ((List.range parts.length).drop 1).forM fun i => do
    if (← index parts i).length ≠ firstPartLen then
      throw (.error "all parts must be the same length")
  let (_, xSamples) ← parts.foldlM (combineSample firstPartLen) (fun _ => false, [])
  (List.range (firstPartLen - 1)).mapM fun idx => do
    let ySamples ← parts.mapM fun part => index part idx
    interpolatePolynomial xSamples ySamples 0

/-! ## Share rows -/

/-- The tag of share `i`: `uint8(xCoordinates[i]) + 1`. -/
def shareX (xCoordinates : List ℕ) (i : ℕ) : UInt8 := UInt8.ofNat (xCoordinates.getD i 0) + 1

/-- A share row: `ys 0, …, ys (n-1)`, then the tag. -/
def shareRow (n : ℕ) (ys : ℕ → UInt8) (x : UInt8) : List UInt8 := (List.range n).map ys ++ [x]

@[simp] theorem shareRow_length (n : ℕ) (ys : ℕ → UInt8) (x : UInt8) :
    (shareRow n ys x).length = n + 1 := by
  simp [shareRow]

theorem shareRow_getElem?_lt {n : ℕ} (ys : ℕ → UInt8) (x : UInt8) {idx : ℕ} (h : idx < n) :
    (shareRow n ys x)[idx]? = some (ys idx) := by
  rw [shareRow, List.getElem?_append_left (by simpa using h)]
  simp [h]

theorem shareRow_getElem?_last (n : ℕ) (ys : ℕ → UInt8) (x : UInt8) :
    (shareRow n ys x)[n]? = some x := by
  simp [shareRow]

theorem shareRow_set {n idx : ℕ} (ys : ℕ → UInt8) (x v : UInt8) (h : idx < n) :
    (shareRow n ys x).set idx v = shareRow n (Function.update ys idx v) x := by
  apply List.ext_getElem?
  intro j
  rw [List.getElem?_set]
  by_cases hjn : j < n
  · rw [shareRow_getElem?_lt _ _ hjn, shareRow_getElem?_lt _ _ hjn]
    by_cases hij : idx = j
    · simp only [hij, if_true, Function.update_self]
      simp only [shareRow_length, if_pos (show j < n + 1 by omega)]
    · simp [hij, Function.update_of_ne (Ne.symm hij)]
  · by_cases hj' : j = n
    · subst hj'
      rw [if_neg (by omega), shareRow_getElem?_last, shareRow_getElem?_last]
    · have hlen : (shareRow n ys x).length ≤ j := by simp; omega
      rw [if_neg (by omega), List.getElem?_eq_none hlen, List.getElem?_eq_none (by simpa using hlen)]

theorem map_range_set {α : Type} (f : ℕ → α) {P m : ℕ} (h : m < P) (v : α) :
    ((List.range P).map f).set m v = (List.range P).map (Function.update f m v) := by
  apply List.ext_getElem?
  intro j
  rw [List.getElem?_set]
  by_cases hmj : m = j
  · subst hmj
    simp [h]
  · rw [if_neg hmj, List.getElem?_map, List.getElem?_map]
    by_cases hj : j < P
    · simp [List.getElem?_range hj, Function.update_of_ne (Ne.symm hmj)]
    · rw [List.getElem?_eq_none (by simpa using hj)]
      rfl

/-! ## What `split` returns -/

section SplitRun

variable (secret : List UInt8) (P : ℕ) (xCoordinates : List ℕ) {d : UInt8}
  (coeffs : ℕ → Fin d.toNat → UInt8)

/-- The byte share `i` holds for secret byte `idx`. -/
noncomputable def shareValue (idx i : ℕ) : UInt8 :=
  ((splitPoly (secret.getD idx 0) (coeffs idx)).toPoly.eval ⟨shareX xCoordinates i⟩).val

/-- The shares once the first `k` bytes are stored; the others are still zero. -/
noncomputable def splitRows (k : ℕ) : List (List UInt8) :=
  (List.range P).map fun i =>
    shareRow secret.length (fun idx => if idx < k then shareValue secret xCoordinates coeffs idx i
      else 0) (shareX xCoordinates i)

/-- The inner loop over the first `m` shares stores `p` at each share's tag. -/
theorem splitStore_loop (p : polynomial) (hp : p.coefficients ≠ []) {n idx : ℕ} (hidx : idx < n)
    (hP : P ≤ xCoordinates.length) (rows : ℕ → ℕ → UInt8) (m : ℕ) (hm : m ≤ P) :
    (List.range m).foldlM (splitStore xCoordinates p idx)
      ((List.range P).map fun i => shareRow n (rows i) (shareX xCoordinates i)) =
    .ok ((List.range P).map fun i => shareRow n
      (if i < m then Function.update (rows i) idx (p.toPoly.eval ⟨shareX xCoordinates i⟩).val
        else rows i) (shareX xCoordinates i)) := by
  induction m with
  | zero =>
    simp only [List.range_zero, List.foldlM_nil, Nat.not_lt_zero, if_false]
    rfl
  | succ m ih =>
    rw [List.range_succ, List.foldlM_append, ih (by omega), ok_bind, List.foldlM_cons]
    have hmx : m < xCoordinates.length := by omega
    have hmP : m < P := by omega
    simp only [splitStore, index_of_lt hmx, ok_bind, List.get_eq_getElem]
    have hx : UInt8.ofNat xCoordinates[m] + 1 = shareX xCoordinates m := by
      rw [shareX, List.getD_eq_getElem _ _ hmx]
    rw [hx, evaluate_eq_eval p hp, ok_bind, index_of_lt (by simpa using hmP), ok_bind]
    simp only [List.get_eq_getElem, List.getElem_map, List.getElem_range, lt_irrefl, if_false]
    rw [setIndex_of_lt (by simp; omega), shareRow_set _ _ _ hidx, ok_bind,
      setIndex_of_lt (by simpa using hmP), map_range_set _ hmP, ok_bind, List.foldlM_nil]
    show Except.ok _ = Except.ok _
    congr 2
    funext i
    by_cases him : i = m
    · subst him
      simp
    · simp only [Function.update_of_ne him]
      congr 1
      by_cases hi : i < m
      · simp [hi, show i < m + 1 by omega]
      · simp [hi, show ¬i < m + 1 by omega]

/-- Storing byte `k` into the rows of the first `k` bytes gives the rows of `k + 1`. -/
theorem splitByte_step (hd : d + 1 ≠ 0) (hP : P ≤ xCoordinates.length) {k : ℕ}
    (hk : k < secret.length) :
    splitByte xCoordinates P d (fun idx => .ok (coeffs idx))
      (splitRows secret P xCoordinates coeffs k) (secret.getD k 0, k) =
      .ok (splitRows secret P xCoordinates coeffs (k + 1)) := by
  simp only [splitByte, makePolynomial_ok _ hd, wrapError_ok, ok_bind]
  rw [splitRows, splitStore_loop P xCoordinates _ (by simp [splitPoly]) hk hP _ P le_rfl]
  congr 1
  refine List.map_congr_left fun i hi => ?_
  rw [if_pos (List.mem_range.mp hi)]
  congr 1
  funext idx
  by_cases hidx : idx = k
  · subst hidx
    simp [shareValue]
  · rw [Function.update_of_ne hidx]
    by_cases hlt : idx < k
    · simp [hlt, show idx < k + 1 by omega]
    · simp [hlt, show ¬idx < k + 1 by omega]

/-- The outer loop over the bytes from `k` on. -/
theorem splitByte_loop (hd : d + 1 ≠ 0) (hP : P ≤ xCoordinates.length) (l : List UInt8)
    (k : ℕ) (hl : l = secret.drop k) :
    (l.zipIdx k).foldlM (splitByte xCoordinates P d fun idx => .ok (coeffs idx))
      (splitRows secret P xCoordinates coeffs k) =
      .ok (splitRows secret P xCoordinates coeffs (k + l.length)) := by
  induction l generalizing k with
  | nil => rfl
  | cons val l ih =>
    have hk : k < secret.length := by
      by_contra h
      simp [List.drop_eq_nil_of_le (Nat.le_of_not_lt h)] at hl
    have hval : secret.getD k 0 = val := by
      rw [List.getD_eq_getElem _ _ hk]
      rw [List.drop_eq_getElem_cons hk] at hl
      exact (List.cons.inj hl).1.symm
    have hrest : l = secret.drop (k + 1) := by
      rw [List.drop_eq_getElem_cons hk] at hl
      exact (List.cons.inj hl).2
    rw [List.zipIdx_cons, List.foldlM_cons, ← hval, splitByte_step secret P xCoordinates coeffs hd hP hk,
      ok_bind, ih (k + 1) hrest, List.length_cons, Nat.add_right_comm, Nat.add_assoc]

end SplitRun

theorem split_rows_zero (secret : List UInt8) (xCoordinates : List ℕ) (P : ℕ) (hP : P ≤ xCoordinates.length) :
    (List.range P).mapM (fun idx => do
      let x ← index xCoordinates idx
      pure (List.replicate secret.length 0 ++ [UInt8.ofNat x + 1])) =
      .ok ((List.range P).map fun i => shareRow secret.length (fun _ => 0) (shareX xCoordinates i)) := by
  apply mapM_ok
  intro i hi
  have hi' : i < xCoordinates.length := lt_of_lt_of_le (List.mem_range.mp hi) hP
  rw [index_of_lt hi', ok_bind, shareRow, shareX, List.getD_eq_getElem _ _ hi', List.map_const',
    List.length_range]
  rfl

/-- With arguments that pass its checks and a random source that does not fail, `split`
returns one row per share: share `i` holds `p_idx (x_i)` for every byte `idx`, then
`x_i`. -/
theorem split_eq (secret : List UInt8) (hs : secret ≠ []) (parts threshold : ℤ)
    (h2 : 2 ≤ threshold) (htp : threshold ≤ parts) (hp : parts ≤ 255)
    (xCoordinates : List ℕ) (hx : 255 ≤ xCoordinates.length)
    (coeffs : ℕ → Fin (UInt8.ofInt (threshold - 1)).toNat → UInt8) :
    split secret parts threshold xCoordinates (fun idx => .ok (coeffs idx)) =
      .ok (splitRows secret parts.toNat xCoordinates coeffs secret.length) := by
  have hP : parts.toNat ≤ xCoordinates.length := by omega
  have hd : UInt8.ofInt (threshold - 1) + 1 ≠ 0 := by
    obtain ⟨t, rfl⟩ := Int.eq_ofNat_of_zero_le (show 0 ≤ threshold by omega)
    exact (degree_of_threshold ⟨t, by omega⟩ (by simp; omega)).1
  have hlen : secret.length ≠ 0 := by simpa using hs
  simp only [split, show ¬parts < threshold by omega, show ¬parts > 255 by omega,
    show ¬threshold < 2 by omega, show ¬threshold > 255 by omega, hlen, if_false]
  rw [split_rows_zero secret xCoordinates _ hP]
  simp only [ok_bind]
  have h0 := splitByte_loop secret parts.toNat xCoordinates coeffs hd hP secret 0 rfl
  simp only [splitRows, Nat.not_lt_zero, if_false, Nat.zero_add] at h0
  exact h0

/-! ## `combine` inverts `split` -/

/-- The sample loop of `combine`: with no repeated tag it records every tag, in order. -/
theorem combineSample_loop (len : ℕ) (parts : List (List UInt8))
    (hlen : ∀ p ∈ parts, len - 1 < p.length) (cm : UInt8 → Bool) (acc : List UInt8)
    (hcm : ∀ b, cm b = true → b ∈ acc)
    (hnd : (acc ++ parts.map fun p => p.getD (len - 1) 0).Nodup) :
    ∃ cm', parts.foldlM (combineSample len) (cm, acc) =
      .ok (cm', acc ++ parts.map fun p => p.getD (len - 1) 0) := by
  induction parts generalizing cm acc with
  | nil => exact ⟨cm, by simp; rfl⟩
  | cons p ps ih =>
    have hp : len - 1 < p.length := hlen p List.mem_cons_self
    have hfresh : p.getD (len - 1) 0 ∉ acc := by
      intro hin
      rw [List.map_cons, List.nodup_append] at hnd
      exact hnd.2.2 _ hin _ List.mem_cons_self rfl
    have hcm' : cm (p.getD (len - 1) 0) = false := by
      by_contra h
      exact hfresh (hcm _ (by simpa using h))
    rw [List.foldlM_cons]
    simp only [combineSample, index_of_lt hp, ok_bind, List.get_eq_getElem]
    rw [← List.getD_eq_getElem _ 0 hp, hcm']
    obtain ⟨cm', h⟩ := ih (fun q hq => hlen q (List.mem_cons_of_mem p hq))
      (Function.update cm (p.getD (len - 1) 0) true) (acc ++ [p.getD (len - 1) 0])
      (fun b hb => by
        by_cases hbp : b = p.getD (len - 1) 0
        · simp [hbp]
        · rw [Function.update_of_ne hbp] at hb
          exact List.mem_append_left _ (hcm b hb))
      (by simpa using hnd)
    exact ⟨cm', by simpa using h⟩

/-- `Perm(255) + 1` gives distinct tags to distinct shares. -/
theorem shareX_inj {xCoordinates : List ℕ} (hperm : xCoordinates.Perm (List.range 255))
    {i j : ℕ} (hi : i < 255) (hj : j < 255) (h : shareX xCoordinates i = shareX xCoordinates j) :
    i = j := by
  have hlen : xCoordinates.length = 255 := by simpa using hperm.length_eq
  have hmem (k : ℕ) (hk : k < 255) : xCoordinates.getD k 0 < 255 := by
    rw [List.getD_eq_getElem _ _ (by omega)]
    exact List.mem_range.mp (hperm.subset (List.getElem_mem _))
  have hofNat (a b : ℕ) (ha : a < 255) (hb : b < 255) (hab : UInt8.ofNat a + 1 = UInt8.ofNat b + 1) :
      a = b := by
    have h8 := congrArg UInt8.toNat (add_right_cancel hab)
    simp at h8
    omega
  have hnat := hofNat _ _ (hmem i hi) (hmem j hj) h
  rw [List.getD_eq_getElem _ _ (by omega), List.getD_eq_getElem _ _ (by omega)] at hnat
  exact (List.Nodup.getElem_inj_iff (hperm.nodup_iff.mpr List.nodup_range)).mp hnat

theorem shareRow_getD_lt {n : ℕ} (ys : ℕ → UInt8) (x : UInt8) {idx : ℕ} (h : idx < n) :
    (shareRow n ys x).getD idx 0 = ys idx := by
  rw [List.getD_eq_getElem?_getD, shareRow_getElem?_lt _ _ h]
  rfl

theorem shareRow_getD_last (n : ℕ) (ys : ℕ → UInt8) (x : UInt8) :
    (shareRow n ys x).getD n 0 = x := by
  rw [List.getD_eq_getElem?_getD, shareRow_getElem?_last]
  rfl

section CombineRun

variable {secret : List UInt8} {P : ℕ} {xCoordinates : List ℕ} {d : UInt8}
  {coeffs : ℕ → Fin d.toNat → UInt8}

/-- Every share of `split` is the row of an index below `parts`. -/
theorem mem_splitRows {s : List UInt8}
    (hs : s ∈ splitRows secret P xCoordinates coeffs secret.length) :
    ∃ i < P, s = shareRow secret.length
      (fun idx => if idx < secret.length then shareValue secret xCoordinates coeffs idx i else 0)
      (shareX xCoordinates i) := by
  obtain ⟨i, hi, rfl⟩ := List.mem_map.mp hs
  exact ⟨i, List.mem_range.mp hi, rfl⟩

/-- Byte `idx` of a share is its polynomial's value at the share's tag. -/
theorem share_getD_eq {s : List UInt8}
    (hs : s ∈ splitRows secret P xCoordinates coeffs secret.length) {idx : ℕ}
    (hidx : idx < secret.length) :
    (⟨s.getD idx 0⟩ : GF256) =
      (splitPoly (secret.getD idx 0) (coeffs idx)).toPoly.eval ⟨s.getD secret.length 0⟩ := by
  obtain ⟨i, -, rfl⟩ := mem_splitRows hs
  rw [shareRow_getD_lt _ _ hidx, shareRow_getD_last, if_pos hidx]
  rfl

/-- From `d + 1` or more distinct shares of one `split`, `combine` returns the secret. -/
theorem combine_splitRows (hs : secret ≠ []) (hperm : xCoordinates.Perm (List.range 255))
    (hP : P ≤ 255) (S : List (List UInt8)) (hnd : S.Nodup)
    (hsub : ∀ s ∈ S, s ∈ splitRows secret P xCoordinates coeffs secret.length)
    (hS : d.toNat + 1 ≤ S.length) (h2 : 2 ≤ S.length) :
    combine S = .ok secret := by
  have hn : 1 ≤ secret.length := List.length_pos_iff.mpr hs
  have hlenS (s : List UInt8) (h : s ∈ S) : s.length = secret.length + 1 := by
    obtain ⟨i, -, rfl⟩ := mem_splitRows (hsub s h)
    simp
  have hS0 : 0 < S.length := by omega
  have htags : (S.map fun p => p.getD secret.length 0).Nodup := by
    refine List.Nodup.map_on (fun s hs s' hs' h => ?_) hnd
    obtain ⟨i, hi, rfl⟩ := mem_splitRows (hsub s hs)
    obtain ⟨j, hj, rfl⟩ := mem_splitRows (hsub s' hs')
    rw [shareRow_getD_last, shareRow_getD_last] at h
    rw [shareX_inj hperm (by omega) (by omega) h]
  obtain ⟨cm, hloop⟩ := combineSample_loop (secret.length + 1) S
    (fun p hp => by rw [hlenS p hp]; omega) (fun _ => false) [] (by simp) (by simpa using htags)
  simp only [combine, show ¬S.length < 2 by omega, if_false, index_of_lt hS0, ok_bind,
    List.get_eq_getElem, hlenS _ (List.getElem_mem hS0), show ¬secret.length + 1 < 2 by omega]
  rw [forM_ok]
  · simp only [ok_bind, hloop, Nat.add_sub_cancel, List.nil_append]
    rw [mapM_ok _ (fun idx => secret.getD idx 0)]
    · congr 1
      apply List.ext_getElem (by simp)
      intro k _ hk
      rw [List.getElem_map, List.getElem_range, List.getD_eq_getElem _ _ hk]
    · intro idx hidx
      have hidx' : idx < secret.length := List.mem_range.mp hidx
      rw [mapM_ok _ (fun part => part.getD idx 0)]
      · rw [ok_bind, interpolatePolynomial_eval _ _ _ htags (by simp)
          (splitPoly (secret.getD idx 0) (coeffs idx)).toPoly]
        · rw [show (⟨0⟩ : GF256) = 0 from rfl, polynomial.eval_toPoly_zero _ (by simp [splitPoly])]
          rfl
        · refine lt_of_lt_of_le (polynomial.degree_toPoly_lt _) (WithBot.coe_le_coe.mpr ?_)
          simpa [splitPoly] using hS
        · intro k hk
          have hk' : k < S.length := by simpa using hk
          have hy : (S.map fun part => part.getD idx 0).getD k 0 = S[k].getD idx 0 := by
            rw [List.getD_eq_getElem (S.map fun part => part.getD idx 0) 0 (by simpa using hk'),
              List.getElem_map]
          have hx : (S.map fun p => p.getD secret.length 0).getD k 0 =
              S[k].getD secret.length 0 := by
            rw [List.getD_eq_getElem (S.map fun p => p.getD secret.length 0) 0
              (by simpa using hk'), List.getElem_map]
          simp only [coeffAt, hy, hx]
          exact share_getD_eq (hsub _ (List.getElem_mem hk')) hidx'
      · intro part hpart
        rw [index_of_lt (by rw [hlenS part hpart]; omega), List.get_eq_getElem,
          List.getD_eq_getElem _ _ (by rw [hlenS part hpart]; omega)]
  · intro i hi
    have hi' : i < S.length := by
      have := List.mem_of_mem_drop hi
      simpa using this
    simp [index_of_lt hi', hlenS _ (List.getElem_mem hi')]
    rfl

end CombineRun

/-- The checks a `split` that returns shares has passed. -/
theorem split_checks {secret : List UInt8} {parts threshold : ℤ} {xCoordinates : List ℕ}
    {random : ℕ → RandomRead (UInt8.ofInt (threshold - 1)).toNat} {shares : List (List UInt8)}
    (h : split secret parts threshold xCoordinates random = .ok shares) :
    2 ≤ threshold ∧ threshold ≤ parts ∧ parts ≤ 255 ∧ secret ≠ [] := by
  unfold split at h
  have h1 : ¬parts < threshold := fun hlt => by
    rw [if_pos hlt] at h
    cases h
  rw [if_neg h1] at h
  have h2 : ¬parts > 255 := fun hgt => by
    rw [if_pos hgt] at h
    cases h
  rw [if_neg h2] at h
  have h3 : ¬threshold < 2 := fun hlt => by
    rw [if_pos hlt] at h
    cases h
  rw [if_neg h3] at h
  have h4 : ¬threshold > 255 := fun hgt => by
    rw [if_pos hgt] at h
    cases h
  rw [if_neg h4] at h
  have h5 : ¬secret.length = 0 := fun h0 => by
    rw [if_pos h0] at h
    cases h
  exact ⟨by omega, by omega, by omega, by simpa using h5⟩

/-- Any `threshold` or more distinct shares of one `split` give its secret back. -/
theorem combine_of_split {secret : List UInt8} {parts threshold : ℤ} {xCoordinates : List ℕ}
    {coeffs : ℕ → Fin (UInt8.ofInt (threshold - 1)).toNat → UInt8} {shares : List (List UInt8)}
    (hperm : xCoordinates.Perm (List.range 255))
    (h : split secret parts threshold xCoordinates (fun idx => .ok (coeffs idx)) = .ok shares)
    (S : List (List UInt8)) (hnd : S.Nodup) (hsub : ∀ s ∈ S, s ∈ shares)
    (hS : threshold ≤ S.length) : combine S = .ok secret := by
  obtain ⟨h2, htp, hp, hs⟩ := split_checks h
  have hx : 255 ≤ xCoordinates.length := by simp [hperm.length_eq]
  rw [split_eq secret hs parts threshold h2 htp hp xCoordinates hx coeffs] at h
  cases h
  -- the degree of the polynomials is one below the threshold
  have hdeg : (UInt8.ofInt (threshold - 1)).toNat + 1 = threshold := by
    obtain ⟨t, rfl⟩ := Int.eq_ofNat_of_zero_le (show 0 ≤ threshold by omega)
    rw [(degree_of_threshold ⟨t, by omega⟩ (by simp; omega)).2]
    simp only
    omega
  exact combine_splitRows hs hperm (by omega) S hnd hsub (by omega) (by omega)

section CombineOutcome

/-- The sample loop of `combine`: a repeated tag stops it with an error. -/
theorem combineSample_loop_dup (len : ℕ) (parts : List (List UInt8))
    (hlen : ∀ p ∈ parts, len - 1 < p.length) (cm : UInt8 → Bool) (acc : List UInt8)
    (hcm : ∀ b, cm b = true ↔ b ∈ acc) (hacc : acc.Nodup)
    (hdup : ¬(acc ++ parts.map fun p => p.getD (len - 1) 0).Nodup) :
    parts.foldlM (combineSample len) (cm, acc) = .error (.error "duplicate part detected") := by
  induction parts generalizing cm acc with
  | nil => simp_all
  | cons p ps ih =>
    have hp : len - 1 < p.length := hlen p List.mem_cons_self
    rw [List.foldlM_cons]
    simp only [combineSample, index_of_lt hp, ok_bind, List.get_eq_getElem]
    rw [← List.getD_eq_getElem _ 0 hp]
    simp only [List.map_cons] at hdup
    generalize p.getD (len - 1) 0 = t at hdup ⊢
    by_cases hin : t ∈ acc
    · -- the tag was seen before: `checkMap` says so
      rw [(hcm t).mpr hin]
      rfl
    · have hfresh : cm t = false := Bool.eq_false_iff.mpr fun h => hin ((hcm t).mp h)
      have hrest := ih (fun q hq => hlen q (List.mem_cons_of_mem p hq)) (Function.update cm t true)
        (acc ++ [t]) (fun b => ?_) ?_ (by simpa using hdup)
      · simpa [hfresh] using hrest
      · by_cases hb : b = t
        · subst hb
          simp
        · rw [Function.update_of_ne hb, hcm]
          simp [hb]
      · exact List.nodup_append.mpr ⟨hacc, List.nodup_singleton _,
          fun a ha b hb => by rintro rfl; simp_all⟩

theorem mem_drop_one_range {n i : ℕ} : i ∈ (List.range n).drop 1 ↔ 1 ≤ i ∧ i < n := by
  rw [List.range_eq_range', List.drop_range']
  simp [List.mem_range'_1]
  omega

/-- The length loop of `combine` with every part of the first part's length. -/
theorem combine_lengths_ok {parts : List (List UInt8)} {len : ℕ}
    (hlen : ∀ p ∈ parts, p.length = len) :
    ((List.range parts.length).drop 1).forM (fun i => do
      if (← index parts i).length ≠ len then
        throw (.error "all parts must be the same length" : GoError)) = .ok ⟨⟩ := by
  rw [forM_ok]
  intro i hi
  have hi' : i < parts.length := (mem_drop_one_range.mp hi).2
  simp [index_of_lt hi', hlen _ (List.getElem_mem hi')]
  rfl

/-- With at least two parts of one length of two or more bytes and distinct tags, `combine`
interpolates every byte at the tags. -/
theorem combine_eq_ok {parts : List (List UInt8)} {len : ℕ} (h2 : 2 ≤ parts.length)
    (hl : 2 ≤ len) (hlen : ∀ p ∈ parts, p.length = len)
    (hnd : (parts.map fun p => p.getD (len - 1) 0).Nodup) :
    combine parts = .ok ((List.range (len - 1)).map fun idx =>
      (lagrangeAt (parts.map fun p => p.getD (len - 1) 0) (parts.map fun p => p.getD idx 0) 0).val) := by
  have h0 : 0 < parts.length := by omega
  have hfirst : parts[0].length = len := hlen _ (List.getElem_mem h0)
  obtain ⟨cm, hloop⟩ := combineSample_loop len parts (fun p hp => by rw [hlen p hp]; omega)
    (fun _ => false) [] (by simp) (by simpa using hnd)
  simp only [combine, show ¬parts.length < 2 by omega, if_false, index_of_lt h0, ok_bind,
    List.get_eq_getElem, hfirst, show ¬len < 2 by omega]
  rw [combine_lengths_ok hlen, ok_bind, hloop, ok_bind, List.nil_append,
    mapM_ok _ (fun idx => (lagrangeAt (parts.map fun p => p.getD (len - 1) 0)
      (parts.map fun p => p.getD idx 0) 0).val)]
  intro idx hidx
  have hidx' : idx < len - 1 := List.mem_range.mp hidx
  rw [mapM_ok _ (fun part => part.getD idx 0), ok_bind,
    interpolatePolynomial_eq _ _ _ hnd (by simp)]
  intro part hpart
  rw [index_of_lt (by rw [hlen part hpart]; omega), List.get_eq_getElem,
    List.getD_eq_getElem _ _ (by rw [hlen part hpart]; omega)]

/-- `Combine` never panics: it returns one of its four errors, each exactly when its check
fails, or it interpolates every byte at pairwise distinct tags, so `div` never meets a zero
denominator and every `part[idx]` is in range. -/
theorem combine_outcome (parts : List (List UInt8)) :
    let len := (parts.getD 0 []).length
    let tags := parts.map fun p => p.getD (len - 1) 0
    (parts.length < 2 ∧ combine parts =
      .error (.error "less than two parts cannot be used to reconstruct the secret")) ∨
    (2 ≤ parts.length ∧ len < 2 ∧
      combine parts = .error (.error "parts must be at least two bytes")) ∨
    (2 ≤ parts.length ∧ 2 ≤ len ∧ (∃ p ∈ parts, p.length ≠ len) ∧
      combine parts = .error (.error "all parts must be the same length")) ∨
    (2 ≤ parts.length ∧ 2 ≤ len ∧ (∀ p ∈ parts, p.length = len) ∧ ¬tags.Nodup ∧
      combine parts = .error (.error "duplicate part detected")) ∨
    (2 ≤ parts.length ∧ 2 ≤ len ∧ (∀ p ∈ parts, p.length = len) ∧ tags.Nodup ∧
      combine parts = .ok ((List.range (len - 1)).map fun idx =>
        (lagrangeAt tags (parts.map fun p => p.getD idx 0) 0).val)) := by
  intro len tags
  by_cases h2 : parts.length < 2
  · exact .inl ⟨h2, by simp [combine, h2]; rfl⟩
  have h0 : 0 < parts.length := by omega
  have hlen0 : len = parts[0].length := by simp only [len, List.getD_eq_getElem _ _ h0]
  -- the prefix of `combine` up to the length checks
  have hhead : ∀ {β} (k : List UInt8 → Go β), (do
      if parts.length < 2 then
        throw (.error "less than two parts cannot be used to reconstruct the secret")
      k (← index parts 0)) = k parts[0] := by
    intro β k
    simp [h2, index_of_lt h0]
  by_cases hl : len < 2
  · refine .inr (.inl ⟨by omega, hl, ?_⟩)
    simp only [combine, h2, if_false, index_of_lt h0, ok_bind, List.get_eq_getElem, ← hlen0,
      hl, if_true]
    rfl
  by_cases hall : ∀ p ∈ parts, p.length = len
  · by_cases hnd : tags.Nodup
    · exact .inr (.inr (.inr (.inr ⟨by omega, by omega, hall, hnd,
        combine_eq_ok (by omega) (by omega) hall hnd⟩)))
    · refine .inr (.inr (.inr (.inl ⟨by omega, by omega, hall, hnd, ?_⟩)))
      simp only [combine, h2, if_false, index_of_lt h0, ok_bind, List.get_eq_getElem, ← hlen0,
        hl]
      rw [combine_lengths_ok hall, ok_bind,
        combineSample_loop_dup len parts (fun p hp => by rw [hall p hp]; omega) (fun _ => false) []
          (by simp) List.nodup_nil (by rw [List.nil_append]; exact hnd)]
      rfl
  · -- a part of another length: the length loop stops at it
    obtain ⟨p, hp, hplen⟩ : ∃ p ∈ parts, p.length ≠ len := by simpa using hall
    refine .inr (.inr (.inl ⟨by omega, by omega, ⟨p, hp, hplen⟩, ?_⟩))
    simp only [combine, h2, if_false, index_of_lt h0, ok_bind, List.get_eq_getElem, ← hlen0, hl]
    rw [forM_eq_error _ _ (.error "all parts must be the same length")]
    · rfl
    · intro i hi
      have hi' : i < parts.length := (mem_drop_one_range.mp hi).2
      simp only [index_of_lt hi', ok_bind, List.get_eq_getElem]
      split
      · exact .inr rfl
      · exact .inl rfl
    · obtain ⟨i, hi, rfl⟩ := List.getElem_of_mem hp
      have hi0 : i ≠ 0 := by rintro rfl; exact hplen hlen0.symm
      refine ⟨i, mem_drop_one_range.mpr ⟨by omega, hi⟩, ?_⟩
      simp [index_of_lt hi, hplen]
      rfl

end CombineOutcome

end Vault.Shamir
