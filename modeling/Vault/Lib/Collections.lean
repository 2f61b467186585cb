import Mathlib

/-!
# Keyed folds, and the last element of a sort

Two facts about lists that loops over collections rest on.

A loop that files each item of a list under its key leaves one value under each key. The
value is a fold over that key's items, in list order: the first item starts it, and each
later item is merged into it (`lookup_foldl_upsert`). Here a store is known only through its
lookup function, so the lemma serves association lists, maps and trees alike.

When a later item replaces an earlier one and keys are unique on the list, what stands under
a key is the item with that key (`lookup_foldl_replace_eq_some_iff`), and a search by key
finds the same item (`find?_eq_some_iff_of_nodup`).

Sorting by a key into a linear order puts an item with the largest key last. When keys are
unique on the list, the last item is the one with the largest key, whatever the list's order
was (`getLast_mergeSort_eq`). The largest key of a list (`largestKey`, `⊥` for none) is kept
by dropping items as long as one with that key stays (`largestKey_filter`).
-/

namespace Collections

section KeyedFold

variable {σ β κ γ : Type*}

/-- The value filed under a key once item `b` arrives: `b` starts it, or is merged into it. -/
def upsertValue (start : β → γ) (merge : γ → β → γ) (old : Option γ) (b : β) : γ :=
  match old with
  | none => start b
  | some c => merge c b

/-- The value filed under a key after the items `bs`, from what was filed before. -/
def accumulate (start : β → γ) (merge : γ → β → γ) (old : Option γ) (bs : List β) : Option γ :=
  bs.foldl (fun o b => some (upsertValue start merge o b)) old

@[simp] theorem accumulate_nil (start : β → γ) (merge : γ → β → γ) (old : Option γ) :
    accumulate start merge old [] = old := rfl

@[simp] theorem accumulate_cons (start : β → γ) (merge : γ → β → γ) (old : Option γ) (b : β)
    (bs : List β) :
    accumulate start merge old (b :: bs) =
      accumulate start merge (some (upsertValue start merge old b)) bs := rfl

theorem accumulate_append (start : β → γ) (merge : γ → β → γ) (old : Option γ)
    (bs bs' : List β) :
    accumulate start merge old (bs ++ bs') =
      accumulate start merge (accumulate start merge old bs) bs' := by
  simp [accumulate, List.foldl_append]

/-- Items arrived: something is filed. -/
theorem accumulate_isSome (start : β → γ) (merge : γ → β → γ) (old : Option γ) {bs : List β}
    (hbs : bs ≠ []) : (accumulate start merge old bs).isSome := by
  induction bs generalizing old with
  | nil => exact absurd rfl hbs
  | cons b bs ih =>
    cases bs with
    | nil => rfl
    | cons b' bs => exact ih _ (by simp)

/-- A fold that files items under their keys: under each key stands the accumulation of that
key's items, in their order. -/
theorem lookup_foldl_upsert [DecidableEq κ] (lookup : σ → κ → Option γ) (step : σ → β → σ)
    (key : β → κ) (start : β → γ) (merge : γ → β → γ)
    (hstep : ∀ s b k, lookup (step s b) k =
      if key b = k then some (upsertValue start merge (lookup s k) b) else lookup s k)
    (bs : List β) (s : σ) (k : κ) :
    lookup (bs.foldl step s) k =
      accumulate start merge (lookup s k) (bs.filter (key · = k)) := by
  induction bs generalizing s with
  | nil => rfl
  | cons b bs ih =>
    rw [List.foldl_cons, ih, hstep, List.filter_cons]
    by_cases hk : key b = k <;> simp [hk]

/-- A later item replaces an earlier one. -/
@[simp] theorem upsertValue_replace (old : Option β) (b : β) :
    upsertValue id (fun _ b => b) old b = b := by
  cases old <;> rfl

/-- When a later item replaces an earlier one, the last item arrived is filed. -/
theorem accumulate_replace (old : Option β) (bs : List β) :
    accumulate id (fun _ b => b) old bs = bs.getLast?.or old := by
  induction bs generalizing old with
  | nil => rfl
  | cons b bs ih =>
    rw [accumulate_cons, upsertValue_replace, ih, List.getLast?_cons]
    cases bs.getLast? <;> rfl

/-- Keys unique on the list: the items of one key are that key's item, or none. -/
theorem getLast?_filter_eq_some_iff [DecidableEq κ] (key : β → κ) {bs : List β}
    (hnd : (bs.map key).Nodup) (k : κ) (b : β) :
    (bs.filter (key · = k)).getLast? = some b ↔ b ∈ bs ∧ key b = k := by
  constructor
  · intro h
    simpa using List.mem_of_getLast? h
  · rintro ⟨hb, hk⟩
    have hne : bs.filter (key · = k) ≠ [] := List.ne_nil_of_mem (by simpa using ⟨hb, hk⟩)
    obtain ⟨b', hb'⟩ := Option.isSome_iff_exists.mp (List.getLast?_isSome.mpr hne)
    have hmem : b' ∈ bs ∧ key b' = k := by simpa using List.mem_of_getLast? hb'
    -- the two items share their key, which only one item of the list has
    rw [hb', List.inj_on_of_nodup_map hnd hmem.1 hb (hmem.2.trans hk.symm)]

/-- A fold in which a later item replaces an earlier one under its key, over a list whose keys
are unique, from a store with nothing under `k`: what stands under `k` is the item with key
`k`. -/
theorem lookup_foldl_replace_eq_some_iff [DecidableEq κ] (lookup : σ → κ → Option β)
    (step : σ → β → σ) (key : β → κ)
    (hstep : ∀ s b k, lookup (step s b) k = if key b = k then some b else lookup s k)
    {bs : List β} (hnd : (bs.map key).Nodup) {s : σ} {k : κ} (hs : lookup s k = none) (b : β) :
    lookup (bs.foldl step s) k = some b ↔ b ∈ bs ∧ key b = k := by
  have hupsert : ∀ s b k, lookup (step s b) k =
      if key b = k then some (upsertValue id (fun _ b => b) (lookup s k) b) else lookup s k := by
    intro s b k
    rw [upsertValue_replace, hstep]
  rw [lookup_foldl_upsert lookup step key id (fun _ b => b) hupsert, hs, accumulate_replace,
    Option.or_none]
  exact getLast?_filter_eq_some_iff key hnd k b

/-- Keys unique on the list: a search by key finds the item with that key. -/
theorem find?_eq_some_iff_of_nodup [BEq κ] [LawfulBEq κ] (key : β → κ) {bs : List β}
    (hnd : (bs.map key).Nodup) (k : κ) (b : β) :
    bs.find? (fun a => key a == k) = some b ↔ b ∈ bs ∧ key b = k := by
  constructor
  · intro h
    exact ⟨List.mem_of_find?_eq_some h, by simpa using List.find?_some h⟩
  · rintro ⟨hb, hk⟩
    obtain ⟨b', hb'⟩ : ∃ b', bs.find? (fun a => key a == k) = some b' :=
      Option.isSome_iff_exists.mp (List.find?_isSome.mpr ⟨b, hb, by simpa using hk⟩)
    have hk' : key b' = k := by simpa using List.find?_some hb'
    rw [hb', List.inj_on_of_nodup_map hnd (List.mem_of_find?_eq_some hb') hb (hk'.trans hk.symm)]

/-- What makes `accumulate` blind to the order of the items, up to a relation `E` on the values:
an invariant `I` that a started value has and each merge of an item with `P` keeps; `E` reflexive
and transitive and respected by merges; merges of two items that commute; and two first items
that can be swapped. -/
structure MergeLaws (start : β → γ) (merge : γ → β → γ) (E : γ → γ → Prop) (I : γ → Prop)
    (P : β → Prop) : Prop where
  start_inv : ∀ b, P b → I (start b)
  merge_inv : ∀ c b, I c → P b → I (merge c b)
  refl : ∀ c, E c c
  trans : ∀ {c₁ c₂ c₃}, E c₁ c₂ → E c₂ c₃ → E c₁ c₃
  congr : ∀ {c c'} b, I c → I c' → P b → E c c' → E (merge c b) (merge c' b)
  right_comm : ∀ c x y, I c → P x → P y → E (merge (merge c x) y) (merge (merge c y) x)
  swap : ∀ x y, P x → P y → E (merge (start x) y) (merge (start y) x)

namespace MergeLaws

variable {start : β → γ} {merge : γ → β → γ} {E : γ → γ → Prop} {I : γ → Prop} {P : β → Prop}

theorem upsertValue_inv (h : MergeLaws start merge E I P) {old : Option γ} (hold : ∀ c ∈ old, I c)
    {b : β} (hb : P b) : I (upsertValue start merge old b) := by
  cases old with
  | none => exact h.start_inv b hb
  | some c => exact h.merge_inv c b (hold c rfl) hb

theorem upsertValue_rel (h : MergeLaws start merge E I P) {old old' : Option γ}
    (hold : ∀ c ∈ old, I c) (hold' : ∀ c ∈ old', I c) (hE : Option.Rel E old old') {b : β}
    (hb : P b) : E (upsertValue start merge old b) (upsertValue start merge old' b) := by
  cases hE with
  | none => exact h.refl _
  | some hc => exact h.congr b (hold _ rfl) (hold' _ rfl) hb hc

theorem accumulate_inv (h : MergeLaws start merge E I P) {bs : List β} (hP : ∀ b ∈ bs, P b)
    {old : Option γ} (hold : ∀ c ∈ old, I c) : ∀ c ∈ accumulate start merge old bs, I c := by
  induction bs generalizing old with
  | nil => exact hold
  | cons b bs ih =>
    rw [accumulate_cons]
    refine ih (fun b' hb' => hP b' (List.mem_cons_of_mem b hb')) ?_
    rintro c ⟨⟩
    exact h.upsertValue_inv hold (hP b List.mem_cons_self)

/-- Related values stay related as the same items arrive. -/
theorem accumulate_rel (h : MergeLaws start merge E I P) {bs : List β} (hP : ∀ b ∈ bs, P b)
    {old old' : Option γ} (hold : ∀ c ∈ old, I c) (hold' : ∀ c ∈ old', I c)
    (hE : Option.Rel E old old') :
    Option.Rel E (accumulate start merge old bs) (accumulate start merge old' bs) := by
  induction bs generalizing old old' with
  | nil => exact hE
  | cons b bs ih =>
    have hb := hP b List.mem_cons_self
    rw [accumulate_cons, accumulate_cons]
    refine ih (fun b' hb' => hP b' (List.mem_cons_of_mem b hb')) ?_ ?_
      (.some (h.upsertValue_rel hold hold' hE hb))
    · rintro c ⟨⟩
      exact h.upsertValue_inv hold hb
    · rintro c ⟨⟩
      exact h.upsertValue_inv hold' hb

/-- Two items arriving in either order leave related values. -/
theorem upsertValue_swap (h : MergeLaws start merge E I P) {old : Option γ}
    (hold : ∀ c ∈ old, I c) {x y : β} (hx : P x) (hy : P y) :
    E (upsertValue start merge (some (upsertValue start merge old y)) x)
      (upsertValue start merge (some (upsertValue start merge old x)) y) := by
  cases old with
  | none => exact h.swap y x hy hx
  | some c => exact h.right_comm c y x (hold c rfl) hy hx

/-- The items in another order leave related values. -/
theorem accumulate_perm (h : MergeLaws start merge E I P) {bs bs' : List β} (hperm : bs.Perm bs')
    (hP : ∀ b ∈ bs, P b) {old old' : Option γ} (hold : ∀ c ∈ old, I c)
    (hold' : ∀ c ∈ old', I c) (hE : Option.Rel E old old') :
    Option.Rel E (accumulate start merge old bs) (accumulate start merge old' bs') := by
  -- the induction is on the permutation; `Option.Rel E` is reflexive and transitive with `E`
  have hrefl : ∀ o : Option γ, Option.Rel E o o := fun o => by
    cases o with
    | none => exact .none
    | some c => exact .some (h.refl c)
  have htrans : ∀ {o₁ o₂ o₃ : Option γ}, Option.Rel E o₁ o₂ → Option.Rel E o₂ o₃ →
      Option.Rel E o₁ o₃ := by
    intro o₁ o₂ o₃ h₁₂ h₂₃
    cases h₁₂ with
    | none => exact h₂₃
    | some hc =>
      cases h₂₃ with
      | some hc' => exact .some (h.trans hc hc')
  induction hperm generalizing old old' with
  | nil => exact hE
  | cons b _ ih =>
    have hb := hP b List.mem_cons_self
    rw [accumulate_cons, accumulate_cons]
    refine ih (fun b' hb' => hP b' (List.mem_cons_of_mem b hb')) ?_ ?_
      (.some (h.upsertValue_rel hold hold' hE hb))
    · rintro c ⟨⟩
      exact h.upsertValue_inv hold hb
    · rintro c ⟨⟩
      exact h.upsertValue_inv hold' hb
  | swap x y l =>
    have hx := hP x (by simp)
    have hy := hP y (by simp)
    have hl : ∀ b ∈ l, P b := fun b hb => hP b (by simp [hb])
    simp only [accumulate_cons]
    -- first the two items swap, then what each side started from is related
    have hstart : E (upsertValue start merge (some (upsertValue start merge old y)) x)
        (upsertValue start merge (some (upsertValue start merge old' x)) y) := by
      refine h.trans (h.upsertValue_swap hold hx hy) (h.upsertValue_rel ?_ ?_ ?_ hy)
      · rintro c ⟨⟩
        exact h.upsertValue_inv hold hx
      · rintro c ⟨⟩
        exact h.upsertValue_inv hold' hx
      · exact .some (h.upsertValue_rel hold hold' hE hx)
    refine h.accumulate_rel hl ?_ ?_ (.some hstart)
    · rintro c ⟨⟩
      exact h.upsertValue_inv (fun c hc => by cases hc; exact h.upsertValue_inv hold hy) hx
    · rintro c ⟨⟩
      exact h.upsertValue_inv (fun c hc => by cases hc; exact h.upsertValue_inv hold' hx) hy
  | trans h₁₂ _ ih₁₂ ih₂₃ =>
    exact htrans (ih₁₂ hP hold hold' hE)
      (ih₂₃ (fun b hb => hP b (h₁₂.mem_iff.mpr hb)) hold' hold' (hrefl old'))

end MergeLaws

end KeyedFold

section SortMax

variable {α β : Type*} [LinearOrder β] (key : α → β)

/-- Comparison by key, as a sort takes it. -/
def keyLE (a b : α) : Bool := decide (key a ≤ key b)

/-- The last item of the sort has the largest key. -/
theorem le_key_getLast_mergeSort {l : List α} (hne : l.mergeSort (keyLE key) ≠ []) {y : α}
    (hy : y ∈ l) : key y ≤ key ((l.mergeSort (keyLE key)).getLast hne) := by
  have hsorted := @List.pairwise_mergeSort _ (keyLE key)
    (fun a b c hab hbc => by simp only [keyLE, decide_eq_true_eq] at *; exact hab.trans hbc)
    (fun a b => by simpa [keyLE] using le_total (key a) (key b)) l
  have hrefl : Std.Refl (fun a b : α => keyLE key a b = true) := ⟨fun a => by simp [keyLE]⟩
  simpa [keyLE] using hsorted.rel_getLast (List.mem_mergeSort.mpr hy)

theorem mergeSort_ne_nil {l : List α} (hne : l ≠ []) (le : α → α → Bool) :
    l.mergeSort le ≠ [] := by
  intro h
  exact hne (List.eq_nil_of_length_eq_zero (by rw [← (List.mergeSort_perm l le).length_eq, h]; rfl))

/-- With keys unique on the list, the last item of the sort is the item of largest key: it
depends on the list's members only, not on their order. -/
theorem getLast_mergeSort_eq {l : List α} (hinj : Set.InjOn key {x | x ∈ l})
    (hne : l.mergeSort (keyLE key) ≠ []) {m : α} (hm : m ∈ l)
    (hmax : ∀ y ∈ l, key y ≤ key m) : (l.mergeSort (keyLE key)).getLast hne = m := by
  have hlast : (l.mergeSort (keyLE key)).getLast hne ∈ l :=
    List.mem_mergeSort.mp (List.getLast_mem hne)
  exact hinj hlast hm (le_antisymm (hmax _ hlast) (le_key_getLast_mergeSort key hne hm))

end SortMax

section LargestKey

variable {α κ : Type*} [LinearOrder κ] [OrderBot κ] (key : α → κ)

/-- The largest key of the items, `⊥` when there are none. -/
def largestKey (l : List α) : κ := (l.map key).foldr max ⊥

@[simp] theorem largestKey_nil : largestKey key [] = ⊥ := rfl

@[simp] theorem largestKey_cons (a : α) (l : List α) :
    largestKey key (a :: l) = max (key a) (largestKey key l) := rfl

theorem le_largestKey {l : List α} {a : α} (ha : a ∈ l) : key a ≤ largestKey key l :=
  List.le_max_of_le (List.mem_map_of_mem ha) le_rfl

theorem largestKey_le {l : List α} {b : κ} (h : ∀ a ∈ l, key a ≤ b) : largestKey key l ≤ b :=
  List.max_le_of_forall_le _ _ (by simpa using h)

/-- Some item has the largest key. -/
theorem exists_key_eq_largestKey {l : List α} (hl : l ≠ []) :
    ∃ a ∈ l, key a = largestKey key l := by
  have hne : l.map key ≠ [] := by simpa using hl
  have hmem : largestKey key l ∈ l.map key :=
    List.maximum_mem (List.foldr_max_of_ne_nil hne).symm
  simpa using hmem

/-- Lists with the same items have the same largest key, whatever their order. -/
theorem largestKey_congr {l l' : List α} (h : ∀ a, a ∈ l ↔ a ∈ l') :
    largestKey key l = largestKey key l' :=
  le_antisymm (largestKey_le key fun a ha => le_largestKey key ((h a).mp ha))
    (largestKey_le key fun a ha => le_largestKey key ((h a).mpr ha))

/-- Dropping items keeps the largest key while an item that has it stays. -/
theorem largestKey_filter {l : List α} (p : α → Bool) {m : α} (hm : m ∈ l) (hp : p m = true)
    (hmax : key m = largestKey key l) : largestKey key (l.filter p) = largestKey key l := by
  apply le_antisymm
  · exact largestKey_le key fun a ha => le_largestKey key (List.mem_of_mem_filter ha)
  · rw [← hmax]
    exact le_largestKey key (List.mem_filter.mpr ⟨hm, hp⟩)

end LargestKey

section SwapRemove

/-! Go removes an item from a slice by moving the last item into its place and cutting the
last slot off. The items left are those of erasing the one removed, in another order. -/

variable {α : Type*}

theorem set_perm_cons_eraseIdx {l : List α} {i : ℕ} (hi : i < l.length) (a : α) :
    (l.set i a).Perm (a :: l.eraseIdx i) := by
  have hi' : i < (l.set i a).length := by simpa using hi
  have h := List.getElem_cons_eraseIdx_perm hi'
  simp only [List.getElem_set_self] at h
  rw [List.eraseIdx_set_eq] at h
  exact h.symm

theorem set_last_dropLast_perm (d : List α) (last : α) {i : ℕ} (hi : i < d.length + 1) :
    ((d ++ [last]).set i last).dropLast.Perm ((d ++ [last]).eraseIdx i) := by
  rcases Nat.lt_or_ge i d.length with hlt | hge
  · -- the gap is before the last item, which moves into it
    rw [List.set_append_left _ _ hlt, List.dropLast_concat,
      List.eraseIdx_append_of_lt_length hlt]
    exact (set_perm_cons_eraseIdx hlt _).trans (List.perm_append_singleton _ _).symm
  · -- the last item itself is removed
    have hi' : i = d.length := by omega
    subst hi'
    rw [List.eraseIdx_append_of_length_le le_rfl]
    simp

/-- Removal by moving the last item into the gap leaves the items of `eraseIdx`. -/
theorem set_getLast_dropLast_perm {l : List α} (hne : l ≠ []) {i : ℕ} (hi : i < l.length) :
    (l.set i (l.getLast hne)).dropLast.Perm (l.eraseIdx i) := by
  have hlen : i < l.dropLast.length + 1 := by
    simp only [List.length_dropLast]
    omega
  have h := set_last_dropLast_perm l.dropLast (l.getLast hne) hlen
  rwa [List.dropLast_append_getLast hne] at h

/-- Erasing the first item whose image is `b` is erasing `b` from the images. -/
theorem map_eraseIdx_of_findIdx? {β : Type*} [DecidableEq β] (f : α → β) {l : List α} {b : β}
    {i : ℕ} (h : l.findIdx? (fun a => f a = b) = some i) : (l.eraseIdx i).map f = (l.map f).erase b := by
  induction l generalizing i with
  | nil => cases h
  | cons a l ih =>
    rw [List.findIdx?_cons] at h
    by_cases ha : f a = b
    · -- the first item is the one erased
      obtain rfl : i = 0 := by simpa [ha] using h.symm
      simp [ha]
    · obtain ⟨j, hj, rfl⟩ : ∃ j, l.findIdx? (fun a => f a = b) = some j ∧ j + 1 = i := by
        simpa [ha] using h
      have hne : ¬(f a == b) = true := by simpa using ha
      simp [ih hj, List.erase_cons_tail hne]

end SwapRemove

section SliceFolds

/-! Loops that build a slice: appending to it, storing at an index, making it on first use. -/

variable {α β γ : Type*}

/-- A list all of whose items are images is the image of a list. -/
theorem exists_map_eq_of_forall_mem (f : α → β) {l : List β} (h : ∀ b ∈ l, ∃ a, f a = b) :
    ∃ S : List α, S.map f = l := by
  induction l with
  | nil => exact ⟨[], rfl⟩
  | cons b l ih =>
    obtain ⟨a, rfl⟩ := h b List.mem_cons_self
    obtain ⟨S, hS⟩ := ih fun b' hb' => h b' (List.mem_cons_of_mem _ hb')
    exact ⟨a :: S, by rw [List.map_cons, hS]⟩

/-- Appending each item's image in turn appends their concatenation. -/
theorem foldl_append_eq_flatMap (f : α → List β) (acc : List β) (l : List α) :
    l.foldl (fun b a => b ++ f a) acc = acc ++ l.flatMap f := by
  induction l generalizing acc with
  | nil => simp
  | cons a l ih => simp [ih, List.append_assoc]

/-- A loop each of whose turns appends to the list keeps what the list started with. -/
theorem exists_foldl_eq_append {f : List β → α → List β} (hf : ∀ acc a, ∃ ys, f acc a = acc ++ ys)
    (l : List α) (acc : List β) : ∃ ys, l.foldl f acc = acc ++ ys := by
  induction l generalizing acc with
  | nil => exact ⟨[], by simp⟩
  | cons a l ih =>
    obtain ⟨ys, hys⟩ := hf acc a
    obtain ⟨zs, hzs⟩ := ih (f acc a)
    exact ⟨ys ++ zs, by rw [List.foldl_cons, hzs, hys, List.append_assoc]⟩

/-- A loop that appends an item's image whenever a test passes, and does something else
otherwise, appends the images when the test passes on every item. -/
theorem foldl_ite_append_eq_map (P : α → Prop) [DecidablePred P] (h : α → β)
    (g : List β → α → List β) {l : List α} (hP : ∀ a ∈ l, P a) (acc : List β) :
    l.foldl (fun b a => if P a then b ++ [h a] else g b a) acc = acc ++ l.map h := by
  induction l generalizing acc with
  | nil => simp
  | cons a l ih =>
    rw [List.foldl_cons, if_pos (hP a List.mem_cons_self),
      ih (fun a' ha' => hP a' (List.mem_cons_of_mem a ha'))]
    simp

/-- Storing `f s` at each index `s` of `S` in turn: a stored index in range holds its value,
every other index what it held. -/
theorem getElem?_foldl_set (f : ℕ → α) (S : List ℕ) (r : List α) (i : ℕ) :
    (S.foldl (fun r s => r.set s (f s)) r)[i]? =
      if i ∈ S ∧ i < r.length then some (f i) else r[i]? := by
  induction S generalizing r with
  | nil => simp
  | cons s S ih =>
    rw [List.foldl_cons, ih, List.length_set, List.getElem?_set]
    by_cases hs : s = i
    · subst hs
      by_cases hlt : s < r.length <;> simp [hlt]
    · simp only [hs, if_false, List.mem_cons, Ne.symm hs, false_or]

/-- When `S` holds every index below the length, the stores give the slice of values. -/
theorem foldl_set_eq_map (f : ℕ → α) {S : List ℕ} {r : List α} (hS : ∀ i < r.length, i ∈ S) :
    S.foldl (fun r s => r.set s (f s)) r = (List.range r.length).map f := by
  refine List.ext_getElem? fun i => ?_
  rw [getElem?_foldl_set, List.getElem?_map]
  by_cases hi : i < r.length
  · simp [hi, hS i hi]
  · simp [hi]

/-- A slice made on first use (`if ret == nil { ret = make(...) }`) and then updated: after a
non-empty loop it is the loop over the made slice. -/
theorem foldl_getD_of_ne_nil (f : γ → α → γ) (x0 : γ) {l : List α} (hl : l ≠ []) :
    l.foldl (fun r a => some (f (r.getD x0) a)) none = some (l.foldl f x0) := by
  obtain ⟨a, l, rfl⟩ := List.exists_cons_of_ne_nil hl
  have hsome : ∀ (l : List α) (y : γ),
      l.foldl (fun r a => some (f (r.getD x0) a)) (some y) = some (l.foldl f y) := by
    intro l
    induction l with
    | nil => intro y; rfl
    | cons b l ih => intro y; exact ih (f y b)
  exact hsome l (f x0 a)

/-- From its items and length, a slice of optional values is the map of its lookups. -/
theorem eq_map_getD_range (l : List (Option α)) :
    l = (List.range l.length).map fun s => l.getD s none := by
  refine List.ext_getElem? fun i => ?_
  rw [List.getElem?_map]
  by_cases hi : i < l.length
  · simp [List.getD_eq_getElem?_getD, List.getElem?_eq_getElem hi, List.getElem?_range hi]
  · simp [not_lt.mp hi]

/-- Updating the element that follows a prefix. -/
theorem modify_length_append (f : α → α) (pre l : List α) (a : α) :
    (pre ++ a :: l).modify pre.length f = pre ++ f a :: l := by
  induction pre with
  | nil => simp
  | cons b pre ih => simp [ih]

end SliceFolds

section Stacks

variable {α : Type*}

/-- An entry of a stack whose top is `t`: the top itself, or an entry with `t` above it. -/
theorem append_cons_eq_append_singleton {A B P : List α} {c t : α}
    (h : A ++ c :: B = P ++ [t]) :
    (B = [] ∧ c = t ∧ A = P) ∨ ∃ B', B = B' ++ [t] ∧ P = A ++ c :: B' := by
  rcases List.eq_nil_or_concat B with rfl | ⟨L, b, rfl⟩
  · obtain ⟨hA, hc⟩ := List.append_inj' h rfl
    exact .inl ⟨rfl, List.singleton_inj.mp hc, hA⟩
  · rw [List.concat_eq_append, ← List.cons_append, ← List.append_assoc] at h
    obtain ⟨hP, hb⟩ := List.append_inj' h rfl
    exact .inr ⟨L, by rw [List.concat_eq_append, List.singleton_inj.mp hb], hP.symm⟩

end Stacks

section SortedDedup

/-! A loop that appends each value unless it is present already, over values that never
decrease, builds the strictly increasing list of the values (`foldl_sortedDedup`). The test
may be done on the last element only, or on a set of what was added; a value known to be new
may be appended without it. -/

variable {α β σ : Type*} [LinearOrder α]

/-- In a strictly increasing list whose elements are all at most `x`, `x` can only be last. -/
theorem mem_iff_getLast?_eq {acc : List α} {x : α} (hacc : acc.Pairwise (· < ·))
    (hle : ∀ a ∈ acc, a ≤ x) : x ∈ acc ↔ acc.getLast? = some x := by
  rcases acc.eq_nil_or_concat with rfl | ⟨L, y, rfl⟩
  · simp
  rw [List.concat_eq_append] at *
  have hLy : ∀ a ∈ L, a < y := fun a ha =>
    (List.pairwise_append.mp hacc).2.2 a ha y (List.mem_singleton_self y)
  rw [List.getLast?_concat, Option.some_inj]
  constructor
  · intro hx
    rcases List.mem_append.mp hx with hxL | hxy
    · exact absurd (hle y (by simp)) (not_le.mpr (hLy x hxL))
    · exact (List.mem_singleton.mp hxy).symm
  · rintro rfl
    simp

theorem foldl_sortedDedup (out : σ → List α) (I : σ → Prop) (f : β → α) (P : β → Prop)
    (step : σ → β → σ)
    (hstep : ∀ s b, I s → (out s).Pairwise (· < ·) → (∀ a ∈ out s, a ≤ f b) →
      (P b → ∀ a ∈ out s, a < f b) →
      I (step s b) ∧ out (step s b) = if f b ∈ out s then out s else out s ++ [f b]) :
    ∀ (l : List β) (s : σ), I s → (out s).Pairwise (· < ·) →
      (∀ a ∈ out s, ∀ b ∈ l, a ≤ f b ∧ (P b → a < f b)) →
      l.Pairwise (fun b b' => f b ≤ f b' ∧ (P b' → f b < f b')) →
      (out (l.foldl step s)).Pairwise (· < ·) ∧
        ∀ y, y ∈ out (l.foldl step s) ↔ y ∈ out s ∨ ∃ b ∈ l, f b = y
  | [], s, _, hs, _, _ => ⟨hs, fun y => by simp⟩
  | b :: l, s, hI, hs, hge, hl => by
    obtain ⟨hbl, hl'⟩ := List.pairwise_cons.mp hl
    have hgeb := fun a ha => hge a ha b List.mem_cons_self
    obtain ⟨hI', hout⟩ := hstep s b hI hs (fun a ha => (hgeb a ha).1)
      (fun hP a ha => (hgeb a ha).2 hP)
    -- one step adds `f b` when it is new, and nothing else
    have hmem : ∀ y, y ∈ out (step s b) ↔ y ∈ out s ∨ f b = y := by
      intro y
      rw [hout]
      split_ifs with hfb
      · exact ⟨.inl, fun h => h.elim id (· ▸ hfb)⟩
      · simp [eq_comm]
    have hs' : (out (step s b)).Pairwise (· < ·) := by
      rw [hout]
      split_ifs with hfb
      · exact hs
      · refine List.pairwise_append.mpr ⟨hs, List.pairwise_singleton _ _, fun a ha c hc => ?_⟩
        rw [List.mem_singleton.mp hc]
        exact lt_of_le_of_ne (hgeb a ha).1 (fun h => hfb (h ▸ ha))
    have hge' : ∀ a ∈ out (step s b), ∀ b' ∈ l, a ≤ f b' ∧ (P b' → a < f b') := by
      intro a ha b' hb'
      rcases (hmem a).mp ha with ha | rfl
      · exact hge a ha b' (List.mem_cons_of_mem b hb')
      · exact hbl b' hb'
    obtain ⟨hsorted, hrest⟩ := foldl_sortedDedup out I f P step hstep l (step s b) hI' hs' hge' hl'
    refine ⟨hsorted, fun y => ?_⟩
    rw [List.foldl_cons, hrest, hmem, or_assoc]
    simp only [List.mem_cons, exists_eq_or_imp]

end SortedDedup

section AssocSums

/-! A map held as an association list: the total of a measure over its values after a write or
a delete, counted against the value the key held before. -/

variable {α β : Type*} [DecidableEq α] (f : β → ℕ)

theorem sum_kerase_add_dlookup (a : α) (l : List (Σ _ : α, β)) :
    ((l.kerase a).map fun e => f e.2).sum + ((l.dlookup a).map f).getD 0 =
      (l.map fun e => f e.2).sum := by
  induction l with
  | nil => simp
  | cons e l ih =>
    obtain ⟨k, v⟩ := e
    by_cases hk : a = k
    · subst hk
      simp [List.kerase_cons_eq, Nat.add_comm]
    · simp only [List.kerase_cons_ne (s := (⟨k, v⟩ : Σ _ : α, β)) hk,
        List.dlookup_cons_ne l (⟨k, v⟩ : Σ _ : α, β) hk, List.map_cons,
        List.sum_cons, ← ih]
      omega

theorem sum_entries_insert (s : AList fun _ : α => β) (a : α) (b : β) :
    ((s.insert a b).entries.map fun e => f e.2).sum + ((s.lookup a).map f).getD 0 =
      (s.entries.map fun e => f e.2).sum + f b := by
  rw [AList.entries_insert, List.map_cons, List.sum_cons, Nat.add_assoc]
  exact (congrArg (f b + ·) (sum_kerase_add_dlookup f a s.entries)).trans (Nat.add_comm _ _)

theorem sum_entries_erase (s : AList fun _ : α => β) (a : α) :
    ((s.erase a).entries.map fun e => f e.2).sum + ((s.lookup a).map f).getD 0 =
      (s.entries.map fun e => f e.2).sum :=
  sum_kerase_add_dlookup f a s.entries

end AssocSums

end Collections
