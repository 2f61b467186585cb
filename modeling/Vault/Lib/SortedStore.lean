import Vault.Lib.GoStrings
import Vault.Lib.Collections

/-!
# A key-value bucket in key order, and its cursor scans

A B+tree bucket, such as bbolt's, holds its entries in increasing key order. A cursor's
`Seek(p)` stops at the first key at or after `p`, and `Next` walks on in order. A scan that
seeks a prefix and walks on while keys have it visits exactly the keys with that prefix, in
order (`scanPrefix_eq_filter`), because the keys with a prefix form one block of the order
(`prefix_of_le_of_le`). Deleting what such a scan visits removes exactly those keys
(`entries_deletePrefix`).
-/

namespace SortedStore

open GoStrings

section Order

/-- A prefix does not come after. -/
theorem not_lt_of_isPrefix : ∀ {p x : List Char}, p <+: x → ¬x < p
  | [], x, _ => List.not_lt.mpr (List.nil_le x)
  | c :: p, [], h => absurd h (by simp)
  | c :: p, d :: x, h => by
    obtain ⟨rfl, hpx⟩ := List.cons_prefix_cons.mp h
    exact List.not_lt.mpr
      (List.cons_le_cons_iff.mpr (.inr ⟨rfl, List.not_lt.mp (not_lt_of_isPrefix hpx)⟩))

/-- The keys with prefix `p` are one block of the order: what lies between `p` and a key with
prefix `p` has prefix `p`. -/
theorem prefix_of_between : ∀ {p x y : List Char}, ¬x < p → ¬y < x → p <+: y → p <+: x
  | [], _, _, _, _, _ => List.nil_prefix
  | c :: p, [], y, hpx, _, _ => absurd (List.nil_lt_cons c p) hpx
  | c :: p, d :: x, y, hpx, hxy, hp => by
    obtain ⟨t, rfl⟩ : ∃ t, y = c :: t := by
      cases y with
      | nil => exact absurd hp (by simp)
      | cons e t => exact ⟨t, (List.cons_prefix_cons.mp hp).1 ▸ rfl⟩
    have hpt : p <+: t := (List.prefix_cons_inj c).mp hp
    -- both comparisons pin the first character to `c`
    rcases List.cons_le_cons_iff.mp (List.not_lt.mp hpx) with hcd | ⟨rfl, hpx'⟩
    · rcases List.cons_le_cons_iff.mp (List.not_lt.mp hxy) with hdc | ⟨rfl, -⟩
      · exact absurd (hcd.trans hdc) (lt_irrefl c)
      · exact absurd hcd (lt_irrefl _)
    · rcases List.cons_le_cons_iff.mp (List.not_lt.mp hxy) with hdc | ⟨-, hxt⟩
      · exact absurd hdc (lt_irrefl _)
      · exact (List.prefix_cons_inj c).mpr
          (prefix_of_between (List.not_lt.mpr hpx') (List.not_lt.mpr hxt) hpt)

theorem not_hasPrefix_of_lt {k p : String} (h : k < p) : hasPrefix k p = false := by
  cases hk : hasPrefix k p with
  | false => rfl
  | true => exact absurd (String.lt_iff_toList_lt.mp h) (not_lt_of_isPrefix (hasPrefix_iff.mp hk))

end Order

section Scan

variable {α : Type*} {P Q : α → Bool}

/-- A scan that stops at the first failure visits everything that passes, when passing is
closed under going back. -/
theorem takeWhile_eq_filter :
    ∀ {l : List α}, l.Pairwise (fun a b => P b = true → P a = true) → l.takeWhile P = l.filter P
  | [], _ => rfl
  | a :: l, h => by
    rw [List.pairwise_cons] at h
    by_cases ha : P a = true
    · rw [List.takeWhile_cons_of_pos ha, List.filter_cons_of_pos ha, takeWhile_eq_filter h.2]
    · have hnil : l.filter P = [] :=
        List.filter_eq_nil_iff.mpr fun b hb hPb => ha (h.1 b hb hPb)
      rw [List.takeWhile_cons_of_neg ha, List.filter_cons_of_neg ha, hnil]

/-- Under the same closure, nothing after the scan passes. -/
theorem eq_false_of_mem_dropWhile :
    ∀ {l : List α}, l.Pairwise (fun a b => P b = true → P a = true) →
      ∀ e ∈ l.dropWhile P, P e = false
  | [], _, _, he => absurd he List.not_mem_nil
  | a :: l, h, e, he => by
    rw [List.pairwise_cons] at h
    by_cases ha : P a = true
    · rw [List.dropWhile_cons_of_pos ha] at he
      exact eq_false_of_mem_dropWhile h.2 e he
    · rw [List.dropWhile_cons_of_neg ha] at he
      rcases List.mem_cons.mp he with rfl | he
      · exact Bool.eq_false_iff.mpr ha
      · exact Bool.eq_false_iff.mpr fun hPe => ha (h.1 e he hPe)

/-- A filter may skip what a scan skips, when nothing skipped passes it. -/
theorem filter_dropWhile_of_disjoint (hPQ : ∀ a, P a = true → Q a = false) (l : List α) :
    (l.dropWhile P).filter Q = l.filter Q := by
  conv_rhs => rw [← List.takeWhile_append_dropWhile (p := P) (l := l)]
  have hnil : (l.takeWhile P).filter Q = [] :=
    List.filter_eq_nil_iff.mpr fun a ha hQ => by
      rw [hPQ a (List.mem_takeWhile_imp ha)] at hQ
      cases hQ
  rw [List.filter_append, hnil, List.nil_append]

/-- Under the closure, what a scan leaves is what fails. -/
theorem dropWhile_eq_filter_not {l : List α}
    (h : l.Pairwise fun a b => P b = true → P a = true) :
    l.dropWhile P = l.filter fun a => !P a := by
  have hall : ∀ e ∈ l.dropWhile P, (!P e) = true := fun e he => by
    simp [eq_false_of_mem_dropWhile h e he]
  rw [← filter_dropWhile_of_disjoint (P := P) (Q := fun a => !P a) (fun a ha => by simp [ha]),
    List.filter_eq_self.mpr hall]

end Scan

/-- A bucket: its entries, in strictly increasing key order. -/
structure Bucket (V : Type) where
  entries : List (String × V)
  sorted : entries.Pairwise fun a b => a.1 < b.1

variable {V : Type}

/-- Insertion in key order; a key present gets the new value. -/
def insertSorted (k : String) (v : V) : List (String × V) → List (String × V)
  | [] => [(k, v)]
  | e :: es =>
    if k < e.1 then (k, v) :: e :: es
    else if k = e.1 then (k, v) :: es
    else e :: insertSorted k v es

theorem mem_insertSorted {k : String} {v : V} {e : String × V} :
    ∀ {es : List (String × V)}, es.Pairwise (fun a b => a.1 < b.1) →
      (e ∈ insertSorted k v es ↔ e = (k, v) ∨ (e ∈ es ∧ e.1 ≠ k))
  | [], _ => by simp [insertSorted]
  | d :: es, h => by
    rw [List.pairwise_cons] at h
    unfold insertSorted
    split_ifs with hlt heq
    · -- `k` comes before every key present
      have hne : ∀ x ∈ d :: es, x.1 ≠ k := by
        intro x hx
        rcases List.mem_cons.mp hx with rfl | hx
        · exact ne_of_gt hlt
        · exact ne_of_gt (hlt.trans (h.1 x hx))
      constructor
      · intro he
        rcases List.mem_cons.mp he with rfl | he
        · exact .inl rfl
        · exact .inr ⟨he, hne e he⟩
      · rintro (rfl | ⟨he, -⟩)
        · exact List.mem_cons_self
        · exact List.mem_cons_of_mem _ he
    · -- `k` replaces the first key
      subst heq
      have hne : ∀ x ∈ es, x.1 ≠ d.1 := fun x hx => ne_of_gt (h.1 x hx)
      constructor
      · intro he
        rcases List.mem_cons.mp he with rfl | he
        · exact .inl rfl
        · exact .inr ⟨List.mem_cons_of_mem _ he, hne e he⟩
      · rintro (rfl | ⟨he, hk⟩)
        · exact List.mem_cons_self
        · rcases List.mem_cons.mp he with rfl | he
          · exact absurd rfl hk
          · exact List.mem_cons_of_mem _ he
    · -- `k` goes further on
      rw [List.mem_cons, mem_insertSorted h.2, List.mem_cons]
      constructor
      · rintro (rfl | rfl | ⟨he, hk⟩)
        · exact .inr ⟨.inl rfl, Ne.symm heq⟩
        · exact .inl rfl
        · exact .inr ⟨.inr he, hk⟩
      · rintro (rfl | ⟨rfl | he, hk⟩)
        · exact .inr (.inl rfl)
        · exact .inl rfl
        · exact .inr (.inr ⟨he, hk⟩)

theorem insertSorted_sorted {k : String} {v : V} :
    ∀ {es : List (String × V)}, es.Pairwise (fun a b => a.1 < b.1) →
      (insertSorted k v es).Pairwise fun a b => a.1 < b.1
  | [], _ => List.pairwise_singleton _ _
  | d :: es, h => by
    have h' := List.pairwise_cons.mp h
    unfold insertSorted
    split_ifs with hlt heq
    · refine List.Pairwise.cons (fun x hx => ?_) h
      rcases List.mem_cons.mp hx with rfl | hx
      · exact hlt
      · exact hlt.trans (h'.1 x hx)
    · exact List.Pairwise.cons (fun x hx => heq ▸ h'.1 x hx) h'.2
    · have hdk : d.1 < k := lt_of_le_of_ne (not_lt.mp hlt) (Ne.symm heq)
      refine List.Pairwise.cons (fun x hx => ?_) (insertSorted_sorted h'.2)
      rcases (mem_insertSorted h'.2).mp hx with rfl | ⟨hx, -⟩
      · exact hdk
      · exact h'.1 x hx

namespace Bucket

/-- The empty bucket. -/
def empty : Bucket V := ⟨[], List.Pairwise.nil⟩

/-- `Bucket.Get`. -/
def get (b : Bucket V) (k : String) : Option V :=
  (b.entries.find? fun e => e.1 == k).map Prod.snd

/-- `Bucket.Put`: the key gets the value, in its place in the order. -/
def put (b : Bucket V) (k : String) (v : V) : Bucket V :=
  ⟨insertSorted k v b.entries, insertSorted_sorted b.sorted⟩

/-- `c.Seek(p)`, then `c.Next()` while the key has prefix `p`: the entries visited. -/
def scanPrefix (b : Bucket V) (p : String) : List (String × V) :=
  (b.entries.dropWhile fun e => e.1 < p).takeWhile fun e => hasPrefix e.1 p

/-- The same scan calling `c.Delete()` on each entry it visits. -/
def deletePrefix (b : Bucket V) (p : String) : Bucket V :=
  let rest := b.entries.dropWhile fun e => e.1 < p
  ⟨b.entries.takeWhile (fun e => e.1 < p) ++ rest.dropWhile (fun e => hasPrefix e.1 p),
    b.sorted.sublist <| by
      conv_rhs => rw [← List.takeWhile_append_dropWhile (p := fun e => e.1 < p) (l := b.entries)]
      exact (List.Sublist.refl _).append (List.dropWhile_sublist _)⟩

variable (b : Bucket V)

theorem keys_nodup : (b.entries.map Prod.fst).Nodup :=
  List.pairwise_map.mpr (b.sorted.imp ne_of_lt)

theorem get_eq_some_iff {k : String} {v : V} : b.get k = some v ↔ (k, v) ∈ b.entries := by
  constructor
  · intro h
    obtain ⟨e, he, rfl⟩ := Option.map_eq_some_iff.mp h
    obtain ⟨hmem, rfl⟩ := (Collections.find?_eq_some_iff_of_nodup Prod.fst b.keys_nodup k e).mp he
    exact hmem
  · intro h
    have he := (Collections.find?_eq_some_iff_of_nodup Prod.fst b.keys_nodup k (k, v)).mpr ⟨h, rfl⟩
    simp only [get, he, Option.map_some]

theorem get_eq_none_iff {k : String} : b.get k = none ↔ ∀ e ∈ b.entries, e.1 ≠ k := by
  simp only [get, Option.map_eq_none_iff, List.find?_eq_none, beq_iff_eq]

theorem mem_put {k : String} {v : V} {e : String × V} :
    e ∈ (b.put k v).entries ↔ e = (k, v) ∨ (e ∈ b.entries ∧ e.1 ≠ k) :=
  mem_insertSorted b.sorted

theorem get_put (k k' : String) (v : V) :
    (b.put k v).get k' = if k' = k then some v else b.get k' := by
  split
  · next h => exact (get_eq_some_iff _).mpr (b.mem_put.mpr (.inl (h ▸ rfl)))
  · next h =>
    cases hb : b.get k' with
    | none =>
      refine (get_eq_none_iff _).mpr fun e he hek => ?_
      rcases b.mem_put.mp he with rfl | ⟨he, -⟩
      · exact h hek.symm
      · exact (get_eq_none_iff b).mp hb e he hek
    | some w => exact (get_eq_some_iff _).mpr (b.mem_put.mpr (.inr ⟨(get_eq_some_iff b).mp hb, h⟩))

/-- The seek skips exactly the keys before `p`. -/
theorem not_lt_of_mem_seek {p : String} :
    ∀ e ∈ b.entries.dropWhile (fun e => e.1 < p), ¬e.1 < p := by
  have hlow : b.entries.Pairwise fun a c => decide (c.1 < p) = true → decide (a.1 < p) = true :=
    b.sorted.imp fun hac hc => by simpa using (hac.trans (by simpa using hc))
  intro e he
  simpa using eq_false_of_mem_dropWhile hlow e he

/-- From the seek on, the keys with prefix `p` come first. -/
theorem seek_pairwise_prefix (p : String) : (b.entries.dropWhile fun e => e.1 < p).Pairwise
    fun a c => hasPrefix c.1 p = true → hasPrefix a.1 p = true := by
  refine (List.Pairwise.and_mem.mp (b.sorted.sublist (List.dropWhile_sublist _))).imp ?_
  rintro a c ⟨ha, -, hac⟩ hc
  exact hasPrefix_iff.mpr <| prefix_of_between
    (fun h => b.not_lt_of_mem_seek a ha (String.lt_iff_toList_lt.mpr h))
    (fun h => not_lt_of_gt hac (String.lt_iff_toList_lt.mpr h)) (hasPrefix_iff.mp hc)

/-- The scan visits exactly the entries with prefix `p`, in key order. -/
theorem scanPrefix_eq_filter (p : String) :
    b.scanPrefix p = b.entries.filter fun e => hasPrefix e.1 p := by
  rw [scanPrefix, takeWhile_eq_filter (b.seek_pairwise_prefix p)]
  exact filter_dropWhile_of_disjoint (fun e he => not_hasPrefix_of_lt (by simpa using he)) _

/-- The deleting scan removes exactly the entries with prefix `p`. -/
theorem entries_deletePrefix (p : String) :
    (b.deletePrefix p).entries = b.entries.filter fun e => !hasPrefix e.1 p := by
  have hkeep : (b.entries.takeWhile fun e => e.1 < p).filter (fun e => !hasPrefix e.1 p) =
      b.entries.takeWhile fun e => e.1 < p :=
    List.filter_eq_self.mpr fun e he => by
      simp [not_hasPrefix_of_lt (by simpa using List.mem_takeWhile_imp he)]
  conv_rhs => rw [← List.takeWhile_append_dropWhile (p := fun e => e.1 < p) (l := b.entries)]
  rw [List.filter_append, hkeep, ← dropWhile_eq_filter_not (b.seek_pairwise_prefix p)]
  rfl

theorem mem_deletePrefix {p : String} {e : String × V} :
    e ∈ (b.deletePrefix p).entries ↔ e ∈ b.entries ∧ hasPrefix e.1 p = false := by
  simp [entries_deletePrefix]

theorem get_deletePrefix (p k : String) :
    (b.deletePrefix p).get k = if hasPrefix k p then none else b.get k := by
  split
  · next h =>
    refine (get_eq_none_iff _).mpr fun e he hek => ?_
    have hoff := (b.mem_deletePrefix.mp he).2
    rw [hek, h] at hoff
    cases hoff
  · next h =>
    cases hb : b.get k with
    | none =>
      exact (get_eq_none_iff _).mpr fun e he => (get_eq_none_iff b).mp hb e (b.mem_deletePrefix.mp he).1
    | some w =>
      exact (get_eq_some_iff _).mpr
        (b.mem_deletePrefix.mpr ⟨(get_eq_some_iff b).mp hb, Bool.eq_false_iff.mpr h⟩)

end Bucket

end SortedStore
