import Vault.Lib.SortedStore

/-!
# A radix tree by its leaves

A radix tree over string keys holds each key once, and its walks visit the keys in increasing
order. What `Get`, `Insert`, `Delete` and `LongestPrefix` return depends on the leaves alone,
not on how the edges share prefixes, so a tree is taken here as its leaves in key order, a
`SortedStore.Bucket`: `Insert` of a present key replaces its value (`Bucket.put`), `Delete`
drops the key, and `LongestPrefix(s)` is the last leaf, in key order, whose key is a prefix of
`s`. The keys that are prefixes of one string form a chain, ordered by length as by key, so
that leaf holds the longest such key (`longestPrefix_eq_some_iff`).
-/

namespace SortedStore.Bucket

open GoStrings

variable {V : Type} (t : Bucket V)

/-- `Delete`. -/
def delete (k : String) : Bucket V :=
  ⟨t.entries.filter fun e => e.1 != k, t.sorted.sublist List.filter_sublist⟩

/-- `LongestPrefix`: the leaf with the longest key that is a prefix of `s`. -/
def longestPrefix (s : String) : Option (String × V) :=
  (t.entries.filter fun e => hasPrefix s e.1).getLast?

/-- `WalkPrefix(p, fn)` with a callback that never stops the walk: the leaves under `p`, in
key order. -/
def walkPrefix (p : String) : List (String × V) :=
  t.entries.filter fun e => hasPrefix e.1 p

/-- A walk of the tree visits what a cursor scan of the same leaves visits. -/
theorem walkPrefix_eq_scanPrefix (p : String) : t.walkPrefix p = t.scanPrefix p :=
  (t.scanPrefix_eq_filter p).symm

theorem mem_delete {k : String} {e : String × V} :
    e ∈ (t.delete k).entries ↔ e ∈ t.entries ∧ e.1 ≠ k := by
  simp [delete]

theorem get_delete (k k' : String) :
    (t.delete k).get k' = if k' = k then none else t.get k' := by
  split
  · next h =>
    exact (get_eq_none_iff _).mpr fun e he hek => (t.mem_delete.mp he).2 (hek.trans h)
  · next h =>
    cases hb : t.get k' with
    | none =>
      exact (get_eq_none_iff _).mpr fun e he => (get_eq_none_iff t).mp hb e (t.mem_delete.mp he).1
    | some w => exact (get_eq_some_iff _).mpr (t.mem_delete.mpr ⟨(get_eq_some_iff t).mp hb, h⟩)

/-! ## Keys that are prefixes of one string -/

section Chain

variable {s k k' : String}

/-- Of two keys that are prefixes of `s`, the one first in key order is a prefix of the other. -/
theorem prefix_of_lt (hk : hasPrefix s k) (hk' : hasPrefix s k') (hlt : k < k') :
    k.toList <+: k'.toList := by
  rcases List.prefix_or_prefix_of_prefix (hasPrefix_iff.mp hk) (hasPrefix_iff.mp hk') with h | h
  · exact h
  · exact absurd (String.lt_iff_toList_lt.mp hlt) (not_lt_of_isPrefix h)

/-- Two prefixes of `s` of one length are the same. -/
theorem eq_of_length_eq (hk : hasPrefix s k) (hk' : hasPrefix s k')
    (hlen : k.length = k'.length) : k = k' := by
  have hlen' : k.toList.length = k'.toList.length := by simpa [String.length_toList] using hlen
  rcases List.prefix_or_prefix_of_prefix (hasPrefix_iff.mp hk) (hasPrefix_iff.mp hk') with h | h
  · exact String.toList_inj.mp (h.eq_of_length hlen')
  · exact String.toList_inj.mp (h.eq_of_length hlen'.symm).symm

end Chain

/-! ## `LongestPrefix` -/

variable {t} {s : String}

/-- The leaf `LongestPrefix` finds is stored, has a prefix of `s` as its key, and no stored key
that is a prefix of `s` is longer. -/
theorem longestPrefix_spec {k : String} {v : V} (h : t.longestPrefix s = some (k, v)) :
    (k, v) ∈ t.entries ∧ hasPrefix s k ∧
      ∀ e ∈ t.entries, hasPrefix s e.1 → e.1.length ≤ k.length := by
  obtain ⟨ys, hys⟩ := List.getLast?_eq_some_iff.mp h
  have hsorted : (ys ++ [(k, v)]).Pairwise fun a b => a.1 < b.1 :=
    hys ▸ t.sorted.sublist List.filter_sublist
  have hmem : (k, v) ∈ t.entries.filter fun e => hasPrefix s e.1 := by simp [hys]
  obtain ⟨hkv, hpk⟩ := List.mem_filter.mp hmem
  refine ⟨hkv, hpk, fun e he hpe => ?_⟩
  have hef : e ∈ ys ++ [(k, v)] := hys ▸ List.mem_filter.mpr ⟨he, hpe⟩
  rcases List.mem_append.mp hef with hy | hlast
  · -- a leaf before the last comes first in key order, so its key is a prefix of the last's
    have hlt : e.1 < k := (List.pairwise_append.mp hsorted).2.2 e hy (k, v) List.mem_cons_self
    simpa [String.length_toList] using (prefix_of_lt hpe hpk hlt).length_le
  · rw [List.mem_singleton.mp hlast]

theorem longestPrefix_eq_none_iff :
    t.longestPrefix s = none ↔ ∀ e ∈ t.entries, hasPrefix s e.1 = false := by
  simp [longestPrefix]

theorem longestPrefix_eq_some_iff {k : String} {v : V} :
    t.longestPrefix s = some (k, v) ↔ (k, v) ∈ t.entries ∧ hasPrefix s k ∧
      ∀ e ∈ t.entries, hasPrefix s e.1 → e.1.length ≤ k.length := by
  refine ⟨longestPrefix_spec, fun ⟨hkv, hpk, hmax⟩ => ?_⟩
  cases hl : t.longestPrefix s with
  | none => exact absurd hpk (by simp [longestPrefix_eq_none_iff.mp hl _ hkv])
  | some e =>
    obtain ⟨hkv', hpk', hmax'⟩ := longestPrefix_spec hl
    -- both keys are the longest prefixes of `s` stored, so they are one key
    have hk : e.1 = k :=
      eq_of_length_eq hpk' hpk (le_antisymm (hmax _ hkv' hpk') (hmax' _ hkv hpk))
    have hv : e.2 = v := by
      have h1 := (get_eq_some_iff t).mpr hkv
      rw [← hk, (get_eq_some_iff t).mpr hkv'] at h1
      exact Option.some.inj h1
    rw [← hk, ← hv]

/-- A stored key that is a prefix of `s` is a prefix of the key `LongestPrefix` finds. -/
theorem exists_longestPrefix {k : String} {v : V} (hkv : (k, v) ∈ t.entries)
    (hpk : hasPrefix s k) :
    ∃ e, t.longestPrefix s = some e ∧ k.toList <+: e.1.toList := by
  cases hl : t.longestPrefix s with
  | none => exact absurd hpk (by simp [longestPrefix_eq_none_iff.mp hl _ hkv])
  | some e =>
    obtain ⟨-, hpe, hmax⟩ := longestPrefix_spec hl
    refine ⟨e, rfl,
      List.prefix_of_prefix_length_le (hasPrefix_iff.mp hpk) (hasPrefix_iff.mp hpe) ?_⟩
    simpa [String.length_toList] using hmax _ hkv hpk

/-- A stored key is its own longest prefix. -/
theorem longestPrefix_self {k : String} {v : V} (hkv : (k, v) ∈ t.entries) :
    t.longestPrefix k = some (k, v) :=
  longestPrefix_eq_some_iff.mpr ⟨hkv, hasPrefix_iff.mpr (List.prefix_refl _),
    fun _ _ hpe => by simpa [String.length_toList] using (hasPrefix_iff.mp hpe).length_le⟩

end SortedStore.Bucket
