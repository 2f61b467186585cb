import Vault.Lib.GoStrings

/-!
# `sdk/helper/strutil` and `policyutil`

The string-list helpers of the SDK that the identity and token models call. Go ranges over a
map to collect the distinct strings, then sorts them; the models sort the list without
duplicates, which is the same list.
-/

namespace Vault.Helper

open GoStrings

/-- `strutil.RemoveDuplicates(items, lowercase)`: the items trimmed (and lowercased), without
empty ones and duplicates, sorted. -/
def removeDuplicates (items : List String) (lowercase : Bool) : List String :=
  ((items.map fun item =>
      let item := trimSpace item
      if lowercase then toLower item else item).filter (· != "")).dedup.insertionSort (· ≤ ·)

/-- `strutil.Difference(a, b, lowercase)`: the strings of `a` that are not in `b`; when both
are non-empty, each without duplicates (and lowercased), sorted. -/
def difference (a b : List String) (lowercase : Bool) : List String :=
  if a = [] then a
  else if b = [] then (if lowercase then a.map toLower else a)
  else
    let a := removeDuplicates a lowercase
    let b := removeDuplicates b lowercase
    -- `a` is sorted already, and the filter keeps its order
    a.filter fun item => !b.contains item

/-- `strutil.MergeSlices(a, b)`: the strings of both, each once, sorted. -/
def mergeSlices (a b : List String) : List String :=
  (a ++ b).dedup.insertionSort (· ≤ ·)

/-- `strutil.StrListContains(haystack, needle)`. -/
def strListContains (haystack : List String) (needle : String) : Bool := haystack.contains needle

/-- `strutil.StrListContainsGlob(haystack, needle)`, with `glob.Glob(pattern, subj)` given. -/
def strListContainsGlob (glob : String → String → Bool) (haystack : List String)
    (needle : String) : Bool :=
  haystack.any fun item => glob item needle

/-- `strutil.StrListSubset(super, sub)`: every item of `sub` is in `super`. -/
def strListSubset (sup sub : List String) : Bool := sub.all fun item => strListContains sup item

/-- `strutil.StrListDelete(s, d)`: the list without its first `d`. -/
def strListDelete (s : List String) (d : String) : List String := s.erase d

/-- `policyutil.SanitizePolicies(policies, addDefault)`: each policy trimmed and lowercased;
`root` replaces all others; `default` is added when asked and missing. -/
def sanitizePolicies (policies : List String) (addDefault : Bool) : List String :=
  let policies := policies.map fun p => toLower (trimSpace p)
  -- the loop breaks at the first `root`, and a `root` counts as `default` found
  let defaultFound := decide ("root" ∈ policies ∨ "default" ∈ policies)
  let policies := if "root" ∈ policies then ["root"] else policies
  let policies :=
    if addDefault && (policies.length == 0 || !defaultFound) then policies ++ ["default"]
    else policies
  removeDuplicates policies true

/-- The slice `SanitizePolicies` is given, as the call leaves it: the loop writes each policy
back trimmed and lowercased, up to the first `root`, where it stops. -/
def sanitizeInPlace : List String → List String
  | [] => []
  | p :: ps =>
    let p := toLower (trimSpace p)
    if p = "root" then p :: ps else p :: sanitizeInPlace ps

/-- `strutil.GlobbedStringsMatch(item, val)`: an item of two bytes or more may begin or end
with a `*` that stands for any text. The `*` is one byte, so the byte slices that cut it off cut
off one character. -/
def globbedStringsMatch (item val : String) : Bool :=
  if len item < 2 then val == item
  else
    let leading := hasPrefix item "*"
    let trailing := hasSuffix item "*"
    if leading && trailing then contains val (String.ofList (item.toList.drop 1).dropLast)
    else if leading then hasSuffix val (String.ofList (item.toList.drop 1))
    else if trailing then hasPrefix val (String.ofList item.toList.dropLast)
    else val == item

/-- The keys `EquivalentPolicies` compares: the policies other than `default`, once each, sorted
(the keys of its map, collected and passed to `sort.Strings`). -/
def sortedPolicyKeys (policies : List String) : List String :=
  (policies.filter (· != "default")).dedup.insertionSort (· ≤ ·)

/-- `policyutil.EquivalentPolicies(a, b)`, a nil slice being `none`: a nil list matches a nil one
and exactly `["default"]`; two lists that are not nil match when their policies other than
`default` are the same. -/
def equivalentPolicies : Option (List String) → Option (List String) → Bool
  | none, none => true
  | none, some b => b == ["default"]
  | some a, none => a == ["default"]
  | some a, some b => sortedPolicyKeys a == sortedPolicyKeys b

/-- The two lists hold the same policies other than `default`, a nil list holding none. -/
def SameNonDefault (a b : Option (List String)) : Prop :=
  ∀ p, p ≠ "default" → (p ∈ a.getD [] ↔ p ∈ b.getD [])

theorem mem_sortedPolicyKeys {policies : List String} {p : String} :
    p ∈ sortedPolicyKeys policies ↔ p ∈ policies ∧ p ≠ "default" := by
  simp [sortedPolicyKeys, List.mem_insertionSort]

/-- Sorted lists without duplicates are equal exactly when they hold the same policies. -/
theorem sortedPolicyKeys_eq_iff {a b : List String} :
    sortedPolicyKeys a = sortedPolicyKeys b ↔
      ∀ p, p ≠ "default" → (p ∈ a ↔ p ∈ b) := by
  constructor
  · intro h p hp
    have := congrArg (p ∈ ·) h
    simpa [mem_sortedPolicyKeys, hp] using this
  · intro h
    have hnodup : ∀ l : List String, (sortedPolicyKeys l).Nodup := fun l =>
      (List.perm_insertionSort _ _).nodup_iff.mpr (List.nodup_dedup _)
    have hperm : (sortedPolicyKeys a).Perm (sortedPolicyKeys b) :=
      (List.perm_ext_iff_of_nodup (hnodup a) (hnodup b)).mpr fun p => by
        by_cases hp : p = "default"
        · simp [mem_sortedPolicyKeys, hp]
        · simp [mem_sortedPolicyKeys, hp, h p hp]
    exact hperm.eq_of_pairwise' (List.pairwise_insertionSort _ _)
      (List.pairwise_insertionSort _ _)

/-- `["default"]` holds no policy other than `default`, as a nil list does. -/
theorem sameNonDefault_none_default (b : List String) (hb : b = ["default"]) :
    SameNonDefault none (some b) := by
  intro p hp
  simp [hb, hp]

/-- `EquivalentPolicies` compares the policies other than `default`, and tells nil from a list
that is not nil unless that list is exactly `["default"]`. -/
theorem equivalentPolicies_eq_true_iff (a b : Option (List String)) :
    equivalentPolicies a b = true ↔
      SameNonDefault a b ∧ (a.isNone = b.isNone ∨ a = some ["default"] ∨ b = some ["default"]) := by
  cases a with
  | none =>
    cases b with
    | none => simp [equivalentPolicies, SameNonDefault]
    | some b =>
      simp only [equivalentPolicies, beq_iff_eq]
      constructor
      · rintro rfl
        exact ⟨sameNonDefault_none_default _ rfl, .inr (.inr rfl)⟩
      · rintro ⟨-, h⟩
        simpa using h
  | some a =>
    cases b with
    | none =>
      simp only [equivalentPolicies, beq_iff_eq]
      constructor
      · rintro rfl
        refine ⟨fun p hp => ?_, .inr (.inl rfl)⟩
        simp [hp]
      · rintro ⟨-, h⟩
        simpa using h
    | some b =>
      -- both lists are not nil: the sorted keys decide
      simp [equivalentPolicies, sortedPolicyKeys_eq_iff, SameNonDefault]

theorem mem_removeDuplicates {items : List String} {lowercase : Bool} {p : String} :
    p ∈ removeDuplicates items lowercase ↔
      p ≠ "" ∧ ∃ x ∈ items, (if lowercase then toLower (trimSpace x) else trimSpace x) = p := by
  simp [removeDuplicates, List.mem_insertionSort, and_comm]

/-- With `default` added or not, `SanitizePolicies` gives the same other policies. -/
theorem sameNonDefault_sanitizePolicies (policies : List String) :
    SameNonDefault (some (sanitizePolicies policies true)) (some (sanitizePolicies policies false)) := by
  have hdefault : toLower (trimSpace "default") = "default" := by decide
  intro q hq
  simp only [Option.getD_some, sanitizePolicies, Bool.false_and, Bool.true_and]
  split_ifs <;> simp [mem_removeDuplicates, hdefault, Ne.symm hq]

theorem equivalentPolicies_spec :
    (∀ a b, equivalentPolicies a b = true ↔
      SameNonDefault a b ∧ (a.isNone = b.isNone ∨ a = some ["default"] ∨ b = some ["default"])) ∧
    (∀ a, equivalentPolicies a a = true) ∧
    (∀ a b, equivalentPolicies a b = equivalentPolicies b a) ∧
    ∀ policies, equivalentPolicies (some (sanitizePolicies policies true))
      (some (sanitizePolicies policies false)) = true := by
  refine ⟨equivalentPolicies_eq_true_iff, fun a => ?_, fun a b => ?_, fun policies => ?_⟩
  · exact (equivalentPolicies_eq_true_iff a a).mpr ⟨fun _ _ => Iff.rfl, .inl rfl⟩
  · -- both sides are characterised by a symmetric condition
    apply Bool.eq_iff_iff.mpr
    rw [equivalentPolicies_eq_true_iff, equivalentPolicies_eq_true_iff]
    constructor
    · rintro ⟨hsame, h⟩
      exact ⟨fun p hp => (hsame p hp).symm, by tauto⟩
    · rintro ⟨hsame, h⟩
      exact ⟨fun p hp => (hsame p hp).symm, by tauto⟩
  · exact (equivalentPolicies_eq_true_iff _ _).mpr
      ⟨sameNonDefault_sanitizePolicies policies, .inl rfl⟩

/-- Nil matches `["default"]`, which matches the empty list, which nil does not match. -/
example : equivalentPolicies none (some ["default"]) = true ∧
    equivalentPolicies (some ["default"]) (some []) = true ∧
    equivalentPolicies none (some []) = false := by
  decide

@[simp] theorem strListContains_iff {l : List String} {x : String} :
    strListContains l x = true ↔ x ∈ l := by
  simp [strListContains]

@[simp] theorem strListSubset_iff {sup sub : List String} :
    strListSubset sup sub = true ↔ ∀ x ∈ sub, x ∈ sup := by
  simp [strListSubset]

theorem mem_of_mem_strListDelete {s : List String} {d x : String} (h : x ∈ strListDelete s d) :
    x ∈ s :=
  List.mem_of_mem_erase h

/-! ### What `SanitizePolicies` keeps -/

/-- The slice after the call holds the same policies, trimmed and lowercased. -/
theorem map_sanitizeInPlace (ps : List String) :
    (sanitizeInPlace ps).map (fun p => toLower (trimSpace p)) =
      ps.map fun p => toLower (trimSpace p) := by
  induction ps with
  | nil => rfl
  | cons p ps ih =>
    simp only [sanitizeInPlace]
    split <;> simp [ih]

/-- Sanitizing the slice a first call left gives what the first call gave. -/
theorem sanitizePolicies_sanitizeInPlace (ps : List String) (addDefault : Bool) :
    sanitizePolicies (sanitizeInPlace ps) addDefault = sanitizePolicies ps addDefault := by
  simp only [sanitizePolicies, map_sanitizeInPlace]

/-- Each policy of the slice after the call is one of the slice's policies, up to trimming and
lowercasing. -/
theorem exists_of_mem_sanitizeInPlace {ps : List String} {q : String}
    (h : q ∈ sanitizeInPlace ps) : ∃ p ∈ ps, toLower (trimSpace p) = toLower (trimSpace q) := by
  have hq : toLower (trimSpace q) ∈ (sanitizeInPlace ps).map fun p => toLower (trimSpace p) :=
    List.mem_map_of_mem h
  rw [map_sanitizeInPlace, List.mem_map] at hq
  exact hq

/-- A policy `SanitizePolicies` gives is trimmed and lowercased. -/
theorem normal_of_mem_sanitizePolicies {ps : List String} {addDefault : Bool} {q : String}
    (h : q ∈ sanitizePolicies ps addDefault) : toLower (trimSpace q) = q := by
  obtain ⟨-, x, -, hx⟩ := mem_removeDuplicates.mp h
  simp only [if_true] at hx
  rw [← hx, toLower_trimSpace_idem]

/-- A `root` policy replaces all others. -/
theorem sanitizePolicies_of_root {ps : List String} {addDefault : Bool}
    (h : ∃ p ∈ ps, toLower (trimSpace p) = "root") : sanitizePolicies ps addDefault = ["root"] := by
  have hroot : "root" ∈ ps.map fun p => toLower (trimSpace p) := List.mem_map.mpr h
  have hsingle : removeDuplicates ["root"] true = ["root"] := by decide
  simp [sanitizePolicies, hroot, hsingle]

/-- Without `root`, the policies are the slice's, trimmed, lowercased and not empty, and
`default` when asked for. -/
theorem mem_sanitizePolicies_of_not_root {ps : List String} {addDefault : Bool} {q : String}
    (h : ¬ ∃ p ∈ ps, toLower (trimSpace p) = "root") :
    q ∈ sanitizePolicies ps addDefault ↔
      q ≠ "" ∧ ((∃ p ∈ ps, toLower (trimSpace p) = q) ∨ addDefault = true ∧ q = "default") := by
  have hroot : "root" ∉ ps.map fun p => toLower (trimSpace p) := by
    simpa only [List.mem_map] using h
  have hdefault : toLower (trimSpace "default") = "default" := by decide
  -- the list before `RemoveDuplicates`: the slice's policies, and `default` when asked for
  have hlist : ∀ (L : List String) (x : String),
      x ∈ (if (addDefault && (L.length == 0 || !decide ("default" ∈ L))) = true then
        L ++ ["default"] else L) ↔ x ∈ L ∨ addDefault = true ∧ x = "default" := by
    intro L x
    split
    · next hadd =>
      simp only [Bool.and_eq_true] at hadd
      simp [hadd.1]
    · next hadd =>
      cases addDefault
      · simp
      · by_cases hx : x = "default"
        · subst hx
          simp at hadd
          simp [hadd.2]
        · simp [hx]
  simp only [sanitizePolicies, hroot, if_false, false_or, mem_removeDuplicates, hlist]
  simp only [ite_true, List.mem_map]
  constructor
  · rintro ⟨hq, x, (⟨p, hp, rfl⟩ | ⟨hadd, rfl⟩), rfl⟩
    · exact ⟨hq, .inl ⟨p, hp, (toLower_trimSpace_idem p).symm⟩⟩
    · exact ⟨hq, .inr ⟨hadd, hdefault⟩⟩
  · rintro ⟨hq, (⟨p, hp, rfl⟩ | ⟨hadd, rfl⟩)⟩
    · exact ⟨hq, _, .inl ⟨p, hp, rfl⟩, toLower_trimSpace_idem p⟩
    · exact ⟨hq, "default", .inr ⟨hadd, rfl⟩, hdefault⟩

/-- Of normal policies, `SanitizePolicies` keeps some and adds none. -/
theorem mem_of_mem_sanitizePolicies {xs : List String} {q : String}
    (hx : ∀ x ∈ xs, toLower (trimSpace x) = x) (h : q ∈ sanitizePolicies xs false) : q ∈ xs := by
  by_cases hroot : ∃ p ∈ xs, toLower (trimSpace p) = "root"
  · rw [sanitizePolicies_of_root hroot, List.mem_singleton] at h
    obtain ⟨p, hp, hpr⟩ := hroot
    rw [hx p hp] at hpr
    rwa [h, ← hpr]
  · have hmem := (@mem_sanitizePolicies_of_not_root xs false q hroot).mp h
    obtain ⟨-, ⟨p, hp, hpq⟩ | ⟨hf, -⟩⟩ := hmem
    · rw [← hpq, hx p hp]
      exact hp
    · exact absurd hf Bool.false_ne_true

/-- Asking for `default` adds at most `default`. -/
theorem mem_sanitizePolicies_false_or {ps : List String} {addDefault : Bool} {q : String}
    (h : q ∈ sanitizePolicies ps addDefault) :
    q ∈ sanitizePolicies ps false ∨ addDefault = true ∧ q = "default" := by
  by_cases hroot : ∃ p ∈ ps, toLower (trimSpace p) = "root"
  · rw [sanitizePolicies_of_root hroot] at h ⊢
    exact .inl h
  · rw [mem_sanitizePolicies_of_not_root hroot] at h
    rw [mem_sanitizePolicies_of_not_root hroot]
    obtain ⟨hne, hp | hd⟩ := h
    · exact .inl ⟨hne, .inl hp⟩
    · exact .inr hd

/-- Asking for `default` takes no policy away. -/
theorem mem_sanitizePolicies_true {ps : List String} {addDefault : Bool} {q : String}
    (h : q ∈ sanitizePolicies ps addDefault) : q ∈ sanitizePolicies ps true := by
  by_cases hroot : ∃ p ∈ ps, toLower (trimSpace p) = "root"
  · rwa [sanitizePolicies_of_root hroot] at h ⊢
  · rw [mem_sanitizePolicies_of_not_root hroot] at h ⊢
    obtain ⟨hne, hp | ⟨-, hd⟩⟩ := h
    · exact ⟨hne, .inl hp⟩
    · exact ⟨hne, .inr ⟨rfl, hd⟩⟩

end Vault.Helper
