import Vault.Token.Store
import Vault.Lib.Collections

/-!
# Revoking a token tree

`revokeTreeInternal` revokes a token and every token below it in the parent index, whose keys
`<parent salted ID>/<child>` are written by `storeCommon` before the child's own entry. It walks
the index depth first on an explicit stack: the top ID is marked seen and its children listed;
children already seen lose their index entry, the others are pushed; a top with no children
left is revoked by `revokeInternal` and popped, and the walk ends when the last ID, the root, is
revoked.

The index is any finite set of keys, cycles, self-loops, children under several parents and
children without a token entry included. For salted IDs (they hold no `.`, so
`SplitIDFromString` cuts no namespace off them) and token entries of this repository's only
namespace, the walk ends within `revokeBound` turns, revokes every ID reachable from the root
through the index, leaves no index entry under any of them, and revokes a child before its
parent unless the child reaches the parent again (`revokeTreeInternal_revokes_reachable`).

The invariant (`LoopInv`) says what the stack is: an ID seen and not yet finished still stands
on it, with only IDs it reaches above it; a seen ID's children left in the index are seen or
above it; and every index entry gone points at a seen ID. Termination counts the names of the
index not yet seen, since only an unseen top pushes: a seen top's children are all seen.

`revokeInternal` is modelled with `skipOrphan = true`, as the walk calls it, and with what it
does to this storage: it marks the entry's revocation pending, deletes the entry's own parent
index entry and, through its deferred function, the entry. The cubbyhole, the leases, the
accessor index and `tokensPendingDeletion` (always empty between calls when no revocation runs
beside this one) lie outside it. `SaltID` is a function of the namespace and the ID, and the
storage does not fail.
-/

namespace Vault.Token

open GoRuntime GoStrings Relation

/-! ## The model -/

/-- The part of the token store the revocation walks: `parentView(ns)`, each key
`<parent salted ID>/<child>` as the namespace ID, the parent's salted ID and the child, and
`idView(ns)`, the token entry under each namespace ID and salted ID. -/
structure TreeStore (Addr : Type) where
  parents : Finset (String × String × String)
  tokens : String × String → Option (TokenEntry Addr)

namespace TreeStore

variable {Addr : Type}

/-- `parentView(ns).List(saltedID + "/")`: the children under a salted ID, in key order. -/
def list (s : TreeStore Addr) (ns saltedID : String) : List String :=
  ((s.parents.filter fun k => k.1 = ns ∧ k.2.1 = saltedID).image fun k => k.2.2).sort

/-- `parentView(ns).Delete(key)`. -/
def deleteParent (s : TreeStore Addr) (k : String × String × String) : TreeStore Addr :=
  { s with parents := s.parents.erase k }

/-- `idView(ns).Delete(saltedID)`. -/
def deleteToken (s : TreeStore Addr) (ns saltedID : String) : TreeStore Addr :=
  { s with tokens := Function.update s.tokens (ns, saltedID) none }

end TreeStore

variable {Addr : Type}

/-- `ts.store(ctx, entry)`: `storeCommon` without the secondary index, the entry under its
salted ID in its namespace. -/
def storeEntry (saltID : String → String → String) (s : TreeStore Addr) (entry : TokenEntry Addr) :
    Go (TreeStore Addr) := do
  let tokenNS ← someOr "no namespace" (namespaceByID entry.namespaceID)
  pure { s with tokens := Function.update s.tokens (tokenNS, saltID tokenNS entry.id) (some entry) }

/-- The entry's `NumUses` set to `tokenRevocationPending` and stored, unless it is already. -/
def markRevocationPending (saltID : String → String → String) (s : TreeStore Addr)
    (entry : TokenEntry Addr) : Go (TreeStore Addr) :=
  if entry.numUses ≠ tokenRevocationPending then
    storeEntry saltID s { entry with numUses := tokenRevocationPending }
  else pure s

/-- The namespace of the parent's index entry: the token's own when `SplitIDFromString` cuts
the same namespace ID off the parent, the root one when it cuts none, else `NamespaceByID`. -/
def parentNamespace (tokenNS parentNSID : String) : Go String :=
  if parentNSID ≠ tokenNS then
    if parentNSID = "" then pure rootNamespaceID
    else someOr "no namespace"
      (wrapError "failed to get parent namespace: " (namespaceByID parentNSID))
  else pure tokenNS

/-- Clear the secondary index if any: the key `<parent salted ID>/<salted ID>`, with
`.<namespace ID>` outside the root namespace, in the parent's namespace. -/
def clearParentIndex (saltID : String → String → String) (s : TreeStore Addr)
    (tokenNS saltedID parent : String) : Go (TreeStore Addr) :=
  if parent ≠ "" then do
    let parentNS ← parentNamespace tokenNS (splitIDFromString parent).2
    let parentSaltedID := saltID parentNS parent
    let child := if tokenNS ≠ rootNamespaceID then saltedID ++ "." ++ tokenNS else saltedID
    pure (s.deleteParent (parentNS, parentSaltedID, child))
  else pure s

/-- `revokeInternal(ctx, saltedID, true)` on this storage: nothing for an ID without an entry;
else the entry marked pending, its parent index entry cleared and, by the deferred function
once everything else returned nil, the entry deleted. -/
def revokeInternal (saltID : String → String → String) (s : TreeStore Addr)
    (ns saltedID : String) : Go (TreeStore Addr) :=
  match s.tokens (ns, saltedID) with
  | none => pure s
  | some entry => do
    let s ← markRevocationPending saltID s entry
    let tokenNS ← someOr "no namespace" (namespaceByID entry.namespaceID)
    let s ← clearParentIndex saltID s tokenNS saltedID entry.parent
    pure (s.deleteToken tokenNS saltedID)

/-- The namespace of a listed ID: the tree's, or the one `SplitIDFromString` cut off it. A nil
namespace with a nil error would be dereferenced by `parentView`. -/
def saltedNamespace (ns saltedNSID : String) : Go String :=
  if saltedNSID ≠ "" then
    match wrapError "failed to find namespace for token revocation: " (namespaceByID saltedNSID)
    with
    | .error e => .error e
    | .ok none => .error (.panic "invalid memory address or nil pointer dereference")
    | .ok (some saltedNS) => pure saltedNS
  else pure ns

/-- The loop over the listed children: the ones not seen, in order, and the index without the
entries of the seen ones. -/
def filterChildren (seenIDs : Finset String) (saltedNS saltedID : String) (childrenRaw : List String)
    (s : TreeStore Addr) : List String × TreeStore Addr :=
  childrenRaw.foldl (fun (children, s) child =>
    if child ∉ seenIDs then (children ++ [child], s)
    else (children, s.deleteParent (saltedNS, saltedID, child))) ([], s)

/-- The loop of `revokeTreeInternal`, at most `fuel` turns (`none` when they run out), with the
stack `dfs`, the seen IDs, the storage and, in order, the namespaces and salted IDs on which
`revokeInternal` was called. -/
def revokeTreeLoop (saltID : String → String → String) (ns : String) :
    ℕ → List String → Finset String → TreeStore Addr → List (String × String) →
      Option (Go (TreeStore Addr × List (String × String)))
  | 0, _, _, _, _ => none
  | fuel + 1, dfs, seenIDs, s, calls =>
    match dfs.getLast? with
    | none => some (.ok (s, calls))
    | some id =>
      let seenIDs := insert id seenIDs
      let (saltedID, saltedNSID) := splitIDFromString id
      match saltedNamespace ns saltedNSID with
      | .error e => some (.error e)
      | .ok saltedNS =>
        let (children, s) := filterChildren seenIDs saltedNS saltedID (s.list saltedNS saltedID) s
        -- no child left: a leaf, revoked and popped; the last one ends the walk
        if children.length = 0 then
          match wrapError "failed to revoke entry: " (revokeInternal saltID s saltedNS saltedID) with
          | .error e => some (.error e)
          | .ok s =>
            let calls := calls ++ [(saltedNS, saltedID)]
            if dfs.length = 1 then some (.ok (s, calls))
            else revokeTreeLoop saltID ns fuel dfs.dropLast seenIDs s calls
        else revokeTreeLoop saltID ns fuel (dfs ++ children) seenIDs s calls

/-- `revokeTreeInternal(ctx, id)` in the context's namespace `ctxNS`, with at most `fuel` turns of
its loop: the namespace of the token's entry, or the context's when it has none, then the walk
from `id`. -/
def revokeTreeInternal (saltID : String → String → String) (ctxNS : String) (fuel : ℕ)
    (s : TreeStore Addr) (id : String) : Option (Go (TreeStore Addr × List (String × String))) :=
  let ns : Go (Option String) :=
    match s.tokens (ctxNS, id) with
    | none => pure (some ctxNS)
    | some te => namespaceByID te.namespaceID
  match ns with
  | .error e => some (.error e)
  | .ok none => some (.error (.error "failed to find namespace for token revocation"))
  | .ok (some ns) => revokeTreeLoop saltID ns fuel [id] ∅ s []

/-! ## One turn of the walk -/

/-- A salted ID holds no `.`, so `SplitIDFromString` leaves it whole. -/
theorem splitIDFromString_of_not_mem_dot {x : String} (hdot : '.' ∉ x.toList) :
    splitIDFromString x = (x, "") :=
  splitIDFromString_root (.custom x hdot) fun _ h => hdot (List.mem_of_mem_drop h)

namespace TreeStore

variable (s : TreeStore Addr)

@[simp] theorem mem_list {ns x c : String} : c ∈ s.list ns x ↔ (ns, x, c) ∈ s.parents := by
  simp [list, and_assoc]

theorem length_list_le (ns x : String) : (s.list ns x).length ≤ s.parents.card := by
  rw [list, Finset.length_sort]
  exact Finset.card_image_le.trans (Finset.card_filter_le _ _)

@[simp] theorem deleteParent_parents (k : String × String × String) :
    (s.deleteParent k).parents = s.parents.erase k := rfl

@[simp] theorem deleteParent_tokens (k : String × String × String) :
    (s.deleteParent k).tokens = s.tokens := rfl

@[simp] theorem deleteToken_parents (ns x : String) : (s.deleteToken ns x).parents = s.parents :=
  rfl

end TreeStore

/-- The children loop from any accumulator: the unseen children appended, and the index
without the keys of the seen ones under the listed ID. -/
theorem foldl_filterChildren (seenIDs : Finset String) (ns x : String) (raw : List String) :
    ∀ (acc : List String) (s : TreeStore Addr), ∃ s',
      raw.foldl (fun (children, s) child =>
          if child ∉ seenIDs then (children ++ [child], s)
          else (children, s.deleteParent (ns, x, child))) (acc, s) =
        (acc ++ raw.filter (· ∉ seenIDs), s') ∧ s'.tokens = s.tokens ∧
      ∀ k, k ∈ s'.parents ↔
        k ∈ s.parents ∧ ¬(k.1 = ns ∧ k.2.1 = x ∧ k.2.2 ∈ raw ∧ k.2.2 ∈ seenIDs) := by
  induction raw with
  | nil => intro acc s; exact ⟨s, by simp, rfl, by simp⟩
  | cons c raw ih =>
    intro acc s
    rw [List.foldl_cons]
    by_cases hc : c ∈ seenIDs
    · -- the key of `c` goes now, the others with the rest of the list
      obtain ⟨s', hfold, htok, hmem⟩ := ih acc (s.deleteParent (ns, x, c))
      refine ⟨s', by simpa [hc] using hfold, htok, fun k => ?_⟩
      rw [hmem, TreeStore.deleteParent_parents, Finset.mem_erase]
      obtain ⟨a, b, d⟩ := k
      grind
    · obtain ⟨s', hfold, htok, hmem⟩ := ih (acc ++ [c]) s
      refine ⟨s', by simpa [hc, List.filter_cons] using hfold, htok, fun k => ?_⟩
      rw [hmem]
      obtain ⟨a, b, d⟩ := k
      grind

theorem filterChildren_spec (seenIDs : Finset String) (ns x : String) (raw : List String)
    (s : TreeStore Addr) : ∃ s', filterChildren seenIDs ns x raw s =
      (raw.filter (· ∉ seenIDs), s') ∧ s'.tokens = s.tokens ∧
      ∀ k, k ∈ s'.parents ↔
        k ∈ s.parents ∧ ¬(k.1 = ns ∧ k.2.1 = x ∧ k.2.2 ∈ raw ∧ k.2.2 ∈ seenIDs) :=
  foldl_filterChildren seenIDs ns x raw [] s

/-! ## `revokeInternal` on entries of the root namespace -/

/-- A token entry of this repository's only namespace, whose parent `SplitIDFromString` gives
no other. -/
def RootEntry (e : TokenEntry Addr) : Prop :=
  e.namespaceID = rootNamespaceID ∧
    ((splitIDFromString e.parent).2 = "" ∨ (splitIDFromString e.parent).2 = rootNamespaceID)

/-- Every token entry of the storage is one of the root namespace. -/
def EntriesRoot (s : TreeStore Addr) : Prop := ∀ k e, s.tokens k = some e → RootEntry e

section RootNamespace

variable (saltID : String → String → String) {s : TreeStore Addr}

theorem someOr_namespaceByID_root :
    someOr "no namespace" (namespaceByID rootNamespaceID) = .ok rootNamespaceID := rfl

theorem markRevocationPending_ok {e : TokenEntry Addr} (he : RootEntry e) (hs : EntriesRoot s) :
    ∃ s', markRevocationPending saltID s e = .ok s' ∧ s'.parents = s.parents ∧ EntriesRoot s' := by
  unfold markRevocationPending
  split
  · refine ⟨{ s with
        tokens := Function.update s.tokens (rootNamespaceID, saltID rootNamespaceID e.id)
          (some { e with numUses := tokenRevocationPending }) },
      by rw [storeEntry, he.1, someOr_namespaceByID_root]; rfl, rfl, ?_⟩
    -- the entry stored again keeps its namespace and its parent
    intro k e' hk
    simp only [Function.update_apply] at hk
    split at hk
    · cases hk
      exact he
    · exact hs k e' hk
  · exact ⟨s, rfl, rfl, hs⟩

theorem parentNamespace_root {p : String} (hp : p = "" ∨ p = rootNamespaceID) :
    parentNamespace rootNamespaceID p = .ok rootNamespaceID := by
  rcases hp with rfl | rfl <;> rfl

/-- Clearing the parent index entry of a root token deletes at most one key, one that points
at the token. -/
theorem clearParentIndex_ok {x parent : String}
    (hp : (splitIDFromString parent).2 = "" ∨ (splitIDFromString parent).2 = rootNamespaceID) :
    ∃ s', clearParentIndex saltID s rootNamespaceID x parent = .ok s' ∧ s'.tokens = s.tokens ∧
      s'.parents ⊆ s.parents ∧ ∀ k ∈ s.parents, k ∉ s'.parents → k.2.2 = x := by
  unfold clearParentIndex
  split
  · refine ⟨s.deleteParent (rootNamespaceID, saltID rootNamespaceID parent, x), ?_, rfl,
      Finset.erase_subset _ _, fun k hk hk' => ?_⟩
    · simp [parentNamespace_root hp]
    · have hkx : k = (rootNamespaceID, saltID rootNamespaceID parent, x) := by
        by_contra hne
        exact hk' (Finset.mem_erase.mpr ⟨hne, hk⟩)
      rw [hkx]
  · exact ⟨s, rfl, rfl, subset_rfl, fun k hk hk' => absurd hk hk'⟩

/-- `revokeInternal` on a storage of root entries returns, deletes at most the index keys that
point at the revoked ID, and leaves root entries. -/
theorem revokeInternal_ok (hs : EntriesRoot s) (ns x : String) :
    ∃ s', revokeInternal saltID s ns x = .ok s' ∧ EntriesRoot s' ∧ s'.parents ⊆ s.parents ∧
      ∀ k ∈ s.parents, k ∉ s'.parents → k.2.2 = x := by
  unfold revokeInternal
  cases hx : s.tokens (ns, x) with
  | none => exact ⟨s, rfl, hs, subset_rfl, fun k hk hk' => absurd hk hk'⟩
  | some entry =>
    have he : RootEntry entry := hs _ _ hx
    obtain ⟨s₁, hmark, hpar₁, hroot₁⟩ := markRevocationPending_ok saltID he hs
    obtain ⟨s₂, hclear, htok₂, hsub₂, hdel₂⟩ := clearParentIndex_ok saltID (s := s₁) (x := x) he.2
    refine ⟨s₂.deleteToken rootNamespaceID x, ?_, ?_, ?_, ?_⟩
    · simp only [hmark, he.1, someOr_namespaceByID_root, hclear, ok_bind]
      rfl
    · -- the deferred delete only removes an entry
      intro k e hk
      simp only [TreeStore.deleteToken, Function.update_apply] at hk
      split at hk
      · cases hk
      · exact hroot₁ k e (htok₂ ▸ hk)
    · exact hpar₁ ▸ hsub₂
    · intro k hk hk'
      exact hdel₂ k (hpar₁ ▸ hk) hk'

end RootNamespace

/-! ## The turns of the loop -/

section Turns

variable (saltID : String → String → String) (ns : String)

/-- The listed ID's index after the children loop: the keys under it of seen children gone. -/
def Pruned (t : String) (seenIDs : Finset String) (s s₁ : TreeStore Addr) : Prop :=
  s₁.tokens = s.tokens ∧
    ∀ k, k ∈ s₁.parents ↔ k ∈ s.parents ∧ ¬(k.1 = ns ∧ k.2.1 = t ∧ k.2.2 ∈ seenIDs)

theorem filterChildren_list (seenIDs : Finset String) (t : String) (s : TreeStore Addr) :
    ∃ s₁, filterChildren seenIDs ns t (s.list ns t) s =
      ((s.list ns t).filter (· ∉ seenIDs), s₁) ∧ Pruned ns t seenIDs s s₁ := by
  obtain ⟨s₁, hf, htok, hmem⟩ := filterChildren_spec seenIDs ns t (s.list ns t) s
  refine ⟨s₁, hf, htok, fun k => ?_⟩
  rw [hmem]
  obtain ⟨a, b, d⟩ := k
  constructor
  · rintro ⟨hk, hnot⟩
    exact ⟨hk, fun ⟨ha, hb, hd⟩ => hnot ⟨ha, hb, (by simp [← ha, ← hb, hk]), hd⟩⟩
  · rintro ⟨hk, hnot⟩
    exact ⟨hk, fun ⟨ha, hb, _, hd⟩ => hnot ⟨ha, hb, hd⟩⟩

@[simp] theorem saltedNamespace_empty : saltedNamespace ns "" = .ok ns := rfl

variable {fuel : ℕ} {dfs children : List String} {seenIDs : Finset String}
  {s s₁ : TreeStore Addr} {calls : List (String × String)} {t : String}

/-- A turn whose top has unseen children pushes them. -/
theorem revokeTreeLoop_push (hlast : dfs.getLast? = some t) (ht : '.' ∉ t.toList)
    (hf : filterChildren (insert t seenIDs) ns t (s.list ns t) s = (children, s₁))
    (hne : children ≠ []) :
    revokeTreeLoop saltID ns (fuel + 1) dfs seenIDs s calls =
      revokeTreeLoop saltID ns fuel (dfs ++ children) (insert t seenIDs) s₁ calls := by
  simp [revokeTreeLoop, hlast, splitIDFromString_of_not_mem_dot ht, hf, hne]

/-- A turn whose top has no unseen child revokes it, then stops or pops it. -/
theorem revokeTreeLoop_leaf (hlast : dfs.getLast? = some t) (ht : '.' ∉ t.toList)
    (hf : filterChildren (insert t seenIDs) ns t (s.list ns t) s = ([], s₁)) {s₂ : TreeStore Addr}
    (hrev : revokeInternal saltID s₁ ns t = .ok s₂) :
    revokeTreeLoop saltID ns (fuel + 1) dfs seenIDs s calls =
      if dfs.length = 1 then some (.ok (s₂, calls ++ [(ns, t)]))
      else revokeTreeLoop saltID ns fuel dfs.dropLast (insert t seenIDs) s₂ (calls ++ [(ns, t)]) := by
  simp [revokeTreeLoop, hlast, splitIDFromString_of_not_mem_dot ht, hf, hrev, wrapError]

end Turns

/-! ## The invariant of the walk -/

section Walk

variable (ns : String) (s₀ : TreeStore Addr) (r : String)

/-- `y` is listed under `x` in the index of namespace `ns`. -/
def Child (s : TreeStore Addr) (x y : String) : Prop := (ns, x, y) ∈ s.parents

/-- The IDs the walk can meet: the root and the children of the index. -/
def names : Finset String := insert r (s₀.parents.image fun k => k.2.2)

/-- A bound on the turns of the walk: each name is pushed from at most one turn, with at most
all the index's keys, and popped once. -/
def revokeBound : ℕ := (names s₀ r).card * (s₀.parents.card + 1) + 1

/-- What is left of the bound: the unseen names, each worth a turn that pushes, and the
stack. -/
def loopMeasure (dfs : List String) (seenIDs : Finset String) : ℕ :=
  (names s₀ r \ seenIDs).card * (s₀.parents.card + 1) + dfs.length

/-- `x` is finished: revoked, and nothing is listed under it any more. -/
def Finished (s : TreeStore Addr) (calls : List (String × String)) (x : String) : Prop :=
  (ns, x) ∈ calls ∧ ∀ c, (ns, x, c) ∉ s.parents

/-- In the calls, `a` comes before the first `b`. -/
def CalledBefore (calls : List (String × String)) (a b : String × String) : Prop :=
  ∃ l₁ l₂, calls = l₁ ++ b :: l₂ ∧ b ∉ l₁ ∧ a ∈ l₁

/-- The invariant of `revokeTreeLoop` from the storage `s₀` and the root `r`. -/
structure LoopInv (dfs : List String) (seenIDs : Finset String) (s : TreeStore Addr)
    (calls : List (String × String)) : Prop where
  entries : EntriesRoot s
  parents_sub : s.parents ⊆ s₀.parents
  /-- The root stays at the bottom of the stack. -/
  bottom : dfs = [] ∨ dfs.head? = some r
  dfs_names : ∀ x ∈ dfs, x ∈ names s₀ r
  seen_names : seenIDs ⊆ names s₀ r
  /-- A seen entry's children left in the index are seen or stand above it. -/
  above : ∀ A x B, dfs = A ++ x :: B → x ∈ seenIDs → ∀ c, (ns, x, c) ∈ s.parents →
    c ∈ seenIDs ∨ c ∈ B
  finished : ∀ x ∈ seenIDs, x ∉ dfs → Finished ns s calls x
  /-- Every key gone from the index points at a seen ID. -/
  deleted : ∀ k ∈ s₀.parents, k ∉ s.parents → k.2.2 ∈ seenIDs
  /-- A seen ID not finished stands on the stack, below IDs it reaches only. -/
  waiting : ∀ c ∈ seenIDs, ¬Finished ns s calls c →
    ∃ A B, dfs = A ++ c :: B ∧ ∀ y ∈ B, ReflTransGen (Child ns s₀) c y
  order : ∀ x y, (ns, x) ∈ calls → Child ns s₀ x y → ¬ReflTransGen (Child ns s₀) y x →
    CalledBefore calls (ns, y) (ns, x)

variable {ns s₀ r}

theorem Finished.mono {s s' : TreeStore Addr} {calls calls' : List (String × String)} {x : String}
    (h : Finished ns s calls x) (hs : s'.parents ⊆ s.parents) (hc : ∀ a ∈ calls, a ∈ calls') :
    Finished ns s' calls' x :=
  ⟨hc _ h.1, fun c hk => h.2 c (hs hk)⟩

theorem CalledBefore.append {calls : List (String × String)} {a b : String × String}
    (h : CalledBefore calls a b) (l : List (String × String)) : CalledBefore (calls ++ l) a b := by
  obtain ⟨l₁, l₂, rfl, hb, ha⟩ := h
  exact ⟨l₁, l₂ ++ l, by simp, hb, ha⟩

theorem LoopInv.init (hs₀ : EntriesRoot s₀) : LoopInv ns s₀ r [r] ∅ s₀ [] where
  entries := hs₀
  parents_sub := subset_rfl
  bottom := .inr rfl
  dfs_names x hx := by
    rw [List.mem_singleton.mp hx]
    exact Finset.mem_insert_self r _
  seen_names := Finset.empty_subset _
  above _ _ _ _ hx := absurd hx (Finset.notMem_empty _)
  finished _ hx := absurd hx (Finset.notMem_empty _)
  deleted _ _ hk' := absurd ‹_› hk'
  waiting _ hx := absurd hx (Finset.notMem_empty _)
  order _ _ hx := absurd hx List.not_mem_nil

section Step

variable {dfs P : List String} {seenIDs : Finset String} {s s₁ : TreeStore Addr}
  {calls : List (String × String)} {t : String}

/-- A child listed under the top in the index left by the children loop is not seen. -/
theorem Pruned.mem_iff (hpr : Pruned ns t (insert t seenIDs) s s₁) {x c : String} :
    (ns, x, c) ∈ s₁.parents ↔ (ns, x, c) ∈ s.parents ∧ (x = t → c ∉ insert t seenIDs) := by
  rw [hpr.2]
  simp

theorem Pruned.subset (hpr : Pruned ns t (insert t seenIDs) s s₁) : s₁.parents ⊆ s.parents :=
  fun k hk => ((hpr.2 k).mp hk).1

/-- A key gone in the children loop points at a seen ID. -/
theorem Pruned.gone (hpr : Pruned ns t (insert t seenIDs) s s₁) {k : String × String × String}
    (hk : k ∈ s.parents) (hk' : k ∉ s₁.parents) : k.2.2 ∈ insert t seenIDs := by
  by_contra hnot
  exact hk' ((hpr.2 k).mpr ⟨hk, fun h => hnot h.2.2⟩)

/-- A turn that pushes the unseen children of the top keeps the invariant. -/
theorem LoopInv.push (I : LoopInv ns s₀ r dfs seenIDs s calls) (hdfs : dfs = P ++ [t])
    (hpr : Pruned ns t (insert t seenIDs) s s₁) :
    LoopInv ns s₀ r (dfs ++ (s.list ns t).filter (· ∉ insert t seenIDs)) (insert t seenIDs) s₁
      calls := by
  set children := (s.list ns t).filter (· ∉ insert t seenIDs) with hchildren
  have hchild : ∀ y ∈ children, (ns, t, y) ∈ s.parents ∧ y ∉ insert t seenIDs := by
    intro y hy
    simpa [hchildren] using hy
  have ht : t ∈ dfs := hdfs ▸ List.mem_append_right P (List.mem_singleton_self t)
  constructor
  · exact fun k e h => I.entries k e (hpr.1 ▸ h)
  · exact hpr.subset.trans I.parents_sub
  · rcases I.bottom with h | h
    · exact absurd (h ▸ ht) List.not_mem_nil
    · exact .inr (by rw [List.head?_append, h]; rfl)
  · intro x hx
    rcases List.mem_append.mp hx with hx | hx
    · exact I.dfs_names x hx
    · exact Finset.mem_insert_of_mem
        (Finset.mem_image.mpr ⟨_, I.parents_sub (hchild x hx).1, rfl⟩)
  · exact Finset.insert_subset (I.dfs_names t ht) I.seen_names
  · intro A x B hsplit hx c hc
    rw [hdfs, List.append_eq_append_iff] at hsplit
    rcases hsplit with ⟨a', -, hch⟩ | ⟨c', hP, hc'⟩
    · -- `x` would be a pushed child, and these are unseen
      exact absurd hx (hchild x (hch ▸ List.mem_append_right a' List.mem_cons_self)).2
    · cases c' with
      | nil =>
        rw [List.nil_append] at hc'
        exact absurd hx (hchild x (hc' ▸ List.mem_cons_self)).2
      | cons y c'' =>
        obtain ⟨rfl, rfl⟩ := List.cons_eq_cons.mp hc'
        have hc₀ := (hpr.mem_iff.mp hc)
        by_cases hxs : x ∈ seenIDs
        · rcases I.above A x c'' (by rw [hdfs, hP]) hxs c hc₀.1 with h | h
          · exact .inl (Finset.mem_insert_of_mem h)
          · exact .inr (List.mem_append_left _ h)
        · -- an unseen `x` is the top, whose children left are the pushed ones
          have hxt : x = t := by simpa [hxs] using hx
          exact .inr (List.mem_append_right _ (List.mem_filter.mpr
            ⟨(TreeStore.mem_list s).mpr (hxt ▸ hc₀.1), by simpa using hc₀.2 hxt⟩))
  · intro x hx hxdfs
    have hxt : x ≠ t := fun h => hxdfs (List.mem_append_left _ (h ▸ ht))
    have hxs : x ∈ seenIDs := (Finset.mem_insert.mp hx).resolve_left hxt
    exact (I.finished x hxs fun h => hxdfs (List.mem_append_left _ h)).mono hpr.subset
      fun _ h => h
  · intro k hk hk'
    by_cases hks : k ∈ s.parents
    · exact hpr.gone hks hk'
    · exact Finset.mem_insert_of_mem (I.deleted k hk hks)
  · intro c hc hfin
    by_cases hct : c = t
    · -- the top waits for the children it pushes
      subst hct
      refine ⟨P, children, by rw [hdfs]; simp, fun y hy => ?_⟩
      exact .single (I.parents_sub (hchild y hy).1)
    · have hcs : c ∈ seenIDs := (Finset.mem_insert.mp hc).resolve_left hct
      have hfin' : ¬Finished ns s calls c := fun h => hfin (h.mono hpr.subset fun _ h => h)
      obtain ⟨A, B, hsplit, hreach⟩ := I.waiting c hcs hfin'
      rcases Collections.append_cons_eq_append_singleton (hsplit ▸ hdfs) with
        ⟨-, hct', -⟩ | ⟨B', hB, -⟩
      · exact absurd hct' hct
      · -- the top stands above `c`, so `c` reaches the children pushed now
        have hreach_t : ReflTransGen (Child ns s₀) c t := hreach t (by simp [hB])
        refine ⟨A, B ++ children, by rw [hsplit]; simp, fun y hy => ?_⟩
        rcases List.mem_append.mp hy with hy | hy
        · exact hreach y hy
        · exact hreach_t.tail (I.parents_sub (hchild y hy).1)
  · exact I.order

/-- A turn that revokes the top, whose children are all seen, and pops it keeps the
invariant. -/
theorem LoopInv.leaf (I : LoopInv ns s₀ r dfs seenIDs s calls) (hdfs : dfs = P ++ [t])
    (hpr : Pruned ns t (insert t seenIDs) s s₁)
    (hleaf : ∀ c, (ns, t, c) ∈ s.parents → c ∈ insert t seenIDs) {s₂ : TreeStore Addr}
    (hs₂ : EntriesRoot s₂) (hsub₂ : s₂.parents ⊆ s₁.parents)
    (hdel₂ : ∀ k ∈ s₁.parents, k ∉ s₂.parents → k.2.2 = t) :
    LoopInv ns s₀ r P (insert t seenIDs) s₂ (calls ++ [(ns, t)]) := by
  have ht : t ∈ dfs := hdfs ▸ List.mem_append_right P (List.mem_singleton_self t)
  have hnone : ∀ c, (ns, t, c) ∉ s₂.parents := fun c hc =>
    (hpr.mem_iff.mp (hsub₂ hc)).2 rfl (hleaf c (hpr.mem_iff.mp (hsub₂ hc)).1)
  have hsub : s₂.parents ⊆ s.parents := hsub₂.trans hpr.subset
  have hcalls : ∀ a ∈ calls, a ∈ calls ++ [(ns, t)] := fun _ h => List.mem_append_left _ h
  have hfin_t : Finished ns s₂ (calls ++ [(ns, t)]) t := ⟨by simp, hnone⟩
  constructor
  · exact hs₂
  · exact hsub.trans I.parents_sub
  · rcases I.bottom with h | h
    · exact absurd (h ▸ ht) List.not_mem_nil
    · rcases hhead : P.head? with _ | p
      · exact .inl (List.head?_eq_none_iff.mp hhead)
      · rw [hdfs, List.head?_append, hhead, Option.some_or] at h
        exact .inr h
  · exact fun x hx => I.dfs_names x (hdfs ▸ List.mem_append_left _ hx)
  · exact Finset.insert_subset (I.dfs_names t ht) I.seen_names
  · intro A x B hsplit hx c hc
    have hxt : x ≠ t := fun h => hnone c (h ▸ hc)
    have hxs : x ∈ seenIDs := (Finset.mem_insert.mp hx).resolve_left hxt
    rcases I.above A x (B ++ [t]) (by rw [hdfs, hsplit]; simp) hxs c (hsub hc) with h | h
    · exact .inl (Finset.mem_insert_of_mem h)
    · rcases List.mem_append.mp h with h | h
      · exact .inr h
      · exact .inl (List.mem_singleton.mp h ▸ Finset.mem_insert_self t seenIDs)
  · intro x hx hxP
    by_cases hxt : x = t
    · exact hxt ▸ hfin_t
    · have hxs : x ∈ seenIDs := (Finset.mem_insert.mp hx).resolve_left hxt
      have hxdfs : x ∉ dfs := by
        rw [hdfs]
        simp [hxP, hxt]
      exact (I.finished x hxs hxdfs).mono hsub hcalls
  · intro k hk hk'
    by_cases hk₁ : k ∈ s₁.parents
    · exact hdel₂ k hk₁ hk' ▸ Finset.mem_insert_self t seenIDs
    · by_cases hks : k ∈ s.parents
      · exact hpr.gone hks hk₁
      · exact Finset.mem_insert_of_mem (I.deleted k hk hks)
  · intro c hc hfin
    have hct : c ≠ t := fun h => hfin (h ▸ hfin_t)
    have hcs : c ∈ seenIDs := (Finset.mem_insert.mp hc).resolve_left hct
    obtain ⟨A, B, hsplit, hreach⟩ := I.waiting c hcs fun h => hfin (h.mono hsub hcalls)
    rcases Collections.append_cons_eq_append_singleton (hsplit ▸ hdfs) with
      ⟨-, hct', -⟩ | ⟨B', hB, hP⟩
    · exact absurd hct' hct
    · exact ⟨A, B', hP, fun y hy => hreach y (by simp [hB, hy])⟩
  · intro x y hx hxy hyx
    by_cases hxc : (ns, x) ∈ calls
    · exact (I.order x y hxc hxy hyx).append _
    · -- the first call on `t`: every child of `t` that does not reach it back was revoked
      have hxt : x = t := by simpa [hxc] using hx
      subst hxt
      refine ⟨calls, [], by simp, hxc, ?_⟩
      have hys : y ∈ insert x seenIDs := by
        by_cases hy : (ns, x, y) ∈ s.parents
        · exact hleaf y hy
        · exact Finset.mem_insert_of_mem (I.deleted _ hxy hy)
      have hyx' : y ≠ x := fun h => hyx (h ▸ .refl)
      have hyseen : y ∈ seenIDs := (Finset.mem_insert.mp hys).resolve_left hyx'
      by_contra hycall
      obtain ⟨A, B, hsplit, hreach⟩ := I.waiting y hyseen fun h => hycall h.1
      rcases Collections.append_cons_eq_append_singleton (hsplit ▸ hdfs) with
        ⟨-, hyt, -⟩ | ⟨B', hB, -⟩
      · exact hyx' hyt
      · exact hyx (hreach x (by simp [hB]))

end Step

end Walk

/-! ## The whole walk -/

section Run

variable (saltID : String → String → String) {ns : String} {s₀ : TreeStore Addr} {r : String}

/-- A name of the index is a salted ID when the root and every listed child are. -/
theorem not_mem_dot_of_names (hr : '.' ∉ r.toList)
    (hnames : ∀ k ∈ s₀.parents, '.' ∉ k.2.2.toList) {x : String} (hx : x ∈ names s₀ r) :
    '.' ∉ x.toList := by
  rcases Finset.mem_insert.mp hx with rfl | hx
  · exact hr
  · obtain ⟨k, hk, rfl⟩ := Finset.mem_image.mp hx
    exact hnames k hk

theorem loopMeasure_init : loopMeasure s₀ r [r] ∅ = revokeBound s₀ r := by
  simp [loopMeasure, revokeBound]

/-- A turn that pushes uses up the unseen top: the measure drops by more than it pushes. -/
theorem loopMeasure_push {dfs children : List String} {seenIDs : Finset String} {t : String}
    (ht : t ∈ names s₀ r) (hts : t ∉ seenIDs) (hlen : children.length ≤ s₀.parents.card) :
    loopMeasure s₀ r (dfs ++ children) (insert t seenIDs) < loopMeasure s₀ r dfs seenIDs := by
  have hcard : (names s₀ r \ insert t seenIDs).card + 1 = (names s₀ r \ seenIDs).card := by
    rw [Finset.sdiff_insert, Finset.card_erase_add_one (Finset.mem_sdiff.mpr ⟨ht, hts⟩)]
  unfold loopMeasure
  rw [← hcard, List.length_append]
  nlinarith

/-- A turn that pops shortens the stack and sees no fewer names. -/
theorem loopMeasure_pop {P : List String} {seenIDs : Finset String} {t : String} :
    loopMeasure s₀ r P (insert t seenIDs) < loopMeasure s₀ r (P ++ [t]) seenIDs := by
  have hcard : (names s₀ r \ insert t seenIDs).card ≤ (names s₀ r \ seenIDs).card :=
    Finset.card_le_card (Finset.sdiff_subset_sdiff subset_rfl (Finset.subset_insert t seenIDs))
  unfold loopMeasure
  rw [List.length_append, List.length_singleton]
  nlinarith

/-- The walk from a state of the invariant with more fuel than its measure returns, in a state
of the invariant with an empty stack and the root seen; by induction on the fuel, one turn at
a time. -/
theorem revokeTreeLoop_ok (hr : '.' ∉ r.toList) (hnames : ∀ k ∈ s₀.parents, '.' ∉ k.2.2.toList) :
    ∀ fuel dfs seenIDs (s : TreeStore Addr) calls, LoopInv ns s₀ r dfs seenIDs s calls →
      dfs ≠ [] → loopMeasure s₀ r dfs seenIDs < fuel →
      ∃ seen' s' calls', revokeTreeLoop saltID ns fuel dfs seenIDs s calls = some (.ok (s', calls')) ∧
        LoopInv ns s₀ r [] seen' s' calls' ∧ r ∈ seen' := by
  intro fuel
  induction fuel with
  | zero => intro _ _ _ _ _ _ hlt; exact absurd hlt (Nat.not_lt_zero _)
  | succ fuel ih =>
    intro dfs seenIDs s calls I hne hlt
    set t := dfs.getLast hne with hdef
    have hlast : dfs.getLast? = some t := List.getLast?_eq_some_getLast hne
    have hdfs : dfs = dfs.dropLast ++ [t] := (List.dropLast_concat_getLast hne).symm
    have htn : t ∈ names s₀ r := I.dfs_names t (List.getLast_mem hne)
    have ht : '.' ∉ t.toList := not_mem_dot_of_names hr hnames htn
    obtain ⟨s₁, hf, hpr⟩ := filterChildren_list ns (insert t seenIDs) t s
    by_cases hch : (s.list ns t).filter (· ∉ insert t seenIDs) = []
    · -- a leaf: revoked, then the walk ends or goes on below it
      have hleaf : ∀ c, (ns, t, c) ∈ s.parents → c ∈ insert t seenIDs := by
        intro c hc
        by_contra hcs
        have hmem : c ∈ (s.list ns t).filter (· ∉ insert t seenIDs) :=
          List.mem_filter.mpr ⟨(TreeStore.mem_list s).mpr hc, by simpa using hcs⟩
        exact List.not_mem_nil (hch ▸ hmem)
      obtain ⟨s₂, hrev, hs₂, hsub₂, hdel₂⟩ :=
        revokeInternal_ok saltID (s := s₁) (fun k e h => I.entries k e (hpr.1 ▸ h)) ns t
      rw [hch] at hf
      have I' := I.leaf hdfs hpr hleaf hs₂ hsub₂ hdel₂
      rw [revokeTreeLoop_leaf saltID ns hlast ht hf hrev]
      split
      · next hlen =>
        have hP : dfs.dropLast = [] := by
          rw [← List.length_eq_zero_iff, List.length_dropLast, hlen]
        -- the last entry is the root, at the bottom
        have hroot : t = r := by
          rcases I.bottom with h | h
          · exact absurd h hne
          · rw [hdfs, hP] at h
            exact Option.some_inj.mp h
        exact ⟨_, _, _, rfl, hP ▸ I', hroot ▸ Finset.mem_insert_self t seenIDs⟩
      · next hlen =>
        have hP : dfs.dropLast ≠ [] := by
          intro h
          apply hlen
          rw [hdfs, h]
          rfl
        refine ih _ _ _ _ I' hP ?_
        have hpop : loopMeasure s₀ r dfs.dropLast (insert t seenIDs) <
            loopMeasure s₀ r (dfs.dropLast ++ [t]) seenIDs := loopMeasure_pop
        rw [← hdfs] at hpop
        omega
    · -- the unseen children are pushed; the top was unseen, or they would all be seen
      have hts : t ∉ seenIDs := by
        intro hts
        apply hch
        refine List.filter_eq_nil_iff.mpr fun c hc => ?_
        rcases I.above dfs.dropLast t [] hdfs hts c ((TreeStore.mem_list s).mp hc) with h | h
        · simp only [decide_eq_true_eq, not_not]
          exact Finset.mem_insert_of_mem h
        · exact absurd h List.not_mem_nil
      have hlen : ((s.list ns t).filter (· ∉ insert t seenIDs)).length ≤ s₀.parents.card :=
        (List.length_filter_le _ _).trans
          ((s.length_list_le ns t).trans (Finset.card_le_card I.parents_sub))
      rw [revokeTreeLoop_push saltID ns hlast ht hf hch]
      refine ih _ _ _ _ (I.push hdfs hpr) (by simp [hne]) ?_
      have hpush : loopMeasure s₀ r (dfs ++ (s.list ns t).filter (· ∉ insert t seenIDs))
          (insert t seenIDs) < loopMeasure s₀ r dfs seenIDs := loopMeasure_push htn hts hlen
      omega

/-- When the walk ends, every ID the root reaches is seen and finished. -/
theorem LoopInv.reach_finished {seenIDs : Finset String} {s : TreeStore Addr}
    {calls : List (String × String)} (I : LoopInv ns s₀ r [] seenIDs s calls)
    (hr : r ∈ seenIDs) {x : String} (hx : ReflTransGen (Child ns s₀) r x) :
    x ∈ seenIDs ∧ Finished ns s calls x := by
  have hseen : x ∈ seenIDs := by
    induction hx with
    | refl => exact hr
    | tail _ hxy ih =>
      -- a finished ID has no key left, so the key to its child is gone and points at a seen ID
      exact I.deleted _ hxy ((I.finished _ ih List.not_mem_nil).2 _)
  exact ⟨hseen, I.finished x hseen List.not_mem_nil⟩

/-- The namespace the walk lists in: the root token's (the root namespace, for its entries), or
the context's when the root has no entry. -/
def treeNamespace (ctxNS : String) (s : TreeStore Addr) (r : String) : String :=
  match s.tokens (ctxNS, r) with
  | none => ctxNS
  | some _ => rootNamespaceID

theorem revokeTreeInternal_eq (ctxNS : String) (fuel : ℕ) (hs₀ : EntriesRoot s₀) :
    revokeTreeInternal saltID ctxNS fuel s₀ r =
      revokeTreeLoop saltID (treeNamespace ctxNS s₀ r) fuel [r] ∅ s₀ [] := by
  unfold revokeTreeInternal treeNamespace
  cases h : s₀.tokens (ctxNS, r) with
  | none => rfl
  | some te =>
    dsimp only
    rw [(hs₀ _ _ h).1]
    rfl

end Run

theorem revokeTreeInternal_revokes_reachable (saltID : String → String → String)
    (ctxNS : String) (s₀ : TreeStore Addr) (r : String) (hr : '.' ∉ r.toList)
    (hnames : ∀ k ∈ s₀.parents, '.' ∉ k.2.2.toList) (hs₀ : EntriesRoot s₀) (fuel : ℕ)
    (hfuel : revokeBound s₀ r < fuel) :
    let ns := treeNamespace ctxNS s₀ r
    ∃ s calls, revokeTreeInternal saltID ctxNS fuel s₀ r = some (.ok (s, calls)) ∧
      ∀ x, ReflTransGen (Child ns s₀) r x → Finished ns s calls x ∧
        ∀ y, Child ns s₀ x y → ¬ReflTransGen (Child ns s₀) y x →
          CalledBefore calls (ns, y) (ns, x) := by
  intro ns
  obtain ⟨seen', s, calls, hrun, I, hr'⟩ := revokeTreeLoop_ok saltID hr hnames fuel [r] ∅ s₀ []
    (LoopInv.init hs₀) (List.cons_ne_nil r []) (loopMeasure_init ▸ hfuel)
  refine ⟨s, calls, (revokeTreeInternal_eq saltID ctxNS fuel hs₀).trans hrun, fun x hx => ?_⟩
  obtain ⟨-, hfin⟩ := I.reach_finished hr' hx
  exact ⟨hfin, fun y hxy hyx => I.order x y hfin.1 hxy hyx⟩

/-- A cycle `a → b → a`, a self-loop on `b`, and `c` under both, none with a token entry. -/
def cycleStore : TreeStore String :=
  ⟨{("root", "a", "b"), ("root", "b", "a"), ("root", "b", "b"), ("root", "a", "c"),
    ("root", "b", "c")}, fun _ => none⟩

theorem revokeTreeInternal_revokes_cycle :
    ∃ s calls, revokeTreeInternal (fun _ id => id) "root" 20 cycleStore "a" =
        some (.ok (s, calls)) ∧
      ∀ x, ReflTransGen (Child "root" cycleStore) "a" x → Finished "root" s calls x ∧
        ∀ y, Child "root" cycleStore x y → ¬ReflTransGen (Child "root" cycleStore) y x →
          CalledBefore calls ("root", y) ("root", x) :=
  revokeTreeInternal_revokes_reachable (fun _ id => id) "root" cycleStore "a" (by decide)
    (by decide) (fun _ _ h => nomatch h) 20 (by decide)

end Vault.Token
