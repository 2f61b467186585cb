import Vault.Lib.GoStrings
import Vault.Lib.Collections

/-!
# The mount table and the router

The core keeps its secrets engines in a mount table (vault/mount.go) and routes requests by the
longest mounted prefix of their path (vault/router.go). Mounts are meant never to nest: no
mounted path is a prefix of another, and the router's root tree holds exactly the table's
paths (`Core.Inv`). This model is of the root namespace, the only one there is without
namespaces.

`mount` refuses a path that is a prefix of a mounted path or has one as a prefix, and
`unmount` only removes; both keep the invariant (`Core.Inv.mount`, `Core.Inv.unmount`).
`remount` only asks the router for a mount that is a prefix of the destination, not for one
under it: it keeps the invariant exactly when nothing is mounted under the destination
(`Core.Inv.remount`). Otherwise it nests mounts, as `a/b/` under `a/` after remounting `c/`
to `a/` (`remount_nests_under_destination`).
-/

namespace Vault.Mounts

open GoStrings Collections

/-- `MountEntry`: the path and the type, the fields the table operations read. -/
structure MountEntry where
  path : String
  type : String
deriving DecidableEq, Repr

/-- The mounts of the root namespace: the mount table `c.mounts.Entries`, and the keys of the
router's root tree. -/
structure Core where
  mounts : List MountEntry
  router : List String
deriving DecidableEq, Repr

/-- `protectedMounts`. -/
def protectedMounts : List String := ["audit/", "auth/", "sys/", "cubbyhole/", "identity/"]

/-- `singletonMounts`: types mounted once, by the core itself. -/
def singletonMounts : List String := ["cubbyhole", "system", "token", "identity"]

/-- `requiredMountTable`, mounted and routed: cubbyhole, sys and identity. -/
def requiredMounts : Core :=
  ⟨[⟨"cubbyhole/", "cubbyhole"⟩, ⟨"sys/", "system"⟩, ⟨"identity/", "identity"⟩],
    ["cubbyhole/", "sys/", "identity/"]⟩

/-! ## The router's root tree -/

/-- Of two keys that are prefixes of one path, the longer. -/
def longer (best : Option String) (key : String) : Option String :=
  match best with
  | some b => if b.length < key.length then some key else some b
  | none => some key

/-- `r.root.LongestPrefix(path)`: the longest key that is a prefix of `path`. -/
def longestPrefix (root : List String) (path : String) : Option String :=
  (root.filter fun key => hasPrefix path key).foldl longer none

/-- `matchingMountInternal`: the mount a path would be routed to, or `""`. -/
def matchingMount (root : List String) (path : String) : String :=
  (longestPrefix root path).getD ""

/-- Of two keys, the first in the tree's (lexicographic) order. -/
def earlier (best : Option String) (key : String) : Option String :=
  match best with
  | some b => if key < b then some key else some b
  | none => some key

/-- `matchingPrefixInternal`: the first key, in the tree's order, that has `path` as a prefix,
or `""`. -/
def matchingPrefixInternal (root : List String) (path : String) : String :=
  ((root.filter fun key => hasPrefix key path).foldl earlier none).getD ""

/-- `MountConflict`: a mount over the path, or else one under it. -/
def mountConflict (root : List String) (path : String) : String :=
  let exactMatch := matchingMount root path
  if exactMatch ≠ "" then exactMatch else matchingPrefixInternal root path

/-- `r.root.Insert(key, …)`: a key already there keeps its place. -/
def insertKey (root : List String) (key : String) : List String :=
  if key ∈ root then root else root ++ [key]

/-- `Router.Mount`: a path under an existing mount is refused. -/
def routerMount (root : List String) (entry : MountEntry) : Except String (List String) :=
  match (longestPrefix root entry.path).filter (· != "") with
  | some existing => .error ("cannot mount under existing mount " ++ goQuote existing)
  | none =>
    if entry.path = "" then
      .error ("missing prefix to be used for router entry; mount_path: " ++ goQuote entry.path ++
        ", mount_type: " ++ goQuote entry.type)
    else .ok (insertKey root entry.path)

/-- `Router.Unmount`: a path not routed is left alone. -/
def routerUnmount (root : List String) (path : String) : List String :=
  if path ∈ root then root.erase path else root

/-- `Router.Remount`: the route moves from `src` to `dst`, with no check of `dst`. -/
def routerRemount (root : List String) (src dst : String) : Except String (List String) :=
  if src ∈ root then .ok (insertKey (root.erase src) dst)
  else .error ("no mount at " ++ goQuote src)

/-! ## Mount, unmount and remount -/

/-- A path with its trailing slash, as the operations make it. -/
def withSlash (path : String) : String := if hasSuffix path "/" then path else path ++ "/"

/-- `mountInternal`: a path that is a prefix of a mounted path, or has one as a prefix, is
refused, and so is a router conflict; the entry joins the table and the router. -/
def mountInternal (c : Core) (entry : MountEntry) : Except String Core :=
  match c.mounts.find? (fun ent => hasPrefix ent.path entry.path || hasPrefix entry.path ent.path) with
  | some ent => .error ("path is already in use at " ++ ent.path)
  | none =>
    let conflict := mountConflict c.router entry.path
    if conflict ≠ "" then .error ("existing mount at " ++ conflict)
    else do
      let router ← routerMount c.router entry
      return ⟨c.mounts ++ [entry], router⟩

/-- `Core.mount`. -/
def mount (c : Core) (entry : MountEntry) : Except String Core :=
  let entry := { entry with path := withSlash entry.path }
  if protectedMounts.any (hasPrefix entry.path ·) then .error ("cannot mount " ++ goQuote entry.path)
  else if entry.type ∈ singletonMounts then
    .error ("mount type of " ++ goQuote entry.type ++ " is not mountable")
  else mountInternal c entry

/-- `MountTable.remove`: the last entry takes the place of the one removed. -/
def removeEntry (entries : List MountEntry) (path : String) : Option (List MountEntry) := do
  let i ← entries.findIdx? (·.path = path)
  let last ← entries.getLast?
  return (entries.set i last).dropLast

/-- `unmountInternal`: the path must be a mount itself, found in the table (`setTaint`). -/
def unmountInternal (c : Core) (path : String) : Except String Core :=
  let found := matchingMount c.router path
  if found = "" ∨ path ≠ found then .error "no matching mount"
  else if c.mounts.all (·.path ≠ path) then .error "failed to taint entry in mounts table"
  else
    match removeEntry c.mounts path with
    | none => .error "failed to remove entry in mounts table"
    | some mounts => .ok ⟨mounts, routerUnmount c.router path⟩

/-- `Core.unmount`. -/
def unmount (c : Core) (path : String) : Except String Core :=
  let path := withSlash path
  if protectedMounts.any (hasPrefix path ·) then .error ("cannot unmount " ++ goQuote path)
  else unmountInternal c path

/-- The first entry at `src`, moved to `dst`. -/
def renameEntry : List MountEntry → String → String → Option (List MountEntry)
  | [], _, _ => none
  | e :: es, src, dst =>
    if e.path = src then some ({ e with path := dst } :: es)
    else (renameEntry es src dst).map (e :: ·)

/-- `Core.remount`: the destination is checked only for a mount over it. -/
def remount (c : Core) (src dst : String) : Except String Core :=
  let src := withSlash src
  let dst := withSlash dst
  if protectedMounts.any (hasPrefix src ·) then .error ("cannot remount " ++ goQuote src)
  else if longestPrefix c.router src = none then .error ("no matching mount at " ++ goQuote src)
  else
    let existing := matchingMount c.router dst
    if existing ≠ "" then .error ("existing mount at " ++ goQuote existing)
    else if c.mounts.all (·.path ≠ src) then .error "failed to taint entry in mounts table"
    else
      match renameEntry c.mounts src dst with
      | none => .error "failed to find entry in mounts table"
      | some mounts => do
        let router ← routerRemount c.router src dst
        return ⟨mounts, router⟩

/-- The calls on the mount table. -/
inductive MountOp where
  | mount (entry : MountEntry)
  | unmount (path : String)
  | remount (src dst : String)
deriving DecidableEq, Repr

/-- One call. -/
def MountOp.exec (c : Core) : MountOp → Except String Core
  | .mount entry => Mounts.mount c entry
  | .unmount path => Mounts.unmount c path
  | .remount src dst => Mounts.remount c src dst

/-- A run of calls from the required mounts, each on the state the last returned. -/
def runMountOps (ops : List MountOp) : Except String Core := ops.foldlM MountOp.exec requiredMounts

/-! ## The router's lookups -/

theorem hasPrefix_self (s : String) : hasPrefix s s = true :=
  hasPrefix_iff.mpr (List.prefix_refl _)

theorem withSlash_ne_empty (path : String) : withSlash path ≠ "" := by
  unfold withSlash
  split
  · rename_i h
    rintro rfl
    simp [hasSuffix] at h
  · intro h
    have := congrArg String.length h
    simp at this

/-- What the longest-prefix fold returns is its start or one of the keys. -/
theorem foldl_longer_mem {keys : List String} {best : Option String} {k : String}
    (h : keys.foldl longer best = some k) : best = some k ∨ k ∈ keys := by
  induction keys generalizing best with
  | nil => exact .inl h
  | cons key keys ih =>
    rcases ih h with hb | hk
    · -- the fold's value after `key` is `key` or what it had
      unfold longer at hb
      split at hb
      · split at hb
        · cases hb
          exact .inr List.mem_cons_self
        · exact .inl hb
      · cases hb
        exact .inr List.mem_cons_self
    · exact .inr (List.mem_cons_of_mem _ hk)

theorem foldl_longer_isSome {keys : List String} (best : Option String)
    (h : best.isSome ∨ keys ≠ []) : (keys.foldl longer best).isSome := by
  induction keys generalizing best with
  | nil => simpa using h
  | cons key keys ih =>
    apply ih
    left
    unfold longer
    split
    · split <;> rfl
    · rfl

theorem longestPrefix_eq_none_iff {root : List String} {path : String} :
    longestPrefix root path = none ↔ ∀ k ∈ root, hasPrefix path k = false := by
  constructor
  · intro h k hk
    by_contra hpre
    have hne : (root.filter fun key => hasPrefix path key) ≠ [] :=
      List.ne_nil_of_mem (List.mem_filter.mpr ⟨hk, by simpa using hpre⟩)
    have hsome := foldl_longer_isSome none (.inr hne)
    rw [longestPrefix] at h
    rw [h] at hsome
    cases hsome
  · intro h
    have hnil : (root.filter fun key => hasPrefix path key) = [] :=
      List.filter_eq_nil_iff.mpr fun k hk => by simp [h k hk]
    rw [longestPrefix, hnil]
    rfl

theorem mem_of_longestPrefix {root : List String} {path k : String}
    (h : longestPrefix root path = some k) : k ∈ root ∧ hasPrefix path k = true := by
  rcases foldl_longer_mem h with hnone | hk
  · cases hnone
  · exact List.mem_filter.mp hk

/-- With no empty key, nothing routes a path exactly when no key is a prefix of it. -/
theorem matchingMount_eq_empty_iff {root : List String} (hne : "" ∉ root) {path : String} :
    matchingMount root path = "" ↔ ∀ k ∈ root, hasPrefix path k = false := by
  rw [← longestPrefix_eq_none_iff, matchingMount]
  cases h : longestPrefix root path with
  | none => simp
  | some k =>
    have hk : k ≠ "" := fun hk => hne (hk ▸ (mem_of_longestPrefix h).1)
    simp [hk]

theorem routerMount_eq_ok {root root' : List String} {entry : MountEntry}
    (h : routerMount root entry = .ok root') : entry.path ≠ "" ∧ root' = insertKey root entry.path := by
  unfold routerMount at h
  split at h
  · cases h
  · split at h
    · cases h
    · cases h
      exact ⟨‹_›, rfl⟩

theorem routerUnmount_eq_erase (root : List String) (path : String) :
    routerUnmount root path = root.erase path := by
  unfold routerUnmount
  split
  · rfl
  · exact (List.erase_of_not_mem ‹_›).symm

/-! ## The table's updates -/

/-- `removeEntry` leaves the paths of erasing its path once. -/
theorem removeEntry_perm {entries entries' : List MountEntry} {path : String}
    (h : removeEntry entries path = some entries') :
    (entries'.map MountEntry.path).Perm ((entries.map MountEntry.path).erase path) := by
  simp only [removeEntry, Option.bind_eq_bind, Option.bind_eq_some_iff, Option.pure_def,
    Option.some.injEq] at h
  obtain ⟨i, hi, last, hlast, rfl⟩ := h
  have hne : entries ≠ [] := fun hnil => by simp [hnil] at hlast
  have hlast' : last = entries.getLast hne := by
    rw [List.getLast?_eq_some_getLast hne] at hlast
    exact (Option.some.inj hlast).symm
  have hlen : i < entries.length := (List.findIdx?_eq_some_iff_findIdx_eq.mp hi).1
  subst hlast'
  rw [← map_eraseIdx_of_findIdx? MountEntry.path hi]
  exact (set_getLast_dropLast_perm hne hlen).map _

theorem mem_of_removeEntry {entries entries' : List MountEntry} {path : String}
    (h : removeEntry entries path = some entries') {e : MountEntry} (he : e ∈ entries') :
    e ∈ entries := by
  simp only [removeEntry, Option.bind_eq_bind, Option.bind_eq_some_iff, Option.pure_def,
    Option.some.injEq] at h
  obtain ⟨i, -, last, hlast, rfl⟩ := h
  rcases List.mem_or_eq_of_mem_set (List.mem_of_mem_dropLast he) with he | rfl
  · exact he
  · exact List.mem_of_getLast? hlast

/-- `renameEntry` puts `dst` in place of one `src`. -/
theorem renameEntry_perm {entries entries' : List MountEntry} {src dst : String}
    (h : renameEntry entries src dst = some entries') :
    (entries'.map MountEntry.path).Perm (dst :: (entries.map MountEntry.path).erase src) := by
  induction entries generalizing entries' with
  | nil => cases h
  | cons e es ih =>
    unfold renameEntry at h
    split at h
    · -- the first entry is the one moved
      rename_i he
      cases h
      simp [he]
    · rename_i he
      obtain ⟨es', hes', rfl⟩ := Option.map_eq_some_iff.mp h
      have hne : ¬(e.path == src) = true := by simpa using he
      rw [List.map_cons, List.map_cons, List.erase_cons_tail hne]
      exact ((ih hes').cons e.path).trans (List.Perm.swap _ _ _)

theorem mem_of_renameEntry {entries entries' : List MountEntry} {src dst : String}
    (h : renameEntry entries src dst = some entries') {e : MountEntry} (he : e ∈ entries') :
    e ∈ entries ∨ e.path = dst := by
  induction entries generalizing entries' with
  | nil => cases h
  | cons f es ih =>
    unfold renameEntry at h
    split at h
    · cases h
      rcases List.mem_cons.mp he with rfl | he
      · exact .inr rfl
      · exact .inl (List.mem_cons_of_mem _ he)
    · obtain ⟨es', hes', rfl⟩ := Option.map_eq_some_iff.mp h
      rcases List.mem_cons.mp he with rfl | he
      · exact .inl List.mem_cons_self
      · exact (ih hes' he).imp (List.mem_cons_of_mem _) id

/-! ## The invariant -/

/-- Neither path is a prefix of the other. -/
def Unnested (p q : String) : Prop := hasPrefix p q = false ∧ hasPrefix q p = false

theorem Unnested.symm {p q : String} (h : Unnested p q) : Unnested q p := ⟨h.2, h.1⟩

instance : DecidableRel Unnested := fun p q =>
  inferInstanceAs (Decidable (hasPrefix p q = false ∧ hasPrefix q p = false))

theorem not_unnested_self (p : String) : ¬Unnested p p := fun h => by
  have hp := h.1
  rw [hasPrefix_self] at hp
  cases hp

/-- No mount nests in another, every mount has a path, and the router's keys are the table's
paths, each once. -/
structure Core.Inv (c : Core) : Prop where
  unnested : (c.mounts.map MountEntry.path).Pairwise Unnested
  nonempty : ∀ e ∈ c.mounts, e.path ≠ ""
  routed : c.router.Perm (c.mounts.map MountEntry.path)

theorem inv_requiredMounts : requiredMounts.Inv where
  unnested := by decide
  nonempty := by decide
  routed := by decide

theorem Core.Inv.mem_router {c : Core} (hinv : c.Inv) {k : String} :
    k ∈ c.router ↔ ∃ e ∈ c.mounts, e.path = k := by
  rw [hinv.routed.mem_iff, List.mem_map]

theorem Core.Inv.empty_not_mem {c : Core} (hinv : c.Inv) : "" ∉ c.router := by
  rw [hinv.mem_router]
  rintro ⟨e, he, hpath⟩
  exact hinv.nonempty e he hpath

/-! ## Mount and unmount keep the invariant -/

theorem mountInternal_eq_ok {c c' : Core} {entry : MountEntry} (h : mountInternal c entry = .ok c') :
    (∀ ent ∈ c.mounts, Unnested ent.path entry.path) ∧ entry.path ≠ "" ∧
      c' = ⟨c.mounts ++ [entry], insertKey c.router entry.path⟩ := by
  unfold mountInternal at h
  split at h
  · cases h
  · rename_i hfind
    dsimp only at h
    split at h
    · cases h
    · cases hr : routerMount c.router entry with
      | error err => simp [hr] at h
      | ok router =>
        obtain ⟨hpath, rfl⟩ := routerMount_eq_ok hr
        simp only [hr] at h
        cases h
        refine ⟨fun ent hent => ?_, hpath, rfl⟩
        have hnot := List.find?_eq_none.mp hfind ent hent
        simpa [Unnested, not_or] using hnot

theorem mount_eq_ok {c c' : Core} {entry : MountEntry} (h : mount c entry = .ok c') :
    mountInternal c { entry with path := withSlash entry.path } = .ok c' := by
  unfold mount at h
  dsimp only at h
  split at h
  · cases h
  · split at h
    · cases h
    · exact h

theorem Core.Inv.mount {c c' : Core} (hinv : c.Inv) {entry : MountEntry}
    (h : Mounts.mount c entry = .ok c') : c'.Inv := by
  obtain ⟨hfree, hpath, rfl⟩ := mountInternal_eq_ok (mount_eq_ok h)
  set e : MountEntry := { entry with path := withSlash entry.path }
  -- the new path is not mounted, since it would nest in itself
  have hnew : e.path ∉ c.router := by
    rw [hinv.mem_router]
    rintro ⟨ent, hent, hpe⟩
    exact not_unnested_self e.path (hpe ▸ hfree ent hent)
  refine ⟨?_, ?_, ?_⟩
  · rw [List.map_append, List.pairwise_append]
    refine ⟨hinv.unnested, List.pairwise_singleton _ _, ?_⟩
    intro p hp q hq
    obtain ⟨ent, hent, rfl⟩ := List.mem_map.mp hp
    rw [List.map_singleton, List.mem_singleton] at hq
    exact hq ▸ hfree ent hent
  · intro f hf
    rcases List.mem_append.mp hf with hf | hf
    · exact hinv.nonempty f hf
    · rw [List.mem_singleton.mp hf]
      exact hpath
  · rw [insertKey, if_neg hnew, List.map_append, List.map_singleton]
    exact hinv.routed.append_right _

theorem unmountInternal_eq_ok {c c' : Core} {path : String} (h : unmountInternal c path = .ok c') :
    ∃ mounts, removeEntry c.mounts path = some mounts ∧ c' = ⟨mounts, routerUnmount c.router path⟩ := by
  unfold unmountInternal at h
  dsimp only at h
  split at h
  · cases h
  · split at h
    · cases h
    · split at h
      · cases h
      · cases h
        exact ⟨_, ‹_›, rfl⟩

theorem unmount_eq_ok {c c' : Core} {path : String} (h : unmount c path = .ok c') :
    unmountInternal c (withSlash path) = .ok c' := by
  unfold unmount at h
  dsimp only at h
  split at h
  · cases h
  · exact h

theorem Core.Inv.unmount {c c' : Core} (hinv : c.Inv) {path : String}
    (h : Mounts.unmount c path = .ok c') : c'.Inv := by
  obtain ⟨mounts, hremove, rfl⟩ := unmountInternal_eq_ok (unmount_eq_ok h)
  have hperm := removeEntry_perm hremove
  refine ⟨?_, fun e he => hinv.nonempty e (mem_of_removeEntry hremove he), ?_⟩
  · -- what is left is a part of the table, in another order
    rw [hperm.pairwise_iff Unnested.symm]
    exact hinv.unnested.sublist List.erase_sublist
  · rw [routerUnmount_eq_erase]
    exact (hinv.routed.erase _).trans hperm.symm

/-! ## Remount, and what it does not check -/

theorem remount_eq_ok {c c' : Core} {src dst : String} (h : remount c src dst = .ok c') :
    matchingMount c.router (withSlash dst) = "" ∧
      ∃ mounts, renameEntry c.mounts (withSlash src) (withSlash dst) = some mounts ∧
        withSlash src ∈ c.router ∧
        c' = ⟨mounts, insertKey (c.router.erase (withSlash src)) (withSlash dst)⟩ := by
  unfold remount at h
  dsimp only at h
  split at h
  · cases h
  · split at h
    · cases h
    · split at h
      · cases h
      · rename_i hfree
        split at h
        · cases h
        · split at h
          · cases h
          · rename_i mounts hrename
            unfold routerRemount at h
            split at h
            · cases h
              exact ⟨by simpa using hfree, mounts, hrename, ‹_›, rfl⟩
            · cases h

/-- `remount` keeps the invariant when nothing is mounted under the destination, the one case
it does not check. -/
theorem Core.Inv.remount {c c' : Core} (hinv : c.Inv) {src dst : String}
    (hunder : ∀ k ∈ c.router, hasPrefix k (withSlash dst) = false)
    (h : Mounts.remount c src dst = .ok c') : c'.Inv := by
  obtain ⟨hover, mounts, hrename, -, rfl⟩ := remount_eq_ok h
  have hover' := (matchingMount_eq_empty_iff hinv.empty_not_mem).mp hover
  have hperm := renameEntry_perm hrename
  -- the destination is not mounted, since it would be a prefix of itself
  have hnew : withSlash dst ∉ c.router.erase (withSlash src) := fun hmem => by
    have hself := hover' _ (List.mem_of_mem_erase hmem)
    rw [hasPrefix_self] at hself
    cases hself
  refine ⟨?_, ?_, ?_⟩
  · rw [hperm.pairwise_iff Unnested.symm, List.pairwise_cons]
    refine ⟨fun p hp => ?_, hinv.unnested.sublist List.erase_sublist⟩
    have hp' : p ∈ c.router := hinv.routed.mem_iff.mpr (List.mem_of_mem_erase hp)
    exact ⟨hover' p hp', hunder p hp'⟩
  · intro e he
    rcases mem_of_renameEntry hrename he with he | hpath
    · exact hinv.nonempty e he
    · rw [hpath]
      exact withSlash_ne_empty dst
  · rw [insertKey, if_neg hnew]
    refine (List.perm_append_singleton _ _).trans ?_
    exact ((hinv.routed.erase _).cons _).trans hperm.symm

/-- Remounting `c/` to `a/` while `a/b/` is mounted: the remount succeeds, and `a/b/` is mounted
under `a/`. -/
theorem remount_nests_under_destination :
    runMountOps [.mount ⟨"a/b/", "kv"⟩, .mount ⟨"c/", "kv"⟩, .remount "c/" "a/"] =
      .ok ⟨[⟨"cubbyhole/", "cubbyhole"⟩, ⟨"sys/", "system"⟩, ⟨"identity/", "identity"⟩,
          ⟨"a/b/", "kv"⟩, ⟨"a/", "kv"⟩],
        ["cubbyhole/", "sys/", "identity/", "a/b/", "a/"]⟩ ∧
      hasPrefix "a/b/" "a/" = true :=
  ⟨rfl, rfl⟩

/-- Runs of mounts and unmounts from the required mounts keep mounts unnested and the router's
keys equal to the table's paths. -/
theorem runMountOps_inv_of_no_remount {ops : List MountOp}
    (hops : ∀ op ∈ ops, ∀ src dst, op ≠ .remount src dst) {c : Core}
    (h : runMountOps ops = .ok c) : c.Inv := by
  have hsat : SatisfiesM (fun c : Core => c.Inv) (ops.foldlM MountOp.exec requiredMounts) :=
    List.satisfiesM_foldlM inv_requiredMounts fun c hinv op hop =>
      SatisfiesM_Except_eq.mpr fun c' h' => by
        cases op with
        | mount entry => exact hinv.mount h'
        | unmount path => exact hinv.unmount h'
        | remount src dst => exact absurd rfl (hops _ hop src dst)
  exact SatisfiesM_Except_eq.mp hsat c h

theorem runMountOps_inv_of_no_remount_mount_unmount :
    (∀ op ∈ [MountOp.mount ⟨"a/b/", "kv"⟩, .unmount "a/b/", .mount ⟨"a/", "kv"⟩],
        ∀ src dst, op ≠ .remount src dst) ∧
      runMountOps [.mount ⟨"a/b/", "kv"⟩, .unmount "a/b/", .mount ⟨"a/", "kv"⟩] =
        .ok ⟨[⟨"cubbyhole/", "cubbyhole"⟩, ⟨"sys/", "system"⟩, ⟨"identity/", "identity"⟩,
            ⟨"a/", "kv"⟩], ["cubbyhole/", "sys/", "identity/", "a/"]⟩ ∧
      Core.Inv ⟨[⟨"cubbyhole/", "cubbyhole"⟩, ⟨"sys/", "system"⟩, ⟨"identity/", "identity"⟩,
          ⟨"a/", "kv"⟩], ["cubbyhole/", "sys/", "identity/", "a/"]⟩ := by
  have hops : ∀ op ∈ [MountOp.mount ⟨"a/b/", "kv"⟩, .unmount "a/b/", .mount ⟨"a/", "kv"⟩],
      ∀ src dst, op ≠ .remount src dst := by
    intro op hop src dst
    simp only [List.mem_cons, List.not_mem_nil, or_false] at hop
    rcases hop with rfl | rfl | rfl <;> simp
  have hrun : runMountOps [.mount ⟨"a/b/", "kv"⟩, .unmount "a/b/", .mount ⟨"a/", "kv"⟩] =
      .ok ⟨[⟨"cubbyhole/", "cubbyhole"⟩, ⟨"sys/", "system"⟩, ⟨"identity/", "identity"⟩,
          ⟨"a/", "kv"⟩], ["cubbyhole/", "sys/", "identity/", "a/"]⟩ := rfl
  exact ⟨hops, hrun, runMountOps_inv_of_no_remount hops hrun⟩

end Vault.Mounts
