import Vault.Lib.RadixTree
import Vault.Routing.Request

/-!
# The router

The router (vault/router.go) keeps its mounts in radix trees: the route entries by mount path,
and the mount entries by UUID and by accessor. `RootPath` and `LoginPath` find the mount of a
path by its longest mounted prefix and look the rest of the path up in the mount's special
paths, which `pathsToRadix` puts in one tree, an entry ending in `*` as a prefix under the
entry without it and any other entry as an exact path.

The lookup consults the one stored key that is the longest prefix of the rest. It never reports
a path the special paths do not cover (`lookupSpecial_sound`), and reports every covered path
when no exact entry has a prefix entry's prefix (`lookupSpecial_of_overlapFree`). An exact
entry that extends a prefix entry hides it: with `fo*` and `foo`, `RootPath` of `foox` under
the mount is false (`rootPath_hides_prefix_entry`).

`MatchingMountByAccessor` and `MatchingMountByUUID` look identifiers up by longest prefix as
well. What they return is mounted, with an identifier that is a prefix of the one asked for
(`Router.Inv.matchingMountByAccessor`), and an identifier in the cache finds its own entry; an
accessor with characters added finds the mount of the accessor
(`matchingMountByAccessor_extended`). This model is of the root namespace, whose path is empty.
-/

namespace Vault.Routing

open GoStrings SortedStore Vault.Token

/-- `MountEntry`: the fields the router reads; the two header lists are what its
`synthesizedConfigCache` holds. -/
structure MountEntry where
  path : String
  type : String
  uuid : String
  accessor : String
  tainted : Bool
  tokenType : TokenType
  passthroughRequestHeaders : List String
  allowedResponseHeaders : List String
deriving DecidableEq, Repr

variable {Addr : Type}

/-- `routeEntry`: the mount, its backend, its storage view by its prefix, and its special paths
as radix trees. -/
structure RouteEntry (Addr : Type) where
  tainted : Bool
  backend : Option (Backend Addr)
  mountEntry : MountEntry
  storagePrefix : String
  rootPaths : Bucket Bool
  loginPaths : Bucket Bool

/-- `Router`: the route entries by mount path, and the mount entries by UUID and by
accessor. -/
structure Router (Addr : Type) where
  root : Bucket (RouteEntry Addr)
  mountUUIDCache : Bucket MountEntry
  mountAccessorCache : Bucket MountEntry

/-- `NewRouter`. -/
def newRouter : Router Addr := ⟨.empty, .empty, .empty⟩

/-! ## Special paths -/

/-- `len(path) >= 1 && path[len(path)-1] == '*'`: the entry is a prefix. -/
def isPrefixPattern (path : String) : Bool := path.toList.getLast? == some '*'

/-- The key an entry is stored under: a prefix entry without its `*`. -/
def patternKey (path : String) : String :=
  if isPrefixPattern path then String.ofList path.toList.dropLast else path

/-- One turn of `pathsToRadix`'s loop: a later entry for a key replaces an earlier one. -/
def insertPath (tree : Bucket Bool) (path : String) : Bucket Bool :=
  tree.put (patternKey path) (isPrefixPattern path)

/-- `pathsToRadix`. -/
def pathsToRadix (paths : List String) : Bucket Bool := paths.foldl insertPath .empty

/-- What the special paths are for: `remain` is one of the exact entries, or has a prefix
entry, without its `*`, as a prefix. -/
def specialPathsMatch (paths : List String) (remain : String) : Bool :=
  paths.any fun path =>
    if isPrefixPattern path then hasPrefix remain (patternKey path) else path == remain

/-- The tail of `RootPath` and `LoginPath`: the longest stored prefix of `remain` decides. -/
def lookupSpecial (tree : Bucket Bool) (remain : String) : Bool :=
  match tree.longestPrefix remain with
  | none => false
  | some (m, prefixMatch) => if prefixMatch then hasPrefix remain m else m == remain

/-- `RootPath` and `LoginPath`, by the special paths they read. -/
def Router.specialPath (paths : RouteEntry Addr → Bucket Bool) (r : Router Addr) (path : String) : Bool :=
  match r.root.longestPrefix path with
  | none => false
  | some (mount, re) => lookupSpecial (paths re) (trimPrefix path mount)

/-- `RootPath`. -/
def Router.rootPath (r : Router Addr) (path : String) : Bool := r.specialPath RouteEntry.rootPaths path

/-- `LoginPath`. -/
def Router.loginPath (r : Router Addr) (path : String) : Bool :=
  r.specialPath RouteEntry.loginPaths path

/-! ## Mount and unmount -/

/-- The errors of `Mount` for a missing field. -/
def missingField (what : String) (e : MountEntry) : String :=
  "missing " ++ what ++ "; mount_path: " ++ goQuote e.path ++ ", mount_type: " ++ goQuote e.type

/-- `Router.Mount`; the special paths are the backend's, or none for a nil backend or nil
paths. -/
def Router.mount (r : Router Addr) (backend : Option (Backend Addr)) (pfx : String)
    (mountEntry : MountEntry) (storagePrefix : String) : Except String (Router Addr) :=
  match (r.root.longestPrefix pfx).filter (·.1 != "") with
  | some (existing, _) => .error ("cannot mount under existing mount " ++ goQuote existing)
  | none =>
    let paths := (backend.bind Backend.specialPaths).getD ⟨[], []⟩
    let re : RouteEntry Addr := ⟨mountEntry.tainted, backend, mountEntry, storagePrefix,
      pathsToRadix paths.root, pathsToRadix paths.unauthenticated⟩
    if pfx = "" then .error (missingField "prefix to be used for router entry" mountEntry)
    else if storagePrefix = "" then .error (missingField "storage view prefix" mountEntry)
    else if mountEntry.uuid = "" then .error (missingField "mount identifier" mountEntry)
    else if mountEntry.accessor = "" then .error (missingField "mount accessor" mountEntry)
    else .ok ⟨r.root.put pfx re, r.mountUUIDCache.put mountEntry.uuid mountEntry,
      r.mountAccessorCache.put mountEntry.accessor mountEntry⟩

/-- `Router.Unmount`: a path not mounted is left alone. -/
def Router.unmount (r : Router Addr) (pfx : String) : Router Addr :=
  match r.root.get pfx with
  | none => r
  | some re => ⟨r.root.delete pfx, r.mountUUIDCache.delete re.mountEntry.uuid,
      r.mountAccessorCache.delete re.mountEntry.accessor⟩

/-- `MatchingMountByUUID` and `MatchingMountByAccessor`, by the cache they read. -/
def Router.matchingMountBy (cache : Router Addr → Bucket MountEntry) (r : Router Addr) (id : String) :
    Option MountEntry :=
  if id = "" then none else ((cache r).longestPrefix id).map Prod.snd

/-- `MatchingMountByUUID`. -/
def Router.matchingMountByUUID (r : Router Addr) (mountID : String) : Option MountEntry :=
  r.matchingMountBy Router.mountUUIDCache mountID

/-- `MatchingMountByAccessor`. -/
def Router.matchingMountByAccessor (r : Router Addr) (mountAccessor : String) : Option MountEntry :=
  r.matchingMountBy Router.mountAccessorCache mountAccessor

/-- A call on the router: `Mount` or `Unmount`. -/
inductive RouterOp (Addr : Type) where
  | mount (backend : Option (Backend Addr)) (pfx : String) (mountEntry : MountEntry)
      (storagePrefix : String)
  | unmount (pfx : String)

/-- One call; a `Mount` that fails leaves the router as it was. -/
def Router.step (r : Router Addr) : RouterOp Addr → Router Addr
  | .mount backend pfx mountEntry storagePrefix =>
    match r.mount backend pfx mountEntry storagePrefix with
    | .ok r' => r'
    | .error _ => r
  | .unmount pfx => r.unmount pfx

/-- A run of calls from `NewRouter`. -/
def runRouterOps (ops : List (RouterOp Addr)) : Router Addr := ops.foldl Router.step newRouter

/-! ## What `pathsToRadix` stores -/

section Special

variable {paths : List String} {remain : String}

/-- Every leaf comes from an entry, under its key and with its kind. -/
theorem mem_foldl_insertPath {t : Bucket Bool} {e : String × Bool} :
    ∀ {paths : List String}, e ∈ (paths.foldl insertPath t).entries →
      e ∈ t.entries ∨ ∃ path ∈ paths, e = (patternKey path, isPrefixPattern path)
  | [], he => .inl he
  | p :: ps, he => by
    rcases mem_foldl_insertPath (t := insertPath t p) he with he | ⟨path, hp, rfl⟩
    · rcases t.mem_put.mp he with rfl | ⟨he, -⟩
      · exact .inr ⟨p, List.mem_cons_self, rfl⟩
      · exact .inl he
    · exact .inr ⟨path, List.mem_cons_of_mem _ hp, rfl⟩

/-- A key stays a key when another is inserted. -/
theorem key_mem_put {t : Bucket Bool} {k k' : String} {v : Bool} (hk : ∃ b, (k, b) ∈ t.entries) :
    ∃ b, (k, b) ∈ (t.put k' v).entries := by
  by_cases hkk : k = k'
  · exact ⟨v, t.mem_put.mpr (.inl (hkk ▸ rfl))⟩
  · obtain ⟨b, hb⟩ := hk
    exact ⟨b, t.mem_put.mpr (.inr ⟨hb, hkk⟩)⟩

/-- Every entry's key is stored. -/
theorem key_mem_foldl_insertPath {k : String} :
    ∀ {paths : List String} {t : Bucket Bool},
      ((∃ b, (k, b) ∈ t.entries) ∨ ∃ path ∈ paths, patternKey path = k) →
        ∃ b, (k, b) ∈ (paths.foldl insertPath t).entries
  | [], _, .inl hk => hk
  | p :: ps, t, hk => by
    refine key_mem_foldl_insertPath (t := insertPath t p) ?_
    rcases hk with hk | ⟨path, hp, rfl⟩
    · exact .inl (key_mem_put hk)
    · rcases List.mem_cons.mp hp with rfl | hp
      · exact .inl ⟨_, t.mem_put.mpr (.inl rfl)⟩
      · exact .inr ⟨path, hp, rfl⟩

theorem patternKey_of_exact {path : String} (h : isPrefixPattern path = false) :
    patternKey path = path := by
  simp [patternKey, h]

/-- The lookup never reports a path the special paths do not cover. -/
theorem lookupSpecial_sound (h : lookupSpecial (pathsToRadix paths) remain = true) :
    specialPathsMatch paths remain = true := by
  unfold lookupSpecial at h
  split at h
  · cases h
  · rename_i m b hl
    obtain ⟨hmem, hpm, -⟩ := Bucket.longestPrefix_spec hl
    rcases mem_foldl_insertPath hmem with hemp | ⟨path, hp, heq⟩
    · simp [Bucket.empty] at hemp
    -- the leaf found came from the entry `path`
    obtain ⟨rfl, rfl⟩ := Prod.mk.inj heq
    simp only [specialPathsMatch, List.any_eq_true]
    refine ⟨path, hp, ?_⟩
    cases hpre : isPrefixPattern path
    · rw [hpre, patternKey_of_exact hpre] at h
      simpa using h
    · simpa using hpm

/-- No exact entry has a prefix entry's prefix, nor is one of them written both ways. -/
def OverlapFree (paths : List String) : Prop :=
  ∀ p ∈ paths, isPrefixPattern p = true →
    ∀ e ∈ paths, isPrefixPattern e = false → hasPrefix e (patternKey p) = false

/-- Without overlaps the lookup reports exactly the covered paths. -/
theorem lookupSpecial_of_overlapFree (hfree : OverlapFree paths) :
    lookupSpecial (pathsToRadix paths) remain = specialPathsMatch paths remain := by
  cases hm : specialPathsMatch paths remain
  · cases hl : lookupSpecial (pathsToRadix paths) remain
    · rfl
    · exact absurd (lookupSpecial_sound hl) (by simp [hm])
  simp only [specialPathsMatch, List.any_eq_true] at hm
  obtain ⟨path, hp, hmatch⟩ := hm
  -- the entry that covers `remain` is stored under a prefix of `remain`
  have hpk : hasPrefix remain (patternKey path) = true := by
    cases hpre : isPrefixPattern path
    · have hpr : path = remain := by simpa [hpre] using hmatch
      rw [patternKey_of_exact hpre, hpr]
      exact hasPrefix_iff.mpr (List.prefix_refl _)
    · simpa [hpre] using hmatch
  obtain ⟨b, hb⟩ : ∃ b, (patternKey path, b) ∈ (pathsToRadix paths).entries :=
    key_mem_foldl_insertPath (.inr ⟨path, hp, rfl⟩)
  obtain ⟨⟨m, b'⟩, hl, hpm⟩ := Bucket.exists_longestPrefix hb hpk
  obtain ⟨hmem, hmr, -⟩ := Bucket.longestPrefix_spec hl
  rcases mem_foldl_insertPath hmem with hemp | ⟨q, hq, heq⟩
  · simp [Bucket.empty] at hemp
  obtain ⟨rfl, rfl⟩ := Prod.mk.inj heq
  unfold lookupSpecial
  rw [hl]
  cases hqpre : isPrefixPattern q
  · -- the longest stored prefix is the exact entry `q`
    simp only [patternKey_of_exact hqpre, Bool.false_eq_true, if_false, beq_iff_eq]
    rw [patternKey_of_exact hqpre] at hpm hmr
    cases hpre : isPrefixPattern path
    · -- `remain` is an exact entry, and the longest stored prefix of itself
      have hpr : path = remain := by simpa [hpre] using hmatch
      rw [patternKey_of_exact hpre, hpr] at hpm
      exact String.toList_inj.mp (hpm.eq_of_length
        (le_antisymm hpm.length_le (hasPrefix_iff.mp hmr).length_le)).symm
    · -- `q` has the prefix of the prefix entry `path`, which the entries exclude
      exact absurd (hasPrefix_iff.mpr hpm) (by simp [hfree path hp hpre q hq hqpre])
  · simpa using hmr

end Special

/-- `RootPath` and `LoginPath` look the rest of the path up in the special paths of the mount
with the longest prefix. -/
theorem Router.specialPath_eq {sel : RouteEntry Addr → Bucket Bool} {r : Router Addr} {path mount : String}
    {re : RouteEntry Addr} (h : r.root.longestPrefix path = some (mount, re)) :
    r.specialPath sel path = lookupSpecial (sel re) (trimPrefix path mount) := by
  simp [Router.specialPath, h]

/-- `RootPath` and `LoginPath` of a path under a mount whose special paths are `paths`: every
path reported is covered, and without overlaps in `paths` every covered path is reported. -/
theorem specialPath_sound_exact (sel : RouteEntry Addr → Bucket Bool) {r : Router Addr}
    {path mount : String} {re : RouteEntry Addr} (hroute : r.root.longestPrefix path = some (mount, re))
    {paths : List String} (hpaths : sel re = pathsToRadix paths) :
    (r.specialPath sel path = true → specialPathsMatch paths (trimPrefix path mount) = true) ∧
      (OverlapFree paths →
        r.specialPath sel path = specialPathsMatch paths (trimPrefix path mount)) := by
  rw [Router.specialPath_eq hroute, hpaths]
  exact ⟨lookupSpecial_sound, lookupSpecial_of_overlapFree⟩

/-- A kv engine at `kv/` with the UUID `u1` and the accessor `kv_1234`. -/
def kvMount : MountEntry := ⟨"kv/", "kv", "u1", "kv_1234", false, 0, [], []⟩

/-- A backend with the given root paths that answers every request with nothing. -/
def rootPathsBackend (root : List String) : Backend Unit :=
  ⟨some ⟨root, []⟩, fun req => (req, none, none), fun req => (req, false, false, none)⟩

/-- The root paths `fo*` and `bar` of a mount at `kv/`, which do not overlap, and the path
`kv/foox`. -/
theorem specialPath_sound_exact_kv :
    let r := runRouterOps [.mount (some (rootPathsBackend ["fo*", "bar"])) "kv/" kvMount
      "logical/u1/"]
    (r.specialPath RouteEntry.rootPaths "kv/foox" = true →
        specialPathsMatch ["fo*", "bar"] (trimPrefix "kv/foox" "kv/") = true) ∧
      (OverlapFree ["fo*", "bar"] → r.specialPath RouteEntry.rootPaths "kv/foox" =
        specialPathsMatch ["fo*", "bar"] (trimPrefix "kv/foox" "kv/")) :=
  specialPath_sound_exact RouteEntry.rootPaths rfl rfl

/-- An exact entry that extends a prefix entry hides it: with `fo*` and `foo` among the root
paths of the mount `kv/`, `foox` is covered by `fo*`, and `RootPath` of `kv/foox` is false. -/
theorem rootPath_hides_prefix_entry :
    ∃ r : Router Unit, newRouter.mount (some (rootPathsBackend ["fo*", "foo"])) "kv/" kvMount
        "logical/u1/" = .ok r ∧
      r.rootPath "kv/foox" = false ∧ specialPathsMatch ["fo*", "foo"] "foox" = true :=
  ⟨_, rfl, by decide, by decide⟩

/-! ## Mount and unmount keep the caches sound -/

/-- The entry is mounted: a route entry of the root tree holds it. -/
def Router.Mounted (r : Router Addr) (e : MountEntry) : Prop :=
  ∃ pfx re, r.root.get pfx = some re ∧ re.mountEntry = e

/-- Every entry the cache holds is mounted, under its own identifier. -/
def Router.CacheSound (cache : Router Addr → Bucket MountEntry) (ident : MountEntry → String)
    (r : Router Addr) : Prop :=
  ∀ k e, (cache r).get k = some e → ident e = k ∧ r.Mounted e

/-- The router's invariant: both caches are sound. -/
structure Router.Inv (r : Router Addr) : Prop where
  uuid : r.CacheSound Router.mountUUIDCache MountEntry.uuid
  accessor : r.CacheSound Router.mountAccessorCache MountEntry.accessor

/-- A `Mount` that returns has added a route under a path that was not mounted. -/
theorem Router.mount_eq_ok {r r' : Router Addr} {backend : Option (Backend Addr)} {pfx : String}
    {e : MountEntry} {storagePrefix : String} (h : r.mount backend pfx e storagePrefix = .ok r') :
    r.root.get pfx = none ∧
      r' = ⟨r.root.put pfx ⟨e.tainted, backend, e, storagePrefix,
          pathsToRadix ((backend.bind Backend.specialPaths).getD ⟨[], []⟩).root,
          pathsToRadix ((backend.bind Backend.specialPaths).getD ⟨[], []⟩).unauthenticated⟩,
        r.mountUUIDCache.put e.uuid e, r.mountAccessorCache.put e.accessor e⟩ := by
  unfold Router.mount at h
  split at h
  · cases h
  rename_i hnest
  split_ifs at h with hpfx
  cases h
  refine ⟨?_, rfl⟩
  -- a mounted `pfx` would be its own longest mounted prefix, and refuse the mount
  cases hg : r.root.get pfx with
  | none => rfl
  | some re =>
    have hself := Bucket.longestPrefix_self ((Bucket.get_eq_some_iff _).mp hg)
    simp [hself, hpfx] at hnest

/-- `Unmount` of a mounted path drops its route and its entry from both caches. -/
theorem Router.unmount_eq {r : Router Addr} {pfx : String} {re : RouteEntry Addr}
    (h : r.root.get pfx = some re) :
    r.unmount pfx = ⟨r.root.delete pfx, r.mountUUIDCache.delete re.mountEntry.uuid,
      r.mountAccessorCache.delete re.mountEntry.accessor⟩ := by
  simp [Router.unmount, h]

section Caches

variable {cache : Router Addr → Bucket MountEntry} {ident : MountEntry → String} {r r' : Router Addr}

theorem Router.CacheSound.put (hs : r.CacheSound cache ident) {pfx : String} {re : RouteEntry Addr}
    (hnone : r.root.get pfx = none) (hroot : r'.root = r.root.put pfx re)
    (hcache : cache r' = (cache r).put (ident re.mountEntry) re.mountEntry) :
    r'.CacheSound cache ident := by
  intro k e he
  rw [hcache, Bucket.get_put] at he
  split at he
  · -- the entry mounted now
    next hk =>
    cases he
    exact ⟨hk.symm, pfx, re, by rw [hroot, Bucket.get_put, if_pos rfl], rfl⟩
  · -- an entry mounted before, at another path
    obtain ⟨hid, pfx', re', hg, rfl⟩ := hs k e he
    have hne : pfx' ≠ pfx := by
      rintro rfl
      rw [hnone] at hg
      cases hg
    exact ⟨hid, pfx', re', by rw [hroot, Bucket.get_put, if_neg hne, hg], rfl⟩

theorem Router.CacheSound.delete (hs : r.CacheSound cache ident) {pfx : String} {re : RouteEntry Addr}
    (hget : r.root.get pfx = some re) (hroot : r'.root = r.root.delete pfx)
    (hcache : cache r' = (cache r).delete (ident re.mountEntry)) :
    r'.CacheSound cache ident := by
  intro k e he
  rw [hcache, Bucket.get_delete] at he
  split at he
  · cases he
  next hk =>
  obtain ⟨hid, pfx', re', hg, rfl⟩ := hs k e he
  -- the entry kept is not the one unmounted, whose identifier is gone from the cache
  have hne : pfx' ≠ pfx := by
    rintro rfl
    rw [hget, Option.some.injEq] at hg
    subst hg
    exact hk hid.symm
  exact ⟨hid, pfx', re', by rw [hroot, Bucket.get_delete, if_neg hne, hg], rfl⟩

/-- An entry a cache lookup returns is mounted, with an identifier that is a prefix of the
one asked for. -/
theorem Router.CacheSound.matchingMountBy (hs : r.CacheSound cache ident) {s : String}
    {e : MountEntry} (h : r.matchingMountBy cache s = some e) :
    r.Mounted e ∧ hasPrefix s (ident e) = true := by
  unfold Router.matchingMountBy at h
  split_ifs at h
  obtain ⟨⟨k, e'⟩, hl, rfl⟩ := Option.map_eq_some_iff.mp h
  obtain ⟨hmem, hpk, -⟩ := Bucket.longestPrefix_spec hl
  obtain ⟨hid, hm⟩ := hs k e' ((Bucket.get_eq_some_iff _).mpr hmem)
  exact ⟨hm, hid ▸ hpk⟩

/-- An identifier in the cache finds its own entry. -/
theorem Router.matchingMountBy_of_get {s : String} {e : MountEntry} (hs : s ≠ "")
    (h : (cache r).get s = some e) : r.matchingMountBy cache s = some e := by
  simp [Router.matchingMountBy, hs, Bucket.longestPrefix_self ((Bucket.get_eq_some_iff _).mp h)]

end Caches

theorem Router.Inv.mount {r r' : Router Addr} (hi : r.Inv) {backend : Option (Backend Addr)}
    {pfx : String} {e : MountEntry} {storagePrefix : String}
    (h : r.mount backend pfx e storagePrefix = .ok r') : r'.Inv := by
  obtain ⟨hnone, rfl⟩ := Router.mount_eq_ok h
  exact ⟨hi.uuid.put hnone rfl rfl, hi.accessor.put hnone rfl rfl⟩

theorem Router.Inv.unmount {r : Router Addr} (hi : r.Inv) (pfx : String) : (r.unmount pfx).Inv := by
  cases hg : r.root.get pfx with
  | none => simpa [Router.unmount, hg] using hi
  | some re =>
    rw [Router.unmount_eq hg]
    exact ⟨hi.uuid.delete hg rfl rfl, hi.accessor.delete hg rfl rfl⟩

theorem Router.Inv.step {r : Router Addr} (hi : r.Inv) (op : RouterOp Addr) : (r.step op).Inv := by
  cases op with
  | mount backend pfx mountEntry storagePrefix =>
    show (match r.mount backend pfx mountEntry storagePrefix with
      | .ok r' => r'
      | .error _ => r).Inv
    split
    · next r' h => exact hi.mount h
    · exact hi
  | unmount pfx => exact hi.unmount pfx

theorem Router.Inv.run {r : Router Addr} (hi : r.Inv) (ops : List (RouterOp Addr)) :
    (ops.foldl Router.step r).Inv := by
  induction ops generalizing r with
  | nil => exact hi
  | cons op ops ih => exact ih (hi.step op)

theorem inv_newRouter : (newRouter : Router Addr).Inv :=
  ⟨fun _ _ h => by simp [newRouter, Bucket.empty, Bucket.get] at h,
    fun _ _ h => by simp [newRouter, Bucket.empty, Bucket.get] at h⟩

/-- After any run of `Mount` and `Unmount`, `MatchingMountByAccessor` and `MatchingMountByUUID`
return mounted entries whose identifier is a prefix of the one asked for, and an identifier
in the cache finds its own entry. -/
theorem matchingMount_sound (ops : List (RouterOp Addr)) (s : String) :
    let r := runRouterOps ops
    (∀ e, r.matchingMountByAccessor s = some e → r.Mounted e ∧ hasPrefix s e.accessor = true) ∧
    (∀ e, r.matchingMountByUUID s = some e → r.Mounted e ∧ hasPrefix s e.uuid = true) ∧
    (s ≠ "" → ∀ e, r.mountAccessorCache.get s = some e → r.matchingMountByAccessor s = some e) ∧
    (s ≠ "" → ∀ e, r.mountUUIDCache.get s = some e → r.matchingMountByUUID s = some e) := by
  have hi := inv_newRouter.run ops
  exact ⟨fun _ h => hi.accessor.matchingMountBy h, fun _ h => hi.uuid.matchingMountBy h,
    fun hs _ h => Router.matchingMountBy_of_get hs h, fun hs _ h => Router.matchingMountBy_of_get hs h⟩

/-- Lookups by identifier are by prefix: after mounting `kvMount`, the accessor `kv_1234x` and
the UUID `u1x`, which no mounted entry has, find it. -/
theorem matchingMountByAccessor_extended :
    let r : Router Unit := runRouterOps [.mount none "kv/" kvMount "logical/u1/"]
    r.matchingMountByAccessor "kv_1234x" = some kvMount ∧
      r.matchingMountByUUID "u1x" = some kvMount ∧
      ∀ e, r.Mounted e → e.accessor ≠ "kv_1234x" ∧ e.uuid ≠ "u1x" := by
  refine ⟨by decide, by decide, ?_⟩
  rintro e ⟨pfx, re, hg, rfl⟩
  -- the one route is the kv mount
  have hroot : (runRouterOps [.mount none "kv/" kvMount "logical/u1/"] : Router Unit).root =
      Bucket.empty.put "kv/" ⟨false, none, kvMount, "logical/u1/", pathsToRadix [],
        pathsToRadix []⟩ := rfl
  rw [hroot, Bucket.get_put] at hg
  split_ifs at hg
  · cases hg
    decide
  · simp [Bucket.empty, Bucket.get] at hg

end Vault.Routing
