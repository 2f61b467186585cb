import Vault.Physical.Transactions

/-!
# The physical LRU cache

`Cache` (sdk/physical/cache.go) puts a write-through LRU in front of a backend. A put
writes the backend and then the LRU, a delete removes the key from the LRU after the
backend delete, a get answers from the LRU (a cached miss answers nil) or reads the backend
and caches what it read, and a transaction of `TransactionalCache` updates the LRU entry by
entry, in list order, once the backend transaction has succeeded. Keys under the exception
paths of a `PathManager`, and every key while the cache is disabled, go straight to the
backend.

The LRU is a map from keys to cached answers; its size bound and replacement policy are left
open: the `n`-th add may evict any keys a schedule names. The backend is any backend with
`EntryMapSemantics`: it holds a map from keys to entries, and every call does what the map
operation does or fails and leaves the map unchanged.

The main result (`cache_get_coherent`): over any run of calls in which `SetEnabled(true)`
only comes right after a `Purge`, a get that returns returns the backend's entry. It follows
from an invariant (`Inv`) that each call keeps: the LRU holds no exception path, and while
the cache is enabled every entry it holds is the backend's.
-/

namespace Vault.Physical

/-! ## Exception paths -/

/-- `pathmanager.PathManager`: the keys of its radix tree (paths as character lists), each
with its exception flag. -/
structure PathManager where
  paths : List (List Char × Bool)

namespace PathManager

/-- The radix tree's insert: a key already present takes the new flag. -/
def insert (p : PathManager) (key : List Char) (exception : Bool) : PathManager :=
  ⟨(key, exception) :: p.paths.filter fun kv => kv.1 != key⟩

/-- `strings.TrimSuffix(s, "*")`. -/
def trimStar (s : List Char) : List Char :=
  if s.getLast? = some '*' then s.dropLast else s

/-- `AddPaths`: empty paths are skipped, a leading `!` marks an exception, and a trailing
`*` is trimmed. -/
def addPaths (p : PathManager) (paths : List String) : PathManager :=
  paths.foldl (fun p path =>
    match path.toList with
    | [] => p
    | '!' :: rest => p.insert (trimStar rest) true
    | cs => p.insert (trimStar cs) false) p

/-- The radix tree's `LongestPrefix`: the longest stored key that begins `path`. -/
def longestMatch (p : PathManager) (path : List Char) : Option (List Char × Bool) :=
  p.paths.foldl (fun best kv =>
    if kv.1.isPrefixOf path && best.all (fun b => b.1.length < kv.1.length) then some kv
    else best) none

/-- `HasPath`: the longest stored key that begins `path` exists and is no exception. -/
def hasPath (p : PathManager) (path : String) : Bool :=
  match p.longestMatch path.toList with
  | some (_, exception) => !exception
  | none => false

end PathManager

/-- `cacheExceptionsPaths`: paths the LRU does not need to hold. -/
def cacheExceptionsPaths : List String :=
  ["wal/logs/", "index/pages/", "index-dr/pages/", "sys/expire/", "core/poison-pill",
    "core/raft/tls", "core/license"]

/-! ## Backends and the cache -/

/-- `physical.Backend` together with `Transactional`: the calls the cache makes, each taking
the backend's state and returning its result and the new state. -/
structure Backend (σ : Type) where
  put : σ → Entry → Except String Unit × σ
  get : σ → String → Except String (Option Entry) × σ
  delete : σ → String → Except String Unit × σ
  list : σ → String → Except String (List String) × σ
  transaction : σ → List TxnEntry → Except String Unit × σ

/-- What one operation of a transaction does to a map from keys to entries. -/
def TxnEntry.applyEntry (txn : TxnEntry) (m : String → Option Entry) : String → Option Entry :=
  match txn.operation with
  | .delete => Function.update m txn.entry.key none
  | .put => Function.update m txn.entry.key (some txn.entry)
  | .get | .list => m

/-- What the LRU holds for a key: an entry, or a cached miss (`none`). -/
abbrev LRU := String → Option (Option Entry)

/-- `physical.Cache` (with `TransactionalCache`'s transactions). The LRU's size and
replacement policy are the schedule `evict`: the `n`-th add evicts the keys it names. -/
structure Cache (σ : Type) where
  backend : σ
  lru : LRU
  enabled : Bool
  cacheExceptions : PathManager
  evict : ℕ → String → Bool
  adds : ℕ

/-- `NewCache`: disabled, with an empty LRU and the exception paths loaded. -/
def newCache {σ : Type} (backend : σ) (evict : ℕ → String → Bool) : Cache σ :=
  ⟨backend, fun _ => none, false, (⟨[]⟩ : PathManager).addPaths cacheExceptionsPaths, evict, 0⟩

namespace Cache

variable {σ : Type} (b : Backend σ)

/-- The LRU's `Add`: the key takes the answer, and the keys this add evicts go. -/
def lruAdd (c : Cache σ) (key : String) (raw : Option Entry) : Cache σ :=
  { c with
    lru := fun k => if k = key then some raw else if c.evict c.adds k then none else c.lru k
    adds := c.adds + 1 }

/-- The LRU's `Remove`. -/
def lruRemove (c : Cache σ) (key : String) : Cache σ :=
  { c with lru := Function.update c.lru key none }

/-- `ShouldCache`. -/
def shouldCache (c : Cache σ) (key : String) : Bool :=
  c.enabled && !c.cacheExceptions.hasPath key

/-- `Put`: write-through. -/
def put (c : Cache σ) (entry : Entry) : Except String Unit × Cache σ :=
  if !c.shouldCache entry.key then
    let (err, s) := b.put c.backend entry
    (err, { c with backend := s })
  else
    match b.put c.backend entry with
    | (.ok (), s) => (.ok (), { c with backend := s }.lruAdd entry.key (some entry))
    | (.error err, s) => (.error err, { c with backend := s })

/-- `Get`; `refresh` is the context's cache-refresh flag. -/
def get (c : Cache σ) (refresh : Bool) (key : String) :
    Except String (Option Entry) × Cache σ :=
  if !c.shouldCache key then
    let (r, s) := b.get c.backend key
    (r, { c with backend := s })
  else
    -- the LRU first, unless asked to refresh; a cached miss answers nil
    match (if refresh then none else c.lru key) with
    | some raw => (.ok raw, c)
    | none =>
      match b.get c.backend key with
      | (.error err, s) => (.error err, { c with backend := s })
      | (.ok ent, s) => (.ok ent, { c with backend := s }.lruAdd key ent)

/-- `Delete`: the key leaves the LRU once the backend has deleted it. -/
def delete (c : Cache σ) (key : String) : Except String Unit × Cache σ :=
  if !c.shouldCache key then
    let (err, s) := b.delete c.backend key
    (err, { c with backend := s })
  else
    match b.delete c.backend key with
    | (.ok (), s) => (.ok (), { c with backend := s }.lruRemove key)
    | (.error err, s) => (.error err, { c with backend := s })

/-- `List`: always passed through. -/
def list (c : Cache σ) (pfx : String) : Except String (List String) × Cache σ :=
  let (r, s) := b.list c.backend pfx
  (r, { c with backend := s })

/-- The LRU update for one operation of a transaction that succeeded. -/
def txnUpdate (c : Cache σ) (txn : TxnEntry) : Cache σ :=
  if !c.shouldCache txn.entry.key then c
  else
    match txn.operation with
    | .put => c.lruAdd txn.entry.key (some txn.entry)
    | .delete => c.lruRemove txn.entry.key
    | _ => c

/-- `TransactionalCache.Transaction`. -/
def transaction (c : Cache σ) (txns : List TxnEntry) : Except String Unit × Cache σ :=
  if !c.enabled then
    let (err, s) := b.transaction c.backend txns
    (err, { c with backend := s })
  else
    match b.transaction c.backend txns with
    | (.error err, s) => (.error err, { c with backend := s })
    | (.ok (), s) => (.ok (), txns.foldl txnUpdate { c with backend := s })

/-- `Purge`. -/
def purge (c : Cache σ) : Cache σ := { c with lru := fun _ => none }

/-- `SetEnabled`. -/
def setEnabled (c : Cache σ) (enabled : Bool) : Cache σ := { c with enabled := enabled }

end Cache

/-- The calls a run of the cache is made of. -/
inductive CacheOp where
  | put (entry : Entry)
  | get (refresh : Bool) (key : String)
  | delete (key : String)
  | list (pfx : String)
  | transaction (txns : List TxnEntry)
  | purge
  | setEnabled (enabled : Bool)
deriving DecidableEq, Repr

namespace Cache

variable {σ : Type} (b : Backend σ)

/-- One call on the cache, its result dropped. -/
def step (c : Cache σ) : CacheOp → Cache σ
  | .put entry => (c.put b entry).2
  | .get refresh key => (c.get b refresh key).2
  | .delete key => (c.delete b key).2
  | .list pfx => (c.list b pfx).2
  | .transaction txns => (c.transaction b txns).2
  | .purge => c.purge
  | .setEnabled enabled => c.setEnabled enabled

/-- A run of calls. -/
def run (c : Cache σ) (ops : List CacheOp) : Cache σ := ops.foldl (step b) c

end Cache

/-- Every `SetEnabled(true)` of a run comes right after a `Purge`; `prev` is the call before
the run (a fresh cache counts as purged). -/
def EnableAfterPurge : CacheOp → List CacheOp → Prop
  | _, [] => True
  | prev, op :: ops => (op = .setEnabled true → prev = .purge) ∧ EnableAfterPurge op ops

/-! ## Backends that hold a map -/

section EntryMapSemantics

variable {σ : Type}

/-- A backend whose state holds the map `view s` from keys to entries, on which every call
does what the map operation does or fails and leaves the map unchanged. -/
structure EntryMapSemantics (b : Backend σ) (view : σ → String → Option Entry) : Prop where
  get_view : ∀ s key, view (b.get s key).2 = view s
  get_ok : ∀ s key r, (b.get s key).1 = .ok r → r = view s key
  put_ok : ∀ s entry, (b.put s entry).1 = .ok () →
    view (b.put s entry).2 = Function.update (view s) entry.key (some entry)
  put_error : ∀ s entry err, (b.put s entry).1 = .error err → view (b.put s entry).2 = view s
  delete_ok : ∀ s key, (b.delete s key).1 = .ok () →
    view (b.delete s key).2 = Function.update (view s) key none
  delete_error : ∀ s key err, (b.delete s key).1 = .error err →
    view (b.delete s key).2 = view s
  list_view : ∀ s pfx, view (b.list s pfx).2 = view s
  transaction_ok : ∀ s txns, (b.transaction s txns).1 = .ok () →
    view (b.transaction s txns).2 = txns.foldl (fun m txn => txn.applyEntry m) (view s)
  transaction_error : ∀ s txns err, (b.transaction s txns).1 = .error err →
    view (b.transaction s txns).2 = view s

variable {b : Backend σ} {view : σ → String → Option Entry} (hb : EntryMapSemantics b view)
include hb

theorem EntryMapSemantics.get_eq {s s' : σ} {key : String} {r : Except String (Option Entry)}
    (h : b.get s key = (r, s')) : view s' = view s := by
  rw [← hb.get_view s key, h]

theorem EntryMapSemantics.get_eq_ok {s s' : σ} {key : String} {ent : Option Entry}
    (h : b.get s key = (.ok ent, s')) : ent = view s key :=
  hb.get_ok s key ent (by rw [h])

/-- A put changes the map at most at its key, and stores its entry there when it returns. -/
theorem EntryMapSemantics.put_off {s s' : σ} {entry : Entry} {r : Except String Unit}
    (h : b.put s entry = (r, s')) : ∀ k, k ≠ entry.key → view s' k = view s k := by
  intro k hk
  cases r with
  | ok u =>
    rw [← show (b.put s entry).2 = s' by rw [h], hb.put_ok s entry (by rw [h]),
      Function.update_of_ne hk]
  | error err => rw [← show (b.put s entry).2 = s' by rw [h], hb.put_error s entry err (by rw [h])]

theorem EntryMapSemantics.put_eq_ok {s s' : σ} {entry : Entry}
    (h : b.put s entry = (.ok (), s')) : view s' entry.key = some entry := by
  rw [← show (b.put s entry).2 = s' by rw [h], hb.put_ok s entry (by rw [h]),
    Function.update_self]

/-- A delete changes the map at most at its key. -/
theorem EntryMapSemantics.delete_off {s s' : σ} {key : String} {r : Except String Unit}
    (h : b.delete s key = (r, s')) : ∀ k, k ≠ key → view s' k = view s k := by
  intro k hk
  cases r with
  | ok u =>
    rw [← show (b.delete s key).2 = s' by rw [h], hb.delete_ok s key (by rw [h]),
      Function.update_of_ne hk]
  | error err =>
    rw [← show (b.delete s key).2 = s' by rw [h], hb.delete_error s key err (by rw [h])]

theorem EntryMapSemantics.put_eq_error {s s' : σ} {entry : Entry} {err : String}
    (h : b.put s entry = (.error err, s')) : view s' = view s := by
  rw [← hb.put_error s entry err (by rw [h]), h]

theorem EntryMapSemantics.delete_eq_error {s s' : σ} {key : String} {err : String}
    (h : b.delete s key = (.error err, s')) : view s' = view s := by
  rw [← hb.delete_error s key err (by rw [h]), h]

theorem EntryMapSemantics.list_eq {s s' : σ} {pfx : String} {r : Except String (List String)}
    (h : b.list s pfx = (r, s')) : view s' = view s := by
  rw [← hb.list_view s pfx, h]

theorem EntryMapSemantics.transaction_eq_ok {s s' : σ} {txns : List TxnEntry}
    (h : b.transaction s txns = (.ok (), s')) :
    view s' = txns.foldl (fun m txn => txn.applyEntry m) (view s) := by
  rw [← hb.transaction_ok s txns (by rw [h]), h]

theorem EntryMapSemantics.transaction_eq_error {s s' : σ} {txns : List TxnEntry} {err : String}
    (h : b.transaction s txns = (.error err, s')) : view s' = view s := by
  rw [← hb.transaction_error s txns err (by rw [h]), h]

end EntryMapSemantics

/-! ## A backend holding a list of entries -/

/-- The entry a list of entries holds for a key: the first one under it. -/
def listView (s : List Entry) (key : String) : Option Entry := s.find? fun e => e.key == key

/-- The list without the entries under a key. -/
def dropKey (s : List Entry) (key : String) : List Entry := s.filter fun e => e.key != key

/-- What one operation of a transaction does to a list of entries. -/
def applyToList (s : List Entry) (txn : TxnEntry) : List Entry :=
  match txn.operation with
  | .put => txn.entry :: dropKey s txn.entry.key
  | .delete => dropKey s txn.entry.key
  | .get | .list => s

/-- An in-memory backend whose calls never fail: entries in a list, newest first. -/
def listBackend : Backend (List Entry) where
  put s entry := (.ok (), entry :: dropKey s entry.key)
  get s key := (.ok (listView s key), s)
  delete s key := (.ok (), dropKey s key)
  list s pfx := (.ok ((s.map Entry.key).filter fun key => pfx.toList.isPrefixOf key.toList), s)
  transaction s txns := (.ok (), txns.foldl applyToList s)

theorem listView_dropKey (s : List Entry) (key : String) :
    listView (dropKey s key) = Function.update (listView s) key none := by
  funext k
  induction s with
  | nil => by_cases hk : k = key <;> simp [listView, dropKey, Function.update, hk]
  | cons e s ih =>
    by_cases he : e.key = key
    · -- the dropped entry: the key itself is gone, and another key was not under it
      have hf : dropKey (e :: s) key = dropKey s key := by simp [dropKey, he]
      rw [hf, ih]
      by_cases hk : k = key
      · simp [hk]
      · have hek : (e.key == k) = false := by simp [he, Ne.symm hk]
        simp [Function.update_of_ne hk, listView, hek]
    · have hf : dropKey (e :: s) key = e :: dropKey s key := by simp [dropKey, he]
      rw [hf]
      by_cases hek : e.key = k
      · have hk : k ≠ key := fun h => he (hek.trans h)
        simp [listView, hek, Function.update_of_ne hk]
      · have hek' : (e.key == k) = false := by simp [hek]
        simp only [listView] at ih
        simp only [listView, List.find?_cons, hek', ih]
        by_cases hk : k = key
        · simp [hk]
        · simp [Function.update_of_ne hk, listView, hek']

theorem listView_cons_dropKey (s : List Entry) (entry : Entry) :
    listView (entry :: dropKey s entry.key) = Function.update (listView s) entry.key (some entry) := by
  funext k
  by_cases hk : k = entry.key
  · subst hk
    simp [listView]
  · have hek : (entry.key == k) = false := by simp [Ne.symm hk]
    have := congrFun (listView_dropKey s entry.key) k
    simp only [listView] at this
    simp [listView, hek, this, Function.update_of_ne hk]

theorem listView_applyToList (s : List Entry) (txn : TxnEntry) :
    listView (applyToList s txn) = txn.applyEntry (listView s) := by
  unfold applyToList TxnEntry.applyEntry
  split <;> simp_all [listView_cons_dropKey, listView_dropKey]

theorem listBackend_entryMapSemantics : EntryMapSemantics listBackend listView where
  get_view _ _ := rfl
  get_ok _ _ _ h := by cases h; rfl
  put_ok s entry _ := listView_cons_dropKey s entry
  put_error _ _ _ h := by cases h
  delete_ok s key _ := listView_dropKey s key
  delete_error _ _ _ h := by cases h
  list_view _ _ := rfl
  transaction_ok s txns h := by
    clear h
    show listView (txns.foldl applyToList s) = _
    induction txns generalizing s with
    | nil => rfl
    | cons txn txns ih => rw [List.foldl_cons, ih, List.foldl_cons, listView_applyToList]
  transaction_error _ _ _ h := by cases h

/-! ## The coherence invariant -/

namespace Cache

variable {σ : Type}

@[simp] theorem lruAdd_enabled (c : Cache σ) (key : String) (raw : Option Entry) :
    (c.lruAdd key raw).enabled = c.enabled := rfl

@[simp] theorem lruAdd_cacheExceptions (c : Cache σ) (key : String) (raw : Option Entry) :
    (c.lruAdd key raw).cacheExceptions = c.cacheExceptions := rfl

@[simp] theorem lruAdd_backend (c : Cache σ) (key : String) (raw : Option Entry) :
    (c.lruAdd key raw).backend = c.backend := rfl

@[simp] theorem lruRemove_backend (c : Cache σ) (key : String) :
    (c.lruRemove key).backend = c.backend := rfl

theorem shouldCache_eq_true {c : Cache σ} {key : String} (h : c.shouldCache key = true) :
    c.enabled = true ∧ c.cacheExceptions.hasPath key = false := by
  simpa [shouldCache] using h

/-- The invariant against a map `m`: the LRU holds no exception path, and while the cache is
enabled every answer it holds is `m`'s. -/
structure InvAt (m : String → Option Entry) (c : Cache σ) : Prop where
  no_exception : ∀ key, c.lru key ≠ none → c.cacheExceptions.hasPath key = false
  coherent : c.enabled = true → ∀ key raw, c.lru key = some raw → raw = m key

/-- The cache's invariant: `InvAt` against the backend's map. -/
def Inv (view : σ → String → Option Entry) (c : Cache σ) : Prop := InvAt (view c.backend) c

variable {m m' : String → Option Entry} {c : Cache σ} {key : String}

/-- A key the cache passes through is not in the LRU while the cache is enabled. -/
theorem InvAt.lru_eq_none (h : InvAt m c) (hc : c.shouldCache key = false)
    (hen : c.enabled = true) : c.lru key = none := by
  by_contra hk
  have hex := h.no_exception key hk
  simp [shouldCache, hen, hex] at hc

/-- The map may change at a key the enabled LRU does not hold. -/
theorem InvAt.update_off (h : InvAt m c) (hkey : c.enabled = true → c.lru key = none)
    (hs : ∀ k, k ≠ key → m' k = m k) : InvAt m' c where
  no_exception := h.no_exception
  coherent hen k raw hk := by
    have hne : k ≠ key := by
      rintro rfl
      rw [hkey hen] at hk
      cases hk
    rw [hs k hne]
    exact h.coherent hen k raw hk

/-- An add of the map's answer for a key that is no exception path. -/
theorem InvAt.lruAdd {raw : Option Entry} (h : InvAt m c) (hs : ∀ k, k ≠ key → m' k = m k)
    (hex : c.cacheExceptions.hasPath key = false) (hraw : c.enabled = true → raw = m' key) :
    InvAt m' (c.lruAdd key raw) where
  no_exception k hk := by
    by_cases hkey : k = key
    · rw [hkey]
      exact hex
    · -- an evicted key holds nothing, any other key its old answer
      simp only [Cache.lruAdd, hkey, if_false] at hk
      split at hk
      · exact absurd rfl hk
      · exact h.no_exception k hk
  coherent hen k r hk := by
    by_cases hkey : k = key
    · subst hkey
      simp only [Cache.lruAdd, if_true, Option.some.injEq] at hk
      rw [← hk]
      exact hraw hen
    · simp only [Cache.lruAdd, hkey, if_false] at hk
      split at hk
      · cases hk
      · rw [hs k hkey]
        exact h.coherent hen k r hk

/-- A remove of the only key at which the map changed. -/
theorem InvAt.lruRemove (h : InvAt m c) (hs : ∀ k, k ≠ key → m' k = m k) :
    InvAt m' (c.lruRemove key) where
  no_exception k hk := by
    by_cases hkey : k = key
    · subst hkey
      simp [Cache.lruRemove] at hk
    · exact h.no_exception k (by simpa [Cache.lruRemove, hkey] using hk)
  coherent hen k r hk := by
    by_cases hkey : k = key
    · subst hkey
      simp [Cache.lruRemove] at hk
    · rw [hs k hkey]
      exact h.coherent hen k r (by simpa [Cache.lruRemove, hkey] using hk)

/-- One operation of a successful transaction, against the map after the operation. -/
theorem InvAt.txnUpdate (h : InvAt m c) (txn : TxnEntry) :
    InvAt (txn.applyEntry m) (c.txnUpdate txn) := by
  have hs : ∀ k, k ≠ txn.entry.key → txn.applyEntry m k = m k := by
    intro k hk
    cases hop : txn.operation <;> simp [TxnEntry.applyEntry, hop, Function.update_of_ne hk]
  unfold Cache.txnUpdate
  by_cases hc : c.shouldCache txn.entry.key
  · obtain ⟨-, hex⟩ := shouldCache_eq_true hc
    simp only [hc, Bool.not_true, Bool.false_eq_true, if_false]
    -- a put adds the entry it stored, a delete removes the key, a get or list does nothing
    cases hop : txn.operation
    · exact h.lruRemove hs
    · simpa [TxnEntry.applyEntry, hop] using h
    · simpa [TxnEntry.applyEntry, hop] using h
    · exact h.lruAdd hs hex fun _ => by simp [TxnEntry.applyEntry, hop]
  · simp only [Bool.not_eq_true] at hc
    simp only [hc, Bool.not_false, if_true]
    exact h.update_off (h.lru_eq_none hc) hs

@[simp] theorem txnUpdate_backend (c : Cache σ) (txn : TxnEntry) :
    (c.txnUpdate txn).backend = c.backend := by
  unfold Cache.txnUpdate
  split
  · rfl
  · split <;> rfl

/-- The LRU updates after a successful transaction, against the map after the transaction. -/
theorem InvAt.txnUpdates (txns : List TxnEntry) (h : InvAt m c) :
    InvAt (txns.foldl (fun m txn => txn.applyEntry m) m) (txns.foldl Cache.txnUpdate c) := by
  induction txns generalizing m c with
  | nil => exact h
  | cons txn txns ih => exact ih (h.txnUpdate txn)

theorem txnUpdates_backend (txns : List TxnEntry) (c : Cache σ) :
    (txns.foldl txnUpdate c).backend = c.backend := by
  induction txns generalizing c with
  | nil => rfl
  | cons txn txns ih => rw [List.foldl_cons, ih, txnUpdate_backend]

/-- The invariant does not read the backend. -/
theorem InvAt.withBackend (h : InvAt m c) (s : σ) : InvAt m { c with backend := s } :=
  ⟨h.no_exception, h.coherent⟩

/-- A disabled cache keeps no promise about its LRU's answers. -/
theorem InvAt.of_disabled (h : InvAt m c) (hen : c.enabled = false) : InvAt m' c where
  no_exception := h.no_exception
  coherent hen' := absurd hen' (by simp [hen])

/-- An empty LRU. -/
theorem InvAt.of_empty (hc : c.lru = fun _ => none) : InvAt m c where
  no_exception key hk := absurd (by rw [hc]) hk
  coherent _ key raw hk := by simp [hc] at hk

/-! ## Every call keeps the invariant -/

section Steps

variable {b : Backend σ} {view : σ → String → Option Entry} (hb : EntryMapSemantics b view)
include hb

theorem inv_put (h : Inv view c) (entry : Entry) : Inv view (c.put b entry).2 := by
  unfold Cache.put Inv
  by_cases hc : c.shouldCache entry.key
  · obtain ⟨-, hex⟩ := shouldCache_eq_true hc
    simp only [hc, Bool.not_true, Bool.false_eq_true, if_false]
    rcases hp : b.put c.backend entry with ⟨err | ⟨⟩, s⟩ <;> dsimp only
    · rw [hb.put_eq_error hp]
      exact h.withBackend s
    · exact (h.withBackend s).lruAdd (hb.put_off hp) hex fun _ => (hb.put_eq_ok hp).symm
  · -- passed through: the LRU does not hold the key while enabled
    simp only [Bool.not_eq_true] at hc
    rcases hp : b.put c.backend entry with ⟨r, s⟩
    simp only [hc, Bool.not_false, if_true]
    exact (h.update_off (h.lru_eq_none hc) (hb.put_off hp)).withBackend s

theorem inv_get (h : Inv view c) (refresh : Bool) (key : String) :
    Inv view (c.get b refresh key).2 := by
  unfold Cache.get Inv
  by_cases hc : c.shouldCache key
  · obtain ⟨-, hex⟩ := shouldCache_eq_true hc
    simp only [hc, Bool.not_true, Bool.false_eq_true, if_false]
    split
    · -- answered from the LRU
      exact h
    · rcases hg : b.get c.backend key with ⟨err | ent, s⟩ <;> dsimp only
      · rw [hb.get_eq hg]
        exact h.withBackend s
      · -- a miss caches what the backend answered
        have hv := hb.get_eq hg
        refine (h.withBackend s).lruAdd (fun k _ => congrFun hv k) hex fun _ => ?_
        rw [lruAdd_backend, hv]
        exact hb.get_eq_ok hg
  · simp only [Bool.not_eq_true] at hc
    rcases hg : b.get c.backend key with ⟨r, s⟩
    simp only [hc, Bool.not_false, if_true]
    rw [hb.get_eq hg]
    exact h.withBackend s

theorem inv_delete (h : Inv view c) (key : String) : Inv view (c.delete b key).2 := by
  unfold Cache.delete Inv
  by_cases hc : c.shouldCache key
  · simp only [hc, Bool.not_true, Bool.false_eq_true, if_false]
    rcases hd : b.delete c.backend key with ⟨err | ⟨⟩, s⟩ <;> dsimp only
    · rw [hb.delete_eq_error hd]
      exact h.withBackend s
    · exact (h.withBackend s).lruRemove (hb.delete_off hd)
  · simp only [Bool.not_eq_true] at hc
    rcases hd : b.delete c.backend key with ⟨r, s⟩
    simp only [hc, Bool.not_false, if_true]
    exact (h.update_off (h.lru_eq_none hc) (hb.delete_off hd)).withBackend s

theorem inv_list (h : Inv view c) (pfx : String) : Inv view (c.list b pfx).2 := by
  unfold Cache.list Inv
  rcases hl : b.list c.backend pfx with ⟨r, s⟩
  rw [hb.list_eq hl]
  exact h.withBackend s

theorem inv_transaction (h : Inv view c) (txns : List TxnEntry) :
    Inv view (c.transaction b txns).2 := by
  unfold Cache.transaction Inv
  by_cases hen : c.enabled = true
  · rw [if_neg (by simp [hen])]
    rcases ht : b.transaction c.backend txns with ⟨err | ⟨⟩, s⟩ <;> dsimp only
    · rw [hb.transaction_eq_error ht]
      exact h.withBackend s
    · -- the LRU follows the operations in list order, as the backend applied them
      rw [txnUpdates_backend, hb.transaction_eq_ok ht]
      exact InvAt.txnUpdates txns (h.withBackend s)
  · -- disabled: passed through, and nothing is promised
    simp only [Bool.not_eq_true] at hen
    rw [if_pos (by simp [hen])]
    rcases ht : b.transaction c.backend txns with ⟨r, s⟩
    exact (h.withBackend s).of_disabled hen

/-- A call keeps the invariant; enabling the cache needs an empty LRU. -/
theorem inv_step (h : Inv view c) (op : CacheOp)
    (hop : op = .setEnabled true → c.lru = fun _ => none) : Inv view (c.step b op) := by
  cases op with
  | put entry => exact inv_put hb h entry
  | get refresh key => exact inv_get hb h refresh key
  | delete key => exact inv_delete hb h key
  | list pfx => exact inv_list hb h pfx
  | transaction txns => exact inv_transaction hb h txns
  | purge => exact InvAt.of_empty rfl
  | setEnabled enabled =>
    cases enabled with
    | false => exact ⟨h.no_exception, fun hen => by cases hen⟩
    | true => exact InvAt.of_empty (hop rfl)

/-- A run keeps the invariant when every `SetEnabled(true)` comes right after a `Purge`. -/
theorem inv_run (ops : List CacheOp) (prev : CacheOp) (hops : EnableAfterPurge prev ops)
    (h : Inv view c) (hprev : prev = .purge → c.lru = fun _ => none) :
    Inv view (c.run b ops) := by
  induction ops generalizing prev c with
  | nil => exact h
  | cons op ops ih =>
    obtain ⟨hop, hops⟩ := hops
    refine ih op hops (inv_step hb h op fun he => hprev (hop he)) ?_
    -- a purge leaves the LRU empty for the call after it
    rintro rfl
    rfl

/-- Under the invariant a get that returns answers the backend's entry. -/
theorem get_coherent (h : Inv view c) {refresh : Bool} {key : String} {r : Option Entry}
    (hget : (c.get b refresh key).1 = .ok r) : r = view c.backend key := by
  rcases hg : b.get c.backend key with ⟨r', s⟩
  unfold Cache.get at hget
  by_cases hc : c.shouldCache key
  · obtain ⟨hen, -⟩ := shouldCache_eq_true hc
    simp only [hc, Bool.not_true, Bool.false_eq_true, if_false] at hget
    split at hget
    · -- from the LRU: the invariant's promise
      rename_i raw hraw
      cases hget
      apply h.coherent hen key
      cases refresh
      · simpa using hraw
      · simp at hraw
    · simp only [hg] at hget
      cases r' with
      | ok ent =>
        cases hget
        exact hb.get_eq_ok hg
      | error err => cases hget
  · simp only [Bool.not_eq_true] at hc
    rw [if_pos (by simp [hc]), hg] at hget
    dsimp only at hget
    subst hget
    exact hb.get_eq_ok hg

end Steps

end Cache

open Cache in
theorem cache_get_coherent {σ : Type} (b : Backend σ) (view : σ → String → Option Entry)
    (hb : EntryMapSemantics b view) (s : σ) (evict : ℕ → String → Bool) (ops : List CacheOp)
    (hops : EnableAfterPurge .purge ops) (refresh : Bool) (key : String) (r : Option Entry)
    (hget : (((newCache s evict).run b ops).get b refresh key).1 = .ok r) :
    r = view ((newCache s evict).run b ops).backend key :=
  get_coherent hb (inv_run hb ops .purge hops (InvAt.of_empty rfl) fun _ => rfl) hget

/-- Purge, enable, put, then get the key just put. -/
theorem cache_get_coherent_after_put :
    some ⟨"k", [1], false⟩ = listView ((newCache [] fun _ _ => false).run listBackend
      [.purge, .setEnabled true, .put ⟨"k", [1], false⟩]).backend "k" :=
  cache_get_coherent listBackend listView listBackend_entryMapSemantics [] (fun _ _ => false)
    [.purge, .setEnabled true, .put ⟨"k", [1], false⟩]
    ⟨by simp, fun _ => rfl, by simp, trivial⟩ false "k" _ (by decide)

end Vault.Physical
