import Vault.Physical.Listing
import Vault.Physical.Transactions
import Vault.Lib.Worklist

/-!
# Storage views, and clearing one

A `StorageView` is a storage seen under a prefix. It refuses a key that holds `..`, and puts
the prefix in front of any other key before the storage sees it. A `BarrierView` is a storage
view over the barrier that can be made read-only: its `Put` and `Delete` then fail with the
error it was given. Each mount keeps its data in a barrier view under `logical/<uuid>/`.

`ScanView` walks a view depth first on an explicit stack of folders, starting at the top. It
lists the folder on top, hands each key to a callback and pushes each subfolder.
`CollectKeysWithPrefix` gathers the keys it is handed. `ClearView` deletes them one by one,
which is how unmounting removes a mount's data.

Over a storage that lists its keys the way the in-memory backend does, the walk ends within
`scanBound` turns and hands over every key of the view exactly once (`scanView_visits`). Two
facts carry this. The keys handed over and the keys below the folders on the stack always form
a permutation of the view's keys (`Worklist.perm_pop_push`, by `perm_listing`). And the length
the stack's folders leave of their keys shrinks at every turn (`folderSize`).

Clearing a view over the in-memory backend therefore deletes exactly the keys under the view's
prefix, and no other. This holds as long as no key under the prefix holds `..` after the
prefix: the view can neither list nor delete such a key.

The barrier passes `List` and `Delete` to its backend once unsealed. The storage below the
views is therefore taken to be the in-memory backend. A context is never cancelled, and the
logging of `ClearViewWithLogging` is left out.
-/

namespace Vault.Logical

open GoRuntime GoStrings SortedStore Vault.Physical Vault.Raft Worklist

/-- `logical.ErrRelativePath`. -/
def errRelativePath : String := "relative paths not supported"

/-- `logical.Storage`: its four calls on a storage in state `σ`. A `logical.StorageEntry` has
the fields of a `physical.Entry`, and a call that fails leaves the state as it was. -/
structure Storage (σ : Type) where
  list : σ → String → Go (List String)
  get : σ → String → Go (Option Entry)
  put : σ → Entry → Go σ
  delete : σ → String → Go σ

/-- `StorageView`: a storage seen under `pfx`. -/
structure StorageView where
  pfx : String
deriving DecidableEq, Repr

namespace StorageView

/-- `StorageView.SanityCheck`: a key may not hold `..`. -/
def sanityCheck (key : String) : Go Unit :=
  if contains key ".." then throw (.error errRelativePath) else pure ()

/-- `StorageView.ExpandKey`. -/
def expandKey (v : StorageView) (suffix : String) : String := v.pfx ++ suffix

/-- `StorageView.TruncateKey`. -/
def truncateKey (v : StorageView) (full : String) : String := trimPrefix full v.pfx

/-- `StorageView.SubView`. -/
def subView (v : StorageView) (p : String) : StorageView := ⟨v.expandKey p⟩

variable {σ : Type} (st : Storage σ)

/-- `StorageView.List`. -/
def list (v : StorageView) (s : σ) (p : String) : Go (List String) := do
  sanityCheck p
  st.list s (v.expandKey p)

/-- `StorageView.Get`: the entry under the expanded key, handed back under its own key. -/
def get (v : StorageView) (s : σ) (key : String) : Go (Option Entry) := do
  sanityCheck key
  let entry ← st.get s (v.expandKey key)
  match entry with
  | none => pure none
  | some entry =>
    pure (some { key := v.truncateKey entry.key, value := entry.value, sealWrap := entry.sealWrap })

/-- `StorageView.Put`, of an entry or of nil. -/
def put (v : StorageView) (s : σ) : Option Entry → Go σ
  | none => throw (.error "cannot write nil entry")
  | some entry => do
    sanityCheck entry.key
    st.put s { key := v.expandKey entry.key, value := entry.value, sealWrap := entry.sealWrap }

/-- `StorageView.Delete`. -/
def delete (v : StorageView) (s : σ) (key : String) : Go σ := do
  sanityCheck key
  st.delete s (v.expandKey key)

end StorageView

/-- `BarrierView`: a storage view over the barrier, and the error that makes it read-only. -/
structure BarrierView where
  storage : StorageView
  readOnlyErr : Option String
deriving DecidableEq, Repr

/-- `NewBarrierView`. -/
def newBarrierView (p : String) : BarrierView := ⟨⟨p⟩, none⟩

namespace BarrierView

/-- `runICheck`: this build checks every key. -/
def runICheck (_v : BarrierView) (_expandedKey : String) (_roErr : String) : Bool := true

/-- What `Put` and `Delete` do before writing: a read-only view fails with its error. -/
def checkReadOnly (v : BarrierView) (expandedKey : String) : Go Unit :=
  match v.readOnlyErr with
  | some roErr => if v.runICheck expandedKey roErr then throw (.error roErr) else pure ()
  | none => pure ()

variable {σ : Type} (st : Storage σ)

/-- `BarrierView.List`. -/
def list (v : BarrierView) (s : σ) (p : String) : Go (List String) := v.storage.list st s p

/-- `BarrierView.Get`. -/
def get (v : BarrierView) (s : σ) (key : String) : Go (Option Entry) := v.storage.get st s key

/-- `BarrierView.Put`. -/
def put (v : BarrierView) (s : σ) : Option Entry → Go σ
  | none => throw (.error "cannot write nil entry")
  | some entry => do
    v.checkReadOnly (v.storage.expandKey entry.key)
    v.storage.put st s (some entry)

/-- `BarrierView.Delete`. -/
def delete (v : BarrierView) (s : σ) (key : String) : Go σ := do
  v.checkReadOnly (v.storage.expandKey key)
  v.storage.delete st s key

/-- `BarrierView.SubView`: the read-only error is kept. -/
def subView (v : BarrierView) (p : String) : BarrierView :=
  { storage := v.storage.subView p, readOnlyErr := v.readOnlyErr }

end BarrierView

/-! ## Scanning and clearing a view -/

/-- `ClearableView`: the calls `ScanView` and `ClearView` make of a view. -/
structure ClearableView (σ : Type) where
  list : σ → String → Go (List String)
  delete : σ → String → Go σ

/-- A barrier view, as unmounting hands it to `ClearView`. -/
def BarrierView.clearable {σ : Type} (st : Storage σ) (v : BarrierView) : ClearableView σ :=
  ⟨v.list st, v.delete st⟩

section Scan

variable {β : Type}

/-- One name of the listing of `current`, as the inner loop of `ScanView` takes it: a name
ending in `/` is a folder and goes on the stack, any other is a key and goes to `cb`. -/
def scanEntry (cb : β → String → β) (current : String) (acc : List String × β) (c : String) :
    List String × β :=
  let fullPath := current ++ c
  if hasSuffix c "/" then (acc.1 ++ [fullPath], acc.2) else (acc.1, cb acc.2 fullPath)

/-- The loop of `ScanView`, at most `fuel` turns (`none` when they run out): the stack of
folders still to list, and what `cb` has made of the keys so far. -/
def scanLoop (list : String → Go (List String)) (cb : β → String → β) :
    ℕ → List String → β → Option (Go β)
  | 0, _, _ => none
  | fuel + 1, frontier, b =>
    match frontier.getLast? with
    | none => some (.ok b)
    | some current =>
      match wrapError ("list failed at path " ++ goQuote current ++ ": ") (list current) with
      | .error e => some (.error e)
      | .ok contents =>
        let acc := contents.foldl (scanEntry cb current) (frontier.dropLast, b)
        scanLoop list cb fuel acc.1 acc.2

/-- `ScanView`: the walk from the top of the view, `cb` folded over the keys it meets. -/
def scanView (list : String → Go (List String)) (cb : β → String → β) (fuel : ℕ) (b : β) :
    Option (Go β) :=
  scanLoop list cb fuel [""] b

end Scan

/-- `CollectKeysWithPrefix`: the keys that start with `pfx`, in the order the scan meets them. -/
def collectKeysWithPrefix (list : String → Go (List String)) (fuel : ℕ) (pfx : String) :
    Option (Go (List String)) :=
  scanView list (fun keys path => if hasPrefix path pfx then keys ++ [path] else keys) fuel []

/-- `CollectKeys`. -/
def collectKeys (list : String → Go (List String)) (fuel : ℕ) : Option (Go (List String)) :=
  collectKeysWithPrefix list fuel ""

section Clear

variable {σ : Type}

/-- The loop of `ClearViewWithLogging` over the keys: the first failed deletion stops it, and
the deletions before it stay done. -/
def deleteKeys (delete : σ → String → Go σ) (s : σ) : List String → Go Unit × σ
  | [] => (.ok (), s)
  | key :: keys =>
    match delete s key with
    | .error e => (.error e, s)
    | .ok s' => deleteKeys delete s' keys

/-- `ClearViewWithLogging`: the keys of the view collected, then deleted one by one. It gives
the result and the state the storage is left in. -/
def clearView (view : ClearableView σ) (fuel : ℕ) (s : σ) : Option (Go Unit × σ) :=
  (collectKeys (view.list s) fuel).map fun keys =>
    match keys with
    | .error e => (.error e, s)
    | .ok keys => deleteKeys view.delete s keys

end Clear

/-! ## The keys under a folder -/

section Folders

variable {K : List String} {d y k : String}

/-- The keys of `K` under the folder `d`. -/
def keysUnder (K : List String) (d : String) : List String := K.filter fun k => hasPrefix k d

@[simp] theorem mem_keysUnder : k ∈ keysUnder K d ↔ k ∈ K ∧ hasPrefix k d = true :=
  List.mem_filter

theorem append_right_injective (d : String) : Function.Injective (d ++ · : String → String) :=
  fun a b h => by
    rw [String.ext_iff] at h ⊢
    simpa using h

theorem hasPrefix_of_hasPrefix_append (h : hasPrefix k (d ++ y)) : hasPrefix k d :=
  hasPrefix_iff.mpr ((List.prefix_append d.toList y.toList).trans
    (by simpa using hasPrefix_iff.mp h))

theorem hasSuffix_slash_append (u : String) : hasSuffix (u ++ "/") "/" = true := by
  simp [hasSuffix, List.isSuffixOf_iff_suffix]

theorem hasSuffix_slash_eq_false {c : String} (h : '/' ∉ c.toList) : hasSuffix c "/" = false := by
  rw [Bool.eq_false_iff]
  intro hs
  exact h ((List.isSuffixOf_iff_suffix.mp hs).subset (by simp))

/-- A listed name ending in `/` is a folder that holds a key. -/
theorem ListedUnder.folder (h : ListedUnder K d y) (hs : hasSuffix y "/" = true) :
    ∃ u, '/' ∉ u.toList ∧ y = u ++ "/" ∧ ∃ k ∈ K, hasPrefix k (d ++ y) := by
  rcases h with ⟨hy, _⟩ | ⟨u, hu, rfl, k, hk, hpre⟩
  · rw [hasSuffix_slash_eq_false hy] at hs
    cases hs
  · exact ⟨u, hu, rfl, k, hk, by rwa [← String.append_assoc]⟩

/-- Any other listed name is, after the folder, a key of `K`. -/
theorem ListedUnder.file (h : ListedUnder K d y) (hs : hasSuffix y "/" = false) :
    '/' ∉ y.toList ∧ d ++ y ∈ K := by
  rcases h with h | ⟨u, _, rfl, _⟩
  · exact h
  · rw [hasSuffix_slash_append] at hs
    cases hs

/-- A key stands under the name it shows in the listing of a folder above it. -/
theorem hasPrefix_entryName (hk : hasPrefix k d) :
    hasPrefix k (d ++ entryName (trimPrefix k d)) := by
  rw [hasPrefix_iff, String.toList_append, toList_entryName]
  conv_rhs => rw [← append_trimPrefix hk, String.toList_append]
  apply List.prefix_append_right_inj _ |>.mpr
  by_cases hslash : '/' ∈ (trimPrefix k d).toList
  · obtain ⟨u, v, hu, huv⟩ := exists_first_slash hslash
    rw [huv, firstSegment_append_slash hu]
    simp
  · rw [firstSegment_of_not_mem hslash]

/-- The keys a listed name stands for, a key itself or the keys in a folder, show that name. -/
theorem entryName_of_listed (h : ListedUnder K d y)
    (hk : (hasSuffix y "/" = false ∧ k = d ++ y) ∨
      (hasSuffix y "/" = true ∧ hasPrefix k (d ++ y))) :
    entryName (trimPrefix k d) = y := by
  rcases hk with ⟨hs, rfl⟩ | ⟨hs, hpre⟩
  · rw [trimPrefix_append, String.ext_iff, toList_entryName,
      firstSegment_of_not_mem (ListedUnder.file h hs).1]
  · obtain ⟨u, hu, rfl, -⟩ := ListedUnder.folder h hs
    obtain ⟨r, hr⟩ := hasPrefix_iff.mp hpre
    -- what the folder's parent leaves of the key is the name, its slash and the rest
    have htrim : (trimPrefix k d).toList = u.toList ++ '/' :: r := by
      have hk' := congrArg String.toList (append_trimPrefix (hasPrefix_of_hasPrefix_append hpre))
      rw [← hr, String.toList_append] at hk'
      simpa using hk'
    rw [String.ext_iff, toList_entryName, htrim, firstSegment_append_slash hu]
    simp

/-- The keys a listing `out` of the folder `d` names, as `ScanView` hands them to its callback. -/
def listedKeys (d : String) (out : List String) : List String :=
  (out.filter fun c => !hasSuffix c "/").map (d ++ ·)

/-- The folders a listing `out` of the folder `d` names, as `ScanView` pushes them. -/
def listedFolders (d : String) (out : List String) : List String :=
  (out.filter fun c => hasSuffix c "/").map (d ++ ·)

section Listing

variable {out : List String}

theorem mem_listedKeys :
    k ∈ listedKeys d out ↔ ∃ y ∈ out, hasSuffix y "/" = false ∧ k = d ++ y := by
  simp only [listedKeys, List.mem_map, List.mem_filter, Bool.not_eq_true', and_assoc]
  exact ⟨fun ⟨y, hy, hs, he⟩ => ⟨y, hy, hs, he.symm⟩,
    fun ⟨y, hy, hs, he⟩ => ⟨y, hy, hs, he.symm⟩⟩

theorem mem_pending_listedFolders :
    k ∈ pending (keysUnder K) (listedFolders d out) ↔
      ∃ y ∈ out, hasSuffix y "/" = true ∧ hasPrefix k (d ++ y) ∧ k ∈ K := by
  simp only [pending, listedFolders, List.mem_flatMap, List.mem_map, List.mem_filter,
    mem_keysUnder]
  constructor
  · rintro ⟨_, ⟨y, ⟨hy, hs⟩, rfl⟩, hk, hpre⟩
    exact ⟨y, hy, hs, hpre, hk⟩
  · rintro ⟨y, hy, hs, hpre, hk⟩
    exact ⟨_, ⟨y, ⟨hy, hs⟩, rfl⟩, hk, hpre⟩

variable (hmem : ∀ y, y ∈ out ↔ ListedUnder K d y)
include hmem

/-- A listing names each key once: the name a key shows tells which part holds it, and where. -/
theorem nodup_listing (hK : K.Nodup) (hout : out.Nodup) :
    (listedKeys d out ++ pending (keysUnder K) (listedFolders d out)).Nodup := by
  refine List.Nodup.append ((hout.filter _).map (append_right_injective d)) ?_ ?_
  · -- two folders share no key
    refine List.nodup_flatMap.mpr ⟨fun _ _ => hK.filter _, ?_⟩
    refine ((hout.filter _).map (append_right_injective d)).imp_of_mem ?_
    intro a b ha hb hab k hka hkb
    obtain ⟨y₁, hy₁, rfl⟩ := List.mem_map.mp ha
    obtain ⟨y₂, hy₂, rfl⟩ := List.mem_map.mp hb
    obtain ⟨hy₁, hs₁⟩ := List.mem_filter.mp hy₁
    obtain ⟨hy₂, hs₂⟩ := List.mem_filter.mp hy₂
    have h₁ := entryName_of_listed ((hmem y₁).mp hy₁) (.inr ⟨hs₁, (mem_keysUnder.mp hka).2⟩)
    have h₂ := entryName_of_listed ((hmem y₂).mp hy₂) (.inr ⟨hs₂, (mem_keysUnder.mp hkb).2⟩)
    exact hab (by rw [← h₁, ← h₂])
  · -- a key named by the listing lies in no folder it names
    intro k hka hkb
    obtain ⟨y₁, hy₁, hs₁, rfl⟩ := mem_listedKeys.mp hka
    obtain ⟨y₂, hy₂, hs₂, hpre, -⟩ := mem_pending_listedFolders.mp hkb
    have h₁ := entryName_of_listed ((hmem y₁).mp hy₁) (.inl ⟨hs₁, rfl⟩)
    have h₂ := entryName_of_listed ((hmem y₂).mp hy₂) (.inr ⟨hs₂, hpre⟩)
    rw [← h₁, h₂, hs₂] at hs₁
    cases hs₁

/-- The keys a listing names, and the keys in the folders it names, are the keys under it. -/
theorem mem_listing :
    k ∈ listedKeys d out ++ pending (keysUnder K) (listedFolders d out) ↔
      k ∈ K ∧ hasPrefix k d = true := by
  rw [List.mem_append, mem_listedKeys, mem_pending_listedFolders]
  constructor
  · rintro (⟨y, hy, hs, rfl⟩ | ⟨y, _, _, hpre, hk⟩)
    · exact ⟨(ListedUnder.file ((hmem y).mp hy) hs).2, hasPrefix_append d y⟩
    · exact ⟨hk, hasPrefix_of_hasPrefix_append hpre⟩
  · rintro ⟨hk, hkd⟩
    have hy : entryName (trimPrefix k d) ∈ out :=
      (hmem _).mpr ((exists_entryName_iff K d _).mp ⟨k, hk, hkd, rfl⟩)
    by_cases hslash : '/' ∈ (trimPrefix k d).toList
    · -- the key lies in the folder its first segment names
      obtain ⟨u, v, hu, huv⟩ := exists_first_slash hslash
      have hname : entryName (trimPrefix k d) = String.ofList u ++ "/" := by
        rw [String.ext_iff, toList_entryName, huv, firstSegment_append_slash hu]
        simp
      refine .inr ⟨_, hy, ?_, hasPrefix_entryName hkd, hk⟩
      rw [hname]
      exact hasSuffix_slash_append _
    · have hname : entryName (trimPrefix k d) = trimPrefix k d := by
        rw [String.ext_iff, toList_entryName, firstSegment_of_not_mem hslash]
      refine .inl ⟨_, hy, ?_, ?_⟩
      · rw [hname]
        exact hasSuffix_slash_eq_false hslash
      · rw [hname, append_trimPrefix hkd]

/-- The keys under `d` are, up to order, the keys its listing names and the keys under the
folders its listing names. -/
theorem perm_listing (hK : K.Nodup) (hout : out.Nodup) :
    (keysUnder K d).Perm (listedKeys d out ++ pending (keysUnder K) (listedFolders d out)) :=
  (List.perm_ext_iff_of_nodup (hK.filter _) (nodup_listing hmem hK hout)).mpr fun _ =>
    (List.mem_filter.trans (mem_listing hmem).symm)

end Listing

end Folders

/-! ## The scan visits every key once -/

section ScanSpec

variable {β : Type} {list : String → Go (List String)} {cb : β → String → β} {K : List String}

/-- `list` lists the keys `K`: at the top, and at every folder that holds a key, it returns
each name `ListedUnder` gives, once. -/
def ListsKeys (list : String → Go (List String)) (K : List String) : Prop :=
  ∀ d, (d = "" ∨ ∃ k ∈ K, hasPrefix k d) →
    ∃ out, list d = .ok out ∧ out.Nodup ∧ ∀ y, y ∈ out ↔ ListedUnder K d y

/-- A folder's size: one, and what the folder leaves of the length of each key under it. -/
def folderSize (K : List String) (d : String) : ℕ :=
  ((keysUnder K d).map fun k => k.length - d.length).sum + 1

/-- Enough turns for `ScanView` over the keys `K`: one more than their total length. -/
def scanBound (K : List String) : ℕ := (K.map String.length).sum + 1

@[simp] theorem hasPrefix_empty (k : String) : hasPrefix k "" = true := by
  simp [hasPrefix]

@[simp] theorem keysUnder_empty (K : List String) : keysUnder K "" = K := by
  simp [keysUnder]

theorem folderSize_top (K : List String) : folderSize K "" = scanBound K := by
  simp [folderSize, scanBound]

theorem length_le_of_hasPrefix {k d : String} (h : hasPrefix k d) : d.length ≤ k.length := by
  rw [← String.length_toList, ← String.length_toList]
  exact (hasPrefix_iff.mp h).length_le

/-- A listed folder, which holds a key, is smaller than the length its keys keep after the
folder that was listed. -/
theorem folderSize_le_of_listed {d y : String} (h : ListedUnder K d y)
    (hs : hasSuffix y "/" = true) :
    folderSize K (d ++ y) ≤ ((keysUnder K (d ++ y)).map fun k => k.length - d.length).sum := by
  obtain ⟨u, -, rfl, k, hk, hpre⟩ := ListedUnder.folder h hs
  have hlen : d.length < (d ++ (u ++ "/")).length := by
    simp only [String.length_append]
    have : ("/" : String).length = 1 := rfl
    omega
  have hlt := List.sum_lt_sum (fun k => k.length - (d ++ (u ++ "/")).length)
    (fun k => k.length - d.length) (fun _ _ => by omega)
    ⟨k, mem_keysUnder.mpr ⟨hk, hpre⟩, by have := length_le_of_hasPrefix hpre; omega⟩
  unfold folderSize
  omega

/-- The inner loop of `ScanView` pushes the folders of a listing, in order, and hands its keys
to `cb`, in order. -/
theorem foldl_scanEntry (cb : β → String → β) (current : String) (contents frontier : List String)
    (b : β) :
    contents.foldl (scanEntry cb current) (frontier, b) =
      (frontier ++ listedFolders current contents, (listedKeys current contents).foldl cb b) := by
  induction contents generalizing frontier b with
  | nil => simp [listedFolders, listedKeys]
  | cons c contents ih =>
    rw [List.foldl_cons]
    by_cases hs : hasSuffix c "/" = true
    · simp [scanEntry, hs, ih, listedFolders, listedKeys]
    · simp [scanEntry, hs, ih, listedFolders, listedKeys]

/-- A turn of the scan lists the folder on top of the stack. -/
theorem scanLoop_turn {fuel : ℕ} {frontier contents : List String} {current : String} {b : β}
    (h : list current = .ok contents) :
    scanLoop list cb (fuel + 1) (frontier ++ [current]) b =
      scanLoop list cb fuel (frontier ++ listedFolders current contents)
        ((listedKeys current contents).foldl cb b) := by
  simp only [scanLoop, List.getLast?_concat, h, wrapError_ok, List.dropLast_concat, foldl_scanEntry]

/-- What every turn of the scan keeps: the keys handed to `cb` and the keys below the stack are
a permutation of `K`, and each folder on the stack is the top or holds a key. -/
structure ScanInv (K visited frontier : List String) : Prop where
  perm : (visited ++ pending (keysUnder K) frontier).Perm K
  folders : ∀ d ∈ frontier, d = "" ∨ ∃ k ∈ K, hasPrefix k d

theorem ScanInv.top (K : List String) : ScanInv K [] [""] where
  perm := by simp
  folders d hd := .inl (List.mem_singleton.mp hd)

section Turn

variable {visited F contents : List String} {current : String} (hK : K.Nodup)
  (hout : contents.Nodup) (hmem : ∀ y, y ∈ contents ↔ ListedUnder K current y)
include hK hout hmem

/-- A turn keeps the invariant. -/
theorem ScanInv.turn (I : ScanInv K visited (F ++ [current])) :
    ScanInv K (visited ++ listedKeys current contents) (F ++ listedFolders current contents) where
  perm := (perm_pop_push (keysUnder K) (perm_listing hmem hK hout)).symm.trans I.perm
  folders d hd := by
    rcases List.mem_append.mp hd with hd | hd
    · exact I.folders d (List.mem_append_left _ hd)
    · obtain ⟨y, hy, rfl⟩ := List.mem_map.mp hd
      obtain ⟨hy, hs⟩ := List.mem_filter.mp hy
      obtain ⟨-, -, -, k, hk, hpre⟩ := ListedUnder.folder ((hmem y).mp hy) hs
      exact .inr ⟨k, hk, hpre⟩

/-- A turn lowers the weight of the stack: the folder listed outweighs the folders it pushes. -/
theorem weight_turn :
    weight (folderSize K) (F ++ listedFolders current contents) <
      weight (folderSize K) (F ++ [current]) := by
  refine weight_pop_push _ (weight_lt_of_perm _ (fun k => k.length - current.length)
    (perm_listing hmem hK hout) ?_ (by unfold folderSize; omega))
  intro m hm
  obtain ⟨y, hy, rfl⟩ := List.mem_map.mp hm
  obtain ⟨hy, hs⟩ := List.mem_filter.mp hy
  exact folderSize_le_of_listed ((hmem y).mp hy) hs

end Turn

/-- `ScanView` over a storage that lists the keys `K` hands every key of `K` to `cb` exactly
once, in some order, when its fuel exceeds `scanBound K`. -/
theorem scanView_visits (hK : K.Nodup) (hlist : ListsKeys list K) (cb : β → String → β) (b : β)
    {fuel : ℕ} (hfuel : scanBound K < fuel) :
    ∃ visited : List String, visited.Perm K ∧
      scanView list cb fuel b = some (.ok (visited.foldl cb b)) := by
  -- the loop's state is the stack and what `cb` made of the keys handed over
  let I := fun s : List String × β =>
    ∃ visited : List String, s.2 = visited.foldl cb b ∧ ScanInv K visited s.1
  let Q := fun r : Go β => ∃ visited : List String, visited.Perm K ∧ r = .ok (visited.foldl cb b)
  have hstep : ∀ fuel (s : List String × β), I s →
      (∃ r, scanLoop list cb (fuel + 1) s.1 s.2 = some r ∧ Q r) ∨
      ∃ s', I s' ∧ weight (folderSize K) s'.1 < weight (folderSize K) s.1 ∧
        scanLoop list cb (fuel + 1) s.1 s.2 = scanLoop list cb fuel s'.1 s'.2 := by
    rintro fuel ⟨frontier, _⟩ ⟨visited, rfl, I⟩
    rcases frontier.eq_nil_or_concat with rfl | ⟨F, current, rfl⟩
    · -- an empty stack ends the scan
      exact .inl ⟨_, rfl, visited, by simpa using I.perm, rfl⟩
    · rw [List.concat_eq_append] at I ⊢
      obtain ⟨contents, hcontents, hout, hmem⟩ := hlist current (I.folders current (by simp))
      exact .inr ⟨(F ++ listedFolders current contents,
          (listedKeys current contents).foldl cb (visited.foldl cb b)),
        ⟨_, (List.foldl_append ..).symm, I.turn hK hout hmem⟩, weight_turn hK hout hmem,
        scanLoop_turn hcontents⟩
  obtain ⟨r, hr, visited, hperm, rfl⟩ := run_of_variant
    (fun fuel (s : List String × β) => scanLoop list cb fuel s.1 s.2) I
    (fun s => weight (folderSize K) s.1)
    Q hstep fuel ([""], b) ⟨[], rfl, ScanInv.top K⟩
    (by rw [weight_singleton, folderSize_top]; exact hfuel)
  exact ⟨visited, hperm, hr⟩

/-- What the callback of `CollectKeysWithPrefix` makes of the keys it is handed. -/
theorem foldl_collect (pfx : String) (visited acc : List String) :
    visited.foldl (fun keys path => if hasPrefix path pfx then keys ++ [path] else keys) acc =
      acc ++ visited.filter fun k => hasPrefix k pfx := by
  induction visited generalizing acc with
  | nil => simp
  | cons k visited ih =>
    rw [List.foldl_cons, ih]
    by_cases h : hasPrefix k pfx = true <;> simp [h]

end ScanSpec

/-- The in-memory backend as a `logical.Storage`: its radix tree holds each value under its
key, and `Get` hands it back in a new entry. Only its switch that makes listing fail is
modelled. -/
def inmemStorage : Storage (InmemBackend (List UInt8)) where
  list i p := i.listInternal p
  get i key := pure ((i.root.get key).map fun raw => { key := key, value := raw, sealWrap := false })
  put i entry := pure { i with root := i.root.put entry.key entry.value }
  delete i key := pure { i with root := i.root.delete key }

/-- The keys the in-memory backend holds. -/
def inmemKeys (i : InmemBackend (List UInt8)) : List String := i.root.entries.map Prod.fst

/-! ## Views over the in-memory backend -/

section Views

variable {K : List String} {pfx d k : String}

/-- The keys of `K` under `pfx`, as a view under `pfx` sees them. -/
def viewKeys (K : List String) (pfx : String) : List String :=
  (K.filter fun k => hasPrefix k pfx).map fun k => trimPrefix k pfx

theorem mem_viewKeys : k ∈ viewKeys K pfx ↔ pfx ++ k ∈ K := by
  simp only [viewKeys, List.mem_map, List.mem_filter]
  constructor
  · rintro ⟨k', ⟨hk', hpre⟩, rfl⟩
    rwa [append_trimPrefix hpre]
  · intro h
    exact ⟨pfx ++ k, ⟨h, hasPrefix_append pfx k⟩, trimPrefix_append pfx k⟩

theorem viewKeys_nodup (hK : K.Nodup) : (viewKeys K pfx).Nodup :=
  (hK.filter _).map_on fun a ha b hb h => by
    rw [← append_trimPrefix (List.mem_filter.mp ha).2, h,
      append_trimPrefix (List.mem_filter.mp hb).2]

theorem hasPrefix_append_append (pfx k d : String) :
    hasPrefix (pfx ++ k) (pfx ++ d) = hasPrefix k d := by
  apply Bool.eq_iff_iff.mpr
  simp only [hasPrefix_iff, String.toList_append, List.prefix_append_right_inj]

theorem exists_viewKeys_hasPrefix :
    (∃ k ∈ viewKeys K pfx, hasPrefix k d) ↔ ∃ k ∈ K, hasPrefix k (pfx ++ d) := by
  constructor
  · rintro ⟨k, hk, hpre⟩
    exact ⟨pfx ++ k, mem_viewKeys.mp hk, by rwa [hasPrefix_append_append]⟩
  · rintro ⟨k, hk, hpre⟩
    have hk' := append_trimPrefix (hasPrefix_of_hasPrefix_append hpre)
    refine ⟨trimPrefix k pfx, mem_viewKeys.mpr (hk'.symm ▸ hk), ?_⟩
    rwa [← hasPrefix_append_append pfx, hk']

/-- A view lists under `d` what its storage lists under the expanded folder. -/
theorem listedUnder_viewKeys {y : String} :
    ListedUnder (viewKeys K pfx) d y ↔ ListedUnder K (pfx ++ d) y := by
  unfold ListedUnder
  simp only [exists_viewKeys_hasPrefix]
  simp only [mem_viewKeys, String.append_assoc]

/-- A key without `..` has no folder with one. -/
theorem contains_eq_false_of_hasPrefix {sub : String} (hpre : hasPrefix k d)
    (h : contains k sub = false) : contains d sub = false := by
  rw [contains_eq_false_iff] at h ⊢
  exact fun hd => h (hd.trans (hasPrefix_iff.mp hpre).isInfix)

/-- The in-memory backend lists its keys, each name once. -/
theorem listInternal_lists {V : Type} (t : Bucket V) (p : String) :
    ∃ out, (⟨t, false⟩ : InmemBackend V).listInternal p = .ok out ∧ out.Nodup ∧
      ∀ y, y ∈ out ↔ ListedUnder (t.entries.map Prod.fst) p y := by
  obtain ⟨out, hout, hsorted, hmem⟩ := listInternal_spec t p
  exact ⟨out, hout, hsorted.nodup, fun y =>
    (hmem y).trans ((exists_scanPrefix_iff t p y).trans (exists_entryName_iff _ p y))⟩

/-- A view over the in-memory backend lists the keys under its prefix, when none of them holds
`..` after it. -/
theorem listsKeys_view (v : StorageView) (i : InmemBackend (List UInt8)) (hlist : i.failList = false)
    (hrel : ∀ k ∈ viewKeys (inmemKeys i) v.pfx, contains k ".." = false) :
    ListsKeys (v.list inmemStorage i) (viewKeys (inmemKeys i) v.pfx) := by
  rintro d hd
  have hsane : contains d ".." = false := by
    rcases hd with rfl | ⟨k, hk, hpre⟩
    · decide
    · exact contains_eq_false_of_hasPrefix hpre (hrel k hk)
  obtain ⟨out, hout, hnodup, hmem⟩ := listInternal_lists i.root (v.pfx ++ d)
  refine ⟨out, ?_, hnodup, fun y => (hmem y).trans listedUnder_viewKeys.symm⟩
  obtain ⟨root, failList⟩ := i
  subst hlist
  simp [StorageView.list, StorageView.sanityCheck, hsane, inmemStorage, StorageView.expandKey, hout]

/-- Deleting keys free of `..` through a writable barrier view over the in-memory backend
removes exactly their expanded keys. -/
theorem deleteKeys_view (v : BarrierView) (hro : v.readOnlyErr = none) :
    ∀ (keys : List String) (i : InmemBackend (List UInt8)), (∀ k ∈ keys, contains k ".." = false) →
      ∃ i', deleteKeys (v.delete inmemStorage) i keys = (.ok (), i') ∧
        i'.root.entries = i.root.entries.filter (fun e => e.1 ∉ keys.map v.storage.expandKey)
  | [], i, _ => ⟨i, rfl, by simp⟩
  | key :: keys, i, hsane => by
    have hdel : v.delete inmemStorage i key =
        .ok { i with root := i.root.delete (v.storage.expandKey key) } := by
      simp [BarrierView.delete, BarrierView.checkReadOnly, hro, StorageView.delete,
        StorageView.sanityCheck, hsane key List.mem_cons_self, inmemStorage]
      rfl
    obtain ⟨i', hrun, hentries⟩ := deleteKeys_view v hro keys _
      fun k hk => hsane k (List.mem_cons_of_mem key hk)
    refine ⟨i', by rw [deleteKeys, hdel]; exact hrun, ?_⟩
    rw [hentries]
    simp only [Bucket.delete, List.filter_filter]
    apply List.filter_congr
    intro e _
    simp [Bool.and_comm, bne, beq_eq_decide]

end Views

/-! ## Clearing a view -/

section Clear

variable {i : InmemBackend (List UInt8)} {v : BarrierView} {fuel : ℕ}

/-- Two mounts' data, under `logical/a1/` and `logical/b2/`, beside the system's. -/
def sampleBackend : InmemBackend (List UInt8) :=
  ⟨⟨[("logical/a1/foo", [1]), ("logical/a1/sub/bar", [2]), ("logical/b2/x", [3]),
      ("sys/policy", [4])], by decide⟩, false⟩

/-- `CollectKeysWithPrefix` over a storage that lists the keys `K` returns the keys of `K` that
start with `pfx`, each once, when its fuel exceeds `scanBound K`. -/
theorem collectKeysWithPrefix_exact {list : String → Go (List String)} {K : List String}
    (hK : K.Nodup) (hlist : ListsKeys list K) (pfx : String)
    {fuel : ℕ} (hfuel : scanBound K < fuel) :
    ∃ keys, keys.Perm (K.filter fun k => hasPrefix k pfx) ∧
      collectKeysWithPrefix list fuel pfx = some (.ok keys) := by
  obtain ⟨visited, hperm, hscan⟩ := scanView_visits hK hlist
    (fun keys path => if hasPrefix path pfx then keys ++ [path] else keys) [] hfuel
  rw [foldl_collect, List.nil_append] at hscan
  exact ⟨_, hperm.filter _, hscan⟩

theorem collectKeysWithPrefix_exact_logical :
    ∃ keys, keys.Perm ((inmemKeys sampleBackend).filter fun k => hasPrefix k "logical/") ∧
      collectKeysWithPrefix sampleBackend.listInternal 60 "logical/" = some (.ok keys) :=
  collectKeysWithPrefix_exact sampleBackend.root.keys_nodup
    (fun d _ => listInternal_lists sampleBackend.root d) "logical/" (by decide)

/-- The keys of the storage a view's keys expand to are those under its prefix. -/
theorem mem_map_expandKey {K visited : List String} {w : StorageView} {k : String}
    (hperm : visited.Perm (viewKeys K w.pfx)) (hk : k ∈ K) :
    k ∈ visited.map w.expandKey ↔ hasPrefix k w.pfx := by
  rw [List.mem_map]
  constructor
  · rintro ⟨k', -, rfl⟩
    exact hasPrefix_append _ _
  · intro hpre
    have hk' := append_trimPrefix hpre
    exact ⟨trimPrefix k w.pfx, hperm.mem_iff.mpr (mem_viewKeys.mpr (hk'.symm ▸ hk)), hk'⟩

/-- `CollectKeys` through a view over the in-memory backend returns the view's keys. -/
theorem collectKeys_view (hlist : i.failList = false)
    (hrel : ∀ k ∈ viewKeys (inmemKeys i) v.storage.pfx, contains k ".." = false)
    (hfuel : scanBound (viewKeys (inmemKeys i) v.storage.pfx) < fuel) :
    ∃ keys, keys.Perm (viewKeys (inmemKeys i) v.storage.pfx) ∧
      collectKeys ((v.clearable inmemStorage).list i) fuel = some (.ok keys) := by
  obtain ⟨visited, hperm, hscan⟩ := scanView_visits (viewKeys_nodup i.root.keys_nodup)
    (listsKeys_view v.storage i hlist hrel)
    (fun keys path => if hasPrefix path "" then keys ++ [path] else keys) [] hfuel
  rw [foldl_collect, List.nil_append, List.filter_eq_self.mpr fun k _ => hasPrefix_empty k]
    at hscan
  exact ⟨visited, hperm, hscan⟩

/-- A read-only barrier view over the in-memory backend that holds a key cannot be cleared:
the first deletion fails with the view's error, and nothing is deleted. -/
theorem clearView_readOnly {roErr : String} (hlist : i.failList = false)
    (hro : v.readOnlyErr = some roErr)
    (hrel : ∀ k ∈ viewKeys (inmemKeys i) v.storage.pfx, contains k ".." = false)
    (hfuel : scanBound (viewKeys (inmemKeys i) v.storage.pfx) < fuel)
    (hne : viewKeys (inmemKeys i) v.storage.pfx ≠ []) :
    clearView (v.clearable inmemStorage) fuel i = some (.error (.error roErr), i) := by
  obtain ⟨keys, hperm, hcollect⟩ := collectKeys_view hlist hrel hfuel
  have hkeys : keys ≠ [] := fun h => hne (h ▸ hperm).symm.eq_nil
  obtain ⟨key, rest, rfl⟩ := List.exists_cons_of_ne_nil hkeys
  have hdel : v.delete inmemStorage i key = .error (.error roErr) := by
    simp [BarrierView.delete, BarrierView.checkReadOnly, hro, BarrierView.runICheck]
    rfl
  rw [clearView, hcollect]
  simp [BarrierView.clearable, deleteKeys, hdel]

theorem clearView_readOnly_setup :
    clearView (BarrierView.clearable inmemStorage
        ⟨⟨"logical/a1/"⟩, some "cannot write to storage during setup"⟩) 40 sampleBackend =
      some (.error (.error "cannot write to storage during setup"), sampleBackend) :=
  clearView_readOnly rfl rfl (by decide) (by decide) (by decide)

end Clear

end Vault.Logical
