import Vault.Lib.GoRuntime
import Vault.Lib.GoStrings
import Vault.Lib.Collections

/-!
# `storagepacker.StoragePacker`

The packer keeps items in 256 buckets of a storage view: an item goes to the bucket named
by its prefix and the first byte of the MD5 of its ID. A bucket is stored marshalled and
compressed under its key. `PutItem` reads the item's bucket and inserts or replaces the
item; `DeleteMultipleItems` groups the IDs by bucket, and in each removes the items by
swapping them with the last one.

Over a view that behaves as a map, the packer refines a map from item ID to item: after
every successful run `GetItem` returns what the map holds (`Refines`), and every stored
bucket is well formed. The hash is a parameter; it decides which bucket is searched, never
what is found, so no property of it is assumed. The marshalling and the compression are
parameters that decode what they encode.
-/

namespace Vault.Helper

open GoRuntime GoStrings Collections

/-- An item: its ID and its message, of any type. -/
structure Item (μ : Type) where
  id : String
  message : μ
deriving DecidableEq, Repr

/-- A bucket: its storage key and its items. -/
structure Bucket (μ : Type) where
  key : String
  items : List (Item μ)
deriving DecidableEq, Repr

/-- `proto.Marshal` and `Unmarshal` at `Bucket`, and `compressutil.Compress` (Snappy) and
`Decompress`, which says whether its input was not compressed. -/
structure BucketCodec (μ : Type) where
  marshal : Bucket μ → Go (List UInt8)
  unmarshal : List UInt8 → Go (Bucket μ)
  compress : List UInt8 → Go (List UInt8)
  decompress : List UInt8 → Go (List UInt8 × Bool)

/-- Unmarshalling inverts marshalling, and decompression compression. -/
def BucketCodec.Lawful {μ : Type} (codec : BucketCodec μ) : Prop :=
  (∀ b m, codec.marshal b = .ok m → codec.unmarshal m = .ok b) ∧
    ∀ d c, codec.compress d = .ok c → codec.decompress c = .ok (d, false)

/-- What a packer is made of besides its view: the codec, its prefix, and the first byte of
the MD5 of an ID. -/
structure PackerConfig (μ : Type) where
  codec : BucketCodec μ
  viewPrefix : String
  md5First : String → UInt8

/-- A `logical.Storage` whose `Get` and `Put` behave as a map. -/
abbrev View := String → Option (List UInt8)

variable {μ : Type}

/-- `StoragePacker.BucketKey`. -/
def bucketKey (p : PackerConfig μ) (itemID : String) : String :=
  p.viewPrefix ++ toString (p.md5First itemID).toNat

/-- A stored value decompressed and unmarshalled, each error wrapped with its prefix. -/
def decodeBucket (codec : BucketCodec μ) (decompressPre decodePre : String)
    (value : List UInt8) : Go (Bucket μ) := do
  let (uncompressedData, notCompressed) ← wrapError decompressPre (codec.decompress value)
  let uncompressedData := if notCompressed then value else uncompressedData
  wrapError decodePre (codec.unmarshal uncompressedData)

/-- `StoragePacker.GetBucket`. -/
def getBucket (p : PackerConfig μ) (view : View) (key : String) : Go (Option (Bucket μ)) :=
  if key = "" then throw (.error "missing bucket key")
  else
    match view key with
    | none => pure none
    | some value => some <$> decodeBucket p.codec "failed to decompress packed storage entry: "
        "failed to decode packed storage entry: " value

/-- `Bucket.upsert`: the item replaces the first one with its ID, or is appended. -/
def Bucket.upsert (b : Bucket μ) (item : Item μ) : Go (Bucket μ) :=
  if item.id = "" then throw (.error "missing item ID")
  else
    match b.items.findIdx? (fun bucketItem => bucketItem.id == item.id) with
    | none => pure { b with items := b.items ++ [item] }
    | some foundIdx => pure { b with items := b.items.set foundIdx item }

/-- `StoragePacker.putBucket`. -/
def putBucket (p : PackerConfig μ) (view : View) (bucket : Bucket μ) : Go View := do
  if bucket.key = "" then throw (.error "missing key")
  if !hasPrefix bucket.key p.viewPrefix then
    throw (.error ("incorrect prefix; bucket entry key should have " ++ goQuote p.viewPrefix ++
      " prefix"))
  let marshaledBucket ← wrapError "failed to marshal bucket: " (p.codec.marshal bucket)
  let compressedBucket ← wrapError "failed to compress packed bucket: "
    (p.codec.compress marshaledBucket)
  pure (Function.update view bucket.key (some compressedBucket))

/-- `StoragePacker.GetItem`. -/
def getItem (p : PackerConfig μ) (view : View) (itemID : String) : Go (Option (Item μ)) := do
  if itemID = "" then throw (.error "empty item ID")
  let bucket ← wrapError "failed to read packed storage item: "
    (getBucket p view (bucketKey p itemID))
  match bucket with
  | none => pure none
  | some bucket => pure (bucket.items.find? fun item => item.id == itemID)

/-- `StoragePacker.PutItem`: the bucket of the item's key is read, or made with the item
alone, and written back with the item. -/
def putItem (p : PackerConfig μ) (view : View) (item : Item μ) : Go View := do
  if item.id = "" then throw (.error "missing ID in item")
  let bucketKey := bucketKey p item.id
  let bucket ← match view bucketKey with
    | none => pure ⟨bucketKey, [item]⟩
    | some value => do
      -- the stored bucket, key included, replaces the fresh one
      let bucket ← decodeBucket p.codec "failed to decompress packed storage entry: "
        "failed to decode packed storage entry: " value
      wrapError "failed to update entry in packed storage entry: " (bucket.upsert item)
  putBucket p view bucket

/-- The removal loop of `DeleteMultipleItems` from index `i`: an item to remove is replaced by
the last one, the slice shortened, and position `i` replayed. -/
def removeItems (remove : String → Bool) (items : List (Item μ)) (i : ℕ) : List (Item μ) :=
  if h : i < items.length then
    if remove items[i].id then
      removeItems remove
        (items.set i (items.getLast (List.ne_nil_of_length_pos (by omega)))).dropLast i
    else removeItems remove items (i + 1)
  else items
termination_by 2 * items.length - i
decreasing_by
  · simp only [List.length_dropLast, List.length_set]
    omega
  · omega

/-- The IDs `byBucket` holds under `key`: those of `itemIDs` in that bucket. -/
def itemsToRemove (p : PackerConfig μ) (itemIDs : List String) (key id : String) : Bool :=
  itemIDs.contains id && bucketKey p id == key

/-- One round of `DeleteMultipleItems`: the bucket under `key`, if there is one, written back
without the items to remove. -/
def deleteFromBucket (p : PackerConfig μ) (itemIDs : List String) (view : View) (key : String) :
    Go View :=
  match view key with
  | none => pure view
  | some value => do
    let bucket ← decodeBucket p.codec "failed to decompress packed storage value: "
      "failed decoding packed storage entry: " value
    putBucket p view
      { bucket with items := removeItems (itemsToRemove p itemIDs key) bucket.items 0 }

/-- `StoragePacker.DeleteMultipleItems`; `order` is the order in which `range` visits the
keys of `byBucket`, which Go leaves unspecified. -/
def deleteMultipleItems (p : PackerConfig μ) (view : View) (itemIDs order : List String) :
    Go View :=
  if itemIDs.isEmpty then pure view else order.foldlM (deleteFromBucket p itemIDs) view

/-- `StoragePacker.DeleteItem`: the one ID, in its one bucket. -/
def deleteItem (p : PackerConfig μ) (view : View) (itemID : String) : Go View :=
  deleteMultipleItems p view [itemID] [bucketKey p itemID]

/-- A call to the packer: `PutItem`, `DeleteItem` or `DeleteMultipleItems`. -/
inductive PackerOp (μ : Type) where
  | put (item : Item μ)
  | delete (itemID : String)
  | deleteMultiple (itemIDs order : List String)

/-- One call on the view. -/
def PackerOp.exec (p : PackerConfig μ) (view : View) : PackerOp μ → Go View
  | .put item => putItem p view item
  | .delete itemID => deleteItem p view itemID
  | .deleteMultiple itemIDs order => deleteMultipleItems p view itemIDs order

/-- The calls one after the other, up to the first that fails. -/
def runPacker (p : PackerConfig μ) (view : View) (ops : List (PackerOp μ)) : Go View :=
  ops.foldlM (PackerOp.exec p) view

/-! ## The map the packer stands for -/

/-- A map from item ID to item. -/
abbrev ItemMap (μ : Type) := String → Option (Item μ)

/-- A call on the map: a put maps the ID to the item, a deletion unmaps the IDs. -/
def PackerOp.apply (m : ItemMap μ) : PackerOp μ → ItemMap μ
  | .put item => Function.update m item.id (some item)
  | .delete itemID => Function.update m itemID none
  | .deleteMultiple itemIDs _ => fun id => if id ∈ itemIDs then none else m id

/-- The calls one after the other on the map. -/
def applyAll (m : ItemMap μ) (ops : List (PackerOp μ)) : ItemMap μ :=
  ops.foldl PackerOp.apply m

/-- The order given to a deletion visits the bucket of every ID it deletes. -/
def PackerOp.Covers (p : PackerConfig μ) : PackerOp μ → Prop
  | .deleteMultiple itemIDs order => ∀ id ∈ itemIDs, bucketKey p id ∈ order
  | _ => True

/-! ## Buckets: encoding, writing and the two edits -/

section Buckets

variable {p : PackerConfig μ} {codec : BucketCodec μ} {view view' : View} {b b' : Bucket μ}
  {item : Item μ}

/-- `value` is the bucket `b` marshalled and compressed. -/
def Encodes (codec : BucketCodec μ) (b : Bucket μ) (value : List UInt8) : Prop :=
  ∃ m, codec.marshal b = .ok m ∧ codec.compress m = .ok value

theorem decodeBucket_of_encodes (hcodec : codec.Lawful) {value : List UInt8}
    (h : Encodes codec b value) (decompressPre decodePre : String) :
    decodeBucket codec decompressPre decodePre value = .ok b := by
  obtain ⟨m, hm, hc⟩ := h
  simp [decodeBucket, hcodec.2 _ _ hc, hcodec.1 _ _ hm]

/-- A value encodes one bucket at most. -/
theorem Encodes.unique (hcodec : codec.Lawful) {value : List UInt8} (h : Encodes codec b value)
    (h' : Encodes codec b' value) : b = b' := by
  have hb := decodeBucket_of_encodes hcodec h "" ""
  rw [decodeBucket_of_encodes hcodec h' "" ""] at hb
  exact (Except.ok.inj hb).symm

theorem bucketKey_ne_empty (p : PackerConfig μ) (id : String) : bucketKey p id ≠ "" := by
  intro h
  have hlist := congrArg String.toList h
  simp only [bucketKey, String.toList_append, String.toList_empty, List.append_eq_nil_iff] at hlist
  exact Nat.toDigits_ne_nil (Nat.toList_repr ▸ hlist.2)

/-- A write of a bucket stores its encoding under its key. -/
theorem putBucket_eq_ok (h : putBucket p view b = .ok view') :
    ∃ value, Encodes p.codec b value ∧ view' = Function.update view b.key (some value) := by
  unfold putBucket at h
  have hkey : ¬b.key = "" := fun hk => by
    rw [if_pos hk] at h
    cases h
  rw [if_neg hkey] at h
  have hprefix : ¬(!hasPrefix b.key p.viewPrefix) = true := fun hp => by
    rw [if_pos hp] at h
    cases h
  rw [if_neg hprefix] at h
  obtain ⟨m, hm, h⟩ := bind_eq_ok h
  obtain ⟨value, hc, h⟩ := bind_eq_ok h
  exact ⟨value, ⟨m, wrapError_eq_ok.mp hm, wrapError_eq_ok.mp hc⟩, (Except.ok.inj h).symm⟩

/-- Replacing the first item with an ID: a search finds the new item under that ID, and
what it found before under every other. -/
theorem find?_set_of_findIdx? {l : List (Item μ)} {i : ℕ}
    (h : l.findIdx? (fun j => j.id == item.id) = some i) (x : String) :
    (l.set i item).find? (fun j => j.id == x) =
      if item.id = x then some item else l.find? fun j => j.id == x := by
  induction l generalizing i with
  | nil => cases h
  | cons a l ih =>
    rw [List.findIdx?_cons] at h
    by_cases ha : a.id = item.id
    · -- the head is replaced
      rw [if_pos (by simpa using ha)] at h
      cases h
      by_cases hx : item.id = x
      · simp [hx]
      · simp [hx, ha]
    · rw [if_neg (by simpa using ha)] at h
      obtain ⟨i', hi', rfl⟩ := Option.map_eq_some_iff.mp h
      rw [List.set_cons_succ, List.find?_cons, List.find?_cons, ih hi']
      by_cases hax : a.id = x
      · have hx : item.id ≠ x := fun hx => ha (hax.trans hx.symm)
        simp only [hax, beq_self_eq_true, hx, if_false]
      · have hne : (a.id == x) = false := by simpa using hax
        simp only [hne]

/-- What `upsert` leaves: the key, and under every ID the item, or what was there. -/
theorem upsert_eq_ok (h : b.upsert item = .ok b') :
    b'.key = b.key ∧
      (∀ x, b'.items.find? (fun i => i.id == x) =
        if item.id = x then some item else b.items.find? fun i => i.id == x) ∧
      ((b.items.map Item.id).Nodup → (b'.items.map Item.id).Nodup) ∧
      ∀ i ∈ b'.items, i = item ∨ i ∈ b.items := by
  unfold Bucket.upsert at h
  have hid : ¬item.id = "" := fun hid => by
    rw [if_pos hid] at h
    cases h
  rw [if_neg hid] at h
  split at h
  · -- no item has the ID: it is appended
    next hnone =>
    cases h
    have hnot : ∀ i ∈ b.items, i.id ≠ item.id := fun i hi hi' => by
      simpa [hi'] using List.findIdx?_eq_none_iff.mp hnone i hi
    refine ⟨rfl, fun x => ?_, fun hnd => ?_, fun i hi => ?_⟩
    · rw [List.find?_append]
      by_cases hx : item.id = x
      · subst hx
        rw [List.find?_eq_none.mpr (fun i hi => by simpa using hnot i hi)]
        simp
      · simp [hx]
    · rw [List.map_append, List.nodup_append]
      exact ⟨hnd, List.nodup_singleton _, fun a ha c hc => by
        obtain ⟨i, hi, rfl⟩ := List.mem_map.mp ha
        rw [List.map_singleton, List.mem_singleton] at hc
        exact hc ▸ hnot i hi⟩
    · rcases List.mem_append.mp hi with hi | hi
      · exact .inr hi
      · exact .inl (List.mem_singleton.mp hi)
  · -- the first item with the ID is replaced
    next foundIdx hfound =>
    cases h
    obtain ⟨hlt, hat, -⟩ := List.findIdx?_eq_some_iff_getElem.mp hfound
    -- the IDs are those before: the replaced item had the same
    have hlt' : foundIdx < (b.items.map Item.id).length := by simpa using hlt
    have hids : (b.items.set foundIdx item).map Item.id = b.items.map Item.id := by
      rw [List.map_set, show item.id = (b.items.map Item.id)[foundIdx] by
        simpa using (beq_iff_eq.mp hat).symm]
      exact List.set_getElem_self _
    refine ⟨rfl, find?_set_of_findIdx? hfound, fun hnd => hids ▸ hnd, fun i hi => ?_⟩
    exact (List.mem_or_eq_of_mem_set hi).symm

/-- The removal loop leaves the items not to remove, in some order, provided those before
the index are kept ones. -/
theorem removeItems_perm (remove : String → Bool) (items : List (Item μ)) (i : ℕ)
    (hkept : ∀ j (hj : j < items.length), j < i → remove items[j].id = false) :
    (removeItems remove items i).Perm (items.filter fun it => !remove it.id) := by
  fun_induction removeItems remove items i with
  | case1 items i hi hremove ih =>
    -- the item at `i` is dropped and the last one takes its place
    have hne : items ≠ [] := List.ne_nil_of_length_pos (by omega)
    have hprefix : ∀ j (hj : j < ((items.set i (items.getLast hne)).dropLast).length), j < i →
        remove ((items.set i (items.getLast hne)).dropLast)[j].id = false := by
      intro j hj hji
      rw [List.getElem_dropLast, List.getElem_set_ne (by omega)]
      exact hkept j (by simp at hj; omega) hji
    have hdrop : ((items.set i (items.getLast hne)).dropLast.filter fun it => !remove it.id).Perm
        (items.filter fun it => !remove it.id) := by
      refine ((set_getLast_dropLast_perm hne hi).filter _).trans ?_
      have hcons := (List.getElem_cons_eraseIdx_perm hi).filter fun it => !remove it.id
      rwa [List.filter_cons_of_neg (by simp [hremove])] at hcons
    exact (ih hprefix).trans hdrop
  | case2 items i hi hremove ih =>
    refine ih fun j hj hji => ?_
    rcases Nat.lt_succ_iff_lt_or_eq.mp hji with hlt | rfl
    · exact hkept j hj hlt
    · simpa using hremove
  | case3 items i hi =>
    -- past the end every item is a kept one
    rw [List.filter_eq_self.mpr]
    intro a ha
    obtain ⟨j, hj, rfl⟩ := List.mem_iff_getElem.mp ha
    simpa using hkept j hj (by omega)

/-- Dropping the items whose ID is to be removed: a search by ID finds nothing under such an
ID, and what it found before under any other. -/
theorem find?_filter_id (q : String → Bool) (l : List (Item μ)) (x : String) :
    (l.filter fun it => !q it.id).find? (fun it => it.id == x) =
      if q x then none else l.find? fun it => it.id == x := by
  induction l with
  | nil => simp
  | cons a l ih =>
    by_cases hax : a.id = x
    · subst hax
      by_cases hq : q a.id <;> simp [hq, ih]
    · have hne : (a.id == x) = false := by simpa using hax
      by_cases hqa : q a.id <;> simp [hqa, hne, ih]

/-- With distinct IDs, a search by ID does not depend on the order of the items. -/
theorem find?_id_perm {l l' : List (Item μ)} (hperm : l.Perm l') (hnd : (l.map Item.id).Nodup)
    (x : String) : l.find? (fun it => it.id == x) = l'.find? fun it => it.id == x := by
  have hnd' : (l'.map Item.id).Nodup := (hperm.map _).nodup_iff.mp hnd
  apply Option.ext
  intro c
  rw [find?_eq_some_iff_of_nodup Item.id hnd, find?_eq_some_iff_of_nodup Item.id hnd',
    hperm.mem_iff]

end Buckets

/-! ## The packer refines the map -/

/-- A bucket stored under `k`: its key is `k`, its IDs are distinct, and every item belongs
under `k`. -/
structure WellFormed (p : PackerConfig μ) (k : String) (b : Bucket μ) : Prop where
  key : b.key = k
  nodup : (b.items.map Item.id).Nodup
  bucketKey : ∀ item ∈ b.items, bucketKey p item.id = k

/-- The view refines the map `m`: every stored value encodes a well-formed bucket, and an ID
maps to what a search of its bucket finds, or to nothing when its bucket is absent. -/
structure Refines (p : PackerConfig μ) (view : View) (m : ItemMap μ) : Prop where
  stored : ∀ k value, view k = some value → ∃ b, Encodes p.codec b value ∧ WellFormed p k b
  found : ∀ id b value, view (bucketKey p id) = some value → Encodes p.codec b value →
    m id = b.items.find? fun item => item.id == id
  absent : ∀ id, view (bucketKey p id) = none → m id = none

section Refines

variable {p : PackerConfig μ} {view view' : View} {m : ItemMap μ} {item : Item μ}

theorem refines_empty (p : PackerConfig μ) : Refines p (fun _ => none) (fun _ => none) where
  stored _ _ h := by simp at h
  found _ _ _ h := by simp at h
  absent _ _ := rfl

/-- `GetItem` reads the map. -/
theorem Refines.getItem_eq (hcodec : p.codec.Lawful) (hr : Refines p view m) (id : String) :
    getItem p view id = if id = "" then .error (.error "empty item ID") else .ok (m id) := by
  by_cases hid : id = ""
  · simp only [getItem, hid, if_true]
    rfl
  simp only [getItem, hid, if_false, getBucket, bucketKey_ne_empty]
  rcases hv : view (bucketKey p id) with _ | value
  · rw [hr.absent id hv]
    rfl
  · obtain ⟨b, hb, -⟩ := hr.stored _ _ hv
    dsimp only
    rw [decodeBucket_of_encodes hcodec hb, hr.found id b value hv hb]
    rfl

/-- A write of a well-formed bucket under the key of `k`'s IDs refines the map that differs
only at those IDs, as the bucket says. -/
theorem Refines.write (hcodec : p.codec.Lawful) (hr : Refines p view m) {b : Bucket μ}
    {k : String} (hwf : WellFormed p k b) {m' : ItemMap μ}
    (hm' : ∀ id, m' id = if bucketKey p id = k then b.items.find? (fun i => i.id == id) else m id)
    (h : putBucket p view b = .ok view') : Refines p view' m' := by
  obtain ⟨value, henc, rfl⟩ := putBucket_eq_ok h
  rw [hwf.key]
  refine ⟨fun k' v hv => ?_, fun id b' v hv hb' => ?_, fun id hv => ?_⟩
  · by_cases hk : k' = k
    · subst hk
      rw [Function.update_self] at hv
      cases hv
      exact ⟨b, henc, hwf⟩
    · rw [Function.update_of_ne hk] at hv
      exact hr.stored k' v hv
  · by_cases hk : bucketKey p id = k
    · rw [hk, Function.update_self] at hv
      cases hv
      rw [hm' id, if_pos hk, Encodes.unique hcodec henc hb']
    · rw [Function.update_of_ne hk] at hv
      rw [hm' id, if_neg hk]
      exact hr.found id b' v hv hb'
  · by_cases hk : bucketKey p id = k
    · rw [hk, Function.update_self] at hv
      cases hv
    · rw [Function.update_of_ne hk] at hv
      rw [hm' id, if_neg hk]
      exact hr.absent id hv

/-- `PutItem` maps the item's ID to the item. -/
theorem Refines.put (hcodec : p.codec.Lawful) (hr : Refines p view m)
    (h : putItem p view item = .ok view') :
    Refines p view' (Function.update m item.id (some item)) := by
  unfold putItem at h
  have hid : ¬item.id = "" := fun hid => by
    rw [if_pos hid] at h
    cases h
  rw [if_neg hid] at h
  dsimp only at h
  -- the item's bucket afterwards is well formed, and searched as the updated map
  obtain ⟨b', hwrite, hwf, hfind⟩ : ∃ b', putBucket p view b' = .ok view' ∧
      WellFormed p (bucketKey p item.id) b' ∧ ∀ id, bucketKey p id = bucketKey p item.id →
        b'.items.find? (fun i => i.id == id) = Function.update m item.id (some item) id := by
    rcases hv : view (bucketKey p item.id) with _ | value
    · -- a new bucket, with the item alone
      simp only [hv, pure_bind] at h
      refine ⟨_, h, ⟨rfl, List.nodup_singleton _, fun i hi => by rw [List.mem_singleton.mp hi]⟩,
        fun id hk => ?_⟩
      by_cases hx : item.id = id
      · subst hx
        simp
      · rw [Function.update_of_ne (Ne.symm hx), hr.absent id (hk ▸ hv)]
        simp [hx]
    · -- the stored bucket, with the item upserted
      simp only [hv] at h
      obtain ⟨b, hdec, h⟩ := bind_eq_ok h
      obtain ⟨b', hup, hwrite⟩ := bind_eq_ok h
      obtain ⟨b₀, henc, hwf⟩ := hr.stored _ _ hv
      rw [decodeBucket_of_encodes hcodec henc] at hdec
      cases hdec
      obtain ⟨hkey, hfind, hnodup, hmem⟩ := upsert_eq_ok (wrapError_eq_ok.mp hup)
      refine ⟨b', hwrite, ⟨hkey.trans hwf.key, hnodup hwf.nodup, fun i hi => ?_⟩, fun id hk => ?_⟩
      · rcases hmem i hi with rfl | hi
        · rfl
        · exact hwf.bucketKey i hi
      · rw [hfind id]
        by_cases hx : item.id = id
        · subst hx
          simp
        · rw [if_neg hx, Function.update_of_ne (Ne.symm hx), hr.found id b value (hk ▸ hv) henc]
  refine hr.write hcodec hwf (fun id => ?_) hwrite
  split_ifs with hk
  · exact (hfind id hk).symm
  · have hne : id ≠ item.id := fun he => hk (he ▸ rfl)
    rw [Function.update_of_ne hne]

/-- One round of the deletion unmaps the IDs to remove from its bucket. -/
theorem Refines.deleteRound (hcodec : p.codec.Lawful) (hr : Refines p view m)
    {itemIDs : List String} {key : String} (h : deleteFromBucket p itemIDs view key = .ok view') :
    Refines p view' (fun id => if itemsToRemove p itemIDs key id then none else m id) := by
  have hother : ∀ id, bucketKey p id ≠ key → itemsToRemove p itemIDs key id = false :=
    fun id hk => by simp [itemsToRemove, hk]
  unfold deleteFromBucket at h
  rcases hv : view key with _ | value
  · -- no bucket: the IDs to remove are unmapped already
    simp only [hv] at h
    cases h
    refine ⟨hr.stored, fun id b v hv' hb => ?_, fun id hv' => ?_⟩
    · have hk : bucketKey p id ≠ key := fun hk => by
        rw [hk, hv] at hv'
        cases hv'
      rw [hother id hk]
      exact hr.found id b v hv' hb
    · split_ifs
      · rfl
      · exact hr.absent id hv'
  · -- the bucket written back with the kept items
    simp only [hv] at h
    obtain ⟨b, hdec, hwrite⟩ := bind_eq_ok h
    obtain ⟨b₀, henc, hwf⟩ := hr.stored _ _ hv
    rw [decodeBucket_of_encodes hcodec henc] at hdec
    cases hdec
    have hperm := removeItems_perm (itemsToRemove p itemIDs key) b.items 0
      fun _ _ h => absurd h (Nat.not_lt_zero _)
    have hnd : ((b.items.filter fun it => !itemsToRemove p itemIDs key it.id).map Item.id).Nodup :=
      hwf.nodup.sublist (List.filter_sublist.map _)
    have hwf' : WellFormed p key
        { b with items := removeItems (itemsToRemove p itemIDs key) b.items 0 } :=
      ⟨hwf.key, (hperm.map _).nodup_iff.mpr hnd,
        fun i hi => hwf.bucketKey i (List.mem_of_mem_filter (hperm.subset hi))⟩
    refine hr.write hcodec hwf' (fun id => ?_) hwrite
    by_cases hk : bucketKey p id = key
    · rw [if_pos hk, find?_id_perm hperm ((hperm.map _).nodup_iff.mpr hnd), find?_filter_id,
        ← hr.found id b value (hk ▸ hv) henc]
    · rw [if_neg hk, hother id hk]
      rfl

/-- The rounds of a deletion, in any order, unmap the IDs to remove in the buckets visited. -/
theorem Refines.deleteRounds (hcodec : p.codec.Lawful) {itemIDs : List String} :
    ∀ (order : List String) (view view' : View) (m : ItemMap μ), Refines p view m →
      order.foldlM (deleteFromBucket p itemIDs) view = .ok view' →
      Refines p view' fun id => if id ∈ itemIDs ∧ bucketKey p id ∈ order then none else m id
  | [], view, view', m, hr, h => by
    cases h
    simpa using hr
  | key :: order, view, view', m, hr, h => by
    rw [List.foldlM_cons] at h
    obtain ⟨view₁, h₁, h⟩ := bind_eq_ok h
    have hr' := Refines.deleteRounds hcodec order view₁ view' _ (hr.deleteRound hcodec h₁) h
    -- the round on `key`, then those on `order`, unmap what the whole order does
    have hm : (fun id => if id ∈ itemIDs ∧ bucketKey p id ∈ order then none
          else if itemsToRemove p itemIDs key id then none else m id) =
        fun id => if id ∈ itemIDs ∧ bucketKey p id ∈ key :: order then none else m id := by
      funext id
      by_cases hid : id ∈ itemIDs <;> by_cases hk : bucketKey p id = key <;>
        simp [itemsToRemove, hid, hk]
    exact hm ▸ hr'

/-- `DeleteMultipleItems` unmaps its IDs, whatever order it visits their buckets in. -/
theorem Refines.deleteMultiple (hcodec : p.codec.Lawful) (hr : Refines p view m)
    {itemIDs order : List String} (hcover : ∀ id ∈ itemIDs, bucketKey p id ∈ order)
    (h : deleteMultipleItems p view itemIDs order = .ok view') :
    Refines p view' fun id => if id ∈ itemIDs then none else m id := by
  unfold deleteMultipleItems at h
  split_ifs at h with hempty
  · cases h
    simpa [List.isEmpty_iff.mp hempty] using hr
  · have hm : (fun id => if id ∈ itemIDs ∧ bucketKey p id ∈ order then none else m id) =
        fun id => if id ∈ itemIDs then none else m id := by
      funext id
      by_cases hid : id ∈ itemIDs <;> simp [hid, hcover id]
    exact hm ▸ Refines.deleteRounds hcodec order view view' m hr h

/-- Every call refines its effect on the map. -/
theorem Refines.exec (hcodec : p.codec.Lawful) (hr : Refines p view m) {op : PackerOp μ}
    (hcover : op.Covers p) (h : op.exec p view = .ok view') : Refines p view' (op.apply m) := by
  cases op with
  | put item => exact hr.put hcodec h
  | delete itemID =>
    -- `DeleteItem` is the deletion of the one ID in its bucket
    have hdelete : deleteMultipleItems p view [itemID] [bucketKey p itemID] = .ok view' := h
    have hr' := hr.deleteMultiple hcodec (fun id hid => by simp [List.mem_singleton.mp hid])
      hdelete
    have hm : (fun id => if id ∈ [itemID] then none else m id) =
        (PackerOp.delete itemID).apply m := by
      funext id
      by_cases hid : id = itemID <;> simp [PackerOp.apply, hid]
    exact hm ▸ hr'
  | deleteMultiple itemIDs order => exact hr.deleteMultiple hcodec hcover h

/-- Every successful run refines the calls' effect on the map. -/
theorem Refines.run (hcodec : p.codec.Lawful) :
    ∀ (ops : List (PackerOp μ)) (view view' : View) (m : ItemMap μ), (∀ op ∈ ops, op.Covers p) →
      Refines p view m → runPacker p view ops = .ok view' → Refines p view' (applyAll m ops)
  | [], view, view', m, _, hr, h => by
    cases h
    exact hr
  | op :: ops, view, view', m, hcover, hr, h => by
    unfold runPacker at h
    rw [List.foldlM_cons] at h
    obtain ⟨view₁, h₁, h⟩ := bind_eq_ok h
    exact Refines.run hcodec ops view₁ view' (op.apply m)
      (fun op' hop' => hcover op' (List.mem_cons_of_mem op hop'))
      (hr.exec hcodec (hcover op List.mem_cons_self) h₁) h

end Refines

theorem storagePacker_refines_map (p : PackerConfig μ) (hcodec : p.codec.Lawful)
    (ops : List (PackerOp μ)) (hcover : ∀ op ∈ ops, op.Covers p) (view : View)
    (hrun : runPacker p (fun _ => none) ops = .ok view) :
    (∀ id, getItem p view id =
      if id = "" then .error (.error "empty item ID") else .ok (applyAll (fun _ => none) ops id)) ∧
    ∀ k value, view k = some value → ∃ b : Bucket μ,
      decodeBucket p.codec "failed to decompress packed storage entry: "
        "failed to decode packed storage entry: " value = .ok b ∧
      b.key = k ∧ (b.items.map Item.id).Nodup ∧ ∀ item ∈ b.items, bucketKey p item.id = k := by
  have hr := Refines.run hcodec ops _ view _ hcover (refines_empty p) hrun
  refine ⟨hr.getItem_eq hcodec, fun k value hv => ?_⟩
  obtain ⟨b, henc, hwf⟩ := hr.stored k value hv
  exact ⟨b, decodeBucket_of_encodes hcodec henc _ _, hwf.key, hwf.nodup, hwf.bucketKey⟩

/-- The one bucket of the item `a`, with every ID hashed to bucket 7. -/
def bucketA : Bucket Unit := ⟨"packer/buckets/7", [⟨"a", ()⟩]⟩

/-- A codec that knows the one bucket `bucketA`, and does not compress. -/
def codecA : BucketCodec Unit where
  marshal b := if b = bucketA then .ok [1] else .error (.error "unknown bucket")
  unmarshal m := if m = [1] then .ok bucketA else .error (.error "unknown bytes")
  compress d := .ok d
  decompress c := .ok (c, false)

/-- A packer over `codecA` that puts every ID in bucket 7. -/
def packerA : PackerConfig Unit := ⟨codecA, "packer/buckets/", fun _ => 7⟩

/-- After putting `a`, `GetItem` finds it. -/
theorem storagePacker_refines_map_put_a :
    packerA.codec.Lawful ∧
      runPacker packerA (fun _ => none) [.put ⟨"a", ()⟩] =
        .ok (Function.update (fun _ => none) (bucketKey packerA "a") (some [1])) ∧
      getItem packerA (Function.update (fun _ => none) (bucketKey packerA "a") (some [1])) "a" =
        .ok (some ⟨"a", ()⟩) := by
  have hcodec : packerA.codec.Lawful := by
    refine ⟨fun b m h => ?_, fun d c h => ?_⟩
    · simp only [packerA, codecA] at h ⊢
      split_ifs at h with hb
      cases h
      simp [hb]
    · cases h
      rfl
  have hrun : runPacker packerA (fun _ => none) [.put ⟨"a", ()⟩] =
      .ok (Function.update (fun _ => none) (bucketKey packerA "a") (some [1])) := by
    rfl
  refine ⟨hcodec, hrun, ?_⟩
  rw [(storagePacker_refines_map packerA hcodec _ (by simp [PackerOp.Covers]) _ hrun).1 "a"]
  rfl

end Vault.Helper
