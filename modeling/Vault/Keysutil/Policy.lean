import Vault.Lib.GoRuntime
import Vault.Lib.GoStrings
import Vault.Lib.RadixTree
import Vault.Lib.StateFrame

/-!
# Transit key policies: archiving, persisting and rotating

A `Policy` (sdk/helper/keysutil/policy.go) keeps the key versions it can still use in `Keys`, a
map from the decimal version to the key, and every version up to `ArchiveVersion` in an archive
stored beside it. `Persist` moves keys between the two (`handleArchiving`), stores the archive,
then the policy. Its deferred function puts `ArchiveVersion` and `Keys` back when it returns an
error, and `Rotate`'s puts back `LatestVersion`, `MinDecryptionVersion` and `Keys`; a panic
returns no error, and both leave it alone.

`handleArchiving` also moves `ArchiveMinVersion` up to `MinAvailableVersion` when it trims the
archive, before the archive and the policy are stored, and no deferred function puts it back. A
`Persist` or a `Rotate` that returns an error leaves every other field as it was
(`persist_onError`, `rotate_onError`), and this one may have moved: a policy due for a trim,
on a storage that refuses the write, keeps the moved value
(`persist_rotate_move_archiveMinVersion`).

The storage is any state with a `Get` and a `Put` that may fail, and the JSON codec any
functions that may fail.
-/

namespace Vault.Keysutil

open GoRuntime GoStrings StateFrame SortedStore

/-- `KeyType`. -/
inductive KeyType where
  | aes256Gcm96 | ecdsaP256 | ed25519 | rsa2048 | rsa4096 | chacha20Poly1305 | ecdsaP384
  | ecdsaP521 | aes128Gcm96 | rsa3072
deriving DecidableEq, Repr

/-- `KeyEntry`: the key material of one version, the big integers and the RSA key by their
encodings. The zero entry is `default`. -/
structure KeyEntry where
  key : List UInt8
  hmacKey : List UInt8
  creationTime : ℤ
  ecX : Option ℤ
  ecY : Option ℤ
  ecD : Option ℤ
  rsaKey : Option (List UInt8)
  formattedPublicKey : String
  convergentVersion : ℤ
  deprecatedCreationTime : ℤ
deriving DecidableEq, Repr, Inhabited

/-- `keyEntryMap`, a Go map that may be nil (`none`). -/
abbrev KeyEntryMap := Option (Bucket KeyEntry)

namespace KeyEntryMap

/-- `m[k]`, which finds nothing in a nil map. -/
def get (m : KeyEntryMap) (k : String) : Option KeyEntry := m.bind (·.get k)

/-- `m[k] = v`, which panics on a nil map. -/
def set (m : KeyEntryMap) (k : String) (v : KeyEntry) : Go KeyEntryMap :=
  match m with
  | none => .error (.panic "assignment to entry in nil map")
  | some b => .ok (some (b.put k v))

/-- `delete(m, k)`. -/
def delete (m : KeyEntryMap) (k : String) : KeyEntryMap := m.map (·.delete k)

/-- `len(m)`. -/
def len (m : KeyEntryMap) : ℕ := (m.map (·.entries.length)).getD 0

end KeyEntryMap

/-- `strconv.Itoa`. -/
def itoa (i : ℤ) : String := toString i

/-- `currentConvergentVersion`. -/
def currentConvergentVersion : ℤ := 3

/-- `Policy`, with the fields its archiving, persisting and rotation read or write; `deleted`
is the unexported flag set when the key is deleted. -/
structure Policy where
  name : String
  keys : KeyEntryMap
  convergentEncryption : Bool
  minDecryptionVersion : ℤ
  minEncryptionVersion : ℤ
  latestVersion : ℤ
  archiveVersion : ℤ
  archiveMinVersion : ℤ
  minAvailableVersion : ℤ
  convergentVersion : ℤ
  type : KeyType
  storagePrefix : String
  deleted : Bool

/-- `logical.Storage`, by the two calls the policy makes, over the storage's own state. -/
structure Storage (σ : Type) where
  get : σ → String → Go (Option (List UInt8))
  put : σ → String → List UInt8 → Go σ

/-- The JSON encoding of the archive and of the policy, and the decoding of the archive. -/
structure Codec where
  marshalArchive : List KeyEntry → Go (List UInt8)
  decodeArchive : List UInt8 → Go (List KeyEntry)
  serialize : Policy → Go (List UInt8)

/-- The policy in memory and the storage. -/
structure State (σ : Type) where
  policy : Policy
  storage : σ

/-- A method of the policy. -/
abbrev PolicyM (σ : Type) := EStateM GoError (State σ)

variable {σ : Type} (st : Storage σ) (codec : Codec)

/-- The versions `lo, lo + 1, …` below `hi`, as a Go `for` loop counts them. -/
def intRange (lo hi : ℤ) : List ℤ := (List.range (hi - lo).toNat).map fun k => lo + k

/-- A write to the policy in memory. -/
def modifyPolicy (f : Policy → Policy) : PolicyM σ Unit :=
  modify fun s => { s with policy := f s.policy }

/-- `storage.Get`. -/
def storageGet (key : String) : PolicyM σ (Option (List UInt8)) := do
  lift (st.get (← get).storage key)

/-- `storage.Put`. -/
def storagePut (key : String) (value : List UInt8) : PolicyM σ Unit := do
  let storage ← lift (st.put (← get).storage key value)
  modify fun s => { s with storage }

/-- The storage key of the archive, `path.Join(p.StoragePrefix, "archive", p.Name)`. -/
def archivePath (p : Policy) : String := pathJoin [p.storagePrefix, "archive", p.name]

/-- The storage key of the policy. -/
def policyPath (p : Policy) : String := pathJoin [p.storagePrefix, "policy", p.name]

/-- `LoadArchive`: an archive never stored is empty. -/
def loadArchive : PolicyM σ (List KeyEntry) := do
  match ← storageGet st (archivePath (← get).policy) with
  | none => pure []
  | some raw => lift (codec.decodeArchive raw)

/-- `storeArchive`. -/
def storeArchive (archive : List KeyEntry) : PolicyM σ Unit := do
  let buf ← lift (codec.marshalArchive archive)
  storagePut st (archivePath (← get).policy) buf

/-- The sanity checks of `handleArchiving`, in order. -/
def archivingCheck (p : Policy) (keysContainsMinimum : Bool) : Option String :=
  if p.minDecryptionVersion < 1 then
    some ("minimum decryption version of " ++ itoa p.minDecryptionVersion ++ " is less than 1")
  else if p.latestVersion < 1 then
    some ("latest version of " ++ itoa p.latestVersion ++ " is less than 1")
  else if !keysContainsMinimum ∧ p.archiveVersion ≠ p.latestVersion then
    some "need to move keys from archive but archive version not up-to-date"
  else if p.archiveVersion > p.latestVersion then
    some ("archive version of " ++ itoa p.archiveVersion ++
      " is greater than the latest version " ++ itoa p.latestVersion)
  else if p.minEncryptionVersion > 0 ∧ p.minEncryptionVersion < p.minDecryptionVersion then
    some ("minimum decryption version of " ++ itoa p.minDecryptionVersion ++
      " is greater than minimum encryption version " ++ itoa p.minEncryptionVersion)
  else if p.minDecryptionVersion > p.latestVersion then
    some ("minimum decryption version of " ++ itoa p.minDecryptionVersion ++
      " is greater than the latest version " ++ itoa p.latestVersion)
  else none

/-- One turn of the loop that moves keys back from the archive. -/
def restoreFromArchive (archive : List KeyEntry) (i : ℤ) : PolicyM σ Unit := do
  let p := (← get).policy
  let entry ← lift (indexInt archive (i - p.minAvailableVersion))
  let keys ← lift (p.keys.set (itoa i) entry)
  modifyPolicy fun p => { p with keys }

/-- One turn of the loop that copies keys into the archive. -/
def copyToArchive (archive : List KeyEntry) (i : ℤ) : PolicyM σ (List KeyEntry) := do
  let p := (← get).policy
  let archive ← lift
    (setIndexInt archive (i - p.minAvailableVersion) ((p.keys.get (itoa i)).getD default))
  modifyPolicy fun p => { p with archiveVersion := i }
  pure archive

/-- The archive's trim: the versions below `MinAvailableVersion` are dropped from it, and
`ArchiveMinVersion` moves up. -/
def trimArchive (archive : List KeyEntry) : PolicyM σ (List KeyEntry) := do
  let p := (← get).policy
  if p.archiveMinVersion < p.minAvailableVersion then
    let archive ← lift (sliceFrom archive (p.minAvailableVersion - p.archiveMinVersion))
    modifyPolicy fun p => { p with archiveMinVersion := p.minAvailableVersion }
    pure archive
  else pure archive

/-- `handleArchiving`. -/
def handleArchiving : PolicyM σ Unit := do
  let p := (← get).policy
  let keysContainsMinimum := (p.keys.get (itoa p.minDecryptionVersion)).isSome
  if let some msg := archivingCheck p keysContainsMinimum then throw (.error msg)
  let archive ← loadArchive st codec
  if !keysContainsMinimum then
    -- move keys from the archive
    (intRange p.minDecryptionVersion (p.latestVersion + 1)).forM (restoreFromArchive archive)
  else
    -- the archive grows to hold every version up to the latest
    let archive := if archive.length + p.minAvailableVersion < p.latestVersion + 1 then
      archive ++ List.replicate
        ((p.latestVersion - p.minAvailableVersion + 1).toNat - archive.length) default
      else archive
    let archive ← (intRange (p.archiveVersion + 1) (p.latestVersion + 1)).foldlM copyToArchive
      archive
    let archive ← trimArchive archive
    storeArchive st codec archive
    -- drop the keys below the minimum decryption version, once the archive holds them
    let p := (← get).policy
    (intRange (p.latestVersion - p.keys.len + 1) p.minDecryptionVersion).forM fun i =>
      modifyPolicy fun p => { p with keys := p.keys.delete (itoa i) }

/-- `defer func() { if retErr != nil { ... } }()`: on an error return the policy is put back by
`restore`; a panic returns no error, and passes untouched. -/
def deferOnError (x : PolicyM σ Unit) (restore : Policy → Policy) : PolicyM σ Unit :=
  onErrorModify x fun e s => if e.isPanic then s else { s with policy := restore s.policy }

/-- `Persist`. -/
def persist : PolicyM σ Unit := do
  let p := (← get).policy
  if p.deleted then throw (.error "key has been deleted, not persisting")
  let priorArchiveVersion := p.archiveVersion
  let priorKeys := p.keys
  deferOnError (do
      handleArchiving st codec
      let buf ← lift (codec.serialize (← get).policy)
      storagePut st (policyPath (← get).policy) buf)
    fun p => { p with archiveVersion := priorArchiveVersion, keys := priorKeys }

/-- `RotateInMemory`. `newEntry` is the entry it builds for the key type from the random reader
and the clock, or the error of that generation. -/
def rotateInMemory (newEntry : KeyType → Go KeyEntry) : PolicyM σ Unit := do
  let p := (← get).policy
  let entry ← lift (newEntry p.type)
  let entry := if p.convergentEncryption ∧ (p.convergentVersion = -1 ∨ p.convergentVersion > 1)
    then { entry with convergentVersion := currentConvergentVersion } else entry
  modifyPolicy fun p =>
    let latestVersion := p.latestVersion + 1
    { p with
      latestVersion
      keys := some ((p.keys.getD .empty).put (itoa latestVersion) entry)
      minDecryptionVersion := if p.minDecryptionVersion = 0 then 1 else p.minDecryptionVersion }

/-- `Rotate`. -/
def rotate (newEntry : KeyType → Go KeyEntry) : PolicyM σ Unit := do
  let p := (← get).policy
  let priorLatestVersion := p.latestVersion
  let priorMinDecryptionVersion := p.minDecryptionVersion
  let priorKeys := p.keys
  deferOnError (do rotateInMemory newEntry; persist st codec)
    fun p => { p with
      latestVersion := priorLatestVersion
      minDecryptionVersion := priorMinDecryptionVersion
      keys := priorKeys }

/-! ## What a failing `Persist` or `Rotate` leaves -/

/-- The policy with the fields `handleArchiving` writes blanked out. -/
def Policy.withoutArchiving (p : Policy) : Policy :=
  { p with keys := none, archiveVersion := 0, archiveMinVersion := 0 }

/-- What `handleArchiving` may change: the keys, `ArchiveVersion`, and `ArchiveMinVersion`, which
stays or moves to `MinAvailableVersion`. -/
def ArchivingFrame (s s' : State σ) : Prop :=
  s'.policy.withoutArchiving = s.policy.withoutArchiving ∧
    (s'.policy.archiveMinVersion = s.policy.archiveMinVersion ∨
      s'.policy.archiveMinVersion = s.policy.minAvailableVersion)

theorem ArchivingFrame.minAvailableVersion {s s' : State σ} (h : ArchivingFrame s s') :
    s'.policy.minAvailableVersion = s.policy.minAvailableVersion := by
  show s'.policy.withoutArchiving.minAvailableVersion =
    s.policy.withoutArchiving.minAvailableVersion
  rw [h.1]

instance : Std.Refl (ArchivingFrame (σ := σ)) := ⟨fun _ => ⟨rfl, .inl rfl⟩⟩

instance : IsTrans (State σ) ArchivingFrame where
  trans _ _ _ h₁ h₂ := ⟨h₂.1.trans h₁.1, by
    rcases h₂.2 with h | h
    · rw [h]; exact h₁.2
    · rw [h, h₁.minAvailableVersion]; exact .inr rfl⟩

theorem ArchivingFrame.of_policy {s s' : State σ} (h : s'.policy = s.policy) :
    ArchivingFrame s s' :=
  ⟨by rw [h], .inl (by rw [h])⟩

theorem modifyPolicy_preserves {f : Policy → Policy}
    (hf : ∀ p, (f p).withoutArchiving = p.withoutArchiving ∧
      ((f p).archiveMinVersion = p.archiveMinVersion ∨
        (f p).archiveMinVersion = p.minAvailableVersion)) :
    Preserves ArchivingFrame (modifyPolicy f : PolicyM σ Unit) :=
  Preserves.modify fun s => hf s.policy

theorem storageGet_preserves (key : String) : Preserves ArchivingFrame (storageGet st key) :=
  Preserves.of_get fun _ => Preserves.lift _

theorem storagePut_preserves (key : String) (value : List UInt8) :
    Preserves ArchivingFrame (storagePut st key value) :=
  Preserves.of_get fun _ => Preserves.bind (Preserves.lift _) fun _ =>
    Preserves.modify fun _ => ArchivingFrame.of_policy rfl

theorem loadArchive_preserves : Preserves ArchivingFrame (loadArchive st codec) := by
  refine Preserves.of_get fun s => Preserves.bind (storageGet_preserves st _) fun raw => ?_
  cases raw with
  | none => exact Preserves.pure _
  | some raw => exact Preserves.lift _

theorem storeArchive_preserves (archive : List KeyEntry) :
    Preserves ArchivingFrame (storeArchive st codec archive) :=
  Preserves.bind (Preserves.lift _) fun _ => Preserves.of_get fun _ => storagePut_preserves st _ _

theorem restoreFromArchive_preserves (archive : List KeyEntry) (i : ℤ) :
    Preserves ArchivingFrame (restoreFromArchive archive i : PolicyM σ Unit) :=
  Preserves.of_get fun _ => Preserves.bind (Preserves.lift _) fun _ =>
    Preserves.bind (Preserves.lift _) fun _ => modifyPolicy_preserves fun _ => ⟨rfl, .inl rfl⟩

theorem copyToArchive_preserves (archive : List KeyEntry) (i : ℤ) :
    Preserves ArchivingFrame (copyToArchive archive i : PolicyM σ (List KeyEntry)) :=
  Preserves.of_get fun _ => Preserves.bind (Preserves.lift _) fun _ =>
    Preserves.bind (modifyPolicy_preserves fun _ => ⟨rfl, .inl rfl⟩) fun _ => Preserves.pure _

theorem trimArchive_preserves (archive : List KeyEntry) :
    Preserves ArchivingFrame (trimArchive archive : PolicyM σ (List KeyEntry)) := by
  refine Preserves.of_get fun s => Preserves.ite ?_ (Preserves.pure _)
  exact Preserves.bind (Preserves.lift _) fun _ =>
    Preserves.bind (modifyPolicy_preserves fun _ => ⟨rfl, .inr rfl⟩) fun _ => Preserves.pure _

theorem handleArchiving_preserves : Preserves ArchivingFrame (handleArchiving st codec) := by
  refine Preserves.of_get fun s => ?_
  dsimp only
  split
  · exact Preserves.throw _
  · refine Preserves.bind (loadArchive_preserves st codec) fun archive => ?_
    split
    · -- the keys come back from the archive
      exact Preserves.forM (fun i => restoreFromArchive_preserves archive i) _
    · -- the keys go to the archive, which is trimmed and stored before the keys are dropped
      refine Preserves.bind (Preserves.foldlM copyToArchive_preserves _ _) fun archive => ?_
      refine Preserves.bind (trimArchive_preserves archive) fun archive => ?_
      refine Preserves.bind (storeArchive_preserves st codec archive) fun _ => ?_
      refine Preserves.of_get fun _ => Preserves.forM (fun i => ?_) _
      exact modifyPolicy_preserves fun _ => ⟨rfl, .inl rfl⟩

/-- Putting back the keys and `ArchiveVersion` undoes all of an archiving but its
`ArchiveMinVersion`. -/
theorem Policy.restore_eq {p p' : Policy} (h : p'.withoutArchiving = p.withoutArchiving) :
    { p' with archiveVersion := p.archiveVersion, keys := p.keys } =
      { p with archiveMinVersion := p'.archiveMinVersion } := by
  cases p
  cases p'
  simp only [Policy.withoutArchiving, Policy.mk.injEq] at h ⊢
  tauto

/-- `s'` holds the policy of `s` but for its `ArchiveMinVersion`, which stayed or moved up to
`MinAvailableVersion`. -/
def OnlyArchiveMinVersionMoved (s s' : State σ) : Prop :=
  s'.policy = { s.policy with archiveMinVersion := s'.policy.archiveMinVersion } ∧
    (s'.policy.archiveMinVersion = s.policy.archiveMinVersion ∨
      s'.policy.archiveMinVersion = s.policy.minAvailableVersion)

/-- A `Persist` that returns an error puts back all that its archiving changed but
`ArchiveMinVersion`. -/
theorem persist_onError {s s' : State σ} {msg : String}
    (h : (persist st codec).run s = .error (.error msg) s') : OnlyArchiveMinVersionMoved s s' := by
  have hbody : Preserves ArchivingFrame (do
      handleArchiving st codec
      let buf ← lift (codec.serialize (← get).policy)
      storagePut st (policyPath (← get).policy) buf) := by
    refine Preserves.bind (handleArchiving_preserves st codec) fun _ => ?_
    refine Preserves.of_get fun _ => Preserves.bind (Preserves.lift _) fun buf => ?_
    exact Preserves.of_get fun _ => storagePut_preserves st _ buf
  simp only [persist, run_bind, run_get] at h
  split at h
  · -- a deleted key: nothing was written
    cases h
    exact ⟨rfl, .inl rfl⟩
  · obtain ⟨s₁, hs₁, rfl⟩ := run_onErrorModify_error.mp h
    obtain ⟨hframe, hmin⟩ := hbody.of_run_error hs₁
    simp only [GoError.isPanic, Bool.false_eq_true, if_false]
    exact ⟨Policy.restore_eq hframe, hmin⟩

/-- `RotateInMemory` writes only `LatestVersion`, the keys and `MinDecryptionVersion`. -/
theorem rotateInMemory_policy (newEntry : KeyType → Go KeyEntry) (s : State σ) :
    ∃ latestVersion keys minDecryptionVersion,
      (Result.state ((rotateInMemory newEntry).run s)).policy =
        { s.policy with latestVersion, keys, minDecryptionVersion } := by
  simp only [rotateInMemory, run_bind, run_get]
  cases newEntry s.policy.type with
  | error e => exact ⟨_, _, _, rfl⟩
  | ok entry => exact ⟨_, _, _, rfl⟩

/-- A `Rotate` that returns an error, in the generation of the key or in its `Persist`, leaves
the policy as it was but for `ArchiveMinVersion`. -/
theorem rotate_onError (newEntry : KeyType → Go KeyEntry) {s s' : State σ} {msg : String}
    (h : (rotate st codec newEntry).run s = .error (.error msg) s') :
    OnlyArchiveMinVersionMoved s s' := by
  simp only [rotate, run_bind, run_get] at h
  obtain ⟨s₁, hs₁, rfl⟩ := run_onErrorModify_error.mp h
  simp only [GoError.isPanic, Bool.false_eq_true, if_false]
  rcases run_bind_error.mp hs₁ with hrot | ⟨u, s₀, hrot, hpersist⟩
  · -- the new key was not generated
    obtain ⟨l, k, m, hpol⟩ := rotateInMemory_policy newEntry s
    rw [hrot, Result.state_error] at hpol
    rw [hpol]
    exact ⟨rfl, .inl rfl⟩
  · obtain ⟨l, k, m, hpol⟩ := rotateInMemory_policy newEntry s
    rw [hrot, Result.state_ok] at hpol
    obtain ⟨hp, hmin⟩ := persist_onError st codec hpersist
    rw [hp, hpol]
    rw [hpol] at hmin
    exact ⟨rfl, hmin⟩

/-- A policy whose archive is due for a trim: `ArchiveMinVersion` 0 below `MinAvailableVersion`
1, with version 1 in memory and archived. -/
def trimPendingPolicy : Policy :=
  ⟨"k", some (Bucket.empty.put "1" default), false, 1, 0, 1, 1, 0, 1, 0, .aes256Gcm96, "", false⟩

/-- A storage that reads nothing and refuses every write. -/
def refusingStorage : Storage Unit :=
  ⟨fun _ _ => .ok none, fun _ _ _ => .error (.error "put failed")⟩

/-- A codec whose encodings are empty. -/
def emptyCodec : Codec := ⟨fun _ => .ok [], fun _ => .ok [], fun _ => .ok []⟩

theorem rotate_onError_refused :
    ∃ s', (rotate refusingStorage emptyCodec fun _ => .ok default).run ⟨trimPendingPolicy, ()⟩ =
      .error (.error "put failed") s' ∧ OnlyArchiveMinVersionMoved ⟨trimPendingPolicy, ()⟩ s' :=
  ⟨_, rfl, rotate_onError refusingStorage emptyCodec (fun _ => .ok default) rfl⟩

theorem persist_rotate_move_archiveMinVersion :
    trimPendingPolicy.archiveMinVersion = 0 ∧
    (∃ s', (persist refusingStorage emptyCodec).run ⟨trimPendingPolicy, ()⟩ =
        .error (.error "put failed") s' ∧ s'.policy.archiveMinVersion = 1) ∧
    (∃ s', (rotate refusingStorage emptyCodec fun _ => .ok default).run ⟨trimPendingPolicy, ()⟩ =
        .error (.error "put failed") s' ∧ s'.policy.archiveMinVersion = 1) :=
  ⟨rfl, ⟨_, rfl, rfl⟩, ⟨_, rfl, rfl⟩⟩

end Vault.Keysutil
