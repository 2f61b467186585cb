import Vault.Barrier.Keyring
import Vault.Lib.AEAD
import Vault.Lib.StateFrame
import Vault.Physical.Transactions

/-!
# The AES-GCM security barrier

`AESGCMBarrier` (vault/barrier_aes_gcm.go) encrypts every entry it writes to the physical
backend: a value is stored as the 4-byte big-endian key term, a version byte, the nonce, and
the AEAD sealing of the plaintext with the entry's path as additional data. The keyring of
terms is itself stored under `core/keyring`, sealed with the master key, and the master key
under `core/master`, sealed with the active key.

The barrier runs in `EStateM GoError AESGCMBarrier`: a call that writes and then fails has
still written. The backend is a map that never fails; AES-GCM and the JSON codec are the
parameters of a `Runtime`; crypto/rand is a schedule of nonces.
-/

namespace Vault.Barrier

open GoRuntime StateFrame

/-- `logical.StorageEntry`: the fields of a `physical.Entry`. -/
abbrev StorageEntry := Vault.Physical.Entry

/-- `initialKeyTerm`. -/
def initialKeyTerm : UInt32 := 1

/-- `AESGCMVersion1`. -/
def aesgcmVersion1 : UInt8 := 1

/-- `AESGCMVersion2`. -/
def aesgcmVersion2 : UInt8 := 2

/-- `barrierInitPath`. -/
def barrierInitPath : String := "barrier/init"

/-- `keyringPath`. -/
def keyringPath : String := "core/keyring"

/-- `keyringUpgradePrefix`. -/
def keyringUpgradePrefix : String := "core/upgrade/"

/-- `masterKeyPath`. -/
def masterKeyPath : String := "core/master"

/-- `shamirKekPath`. -/
def shamirKekPath : String := "core/shamir-kek"

/-- `ErrBarrierSealed`. -/
def errBarrierSealed : String := "Vault is sealed"

/-- `ErrBarrierAlreadyInit`. -/
def errBarrierAlreadyInit : String := "Vault is already initialized"

/-- `ErrBarrierNotInit`. -/
def errBarrierNotInit : String := "Vault is not initialized"

/-- `ErrBarrierInvalidKey`. -/
def errBarrierInvalidKey : String := "Unseal failed, invalid key"

/-- The error of `gcm.Open` on a text that does not authenticate. -/
def errAuthFailed : String := "cipher: message authentication failed"

/-- `gcm.NonceSize()`. -/
def gcmNonceSize : ℕ := 12

/-- The library code the barrier calls: AES-GCM and `encoding/json`. -/
structure Runtime where
  aead : AEAD.Cipher
  codec : Codec

/-- `AESGCMBarrier`: the backend's entries, the seal state, the keyring, the version byte
and the initialized flag; `nonces` and `reads` are crypto/rand's answers and how many were
read (the AEAD cache, the locks and the encryption counters are left out). -/
structure AESGCMBarrier where
  backend : String → Option StorageEntry
  sealed : Bool
  keyring : Option Keyring
  currentAESGCMVersionByte : UInt8
  initialized : Bool
  nonces : ℕ → Fin gcmNonceSize → UInt8
  reads : ℕ

/-- A barrier method. -/
abbrev BarrierM := EStateM GoError AESGCMBarrier

/-- `NewAESGCMBarrier`: sealed, without a keyring, writing version 2. -/
def newAESGCMBarrier (backend : String → Option StorageEntry)
    (nonces : ℕ → Fin gcmNonceSize → UInt8) : AESGCMBarrier :=
  ⟨backend, true, none, aesgcmVersion2, false, nonces, 0⟩

/-! ## Helpers -/

/-- A call that does not touch the barrier. -/
def liftGo {α : Type} (x : Go α) : BarrierM α := fun s =>
  match x with
  | .ok a => .ok a s
  | .error e => .error e s

@[simp] theorem run_liftGo_ok {α : Type} (a : α) (s : AESGCMBarrier) :
    (liftGo (.ok a : Go α)).run s = .ok a s := rfl

@[simp] theorem run_liftGo_error {α : Type} (e : GoError) (s : AESGCMBarrier) :
    (liftGo (.error e : Go α)).run s = .error e s := rfl

/-- A library error as a Go error. -/
def ofExcept {α : Type} (x : Except String α) : Go α := x.mapError GoError.error

@[simp] theorem ofExcept_ok {α : Type} (a : α) : ofExcept (.ok a : Except String α) = .ok a := rfl

/-- `fmt.Errorf(pre + "%w", err)` around a method. -/
def wrapErrorM {α : Type} (pre : String) (x : BarrierM α) : BarrierM α := fun s =>
  match x s with
  | .error (.error msg) s' => .error (.error (pre ++ msg)) s'
  | r => r

/-- `binary.BigEndian.PutUint32`. -/
def putUint32 (t : UInt32) : Bytes :=
  [(t >>> 24).toUInt8, (t >>> 16).toUInt8, (t >>> 8).toUInt8, t.toUInt8]

/-- `binary.BigEndian.Uint32`, which panics on fewer than four bytes. -/
def uint32 : Bytes → Go UInt32
  | b0 :: b1 :: b2 :: b3 :: _ =>
    .ok ((b0.toUInt32 <<< 24) ||| (b1.toUInt32 <<< 16) ||| (b2.toUInt32 <<< 8) ||| b3.toUInt32)
  | _ => .error (.panic "index out of range")

/-- `[]byte(path)`. -/
def aadOf (path : String) : Bytes := path.toList.flatMap String.utf8EncodeChar

/-- `aeadFromKey`: AES accepts keys of 16, 24 or 32 bytes. -/
def aeadFromKey (key : Bytes) : Go Bytes :=
  if key.length = 16 ∨ key.length = 24 ∨ key.length = 32 then .ok key
  else .error (.error ("failed to create cipher: crypto/aes: invalid key size " ++
    toString key.length))

/-- The keyring, where the method dereferences it. -/
def requireKeyring : BarrierM Keyring := do
  match (← get).keyring with
  | some keyring => pure keyring
  | none => throw (.panic "nil pointer dereference")

/-- `b.backend.Put`. -/
def backendPut (pe : StorageEntry) : BarrierM Unit :=
  modify fun b => { b with backend := Function.update b.backend pe.key (some pe) }

/-- `b.backend.Delete`. -/
def backendDelete (key : String) : BarrierM Unit :=
  modify fun b => { b with backend := Function.update b.backend key none }

/-- `rand.Read(nonce)`. -/
def nextNonce : BarrierM Bytes :=
  modifyGet fun b => (List.ofFn (b.nonces b.reads), { b with reads := b.reads + 1 })

/-- `gcm.Open`. -/
def gcmOpen (rt : Runtime) (gcm nonce raw aad : Bytes) : Go Bytes :=
  match rt.aead.openText gcm nonce raw aad with
  | some plain => .ok plain
  | none => .error (.error errAuthFailed)

/-! ## Encryption -/

/-- `encrypt`: term, version byte and nonce, then the sealed plaintext. -/
def encrypt (rt : Runtime) (path : String) (term : UInt32) (gcm plain : Bytes) :
    BarrierM Bytes := do
  let b ← get
  let nonce ← nextNonce
  let out := putUint32 term ++ [b.currentAESGCMVersionByte] ++ nonce
  if b.currentAESGCMVersionByte = aesgcmVersion1 then
    pure (out ++ rt.aead.sealText gcm nonce plain [])
  else if b.currentAESGCMVersionByte = aesgcmVersion2 then
    pure (out ++ rt.aead.sealText gcm nonce plain (aadOf path))
  else
    throw (.panic "Unknown AESGCM version")

/-- `decrypt`: the slices of the nonce and the sealed text panic on a short value. -/
def decrypt (rt : Runtime) (path : String) (gcm cipher : Bytes) : Go Bytes := do
  if cipher.length < 5 + gcmNonceSize then throw (.panic "slice bounds out of range")
  let nonce := (cipher.drop 5).take gcmNonceSize
  let raw := cipher.drop (5 + gcmNonceSize)
  -- the output buffer's capacity is len(raw) - NonceSize
  if raw.length < gcmNonceSize then throw (.panic "makeslice: cap out of range")
  let version ← index cipher 4
  if version = aesgcmVersion1 then gcmOpen rt gcm nonce raw []
  else if version = aesgcmVersion2 then gcmOpen rt gcm nonce raw (aadOf path)
  else throw (.error "version bytes mis-match")

/-- A failed authentication reported as a wrong unseal key. -/
def invalidKeyOnAuth (x : Go Bytes) : Go Bytes :=
  match x with
  | .error (.error msg) => if msg = errAuthFailed then .error (.error errBarrierInvalidKey) else x
  | _ => x

/-- `aeadForTerm` (the cache of AEADs left out: it memoizes `aeadFromKey` per term, and is
reset whenever a term could change its key). -/
def aeadForTerm (term : UInt32) : BarrierM (Option Bytes) := do
  match (← get).keyring with
  | none => pure none
  | some keyring =>
    match keyring.termKey term with
    | none => pure none
    | some key => do
      let gcm ← liftGo (aeadFromKey key.value)
      pure (some gcm)

/-! ## Storage -/

/-- `putInternal`: a nil AEAD panics in `encrypt`. -/
def putInternal (rt : Runtime) (term : UInt32) (primary : Option Bytes) (entry : StorageEntry) :
    BarrierM Unit := do
  let some primary := primary | throw (.panic "nil pointer dereference")
  let value ← encrypt rt entry.key term primary entry.value
  backendPut ⟨entry.key, value, entry.sealWrap⟩

/-- `Put`. -/
def AESGCMBarrier.put (rt : Runtime) (entry : StorageEntry) : BarrierM Unit := do
  if (← MonadState.get).sealed then throw (.error errBarrierSealed)
  let keyring ← requireKeyring
  let term := keyring.activeTerm
  let primary ← aeadForTerm term
  putInternal rt term primary entry

/-- `lockSwitchedGet`. -/
def lockSwitchedGet (rt : Runtime) (key : String) : BarrierM (Option StorageEntry) := do
  let b ← get
  if b.sealed then throw (.error errBarrierSealed)
  match b.backend key with
  | none => pure none
  | some pe =>
    if pe.value.length < 4 then throw (.error "invalid value")
    let term ← liftGo (uint32 pe.value)
    match ← aeadForTerm term with
    | none => throw (.error ("no decryption key available for term " ++ toString term))
    | some gcm => do
      let plain ← liftGo (wrapError "decryption failed: " (decrypt rt key gcm pe.value))
      pure (some ⟨key, plain, pe.sealWrap⟩)

/-- `Get`. -/
def AESGCMBarrier.get (rt : Runtime) (key : String) : BarrierM (Option StorageEntry) :=
  lockSwitchedGet rt key

/-- `Decrypt` of the `BarrierEncryptor` interface (renamed here: the barrier's own `decrypt`
keeps the name): the term is read from the first four bytes of `ciphertext`, with no check of
its length. -/
def AESGCMBarrier.encryptorDecrypt (rt : Runtime) (key : String) (ciphertext : Bytes) :
    BarrierM Bytes := do
  if (← MonadState.get).sealed then throw (.error errBarrierSealed)
  let term ← liftGo (uint32 ciphertext)
  match ← aeadForTerm term with
  | none => throw (.error ("no decryption key available for term " ++ toString term))
  | some gcm => liftGo (wrapError "decryption failed: " (decrypt rt key gcm ciphertext))

/-- `Delete`. -/
def AESGCMBarrier.delete (key : String) : BarrierM Unit := do
  if (← MonadState.get).sealed then throw (.error errBarrierSealed)
  backendDelete key

/-! ## The keyring -/

/-- `persistKeyring`: the keyring sealed with the master key under term 1, then the master
key sealed with the active key. -/
def persistKeyring (rt : Runtime) (keyring : Keyring) : BarrierM Unit := do
  let keyringBuf := keyring.serialize rt.codec
  let gcm ← liftGo (aeadFromKey keyring.masterKey)
  let value ← encrypt rt keyringPath initialKeyTerm gcm keyringBuf
  backendPut ⟨keyringPath, value, false⟩
  let keyBuf := rt.codec.encodeKey (some ⟨1, 1, keyring.masterKey⟩)
  let some activeKey := keyring.activeKey | throw (.panic "nil pointer dereference")
  let aead ← liftGo (aeadFromKey activeKey.value)
  let value ← encrypt rt masterKeyPath activeKey.term aead keyBuf
  backendPut ⟨masterKeyPath, value, false⟩

/-- `Initialized`: the listing of `core/` holds `keyring` exactly when `core/keyring` is
stored; the flag, once set, is kept. -/
def AESGCMBarrier.initializedCheck : BarrierM Bool := do
  let b ← MonadState.get
  if b.initialized then return true
  if (b.backend keyringPath).isSome then
    modify fun b => { b with initialized := true }
    return true
  let out := b.backend barrierInitPath
  modify fun b => { b with initialized := out.isSome }
  return out.isSome

/-- `Initialize`: `random` is what `GenerateKey` reads. -/
def AESGCMBarrier.initialize (rt : Runtime) (key sealKey : Bytes) (random : Fin 32 → UInt8) :
    BarrierM Unit := do
  if key.length < 16 ∨ key.length > 32 then throw (.error "key size must be 16 or 32")
  if ← AESGCMBarrier.initializedCheck then throw (.error errBarrierAlreadyInit)
  let encrypt := List.ofFn random
  let keyring ← liftGo (wrapError "failed to create keyring: "
    (ofExcept ((Keyring.newKeyring.setMasterKey key).addKey ⟨1, 1, encrypt⟩)))
  persistKeyring rt keyring
  if sealKey.length > 0 then
    let primary ← liftGo (aeadFromKey encrypt)
    wrapErrorM "failed to store new seal key: "
      (putInternal rt 1 (some primary) ⟨shamirKekPath, sealKey, false⟩)

/-- `recoverKeyring`. -/
def recoverKeyring (rt : Runtime) (plaintext : Bytes) : BarrierM Unit := do
  let keyring ← liftGo (wrapError "keyring deserialization failed: "
    (ofExcept (deserializeKeyring rt.codec plaintext)))
  modify fun b => { b with keyring := some keyring }

/-- `Unseal`: the keyring is read and opened with the given key; a barrier from before the
keyring is upgraded from its `barrier/init` sentinel. -/
def AESGCMBarrier.unseal (rt : Runtime) (key : Bytes) : BarrierM Unit := do
  let b ← MonadState.get
  if !b.sealed then return
  let gcm ← liftGo (aeadFromKey key)
  match b.backend keyringPath with
  | some out =>
    let term ← liftGo (uint32 out.value)
    if term ≠ initialKeyTerm then throw (.error "term mis-match")
    let plain ← liftGo (invalidKeyOnAuth (decrypt rt keyringPath gcm out.value))
    wrapErrorM "keyring deserialization failed: " (recoverKeyring rt plain)
    modify fun b => { b with sealed := false }
  | none =>
    let some out := b.backend barrierInitPath | throw (.error errBarrierNotInit)
    let term ← liftGo (uint32 out.value)
    if term ≠ initialKeyTerm then throw (.error "term mis-match")
    let plain ← liftGo (invalidKeyOnAuth (decrypt rt barrierInitPath gcm out.value))
    let init ← liftGo ((rt.codec.decodeBarrierInit plain).mapError
      fun _ => GoError.error "failed to unmarshal barrier init file")
    let keyring ← liftGo (wrapError "failed to create keyring: "
      (ofExcept ((Keyring.newKeyring.setMasterKey key).addKey ⟨1, 1, init.key⟩)))
    persistKeyring rt keyring
    backendDelete barrierInitPath
    modify fun b => { b with keyring := some keyring, sealed := false }

/-- `Seal`: the keyring is dropped. -/
def AESGCMBarrier.seal : BarrierM Unit :=
  modify fun b => { b with keyring := none, sealed := true }

/-- `Rotate`: `random` is what `GenerateKey` reads. -/
def AESGCMBarrier.rotate (rt : Runtime) (random : Fin 32 → UInt8) : BarrierM UInt32 := do
  if (← MonadState.get).sealed then throw (.error errBarrierSealed)
  let encrypt := List.ofFn random
  let keyring ← requireKeyring
  let newTerm := keyring.activeTerm + 1
  let newKeyring ← liftGo (wrapError "failed to add new encryption key: "
    (ofExcept (keyring.addKey ⟨newTerm, 1, encrypt⟩)))
  persistKeyring rt newKeyring
  modify fun b => { b with keyring := some newKeyring }
  pure newTerm

/-- `CreateUpgrade`: the key of `term`, sealed with the key of the term before, under
`core/upgrade/<term - 1>`. -/
def AESGCMBarrier.createUpgrade (rt : Runtime) (term : UInt32) : BarrierM Unit := do
  if (← MonadState.get).sealed then throw (.error errBarrierSealed)
  let keyring ← requireKeyring
  let buf := rt.codec.encodeKey (keyring.termKey term)
  let prevTerm := term - 1
  let primary ← aeadForTerm prevTerm
  let key := keyringUpgradePrefix ++ toString prevTerm
  let some primary := primary | throw (.panic "nil pointer dereference")
  let value ← encrypt rt key prevTerm primary buf
  backendPut ⟨key, value, false⟩

/-- `CheckUpgrade` (the refetch under the write lock reads the same entry in a sequential
run). -/
def AESGCMBarrier.checkUpgrade (rt : Runtime) : BarrierM (Bool × UInt32) := do
  if (← MonadState.get).sealed then throw (.error errBarrierSealed)
  let keyring ← requireKeyring
  let upgrade := keyringUpgradePrefix ++ toString keyring.activeTerm
  match ← lockSwitchedGet rt upgrade with
  | none => pure (false, 0)
  | some entry => do
    let key ← liftGo (ofExcept (deserializeKey rt.codec entry.value))
    let newKeyring ← liftGo (wrapError "failed to add new encryption key: "
      (ofExcept (keyring.addKey key)))
    modify fun b => { b with keyring := some newKeyring }
    pure (true, key.term)

/-- `updateMasterKeyCommon`. -/
def updateMasterKeyCommon (key : Bytes) : BarrierM Keyring := do
  if (← get).sealed then throw (.error errBarrierSealed)
  if key.length < 16 ∨ key.length > 32 then throw (.error "key size must be 16 or 32")
  let keyring ← requireKeyring
  pure (keyring.setMasterKey key)

/-- `Rekey`: the keyring under a new master key. -/
def AESGCMBarrier.rekey (rt : Runtime) (key : Bytes) : BarrierM Unit := do
  let newKeyring ← updateMasterKeyCommon key
  persistKeyring rt newKeyring
  modify fun b => { b with keyring := some newKeyring }

/-- `ReloadKeyring`: the stored keyring, opened with the master key in memory. -/
def AESGCMBarrier.reloadKeyring (rt : Runtime) : BarrierM Unit := do
  let keyring ← requireKeyring
  let gcm ← liftGo (aeadFromKey keyring.masterKey)
  let some out := (← MonadState.get).backend keyringPath | throw (.error "keyring unexpectedly missing")
  let term ← liftGo (uint32 out.value)
  if term ≠ initialKeyTerm then throw (.error "term mis-match")
  let plain ← liftGo (invalidKeyOnAuth (decrypt rt keyringPath gcm out.value))
  recoverKeyring rt plain

/-- `ReloadMasterKey` (the refetch under the write lock reads the same entry in a
sequential run). -/
def AESGCMBarrier.reloadMasterKey (rt : Runtime) : BarrierM Unit := do
  let some out ← wrapErrorM "failed to read master key path: " (lockSwitchedGet rt masterKeyPath)
    | pure ()
  let key ← liftGo (wrapError "failed to deserialize key: "
    (ofExcept (deserializeKey rt.codec out.value)))
  let keyring ← requireKeyring
  if keyring.masterKey = key.value then return
  modify fun b => { b with keyring := some (keyring.setMasterKey key.value) }

/-! ## Paths the barrier writes for itself -/

/-- The paths the barrier writes on its own account: the keyring, the master key, the seal
key, the legacy sentinel and the upgrade keys. -/
def reserved (key : String) : Bool :=
  key == barrierInitPath || key == keyringPath || key == masterKeyPath || key == shamirKekPath ||
    keyringUpgradePrefix.toList.isPrefixOf key.toList

/-- Two barriers hold the same entries under every unreserved path. -/
def SameUserEntries (b b' : AESGCMBarrier) : Prop :=
  ∀ key, reserved key = false → b'.backend key = b.backend key

instance : Std.Refl SameUserEntries := ⟨fun _ _ _ => rfl⟩

instance : IsTrans AESGCMBarrier SameUserEntries :=
  ⟨fun _ _ _ h1 h2 key hkey => (h2 key hkey).trans (h1 key hkey)⟩

/-- Two barriers hold the same entries. -/
def SameBackend (b b' : AESGCMBarrier) : Prop := b'.backend = b.backend

instance : Std.Refl SameBackend := ⟨fun _ => rfl⟩

instance : IsTrans AESGCMBarrier SameBackend := ⟨fun _ _ _ h1 h2 => h2.trans h1⟩

theorem SameBackend.sameUserEntries {b b' : AESGCMBarrier} (h : SameBackend b b') :
    SameUserEntries b b' :=
  fun key _ => congrFun h key

theorem liftGo_preserves {α : Type} {R : AESGCMBarrier → AESGCMBarrier → Prop} [Std.Refl R]
    (x : Go α) : Preserves R (liftGo x) := by
  intro s
  cases x <;> exact Std.Refl.refl s

theorem backendPut_frame {pe : StorageEntry} (h : reserved pe.key = true) :
    Preserves SameUserEntries (backendPut pe) := by
  intro s key hkey
  have hne : key ≠ pe.key := by
    rintro rfl
    rw [h] at hkey
    cases hkey
  exact Function.update_of_ne hne _ _

/-! The reads, the nonces and the keyring lookups leave the backend as it is. -/

theorem nextNonce_backend : Preserves SameBackend nextNonce :=
  Preserves.modifyGet fun _ => rfl

theorem encrypt_backend (rt : Runtime) (path : String) (term : UInt32) (gcm plain : Bytes) :
    Preserves SameBackend (encrypt rt path term gcm plain) := by
  unfold encrypt
  -- the steps of the do block are matched at reducible transparency, so that no alternative
  -- unfolds the rest of the block to try to fit it; the leaves that need their own definitions
  -- unfolded come after them
  repeat' first
    | with_reducible exact Preserves.get
    | with_reducible exact Preserves.pure _
    | with_reducible exact Preserves.throw _
    | with_reducible exact nextNonce_backend
    | with_reducible refine Preserves.bind ?_ fun _ => ?_
    | with_reducible refine Preserves.ite ?_ ?_

theorem requireKeyring_backend : Preserves SameBackend requireKeyring := by
  unfold requireKeyring
  refine Preserves.bind Preserves.get fun b => ?_
  split
  · exact Preserves.pure _
  · exact Preserves.throw _

theorem aeadForTerm_backend (term : UInt32) : Preserves SameBackend (aeadForTerm term) := by
  unfold aeadForTerm
  refine Preserves.bind Preserves.get fun b => ?_
  repeat' first
    | with_reducible exact Preserves.pure _
    | with_reducible exact liftGo_preserves _
    | with_reducible refine Preserves.bind ?_ fun _ => ?_
    | split

theorem lockSwitchedGet_backend (rt : Runtime) (key : String) :
    Preserves SameBackend (lockSwitchedGet rt key) := by
  unfold lockSwitchedGet
  repeat' first
    | with_reducible exact Preserves.get
    | with_reducible exact Preserves.pure _
    | with_reducible exact Preserves.throw _
    | with_reducible exact liftGo_preserves _
    | with_reducible exact aeadForTerm_backend _
    | with_reducible refine Preserves.bind ?_ fun _ => ?_
    | with_reducible refine Preserves.ite ?_ ?_
    | split

theorem recoverKeyring_backend (rt : Runtime) (plaintext : Bytes) :
    Preserves SameBackend (recoverKeyring rt plaintext) :=
  Preserves.bind (liftGo_preserves _) fun _ => Preserves.modify fun _ => rfl

theorem encrypt_frame (rt : Runtime) (path : String) (term : UInt32) (gcm plain : Bytes) :
    Preserves SameUserEntries (encrypt rt path term gcm plain) :=
  (encrypt_backend rt path term gcm plain).mono fun _ _ => SameBackend.sameUserEntries

theorem requireKeyring_frame : Preserves SameUserEntries requireKeyring :=
  requireKeyring_backend.mono fun _ _ => SameBackend.sameUserEntries

theorem aeadForTerm_frame (term : UInt32) : Preserves SameUserEntries (aeadForTerm term) :=
  (aeadForTerm_backend term).mono fun _ _ => SameBackend.sameUserEntries

theorem wrapErrorM_frame {α : Type} (pre : String) {x : BarrierM α}
    (hx : Preserves SameUserEntries x) : Preserves SameUserEntries (wrapErrorM pre x) := by
  intro s
  have h := hx s
  simp only [EStateM.run] at h ⊢
  unfold wrapErrorM
  split
  · rename_i msg s' hxs
    rw [hxs] at h
    exact h
  · exact h

theorem reserved_upgrade (s : String) : reserved (keyringUpgradePrefix ++ s) = true := by
  simp [reserved, String.toList_append, List.isPrefixOf_iff_prefix]

theorem persistKeyring_frame (rt : Runtime) (keyring : Keyring) :
    Preserves SameUserEntries (persistKeyring rt keyring) := by
  unfold persistKeyring
  -- two writes, to `core/keyring` and `core/master`, both reserved
  repeat' first
    | with_reducible exact Preserves.pure _
    | with_reducible exact Preserves.throw _
    | with_reducible exact liftGo_preserves _
    | with_reducible exact encrypt_frame _ _ _ _ _
    | with_reducible refine Preserves.bind ?_ fun _ => ?_
    | exact backendPut_frame (by rfl)
    | split

theorem putInternal_frame (rt : Runtime) (term : UInt32) (primary : Option Bytes)
    {entry : StorageEntry} (h : reserved entry.key = true) :
    Preserves SameUserEntries (putInternal rt term primary entry) := by
  unfold putInternal
  repeat' first
    | with_reducible exact Preserves.throw _
    | with_reducible exact encrypt_frame _ _ _ _ _
    | with_reducible exact backendPut_frame h
    | with_reducible refine Preserves.bind ?_ fun _ => ?_
    | split

theorem lockSwitchedGet_frame (rt : Runtime) (key : String) :
    Preserves SameUserEntries (lockSwitchedGet rt key) :=
  (lockSwitchedGet_backend rt key).mono fun _ _ => SameBackend.sameUserEntries

theorem recoverKeyring_frame (rt : Runtime) (plaintext : Bytes) :
    Preserves SameUserEntries (recoverKeyring rt plaintext) :=
  (recoverKeyring_backend rt plaintext).mono fun _ _ => SameBackend.sameUserEntries

/-! ## Every method but `Put` and `Delete` keeps the entries under unreserved paths -/

theorem initialize_frame (rt : Runtime) (key sealKey : Bytes) (random : Fin 32 → UInt8) :
    Preserves SameUserEntries <| AESGCMBarrier.initialize rt key sealKey random := by
  unfold AESGCMBarrier.initialize AESGCMBarrier.initializedCheck
  repeat' first
    | with_reducible exact Preserves.get
    | with_reducible exact Preserves.pure _
    | with_reducible exact Preserves.throw _
    | with_reducible exact liftGo_preserves _
    | with_reducible exact persistKeyring_frame _ _
    | with_reducible refine Preserves.bind ?_ fun _ => ?_
    | with_reducible refine Preserves.ite ?_ ?_
    | exact wrapErrorM_frame _ (putInternal_frame _ _ _ (by rfl))
    | exact Preserves.modify fun _ _ _ => rfl

theorem unseal_frame (rt : Runtime) (key : Bytes) :
    Preserves SameUserEntries (AESGCMBarrier.unseal rt key) := by
  unfold AESGCMBarrier.unseal
  -- the legacy upgrade deletes `barrier/init`, which is reserved
  repeat' first
    | with_reducible exact Preserves.get
    | with_reducible exact Preserves.pure _
    | with_reducible exact Preserves.throw _
    | with_reducible exact liftGo_preserves _
    | with_reducible exact persistKeyring_frame _ _
    | with_reducible exact wrapErrorM_frame _ (recoverKeyring_frame _ _)
    | with_reducible refine Preserves.bind ?_ fun _ => ?_
    | with_reducible refine Preserves.ite ?_ ?_
    | split
    | exact Preserves.modify fun _ _ _ => rfl
    | exact Preserves.modify fun _ key hkey => Function.update_of_ne
        (by rintro rfl; simp [reserved] at hkey) _ _

theorem seal_frame : Preserves SameUserEntries AESGCMBarrier.seal :=
  Preserves.modify fun _ _ _ => rfl

theorem rotate_frame (rt : Runtime) (random : Fin 32 → UInt8) :
    Preserves SameUserEntries (AESGCMBarrier.rotate rt random) := by
  unfold AESGCMBarrier.rotate
  repeat' first
    | with_reducible exact Preserves.get
    | with_reducible exact Preserves.pure _
    | with_reducible exact Preserves.throw _
    | with_reducible exact liftGo_preserves _
    | with_reducible exact requireKeyring_frame
    | with_reducible exact persistKeyring_frame _ _
    | with_reducible refine Preserves.bind ?_ fun _ => ?_
    | with_reducible refine Preserves.ite ?_ ?_
    | exact Preserves.modify fun _ _ _ => rfl

theorem createUpgrade_frame (rt : Runtime) (term : UInt32) :
    Preserves SameUserEntries (AESGCMBarrier.createUpgrade rt term) := by
  unfold AESGCMBarrier.createUpgrade
  repeat' first
    | with_reducible exact Preserves.get
    | with_reducible exact Preserves.throw _
    | with_reducible exact Preserves.pure _
    | with_reducible exact requireKeyring_frame
    | with_reducible exact aeadForTerm_frame _
    | with_reducible exact encrypt_frame _ _ _ _ _
    | with_reducible exact backendPut_frame (reserved_upgrade _)
    | with_reducible refine Preserves.bind ?_ fun _ => ?_
    | with_reducible refine Preserves.ite ?_ ?_
    | split

theorem checkUpgrade_frame (rt : Runtime) :
    Preserves SameUserEntries (AESGCMBarrier.checkUpgrade rt) := by
  unfold AESGCMBarrier.checkUpgrade
  repeat' first
    | with_reducible exact Preserves.get
    | with_reducible exact Preserves.throw _
    | with_reducible exact Preserves.pure _
    | with_reducible exact liftGo_preserves _
    | with_reducible exact requireKeyring_frame
    | with_reducible exact lockSwitchedGet_frame _ _
    | with_reducible refine Preserves.bind ?_ fun _ => ?_
    | with_reducible refine Preserves.ite ?_ ?_
    | split
    | exact Preserves.modify fun _ _ _ => rfl

theorem rekey_frame (rt : Runtime) (key : Bytes) :
    Preserves SameUserEntries (AESGCMBarrier.rekey rt key) := by
  unfold AESGCMBarrier.rekey updateMasterKeyCommon
  repeat' first
    | with_reducible exact Preserves.get
    | with_reducible exact Preserves.throw _
    | with_reducible exact Preserves.pure _
    | with_reducible exact requireKeyring_frame
    | with_reducible exact persistKeyring_frame _ _
    | with_reducible refine Preserves.bind ?_ fun _ => ?_
    | with_reducible refine Preserves.ite ?_ ?_
    | exact Preserves.modify fun _ _ _ => rfl

theorem reloadKeyring_frame (rt : Runtime) :
    Preserves SameUserEntries (AESGCMBarrier.reloadKeyring rt) := by
  unfold AESGCMBarrier.reloadKeyring
  repeat' first
    | with_reducible exact Preserves.get
    | with_reducible exact Preserves.throw _
    | with_reducible exact Preserves.pure _
    | with_reducible exact liftGo_preserves _
    | with_reducible exact requireKeyring_frame
    | with_reducible exact recoverKeyring_frame _ _
    | with_reducible refine Preserves.bind ?_ fun _ => ?_
    | with_reducible refine Preserves.ite ?_ ?_
    | split

theorem reloadMasterKey_frame (rt : Runtime) :
    Preserves SameUserEntries (AESGCMBarrier.reloadMasterKey rt) := by
  unfold AESGCMBarrier.reloadMasterKey
  repeat' first
    | with_reducible exact Preserves.pure _
    | with_reducible exact liftGo_preserves _
    | with_reducible exact requireKeyring_frame
    | with_reducible exact wrapErrorM_frame _ (lockSwitchedGet_frame _ _)
    | with_reducible refine Preserves.bind ?_ fun _ => ?_
    | with_reducible refine Preserves.ite ?_ ?_
    | split
    | exact Preserves.modify fun _ _ _ => rfl

end Vault.Barrier
