import Vault.Lib.GoRuntime

/-!
# The barrier's keyring

A `Keyring` (vault/keyring.go) holds the master key, one encryption key per term and the
key rotation config; the highest term is the active one. It is stored JSON-encoded. The JSON
codec is a parameter (`Codec`), of which the barrier needs only that decoding inverts encoding
(`Codec.Lawful`); `natCodec` is a codec with that law.
-/

namespace Vault.Barrier

open GoRuntime

/-- Byte strings. -/
abbrev Bytes := List UInt8

/-- `Key`: one term's encryption key (install time and encryption count left out). -/
structure Key where
  term : UInt32
  version : ℤ
  value : Bytes
deriving DecidableEq, Repr

/-- `absoluteOperationMaximum`: the most encryptions a key may do before rotation. -/
def absoluteOperationMaximum : ℤ := 3865470566

/-- `absoluteOperationMinimum`. -/
def absoluteOperationMinimum : ℤ := 1000000

/-- `minimumRotationInterval`: 24 hours, in nanoseconds as `time.Duration` counts them. -/
def minimumRotationInterval : ℤ := 24 * 3600 * 1000000000

/-- `KeyRotationConfig`; `interval` is a `time.Duration`, in nanoseconds. -/
structure KeyRotationConfig where
  disabled : Bool
  maxOperations : ℤ
  interval : ℤ
deriving DecidableEq, Repr

/-- `defaultRotationConfig`. -/
def defaultRotationConfig : KeyRotationConfig := ⟨false, absoluteOperationMaximum, 0⟩

/-- `KeyRotationConfig.Sanitize`: the operation count is brought into its bounds (0 meaning the
maximum), and a positive interval is raised to a day. -/
def KeyRotationConfig.sanitize (c : KeyRotationConfig) : KeyRotationConfig :=
  let maxOperations :=
    if c.maxOperations = 0 ∨ c.maxOperations > absoluteOperationMaximum then
      absoluteOperationMaximum
    else c.maxOperations
  let maxOperations :=
    if maxOperations < absoluteOperationMinimum then absoluteOperationMinimum else maxOperations
  let interval :=
    if c.interval > 0 ∧ c.interval < minimumRotationInterval then minimumRotationInterval
    else c.interval
  { c with maxOperations := maxOperations, interval := interval }

/-- The default config is already sanitized. -/
@[simp] theorem sanitize_defaultRotationConfig :
    defaultRotationConfig.sanitize = defaultRotationConfig := by
  decide

/-- `Keyring`: the map from terms to keys is a list holding one key per term. -/
structure Keyring where
  masterKey : Bytes
  keys : List Key
  activeTerm : UInt32
  rotationConfig : KeyRotationConfig
deriving DecidableEq, Repr

/-- `EncodedKeyring`: the serialized form of a keyring. -/
structure EncodedKeyring where
  masterKey : Bytes
  keys : List Key
  rotationConfig : KeyRotationConfig
deriving DecidableEq, Repr

/-- `barrierInit`: the sentinel of barriers from before the keyring. -/
structure BarrierInit where
  version : ℤ
  key : Bytes
deriving DecidableEq, Repr

/-- The JSON encoding and decoding of the barrier's records (`json.Marshal`,
`jsonutil.DecodeJSON`); a nil `*Key` is encoded too. -/
structure Codec where
  encodeKeyring : EncodedKeyring → Bytes
  decodeKeyring : Bytes → Except String EncodedKeyring
  encodeKey : Option Key → Bytes
  decodeKey : Bytes → Except String Key
  decodeBarrierInit : Bytes → Except String BarrierInit

/-- Decoding inverts encoding. -/
structure Codec.Lawful (c : Codec) : Prop where
  decodeKeyring_encode : ∀ e, c.decodeKeyring (c.encodeKeyring e) = .ok e
  decodeKey_encode : ∀ k, c.decodeKey (c.encodeKey (some k)) = .ok k

namespace Keyring

/-- `NewKeyring`. -/
def newKeyring : Keyring := ⟨[], [], 0, defaultRotationConfig⟩

/-- `TermKey`. -/
def termKey (k : Keyring) (term : UInt32) : Option Key := k.keys.find? fun key => key.term == term

/-- `ActiveKey`. -/
def activeKey (k : Keyring) : Option Key := k.termKey k.activeTerm

/-- `SetMasterKey`. -/
def setMasterKey (k : Keyring) (val : Bytes) : Keyring := { k with masterKey := val }

/-- `AddKey`: a key for a present term must repeat it; a new term may become active. -/
def addKey (k : Keyring) (key : Key) : Except String Keyring :=
  match k.termKey key.term with
  | some exist =>
    if key.value = exist.value then .ok k
    else .error ("conflicting key for term " ++ toString key.term ++ " already installed")
  | none =>
    .ok { k with
      keys := key :: k.keys
      activeTerm := if key.term > k.activeTerm then key.term else k.activeTerm }

/-- `RemoveKey`: the active key stays; removing an absent term changes nothing. -/
def removeKey (k : Keyring) (term : UInt32) : Except String Keyring :=
  if term = k.activeTerm then .error "cannot remove active key"
  else
    match k.termKey term with
    | none => .ok k
    | some _ => .ok { k with keys := k.keys.filter fun key => key.term != term }

/-- `Serialize`: the keys in the order the map gives them. -/
def serialize (codec : Codec) (k : Keyring) : Bytes :=
  codec.encodeKeyring ⟨k.masterKey, k.keys, k.rotationConfig⟩

/-- One key of `DeserializeKeyring`'s loop: stored under its term, which may become active. -/
def installKey (k : Keyring) (key : Key) : Keyring :=
  { k with
    keys := key :: k.keys.filter fun other => other.term != key.term
    activeTerm := if key.term > k.activeTerm then key.term else k.activeTerm }

end Keyring

open Keyring

/-- `DeserializeKeyring`. -/
def deserializeKeyring (codec : Codec) (buf : Bytes) : Except String Keyring :=
  match codec.decodeKeyring buf with
  | .error err => .error ("deserialization failed: " ++ err)
  | .ok enc =>
    .ok (enc.keys.foldl installKey
      { newKeyring with masterKey := enc.masterKey, rotationConfig := enc.rotationConfig.sanitize })

/-- `DeserializeKey`. -/
def deserializeKey (codec : Codec) (buf : Bytes) : Except String Key :=
  match codec.decodeKey buf with
  | .error err => .error ("deserialization failed: " ++ err)
  | .ok key => .ok key

/-! ## A codec with the law -/

/-- The base-256 digits of a number, as bytes. -/
def bytesOfNat (n : ℕ) : Bytes := (Nat.digits 256 n).map UInt8.ofNat

/-- The number whose base-256 digits the bytes are. -/
def natOfBytes (b : Bytes) : ℕ := Nat.ofDigits 256 (b.map UInt8.toNat)

theorem natOfBytes_bytesOfNat (n : ℕ) : natOfBytes (bytesOfNat n) = n := by
  have hdig : ((Nat.digits 256 n).map UInt8.ofNat).map UInt8.toNat = Nat.digits 256 n := by
    rw [List.map_map]
    conv_rhs => rw [← List.map_id (Nat.digits 256 n)]
    refine List.map_congr_left fun d hd => ?_
    -- every digit is below the base, so it survives the trip through a byte
    have hlt : d < 256 := Nat.digits_lt_base (by norm_num) hd
    simp [Function.comp, Nat.mod_eq_of_lt hlt]
  rw [natOfBytes, bytesOfNat, hdig, Nat.ofDigits_digits]

/-- A key as a triple of numbers. -/
def keyTriple (k : Key) : ℕ × ℤ × List ℕ := (k.term.toNat, k.version, k.value.map UInt8.toNat)

instance : Encodable Key :=
  Encodable.ofLeftInjection keyTriple
    (fun t => some ⟨UInt32.ofNat t.1, t.2.1, t.2.2.map UInt8.ofNat⟩)
    (fun k => by simp [keyTriple, List.map_map, Function.comp_def])

instance : Encodable KeyRotationConfig :=
  Encodable.ofLeftInjection (fun c => (c.disabled, c.maxOperations, c.interval))
    (fun t => some ⟨t.1, t.2.1, t.2.2⟩) (fun _ => rfl)

instance : Encodable EncodedKeyring :=
  Encodable.ofLeftInjection (fun e => (e.masterKey.map UInt8.toNat, e.keys, e.rotationConfig))
    (fun t => some ⟨t.1.map UInt8.ofNat, t.2.1, t.2.2⟩)
    (fun e => by simp [List.map_map, Function.comp_def])

instance : Encodable BarrierInit :=
  Encodable.ofLeftInjection (fun i => (i.version, i.key.map UInt8.toNat))
    (fun t => some ⟨t.1, t.2.map UInt8.ofNat⟩)
    (fun i => by simp [List.map_map, Function.comp_def])

/-- Decoding through `Encodable`, with the error `encoding/json` gives for bad input. -/
def decodeVia (α : Type) [Encodable α] (b : Bytes) : Except String α :=
  match Encodable.decode (natOfBytes b) with
  | some a => .ok a
  | none => .error "invalid character"

theorem decodeVia_encode {α : Type} [Encodable α] (a : α) :
    decodeVia α (bytesOfNat (Encodable.encode a)) = .ok a := by
  simp [decodeVia, natOfBytes_bytesOfNat, Encodable.encodek]

/-- A codec with the law: the `Encodable` number of a record, in base 256. -/
def natCodec : Codec where
  encodeKeyring e := bytesOfNat (Encodable.encode e)
  decodeKeyring := decodeVia EncodedKeyring
  encodeKey k := bytesOfNat (Encodable.encode k)
  decodeKey b :=
    match decodeVia (Option Key) b with
    | .ok (some k) => .ok k
    | .ok none => .error "unexpected null"
    | .error err => .error err
  decodeBarrierInit := decodeVia BarrierInit

theorem natCodec_lawful : natCodec.Lawful where
  decodeKeyring_encode e := by
    dsimp only [natCodec]
    exact decodeVia_encode e
  decodeKey_encode k := by
    dsimp only [natCodec]
    rw [decodeVia_encode]

end Vault.Barrier
