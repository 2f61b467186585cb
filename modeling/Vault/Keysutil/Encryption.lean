import Vault.Keysutil.Policy
import Vault.Lib.AEAD
import Vault.Lib.Base64
import Vault.Barrier.AESGCM

/-!
# Transit encryption: `Encrypt`, `Decrypt` and the keys they use

`Encrypt` (sdk/helper/keysutil/policy.go) decodes the base64 plaintext, picks the key version,
gets the key of that version (stored, or derived from the stored one and the request's context
by the counter-mode KDF of sdk/helper/kdf or by HKDF), seals the plaintext with AES-GCM or
ChaCha20-Poly1305 (RSA-OAEP for the RSA key types), and writes the version prefix of the
policy's template in front of the base64 ciphertext. `Decrypt` reads the prefix back with the
template's two parts, gets the key again and opens the ciphertext.

The nonce is random or the caller's, or, for convergent encryption, the caller's (version 1) or
an HMAC of the plaintext (versions 2 and 3); only in version 1 is it left out of the ciphertext.

Decryption gives back what encryption sealed (`decrypt_encrypt`) for a template whose second
part does not begin with a digit, for keys of the length `Decrypt` asks for, and as long as
neither the policy nor the key version is of convergent version 1. For the policy that is
needed: `Decrypt` hands `SymmetricDecryptRaw` the policy's `ConvergentVersion` and no nonce,
and for version 1 that opens with an empty nonce, which panics
(`decrypt_convergentVersion_one`).

The library code is a record of functions (`Crypto`); the AEADs meet the laws of
`AEAD.Cipher.Lawful`.
-/

namespace Vault.Keysutil

open GoRuntime GoStrings SortedStore

/-! ## Key types, constants and policies -/

namespace KeyType

/-- `EncryptionSupported`. -/
def encryptionSupported : KeyType → Bool
  | .aes128Gcm96 | .aes256Gcm96 | .chacha20Poly1305 | .rsa2048 | .rsa3072 | .rsa4096 => true
  | _ => false

/-- `DecryptionSupported`. -/
def decryptionSupported : KeyType → Bool
  | .aes128Gcm96 | .aes256Gcm96 | .chacha20Poly1305 | .rsa2048 | .rsa3072 | .rsa4096 => true
  | _ => false

/-- `DerivationSupported`. -/
def derivationSupported : KeyType → Bool
  | .aes128Gcm96 | .aes256Gcm96 | .chacha20Poly1305 | .ed25519 => true
  | _ => false

/-- `String`. -/
def string : KeyType → String
  | .aes128Gcm96 => "aes128-gcm96"
  | .aes256Gcm96 => "aes256-gcm96"
  | .chacha20Poly1305 => "chacha20-poly1305"
  | .ecdsaP256 => "ecdsa-p256"
  | .ecdsaP384 => "ecdsa-p384"
  | .ecdsaP521 => "ecdsa-p521"
  | .ed25519 => "ed25519"
  | .rsa2048 => "rsa-2048"
  | .rsa3072 => "rsa-3072"
  | .rsa4096 => "rsa-4096"

/-- The key types sealed with an AEAD. -/
def IsSymmetric (t : KeyType) : Prop :=
  t = .aes128Gcm96 ∨ t = .aes256Gcm96 ∨ t = .chacha20Poly1305

instance (t : KeyType) : Decidable t.IsSymmetric := inferInstanceAs (Decidable (_ ∨ _))

theorem decryptionSupported_of_encryptionSupported {t : KeyType} (h : t.encryptionSupported) :
    t.decryptionSupported := by
  cases t <;> simp_all [encryptionSupported, decryptionSupported]

end KeyType

/-- `Kdf_hmac_sha256_counter`. -/
def kdfHmacSha256Counter : ℤ := 0

/-- `Kdf_hkdf_sha256`. -/
def kdfHkdfSha256 : ℤ := 1

/-- `ErrTooOld`. -/
def errTooOld : String := "ciphertext or signature version is disallowed by policy (too old)"

/-- `DefaultVersionTemplate`. -/
def defaultVersionTemplate : String := "vault:v\x7b\x7bversion\x7d\x7d:"

/-- The placeholder of a version template. -/
def versionPlaceholder : String := "\x7b\x7bversion\x7d\x7d"

/-- The error of a key derivation without a context. -/
def missingContextError : String :=
  "missing \x27context\x27 for key derivation; the key was created using a derived key, which " ++
  "means additional, per-request information must be included in order to perform operations " ++
  "with the key"

/-- `Policy` with the three fields encryption reads besides: `Derived`, `KDF` and
`VersionTemplate`. -/
structure CryptoPolicy extends Policy where
  derived : Bool
  kdf : ℤ
  versionTemplate : String

/-- The library code `Encrypt` and `Decrypt` call: the AES-GCM and ChaCha20-Poly1305 AEADs,
HMAC-SHA256, the byte stream of HKDF-SHA256 (`hkdfSha256 secret salt info i` is its byte `i`),
the Ed25519 private key of a seed, RSA-OAEP with SHA-256 on a key's encoding, and base64's
`StdEncoding`. -/
structure Crypto where
  gcm : AEAD.Cipher
  chacha : AEAD.Cipher
  hmacSha256 : List UInt8 → List UInt8 → List UInt8
  hkdfSha256 : List UInt8 → List UInt8 → List UInt8 → ℕ → UInt8
  ed25519Key : List UInt8 → List UInt8
  rsaEncryptOAEP : List UInt8 → List UInt8 → Go (List UInt8)
  rsaDecryptOAEP : List UInt8 → List UInt8 → Go (List UInt8)
  encodeToString : List UInt8 → String
  decodeString : String → Go (List UInt8)

/-- What decryption rests on: both AEADs meet their laws, RSA decrypts what it encrypted, and
base64 reads back what it wrote. -/
structure Crypto.Lawful (c : Crypto) : Prop where
  gcm : c.gcm.Lawful
  chacha : c.chacha.Lawful
  rsaDecryptOAEP_encrypt :
    ∀ k m ct, c.rsaEncryptOAEP k m = .ok ct → c.rsaDecryptOAEP k ct = .ok m
  decodeString_encodeToString : ∀ b, c.decodeString (c.encodeToString b) = .ok b

/-- The first `n` bytes of the HKDF-SHA256 stream. -/
def Crypto.hkdfBytes (c : Crypto) (secret salt info : List UInt8) (n : ℕ) : List UInt8 :=
  (List.range n).map (c.hkdfSha256 secret salt info)

@[simp] theorem Crypto.length_hkdfBytes (c : Crypto) (secret salt info : List UInt8) (n : ℕ) :
    (c.hkdfBytes secret salt info n).length = n := by
  simp [Crypto.hkdfBytes]

theorem Crypto.hkdfBytes_take (c : Crypto) (secret salt info : List UInt8) {m n : ℕ}
    (h : m ≤ n) : (c.hkdfBytes secret salt info n).take m = c.hkdfBytes secret salt info m := by
  unfold Crypto.hkdfBytes
  rw [← List.map_take, List.take_range, Nat.min_eq_left h]

variable (c : Crypto)

/-! ## Key derivation (sdk/helper/kdf) -/

/-- `kdf.HMACSHA256PRF`. -/
def hmacSha256PRF (key data : List UInt8) : Go (List UInt8) := .ok (c.hmacSha256 key data)

/-- `kdf.HMACSHA256PRFLen`. -/
def hmacSha256PRFLen : UInt32 := 256

/-- One round of `kdf.CounterMode`: the PRF over the big-endian round counter and `suffix`
(the context and the bit count), its output appended. -/
def counterModeRound (prf : List UInt8 → List UInt8 → Go (List UInt8)) (prfLen : UInt32)
    (key suffix : List UInt8) (out : List UInt8) (i : ℕ) : Go (List UInt8) := do
  let part ← prf key (Barrier.putUint32 (UInt32.ofNat i) ++ suffix)
  if UInt32.ofNat (part.length * 8) ≠ prfLen then
    .error (.error ("PRF length mis-match (" ++ toString (part.length * 8) ++ " vs " ++
      toString prfLen ++ ")"))
  else pure (out ++ part)

/-- `kdf.CounterMode`. -/
def counterMode (prf : List UInt8 → List UInt8 → Go (List UInt8)) (prfLen : UInt32)
    (key context : List UInt8) (bits : UInt32) : Go (List UInt8) :=
  if prfLen % 8 ≠ 0 then .error (.error "PRF must be byte aligned")
  else if bits % 8 ≠ 0 then .error (.error "bits required must be byte aligned")
  else if prfLen = 0 then .error (.panic "integer divide by zero")
  else do
    let rounds := bits / prfLen + if bits % prfLen ≠ 0 then 1 else 0
    let out ← (List.range rounds.toNat).foldlM
      (counterModeRound prf prfLen key (context ++ Barrier.putUint32 bits)) []
    sliceTo out (bits / 8).toNat

/-- `DeriveKey` reading `numBytes` bytes of the HKDF-SHA256 stream into a buffer through an
`io.LimitedReader`, and checking their count. The stream ends after 255 blocks of 32 bytes,
where reading fails. -/
def readDerivedBytes (secret salt info : List UInt8) (numBytes : ℕ) : Go (List UInt8) :=
  if numBytes ≤ 255 * 32 then
    let derBytes := c.hkdfBytes secret salt info numBytes
    if derBytes.length ≠ numBytes then
      .error (.error ("unable to read enough derived bytes, needed " ++ toString numBytes ++
        ", got " ++ toString derBytes.length))
    else .ok derBytes
  else .error (.error "error reading returned derived bytes: hkdf: entropy limit reached")

/-! ## The AEADs -/

/-- A `cipher.AEAD` with its key: AES-GCM (`isGCM`) or ChaCha20-Poly1305, both with 12-byte
nonces. -/
structure KeyedAEAD where
  cipher : AEAD.Cipher
  key : List UInt8
  isGCM : Bool

/-- A method called on a nil `cipher.AEAD`. -/
def nilDereference : GoError := .panic "invalid memory address or nil pointer dereference"

/-- The switch on the key type that opens `SymmetricEncryptRaw` and `SymmetricDecryptRaw`:
`aes.NewCipher` takes keys of 16, 24 or 32 bytes, `chacha20poly1305.New` of 32; for another key
type the AEAD stays nil (`none`). -/
def newAEAD (t : KeyType) (encKey : List UInt8) : Go (Option KeyedAEAD) :=
  match t with
  | .aes128Gcm96 | .aes256Gcm96 =>
    if encKey.length = 16 ∨ encKey.length = 24 ∨ encKey.length = 32 then
      .ok (some ⟨c.gcm, encKey, true⟩)
    else .error (.error ("crypto/aes: invalid key size " ++ toString encKey.length))
  | .chacha20Poly1305 =>
    if encKey.length = 32 then .ok (some ⟨c.chacha, encKey, false⟩)
    else .error (.error "chacha20poly1305: bad key length")
  | _ => .ok none

/-- `aead.NonceSize()`. -/
def nonceSize : Option KeyedAEAD → Go ℕ
  | some _ => .ok 12
  | none => .error nilDereference

/-- `aead.Seal(nil, nonce, plaintext, additionalData)`, which panics on a nonce of another
size. -/
def aeadSeal : Option KeyedAEAD → List UInt8 → List UInt8 → List UInt8 → Go (List UInt8)
  | none, _, _, _ => .error nilDereference
  | some a, nonce, plaintext, data =>
    if nonce.length = 12 then .ok (a.cipher.sealText a.key nonce plaintext data)
    else if a.isGCM then .error (.panic "crypto/cipher: incorrect nonce length given to GCM")
    else .error (.panic "chacha20poly1305: bad nonce length passed to Seal")

/-- `aead.Open(nil, nonce, ciphertext, additionalData)`, which panics on a nonce of another
size. -/
def aeadOpen : Option KeyedAEAD → List UInt8 → List UInt8 → List UInt8 → Go (List UInt8)
  | none, _, _, _ => .error nilDereference
  | some a, nonce, ciphertext, data =>
    if nonce.length = 12 then
      match a.cipher.openText a.key nonce ciphertext data with
      | some plaintext => .ok plaintext
      | none =>
        .error (.error (if a.isGCM then "cipher: message authentication failed"
          else "chacha20poly1305: message authentication failed"))
    else if a.isGCM then .error (.panic "crypto/cipher: incorrect nonce length given to GCM")
    else .error (.panic "chacha20poly1305: bad nonce length passed to Open")

/-- `uuid.GenerateRandomBytes(size)`: `size` bytes read in full from the random source. -/
def generateRandomBytes (rand : List UInt8) (size : ℕ) : Go (List UInt8) :=
  if size ≤ rand.length then .ok (rand.take size)
  else .error (.error ("failed to read random bytes: " ++
    if rand = [] then "EOF" else "unexpected EOF"))

/-- `SymmetricOpts`. -/
structure SymmetricOpts where
  convergent : Bool
  convergentVersion : ℤ
  nonce : List UInt8
  additionalData : List UInt8
  hmacKey : List UInt8

namespace CryptoPolicy

variable (p : CryptoPolicy)

/-! ## Keys -/

/-- `safeGetKeyEntry`. -/
def safeGetKeyEntry (ver : ℤ) : Go KeyEntry :=
  match p.keys.get (itoa ver) with
  | some e => .ok e
  | none => .error (.error "no such key version")

/-- `convergentVersion(ver)`: 0 without convergent encryption; else the key version's own, or the
policy's, where 0 stands for 1 (a policy not upgraded yet). -/
def convergentVersionOf (ver : ℤ) : ℤ :=
  if !p.convergentEncryption then 0
  else
    let convergentVersion := if p.convergentVersion = 0 then 1 else p.convergentVersion
    let currKey := (p.keys.get (itoa ver)).getD default
    if currKey.convergentVersion ≠ 0 then currKey.convergentVersion else convergentVersion

/-- The checks of `DeriveKey` before it derives, and the key entry it derives from. -/
def derivationEntry (context : List UInt8) (ver : ℤ) : Go KeyEntry :=
  if !p.type.derivationSupported then
    .error (.error ("derivation not supported for key type " ++ p.type.string))
  else if p.keys.isNone ∨ p.latestVersion = 0 then
    .error (.error "unable to access the key; no key versions found")
  else if ver ≤ 0 ∨ ver > p.latestVersion then .error (.error "invalid key version")
  else if context = [] then .error (.error missingContextError)
  else p.safeGetKeyEntry ver

/-- The switch of `DeriveKey` on the KDF. `ed25519.GenerateKey` reads its 32-byte seed in full
from the limited reader. -/
def deriveFromEntry (keyEntry : KeyEntry) (context salt : List UInt8) (numBytes : ℕ) :
    Go (List UInt8) :=
  if p.kdf = kdfHmacSha256Counter then
    counterMode (hmacSha256PRF c) hmacSha256PRFLen keyEntry.key (context ++ salt) 256
  else if p.kdf = kdfHkdfSha256 then
    match p.type with
    | .aes128Gcm96 | .aes256Gcm96 | .chacha20Poly1305 =>
      readDerivedBytes c keyEntry.key salt context numBytes
    | .ed25519 =>
      if 32 ≤ numBytes then .ok (c.ed25519Key (c.hkdfBytes keyEntry.key salt context 32))
      else .error (.error ("error generating derived key: " ++
        if numBytes = 0 then "EOF" else "unexpected EOF"))
    | _ => .error (.error "unsupported key type for derivation")
  else .error (.error "unsupported key derivation mode")

/-- `DeriveKey`. -/
def deriveKey (context salt : List UInt8) (ver : ℤ) (numBytes : ℕ) : Go (List UInt8) := do
  let keyEntry ← p.derivationEntry context ver
  p.deriveFromEntry c keyEntry context salt numBytes

/-- `GetKey`. -/
def getKey (context : List UInt8) (ver : ℤ) (numBytes : ℕ) : Go (List UInt8) :=
  if !p.derived then (p.safeGetKeyEntry ver).map (·.key)
  else p.deriveKey c context [] ver numBytes

/-! ## Version prefixes -/

/-- The policy's version template, or the default one. -/
def templateOrDefault : String :=
  if p.versionTemplate = "" then defaultVersionTemplate else p.versionTemplate

/-- `getTemplateParts`: the template cut at its placeholder, which must occur once. -/
def getTemplateParts : Go (String × String) :=
  match splitSub p.templateOrDefault versionPlaceholder with
  | [head, tail] => .ok (head, tail)
  | _ => .error (.error "error parsing version template")

/-- `getVersionPrefix`: the template with the version for its placeholder. The cache of
prefixes holds the same values. -/
def getVersionPrefix (ver : ℤ) : String :=
  replaceAll p.templateOrDefault versionPlaceholder (itoa ver)

/-! ## Sealing and opening -/

/-- The nonce of `SymmetricEncryptRaw`: the caller's for convergent version 1, the HMAC of the
plaintext under the HMAC key for versions 2 and 3; without convergent encryption the caller's,
or random bytes if it gave none. -/
def symmetricNonce (rand : List UInt8) (ver : ℤ) (aead : Option KeyedAEAD)
    (plaintext : List UInt8) (opts : SymmetricOpts) : Go (List UInt8) :=
  if opts.convergent then
    let convergentVersion := p.convergentVersionOf ver
    if convergentVersion = 1 then do
      let n ← nonceSize aead
      if opts.nonce.length ≠ n then
        .error (.error ("base64-decoded nonce must be " ++ toString n ++
          " bytes long when using convergent encryption with this key"))
      else pure opts.nonce
    else if convergentVersion = 2 ∨ convergentVersion = 3 then
      if opts.hmacKey = [] then .error (.error "invalid hmac key length of zero")
      else do
        let nonceSum := c.hmacSha256 opts.hmacKey plaintext
        sliceTo nonceSum (← nonceSize aead)
    else .error (.error ("unhandled convergent version " ++ toString convergentVersion))
  else if opts.nonce = [] then do
    generateRandomBytes rand (← nonceSize aead)
  else .ok opts.nonce

/-- `SymmetricEncryptRaw`. -/
def symmetricEncryptRaw (rand : List UInt8) (ver : ℤ) (encKey plaintext : List UInt8)
    (opts : SymmetricOpts) : Go (List UInt8) := do
  let aead ← newAEAD c p.type encKey
  let nonce ← p.symmetricNonce c rand ver aead plaintext opts
  let ciphertext ← aeadSeal aead nonce plaintext opts.additionalData
  if !opts.convergent || p.convergentVersionOf ver > 1 then pure (nonce ++ ciphertext)
  else pure ciphertext

/-- `SymmetricDecryptRaw`: the nonce is read from the front of the ciphertext, except for
convergent version 1, where it stays nil. -/
def symmetricDecryptRaw (encKey ciphertext : List UInt8) (opts : SymmetricOpts) :
    Go (List UInt8) := do
  let aead ← newAEAD c p.type encKey
  let n ← nonceSize aead
  if ciphertext.length < n then .error (.error "invalid ciphertext length")
  else do
    let parts ← (if opts.convergent && opts.convergentVersion = 1 then pure ([], ciphertext)
      else do pure (← sliceTo ciphertext n, ← sliceFrom ciphertext n))
    aeadOpen aead parts.1 parts.2 opts.additionalData

/-! ## `Encrypt` and `Decrypt` -/

/-- The switch of `Encrypt` on the requested version, 0 asking for the latest. -/
def encryptionVersion (ver : ℤ) : Go ℤ :=
  if ver = 0 then .ok p.latestVersion
  else if ver < 0 then .error (.error "requested version for encryption is negative")
  else if ver > p.latestVersion then
    .error (.error "requested version for encryption is higher than the latest key version")
  else if ver < p.minEncryptionVersion then
    .error (.error
      "requested version for encryption is less than the minimum encryption key version")
  else .ok ver

/-- The bytes of an AEAD key for the policy's key type. -/
def encKeyBytes : ℕ := if p.type = .aes128Gcm96 then 16 else 32

/-- `Encrypt` for the AEAD key types. -/
def encryptSymmetric (rand : List UInt8) (ver : ℤ) (context nonce plaintext : List UInt8) :
    Go (List UInt8) := do
  let deriveHMAC := decide (p.convergentVersionOf ver > 2)
  let hmacBytes := if deriveHMAC then 32 else 0
  let encBytes := p.encKeyBytes
  let key ← p.getKey c context ver (encBytes + hmacBytes)
  if key.length < encBytes + hmacBytes then
    .error (.error "could not derive key, length too small")
  else do
    let encKey ← sliceTo key encBytes
    if encKey.length ≠ encBytes then
      .error (.error "could not derive enc key, length not correct")
    else do
      let hmacKey ← (if deriveHMAC then do
          let hmacKey ← sliceFrom key encBytes
          if hmacKey.length ≠ hmacBytes then
            .error (.error "could not derive hmac key, length not correct")
          else pure hmacKey
        else pure context)
      p.symmetricEncryptRaw c rand ver encKey plaintext
        ⟨p.convergentEncryption, 0, nonce, [], hmacKey⟩

/-- `Encrypt` for the RSA key types; a version without an RSA key dereferences nil. -/
def encryptRSA (ver : ℤ) (plaintext : List UInt8) : Go (List UInt8) := do
  let keyEntry ← p.safeGetKeyEntry ver
  match keyEntry.rsaKey with
  | none => .error nilDereference
  | some key => wrapError "failed to RSA encrypt the plaintext: " (c.rsaEncryptOAEP key plaintext)

/-- The switch of `Encrypt` on the key type. -/
def encryptPlaintext (rand : List UInt8) (ver : ℤ) (context nonce plaintext : List UInt8) :
    Go (List UInt8) :=
  match p.type with
  | .aes128Gcm96 | .aes256Gcm96 | .chacha20Poly1305 =>
    p.encryptSymmetric c rand ver context nonce plaintext
  | .rsa2048 | .rsa3072 | .rsa4096 => p.encryptRSA c ver plaintext
  | t => .error (.error ("unsupported key type " ++ t.string))

/-- `Encrypt`. -/
def encrypt (rand : List UInt8) (ver : ℤ) (context nonce : List UInt8) (value : String) :
    Go String :=
  if !p.type.encryptionSupported then
    .error (.error ("message encryption not supported for key type " ++ p.type.string))
  else do
    let plaintext ← c.decodeString value
    let ver ← p.encryptionVersion ver
    let ciphertext ← p.encryptPlaintext c rand ver context nonce plaintext
    pure (p.getVersionPrefix ver ++ c.encodeToString ciphertext)

/-- The version `Decrypt` reads from the version field, 0 standing for 1, and its checks. -/
def decryptionVersion (verText : String) : Go ℤ :=
  match parseInt verText with
  | none => .error (.error "invalid ciphertext: version number could not be decoded")
  | some v =>
    let ver := if v = 0 then 1 else v
    if ver > p.latestVersion then .error (.error "invalid ciphertext: version is too new")
    else if p.minDecryptionVersion > 0 ∧ ver < p.minDecryptionVersion then
      .error (.error errTooOld)
    else .ok ver

/-- `Decrypt` for the AEAD key types. -/
def decryptSymmetric (context : List UInt8) (ver : ℤ) (decoded : List UInt8) :
    Go (List UInt8) := do
  let numBytes := p.encKeyBytes
  let encKey ← p.getKey c context ver numBytes
  if encKey.length ≠ numBytes then
    .error (.error "could not derive enc key, length not correct")
  else
    p.symmetricDecryptRaw c encKey decoded
      ⟨p.convergentEncryption, p.convergentVersion, [], [], []⟩

/-- `Decrypt` for the RSA key types. -/
def decryptRSA (ver : ℤ) (decoded : List UInt8) : Go (List UInt8) := do
  let keyEntry ← p.safeGetKeyEntry ver
  match keyEntry.rsaKey with
  | none => .error nilDereference
  | some key => wrapError "failed to RSA decrypt the ciphertext: " (c.rsaDecryptOAEP key decoded)

/-- The switch of `Decrypt` on the key type. -/
def decryptCiphertext (context : List UInt8) (ver : ℤ) (decoded : List UInt8) :
    Go (List UInt8) :=
  match p.type with
  | .aes128Gcm96 | .aes256Gcm96 | .chacha20Poly1305 => p.decryptSymmetric c context ver decoded
  | .rsa2048 | .rsa3072 | .rsa4096 => p.decryptRSA c ver decoded
  | t => .error (.error ("unsupported key type " ++ t.string))

/-- `Decrypt`. -/
def decrypt (context nonce : List UInt8) (value : String) : Go String :=
  if !p.type.decryptionSupported then
    .error (.error ("message decryption not supported for key type " ++ p.type.string))
  else do
    let tplParts ← p.getTemplateParts
    if !hasPrefix value tplParts.1 then .error (.error "invalid ciphertext: no prefix")
    else
      match splitNSub (trimPrefix value tplParts.1) tplParts.2 2 with
      | [verText, encoded] => do
        let ver ← p.decryptionVersion verText
        if p.convergentVersionOf ver = 1 ∧ nonce = [] then
          .error (.error "invalid convergent nonce supplied")
        else do
          let decoded ← (match c.decodeString encoded with
            | .error (.error _) => .error (.error "invalid ciphertext: could not decode base64")
            | r => r)
          let plain ← p.decryptCiphertext c context ver decoded
          pure (c.encodeToString plain)
      | _ => .error (.error "invalid ciphertext: wrong number of fields")

/-! ## What each step returns -/

/-- The key `Decrypt` gets for a version is the one `Encrypt` sealed with. HKDF's shorter
outputs are prefixes of its longer ones; the counter KDF always gives 32 bytes, which AES-128
does not take; a stored key is taken whole, so it must be of the key type's length. -/
def KeyFits (ver : ℤ) : Prop :=
  p.type.IsSymmetric →
    if p.derived then p.kdf = kdfHkdfSha256 ∨ p.type ≠ .aes128Gcm96
    else ∀ e, p.keys.get (itoa ver) = some e → e.key.length = p.encKeyBytes

end CryptoPolicy

/-- A template `Decrypt` reads its prefixes back with: the placeholder occurs once, and what
follows it begins with a character that is not a digit. -/
def readableTemplate (template : String) : Bool :=
  match splitSub template versionPlaceholder with
  | [_, tail] =>
    match tail.toList with
    | d :: _ => !d.isDigit
    | [] => false
  | _ => false

example : readableTemplate defaultVersionTemplate = true := by decide

variable {c}

theorem Crypto.Lawful.cipher (hc : c.Lawful) {a : AEAD.Cipher} (h : a = c.gcm ∨ a = c.chacha) :
    a.Lawful := by
  rcases h with rfl | rfl
  exacts [hc.gcm, hc.chacha]

theorem counterMode_length {prf : List UInt8 → List UInt8 → Go (List UInt8)} {prfLen : UInt32}
    {key context : List UInt8} {bits : UInt32} {out : List UInt8}
    (h : counterMode prf prfLen key context bits = .ok out) : out.length = (bits / 8).toNat := by
  unfold counterMode at h
  -- the guards fail into errors; the count of rounds splits in two
  split_ifs at h
  all_goals
    obtain ⟨out', -, hslice⟩ := bind_eq_ok h
    obtain ⟨hle, rfl⟩ := sliceTo_eq_ok hslice
    rw [List.length_take, Nat.min_eq_left hle]

/-- A shorter read of the HKDF stream is a prefix of a longer one. -/
theorem readDerivedBytes_take {secret salt info key : List UInt8} {n m : ℕ}
    (h : readDerivedBytes c secret salt info n = .ok key) (hm : m ≤ key.length) :
    readDerivedBytes c secret salt info m = .ok (key.take m) := by
  -- the count check never fails: the stream has as many bytes as were asked for
  simp only [readDerivedBytes, Crypto.length_hkdfBytes, ne_eq, not_true_eq_false, if_false] at h
  split_ifs at h with hn
  cases h
  have hmn : m ≤ n := by simpa using hm
  simp [readDerivedBytes, c.hkdfBytes_take secret salt info hmn, hmn.trans hn]

theorem newAEAD_eq_some {t : KeyType} {encKey : List UInt8} {ka : KeyedAEAD}
    (h : newAEAD c t encKey = .ok (some ka)) :
    ka.key = encKey ∧ (ka.cipher = c.gcm ∨ ka.cipher = c.chacha) := by
  cases t <;> simp only [newAEAD, Except.ok.injEq, reduceCtorEq] at h
  all_goals
    split_ifs at h
    cases h
    simp

theorem aeadSeal_eq_ok {a : Option KeyedAEAD} {nonce plaintext data sealed : List UInt8}
    (h : aeadSeal a nonce plaintext data = .ok sealed) :
    ∃ ka, a = some ka ∧ nonce.length = 12 ∧
      sealed = ka.cipher.sealText ka.key nonce plaintext data := by
  cases a with
  | none => cases h
  | some ka =>
    simp only [aeadSeal] at h
    split_ifs at h with hn
    exact ⟨ka, rfl, hn, (Except.ok.inj h).symm⟩

theorem aeadOpen_sealText {ka : KeyedAEAD} (hl : ka.cipher.Lawful) {nonce : List UInt8}
    (hn : nonce.length = 12) (plaintext data : List UInt8) :
    aeadOpen (some ka) nonce (ka.cipher.sealText ka.key nonce plaintext data) data =
      .ok plaintext := by
  simp [aeadOpen, hn, hl.open_seal]

/-- Opening with a nil nonce panics, whatever the AEAD. -/
theorem aeadOpen_nil (a : Option KeyedAEAD) (ciphertext data : List UInt8) :
    ∃ msg, aeadOpen a [] ciphertext data = .error (.panic msg) := by
  cases a with
  | none => exact ⟨_, rfl⟩
  | some ka =>
    simp only [aeadOpen, List.length_nil, OfNat.zero_ne_ofNat, if_false]
    split_ifs <;> exact ⟨_, rfl⟩

namespace CryptoPolicy

variable {p : CryptoPolicy}

/-- A convergent nonce is made for versions 1 to 3 only. -/
theorem symmetricNonce_convergent {rand : List UInt8} {ver : ℤ} {aead : Option KeyedAEAD}
    {plaintext nonce : List UInt8} {opts : SymmetricOpts}
    (h : p.symmetricNonce c rand ver aead plaintext opts = .ok nonce)
    (hconv : opts.convergent = true) :
    p.convergentVersionOf ver = 1 ∨ p.convergentVersionOf ver = 2 ∨
      p.convergentVersionOf ver = 3 := by
  simp only [symmetricNonce, hconv, if_true] at h
  split_ifs at h with h1 h23
  · exact .inl h1
  · exact .inr h23

/-- What `SymmetricEncryptRaw` returns: the sealed plaintext under a 12-byte nonce, the nonce in
front unless the encryption is convergent of version 1. -/
theorem symmetricEncryptRaw_eq_ok {rand : List UInt8} {ver : ℤ} {encKey plaintext ct : List UInt8}
    {opts : SymmetricOpts} (h : p.symmetricEncryptRaw c rand ver encKey plaintext opts = .ok ct) :
    ∃ ka nonce, newAEAD c p.type encKey = .ok (some ka) ∧ nonce.length = 12 ∧
      (opts.convergent = true →
        p.convergentVersionOf ver = 1 ∨ p.convergentVersionOf ver = 2 ∨
          p.convergentVersionOf ver = 3) ∧
      (opts.convergent = false ∨ 1 < p.convergentVersionOf ver →
        ct = nonce ++ ka.cipher.sealText ka.key nonce plaintext opts.additionalData) := by
  obtain ⟨aead, haead, h⟩ := bind_eq_ok h
  obtain ⟨nonce, hnonce, h⟩ := bind_eq_ok h
  obtain ⟨sealed, hseal, h⟩ := bind_eq_ok h
  obtain ⟨ka, rfl, hn, rfl⟩ := aeadSeal_eq_ok hseal
  refine ⟨ka, nonce, haead, hn, symmetricNonce_convergent hnonce, fun hpre => ?_⟩
  have hcond : (!opts.convergent || decide (p.convergentVersionOf ver > 1)) = true := by
    rcases hpre with hpre | hpre <;> simp [hpre]
  rw [if_pos hcond] at h
  exact (Except.ok.inj h).symm

/-- `SymmetricDecryptRaw` opens what was sealed with the nonce in front. -/
theorem symmetricDecryptRaw_sealText {encKey nonce plaintext : List UInt8} {ka : KeyedAEAD}
    (opts : SymmetricOpts) (hka : newAEAD c p.type encKey = .ok (some ka)) (hl : ka.cipher.Lawful)
    (hn : nonce.length = 12) (hopts : ¬ (opts.convergent = true ∧ opts.convergentVersion = 1)) :
    p.symmetricDecryptRaw c encKey
      (nonce ++ ka.cipher.sealText ka.key nonce plaintext opts.additionalData) opts =
      .ok plaintext := by
  have hlen :
      ¬ (nonce ++ ka.cipher.sealText ka.key nonce plaintext opts.additionalData).length < 12 := by
    simp [hn]
  have hsplit : (opts.convergent && decide (opts.convergentVersion = 1)) = false := by
    simpa using hopts
  simp only [symmetricDecryptRaw, hka, ok_bind, nonceSize, hlen, if_false, hsplit,
    Bool.false_eq_true]
  rw [← hn, sliceTo_of_le (by simp), sliceFrom_of_le (by simp)]
  simp only [List.take_left', List.drop_left', ok_bind]
  exact aeadOpen_sealText hl hn _ _

/-- With convergent version 1, `SymmetricDecryptRaw` never returns a plaintext: it opens with a
nil nonce. -/
theorem symmetricDecryptRaw_convergentVersion_one {encKey ciphertext plain : List UInt8}
    {opts : SymmetricOpts} (hconv : opts.convergent = true) (hv : opts.convergentVersion = 1) :
    p.symmetricDecryptRaw c encKey ciphertext opts ≠ .ok plain := by
  intro h
  obtain ⟨aead, -, h⟩ := bind_eq_ok h
  obtain ⟨n, -, h⟩ := bind_eq_ok h
  split_ifs at h with hlen hcv
  · simp only [pure_bind] at h
    obtain ⟨msg, hmsg⟩ := aeadOpen_nil aead ciphertext opts.additionalData
    rw [hmsg] at h
    cases h
  · simp [hconv, hv] at hcv

/-- On the counter KDF the output does not depend on the length asked for; on HKDF a shorter
output is a prefix of a longer one. -/
theorem deriveFromEntry_take (hsym : p.type.IsSymmetric)
    (hkdf : p.kdf = kdfHkdfSha256 ∨ p.type ≠ .aes128Gcm96) {e : KeyEntry}
    {context salt key : List UInt8} {n : ℕ} (h : p.deriveFromEntry c e context salt n = .ok key)
    (hn : p.encKeyBytes ≤ key.length) :
    p.deriveFromEntry c e context salt p.encKeyBytes = .ok (key.take p.encKeyBytes) := by
  by_cases hcounter : p.kdf = kdfHmacSha256Counter
  · -- 32 bytes, whatever is asked
    have hlen : key.length = 32 := by
      simp only [deriveFromEntry, hcounter, if_true] at h
      simpa [hmacSha256PRFLen] using counterMode_length h
    have h32 : p.encKeyBytes = 32 := by
      have : p.type ≠ .aes128Gcm96 := by
        rcases hkdf with hk | hk
        · simp [hk, kdfHkdfSha256, kdfHmacSha256Counter] at hcounter
        · exact hk
      simp [encKeyBytes, this]
    simp only [deriveFromEntry, hcounter, if_true] at h ⊢
    rw [h32, ← hlen, List.take_length]
    exact h
  · have hhkdf : p.kdf = kdfHkdfSha256 := by
      rcases hkdf with hk | hk
      · exact hk
      · by_contra hne
        simp [deriveFromEntry, hcounter, hne] at h
    rcases hsym with ht | ht | ht <;>
      simp only [deriveFromEntry, if_neg hcounter, if_pos hhkdf, ht] at h ⊢ <;>
      exact readDerivedBytes_take h hn

/-- `GetKey` for the length `Decrypt` asks gives the start of what it gave `Encrypt`. -/
theorem getKey_encKeyBytes {ver : ℤ} (hfit : p.KeyFits ver) (hsym : p.type.IsSymmetric)
    {context key : List UInt8} {n : ℕ} (h : p.getKey c context ver n = .ok key)
    (hn : p.encKeyBytes ≤ key.length) :
    p.getKey c context ver p.encKeyBytes = .ok (key.take p.encKeyBytes) := by
  have hfit := hfit hsym
  cases hd : p.derived
  · -- a stored key, taken whole
    simp only [hd, Bool.false_eq_true, if_false] at hfit
    simp only [getKey, hd, Bool.not_false, if_true] at h ⊢
    cases he : p.safeGetKeyEntry ver with
    | error e => simp [he, Except.map] at h
    | ok e =>
      simp only [he, Except.map, Except.ok.injEq] at h
      subst h
      have hlen : e.key.length = p.encKeyBytes := by
        unfold safeGetKeyEntry at he
        split at he
        · next e' he' => cases he; exact hfit e he'
        · cases he
      rw [← hlen, List.take_length]
      rfl
  · simp only [hd, if_true] at hfit
    simp only [getKey, hd, Bool.not_true, Bool.false_eq_true, if_false, deriveKey] at h ⊢
    obtain ⟨e, he, h⟩ := bind_eq_ok h
    rw [he, ok_bind]
    exact deriveFromEntry_take hsym hfit h hn

/-- What `Encrypt` does for the AEAD key types: get a key, and seal with its first bytes. -/
theorem encryptSymmetric_eq_ok {rand : List UInt8} {ver : ℤ}
    {context nonce plaintext ct : List UInt8}
    (h : p.encryptSymmetric c rand ver context nonce plaintext = .ok ct) :
    ∃ n key hmacKey, p.getKey c context ver n = .ok key ∧ p.encKeyBytes ≤ key.length ∧
      p.symmetricEncryptRaw c rand ver (key.take p.encKeyBytes) plaintext
        ⟨p.convergentEncryption, 0, nonce, [], hmacKey⟩ = .ok ct := by
  obtain ⟨key, hkey, h⟩ := bind_eq_ok h
  obtain ⟨-, h⟩ := ite_error_eq_ok h
  obtain ⟨encKey, henc, h⟩ := bind_eq_ok h
  obtain ⟨hle, rfl⟩ := sliceTo_eq_ok henc
  obtain ⟨-, h⟩ := ite_error_eq_ok h
  obtain ⟨hmacKey, -, h⟩ := bind_eq_ok h
  exact ⟨_, key, hmacKey, hkey, hle, h⟩

/-- `Decrypt` opens what `Encrypt` sealed, for the AEAD key types. -/
theorem decryptSymmetric_encryptSymmetric (hc : c.Lawful) (hsym : p.type.IsSymmetric) {ver : ℤ}
    (hfit : p.KeyFits ver)
    (hcv : p.convergentEncryption = true →
      p.convergentVersion ≠ 1 ∧ p.convergentVersionOf ver ≠ 1)
    {rand context nonce plaintext ct : List UInt8}
    (h : p.encryptSymmetric c rand ver context nonce plaintext = .ok ct) :
    p.decryptSymmetric c context ver ct = .ok plaintext := by
  obtain ⟨n, key, hmacKey, hkey, hle, hraw⟩ := encryptSymmetric_eq_ok h
  obtain ⟨ka, nonce', hka, hn, hversions, hct⟩ := symmetricEncryptRaw_eq_ok hraw
  have hget := getKey_encKeyBytes hfit hsym hkey hle
  have htake : (key.take p.encKeyBytes).length = p.encKeyBytes := by simp [hle]
  -- the nonce is in front: a convergent version here is 2 or 3
  have hpre : p.convergentEncryption = false ∨ 1 < p.convergentVersionOf ver := by
    cases hconv : p.convergentEncryption
    · exact .inl rfl
    · have h1 := (hcv hconv).2
      rcases hversions hconv with h' | h' | h' <;> omega
  have hopts : ¬ (p.convergentEncryption = true ∧ p.convergentVersion = 1) :=
    fun ⟨hconv, h1⟩ => (hcv hconv).1 h1
  obtain ⟨-, hcipher⟩ := newAEAD_eq_some hka
  have hopen : p.symmetricDecryptRaw c (key.take p.encKeyBytes)
      (nonce' ++ ka.cipher.sealText ka.key nonce' plaintext [])
      ⟨p.convergentEncryption, p.convergentVersion, [], [], []⟩ = .ok plaintext :=
    symmetricDecryptRaw_sealText ⟨p.convergentEncryption, p.convergentVersion, [], [], []⟩ hka
      (hc.cipher hcipher) hn hopts
  simp only [decryptSymmetric, hget, ok_bind, htake, ne_eq, not_true_eq_false, if_false]
  rw [hct hpre]
  exact hopen

/-- `Decrypt` opens what `Encrypt` sealed, for the RSA key types. -/
theorem decryptRSA_encryptRSA (hc : c.Lawful) {ver : ℤ} {plaintext ct : List UInt8}
    (h : p.encryptRSA c ver plaintext = .ok ct) : p.decryptRSA c ver ct = .ok plaintext := by
  obtain ⟨e, he, h⟩ := bind_eq_ok h
  simp only [decryptRSA, he, ok_bind]
  cases hk : e.rsaKey with
  | none => simp [hk] at h
  | some key =>
    simp only [hk, wrapError_eq_ok] at h ⊢
    exact hc.rsaDecryptOAEP_encrypt key plaintext ct h

/-- The switch of `Decrypt` on the key type undoes that of `Encrypt`. -/
theorem decryptCiphertext_encryptPlaintext (hc : c.Lawful) {ver : ℤ} (hfit : p.KeyFits ver)
    (hcv : p.convergentEncryption = true →
      p.convergentVersion ≠ 1 ∧ p.convergentVersionOf ver ≠ 1)
    {rand context nonce plaintext ct : List UInt8}
    (h : p.encryptPlaintext c rand ver context nonce plaintext = .ok ct) :
    p.decryptCiphertext c context ver ct = .ok plaintext := by
  unfold encryptPlaintext at h
  unfold decryptCiphertext
  cases ht : p.type <;> simp only [ht] at h
  case aes128Gcm96 | aes256Gcm96 | chacha20Poly1305 =>
    exact decryptSymmetric_encryptSymmetric hc (by simp [KeyType.IsSymmetric, ht]) hfit hcv h
  case rsa2048 | rsa3072 | rsa4096 => exact decryptRSA_encryptRSA hc h
  all_goals cases h

/-! ## Version prefixes read back -/

/-- A readable template gives its two parts, and every prefix is the version between them. -/
theorem getTemplateParts_of_readable (htpl : readableTemplate p.templateOrDefault = true) :
    ∃ head tail d rest, p.getTemplateParts = .ok (head, tail) ∧ tail.toList = d :: rest ∧
      d.isDigit = false ∧ ∀ ver, p.getVersionPrefix ver = head ++ itoa ver ++ tail := by
  unfold readableTemplate at htpl
  split at htpl
  · next head tail hsplit =>
    split at htpl
    · next d rest htail =>
      exact ⟨head, tail, d, rest, by simp [getTemplateParts, hsplit], htail, by simpa using htpl,
        fun ver => replaceAll_of_splitSub hsplit⟩
    · cases htpl
  · cases htpl

/-- `Decrypt` reads back the version `Encrypt` wrote. -/
theorem decryptionVersion_itoa {ver : ℤ} (hv : 0 < ver) (hv' : ver < 2 ^ 63)
    (hlatest : ver ≤ p.latestVersion) (hmin : p.minDecryptionVersion ≤ ver) :
    p.decryptionVersion (itoa ver) = .ok ver := by
  obtain ⟨n, rfl⟩ := Int.eq_ofNat_of_zero_le hv.le
  have hparse : parseInt (itoa n) = some (n : ℤ) := parseInt_repr (by omega)
  have hne : (n : ℤ) ≠ 0 := by omega
  simp only [decryptionVersion, hparse, hne, if_false]
  rw [if_neg (by omega), if_neg (by omega)]

/-- The decimal form of a version is all digits. -/
theorem isDigit_of_mem_itoa {ver : ℤ} (hv : 0 ≤ ver) :
    ∀ x ∈ (itoa ver).toList, x.isDigit = true := by
  obtain ⟨n, rfl⟩ := Int.eq_ofNat_of_zero_le hv
  intro x hx
  have hx' : x ∈ Nat.toDigits 10 n := by
    rw [← Nat.toList_repr]
    exact hx
  exact Nat.isDigit_of_mem_toDigits (by decide) (by decide) hx'

/-- `Decrypt` on a ciphertext behind the version prefix: the prefix is read back, and the rest
is decrypted with the key of that version. -/
theorem decrypt_versionPrefix (hc : c.Lawful) (hsup : p.type.decryptionSupported)
    (htpl : readableTemplate p.templateOrDefault = true) {ver : ℤ} (hv : 0 < ver)
    (hv' : ver < 2 ^ 63) (hlatest : ver ≤ p.latestVersion) (hmin : p.minDecryptionVersion ≤ ver)
    {nonce : List UInt8} (hnonce : p.convergentVersionOf ver = 1 → nonce ≠ [])
    (context raw : List UInt8) :
    p.decrypt c context nonce (p.getVersionPrefix ver ++ c.encodeToString raw) =
      (p.decryptCiphertext c context ver raw).map c.encodeToString := by
  obtain ⟨head, tail, d, rest, hparts, htail, hd, hfill⟩ := getTemplateParts_of_readable htpl
  -- the version field ends where the tail first occurs
  have hsplit : splitNSub (itoa ver ++ tail ++ c.encodeToString raw) tail 2 =
      [itoa ver, c.encodeToString raw] :=
    splitNSub_two_append_sep (by simp [htail])
      (not_infix_append_dropLast (P := fun x => x.isDigit = true) htail (by simp [hd])
        (isDigit_of_mem_itoa hv.le))
  have hvalue : p.getVersionPrefix ver ++ c.encodeToString raw =
      head ++ (itoa ver ++ tail ++ c.encodeToString raw) := by
    rw [hfill]
    simp only [String.append_assoc]
  have hcheck : ¬ (p.convergentVersionOf ver = 1 ∧ nonce = []) :=
    fun ⟨h1, h2⟩ => hnonce h1 h2
  rw [hvalue]
  simp only [decrypt, hsup, Bool.not_true, Bool.false_eq_true, if_false, hparts, ok_bind,
    hasPrefix_append, trimPrefix_append, hsplit, decryptionVersion_itoa hv hv' hlatest hmin,
    hcheck, hc.decodeString_encodeToString]
  cases p.decryptCiphertext c context ver raw <;> rfl

/-! ## Round trips -/

theorem encryptionVersion_bounds (hlatest : 0 < p.latestVersion) {ver v : ℤ}
    (h : p.encryptionVersion ver = .ok v) : 0 < v ∧ v ≤ p.latestVersion := by
  unfold encryptionVersion at h
  split_ifs at h with h0 hneg hhigh <;> cases h <;> omega

/-- What `Encrypt` returns: the version prefix, then the base64 of the plaintext encrypted with
the key of that version. -/
theorem encrypt_eq_ok {rand : List UInt8} {ver : ℤ} {context nonce : List UInt8}
    {value ct : String}
    (h : p.encrypt c rand ver context nonce value = .ok ct) :
    p.type.encryptionSupported ∧ ∃ plaintext v raw, c.decodeString value = .ok plaintext ∧
      p.encryptionVersion ver = .ok v ∧
      p.encryptPlaintext c rand v context nonce plaintext = .ok raw ∧
      ct = p.getVersionPrefix v ++ c.encodeToString raw := by
  unfold encrypt at h
  split_ifs at h with hsup
  obtain ⟨plaintext, hpt, h⟩ := bind_eq_ok h
  obtain ⟨v, hv, h⟩ := bind_eq_ok h
  obtain ⟨raw, hraw, h⟩ := bind_eq_ok h
  exact ⟨by simpa using hsup, plaintext, v, raw, hpt, hv, hraw, (Except.ok.inj h).symm⟩

/-- A decryption that returns went through the switch on the key type. -/
theorem decrypt_eq_ok {context nonce : List UInt8} {value s : String}
    (h : p.decrypt c context nonce value = .ok s) :
    ∃ ver decoded plain, p.decryptCiphertext c context ver decoded = .ok plain := by
  unfold decrypt at h
  split_ifs at h
  obtain ⟨parts, -, h⟩ := bind_eq_ok h
  split_ifs at h
  split at h
  · obtain ⟨ver, -, h⟩ := bind_eq_ok h
    split_ifs at h
    obtain ⟨decoded, -, h⟩ := bind_eq_ok h
    obtain ⟨plain, hplain, -⟩ := bind_eq_ok h
    exact ⟨ver, decoded, plain, hplain⟩
  · cases h

end CryptoPolicy

open CryptoPolicy

variable {p : CryptoPolicy}

/-! ## Library functions and policies to run on -/

/-- Library functions that meet the laws: the tagged AEAD for both ciphers, an RSA that writes
the key in front, and the base64 of `Base64`. -/
def sampleCrypto : Crypto where
  gcm := AEAD.tagged
  chacha := AEAD.tagged
  hmacSha256 _ m := (m ++ List.replicate 32 0).take 32
  hkdfSha256 _ _ _ i := UInt8.ofNat i
  ed25519Key seed := seed ++ seed
  rsaEncryptOAEP k m := .ok (k ++ m)
  rsaDecryptOAEP k ct :=
    if k.isPrefixOf ct then .ok (ct.drop k.length)
    else .error (.error "crypto/rsa: decryption error")
  encodeToString := Base64.encodeToString
  decodeString := Base64.decodeString

theorem sampleCrypto_lawful : sampleCrypto.Lawful where
  gcm := AEAD.tagged_lawful
  chacha := AEAD.tagged_lawful
  rsaDecryptOAEP_encrypt k m ct h := by
    cases h
    simp [sampleCrypto, List.isPrefixOf_iff_prefix]
  decodeString_encodeToString := Base64.decodeString_encodeToString

/-- A derived AES-256-GCM key under HKDF, of convergent version 3, with one version. -/
def convergentPolicy : CryptoPolicy where
  name := "k"
  keys := some (Bucket.empty.put "1"
    { (default : KeyEntry) with key := List.replicate 32 1, convergentVersion := 3 })
  convergentEncryption := true
  minDecryptionVersion := 1
  minEncryptionVersion := 0
  latestVersion := 1
  archiveVersion := 1
  archiveMinVersion := 0
  minAvailableVersion := 0
  convergentVersion := -1
  type := .aes256Gcm96
  storagePrefix := ""
  deleted := false
  derived := true
  kdf := kdfHkdfSha256
  versionTemplate := ""

/-- The same key in a policy upgraded from before convergent versions: the policy is of
version 1, and its key carries no version of its own. -/
def versionOnePolicy : CryptoPolicy :=
  { convergentPolicy with
    keys := some (Bucket.empty.put "1" { (default : KeyEntry) with key := List.replicate 32 1 })
    convergentVersion := 1 }

theorem decrypt_encrypt (hc : c.Lawful) (htpl : readableTemplate p.templateOrDefault = true)
    (hlatest : 0 < p.latestVersion ∧ p.latestVersion < 2 ^ 63) {ver v : ℤ}
    (hv : p.encryptionVersion ver = .ok v) (hmin : p.minDecryptionVersion ≤ v)
    (hfit : p.KeyFits v)
    (hcv : p.convergentEncryption = true →
      p.convergentVersion ≠ 1 ∧ p.convergentVersionOf v ≠ 1)
    {rand context nonce : List UInt8} {value ct : String}
    (h : p.encrypt c rand ver context nonce value = .ok ct) :
    ∃ plaintext, c.decodeString value = .ok plaintext ∧
      p.decrypt c context nonce ct = .ok (c.encodeToString plaintext) := by
  obtain ⟨hsup, plaintext, v', raw, hpt, hv', hraw, rfl⟩ := encrypt_eq_ok h
  obtain rfl : v = v' := Except.ok.inj (hv.symm.trans hv')
  obtain ⟨hpos, hle⟩ := encryptionVersion_bounds hlatest.1 hv
  -- without convergent encryption the version is 0; with it `hcv` rules out 1
  have hnonce : p.convergentVersionOf v = 1 → nonce ≠ [] := by
    intro h1
    cases hconv : p.convergentEncryption
    · simp [convergentVersionOf, hconv] at h1
    · exact absurd h1 (hcv hconv).2
  refine ⟨plaintext, hpt, ?_⟩
  rw [decrypt_versionPrefix hc (KeyType.decryptionSupported_of_encryptionSupported hsup) htpl hpos
    (by omega) hle hmin hnonce, decryptCiphertext_encryptPlaintext hc hfit hcv hraw]
  rfl

theorem decrypt_convergentVersion_one (hconv : p.convergentEncryption = true)
    (hv1 : p.convergentVersion = 1) (hsym : p.type.IsSymmetric) (context nonce : List UInt8)
    (value : String) : ∃ e, p.decrypt c context nonce value = .error e := by
  cases hd : p.decrypt c context nonce value with
  | error e => exact ⟨e, rfl⟩
  | ok s =>
    exfalso
    obtain ⟨ver, decoded, plain, hplain⟩ := decrypt_eq_ok hd
    have hsymm :
        p.decryptCiphertext c context ver decoded = p.decryptSymmetric c context ver decoded := by
      rcases hsym with ht | ht | ht <;> simp [decryptCiphertext, ht]
    rw [hsymm] at hplain
    obtain ⟨encKey, -, hraw⟩ := bind_eq_ok hplain
    split_ifs at hraw
    exact symmetricDecryptRaw_convergentVersion_one hconv hv1 hraw

theorem decrypt_encrypt_convergent :
    ∃ ct, convergentPolicy.encrypt sampleCrypto [] 0 [7] [] "AAECAw" = .ok ct ∧
      ∃ plaintext, sampleCrypto.decodeString "AAECAw" = .ok plaintext ∧
        convergentPolicy.decrypt sampleCrypto [7] [] ct =
          .ok (sampleCrypto.encodeToString plaintext) :=
  ⟨_, rfl, decrypt_encrypt sampleCrypto_lawful (by decide) (by decide)
    (rfl : convergentPolicy.encryptionVersion 0 = .ok 1) (by decide) (fun _ => Or.inl rfl)
    (by decide) (rfl : convergentPolicy.encrypt sampleCrypto [] 0 [7] [] "AAECAw" = _)⟩

theorem decrypt_convergentVersion_one_sample :
    ∃ e, versionOnePolicy.decrypt sampleCrypto [7] (List.replicate 12 5) "vault:v1:AAAA" =
      .error e :=
  decrypt_convergentVersion_one rfl rfl (by decide) _ _ _

-- what `Encrypt` wrote under that policy, `Decrypt` opens with a nil nonce
example :
    (versionOnePolicy.encrypt sampleCrypto [] 0 [7] (List.replicate 12 5) "AAECAw" >>=
      versionOnePolicy.decrypt sampleCrypto [7] (List.replicate 12 5)) =
      .error (.panic "crypto/cipher: incorrect nonce length given to GCM") := by
  -- the ciphertext is the version prefix and the base64 of what the tagged AEAD sealed: the
  -- derived key, the empty additional data and the plaintext, each in its prefix-free encoding
  have henc : versionOnePolicy.encrypt sampleCrypto [] 0 [7] (List.replicate 12 5) "AAECAw" =
      .ok (versionOnePolicy.getVersionPrefix 1 ++ sampleCrypto.encodeToString
        ((List.range 32).flatMap (fun i => [1, UInt8.ofNat i]) ++ [0, 0, 0, 1, 2, 3])) := by
    rfl
  rw [henc, ok_bind, decrypt_versionPrefix sampleCrypto_lawful (by decide) (by decide) (by decide)
    (by decide) (by decide) (by decide) (fun _ => by simp)]
  decide

end Vault.Keysutil
