import Vault.Barrier.Storage

/-!
# Reads of malformed values

`lockSwitchedGet` rejects a stored value shorter than four bytes, and `Decrypt` checks nothing
at all. `decrypt` then takes the nonce from bytes 5 to 17 and gives its output buffer a
capacity of `len(raw) - NonceSize`. A value of fewer than `5 + 2 * NonceSize = 29` bytes
therefore makes it panic, where an error was meant. So a truncated or corrupted value in
storage, under a term whose key exists, makes `Get` panic (`get_of_decrypt_panic`); the
failing input is `get_four_byte_value_panics`. A value of 29 bytes or more never panics in
`decrypt` (`decrypt_not_panicked`).
-/

namespace Vault.Barrier

open GoRuntime StateFrame

variable {rt : Runtime}

/-- Fewer than four bytes: `binary.BigEndian.Uint32` indexes past the end. -/
theorem uint32_of_short {v : Bytes} (h : v.length < 4) :
    uint32 v = .error (.panic "index out of range") := by
  match v, h with
  | [], _ => rfl
  | [_], _ => rfl
  | [_, _], _ => rfl
  | [_, _, _], _ => rfl

/-- No room for the nonce: the slice `cipher[5:5+NonceSize]` panics. -/
theorem decrypt_of_lt_nonce {path : String} {gcm cipher : Bytes}
    (h : cipher.length < 5 + gcmNonceSize) :
    decrypt rt path gcm cipher = .error (.panic "slice bounds out of range") := by
  simp [decrypt, h]
  rfl

/-- Room for the nonce but a sealed text shorter than a nonce: the buffer's capacity is
negative, and `make` panics. -/
theorem decrypt_of_short_raw {path : String} {gcm cipher : Bytes}
    (h₁ : 5 + gcmNonceSize ≤ cipher.length) (h₂ : cipher.length < 5 + gcmNonceSize + gcmNonceSize) :
    decrypt rt path gcm cipher = .error (.panic "makeslice: cap out of range") := by
  have hraw : cipher.length - (5 + gcmNonceSize) < gcmNonceSize := by omega
  simp [decrypt, not_lt.mpr h₁, hraw]
  rfl

/-- From 29 bytes on, `decrypt` returns: plaintext or an error. -/
theorem decrypt_not_panicked {path : String} {gcm cipher : Bytes}
    (h : 5 + gcmNonceSize + gcmNonceSize ≤ cipher.length) :
    panicked (decrypt rt path gcm cipher) = false := by
  have hraw : ¬cipher.length - (5 + gcmNonceSize) < gcmNonceSize := by omega
  have h4 : 4 < cipher.length := by unfold gcmNonceSize at h; omega
  have hopen (aad : Bytes) : panicked (gcmOpen rt gcm ((cipher.drop 5).take gcmNonceSize)
      (cipher.drop (5 + gcmNonceSize)) aad) = false := by
    unfold gcmOpen
    split <;> rfl
  simp only [decrypt, show ¬cipher.length < 5 + gcmNonceSize by omega, if_false,
    List.length_drop, hraw, index_of_lt h4, ok_bind]
  split
  · exact hopen []
  · split
    · exact hopen _
    · rfl

/-- `Get` on an unsealed barrier, for a stored value of four bytes or more whose term has a
key of a size AES takes: what `decrypt` does, panic included, is what `Get` does. -/
theorem get_of_decrypt_panic {b : AESGCMBarrier} (hs : b.sealed = false) {key : String}
    {pe : StorageEntry} (hpe : b.backend key = some pe) (h4 : 4 ≤ pe.value.length)
    {keyring : Keyring} (hk : b.keyring = some keyring) {term : UInt32}
    (hterm : uint32 pe.value = .ok term) {k : Key} (hkey : keyring.termKey term = some k)
    (hsize : ValidKeySize k.value) {msg : String}
    (hdec : decrypt rt key k.value pe.value = .error (.panic msg)) :
    (AESGCMBarrier.get rt key).run b = .error (.panic msg) b := by
  have hlen : ¬pe.value.length < 4 := not_lt.mpr h4
  simp [AESGCMBarrier.get, lockSwitchedGet, hs, hpe, hlen, hterm, aeadForTerm, hk, hkey,
    aeadFromKey_of_valid hsize, hdec, wrapError]

/-- A stored value of 4 to 28 bytes under a term with a key: `Get` panics. -/
theorem get_panics_of_short {b : AESGCMBarrier} (hs : b.sealed = false) {key : String}
    {pe : StorageEntry} (hpe : b.backend key = some pe) (h4 : 4 ≤ pe.value.length)
    (h29 : pe.value.length < 5 + gcmNonceSize + gcmNonceSize) {keyring : Keyring}
    (hk : b.keyring = some keyring) {term : UInt32} (hterm : uint32 pe.value = .ok term) {k : Key}
    (hkey : keyring.termKey term = some k) (hsize : ValidKeySize k.value) :
    ∃ msg, (AESGCMBarrier.get rt key).run b = .error (.panic msg) b := by
  by_cases hn : pe.value.length < 5 + gcmNonceSize
  · exact ⟨_, get_of_decrypt_panic hs hpe h4 hk hterm hkey hsize (decrypt_of_lt_nonce hn)⟩
  · exact ⟨_, get_of_decrypt_panic hs hpe h4 hk hterm hkey hsize
      (decrypt_of_short_raw (not_lt.mp hn) h29)⟩

/-- `Decrypt` of fewer than four bytes on an unsealed barrier panics reading the term. -/
theorem decrypt_method_of_short {b : AESGCMBarrier} (hs : b.sealed = false) {key : String}
    {c : Bytes} (h : c.length < 4) :
    (AESGCMBarrier.encryptorDecrypt rt key c).run b = .error (.panic "index out of range") b := by
  simp [AESGCMBarrier.encryptorDecrypt, hs, uint32_of_short h]

/-- The failing input: an unsealed barrier whose keyring holds a 32-byte key for term 1, with
the four bytes of term 1 stored under `k`. `Get("k")` panics in `decrypt`. -/
theorem get_four_byte_value_panics :
    ∃ b', (AESGCMBarrier.get ⟨AEAD.tagged, natCodec⟩ "k").run
      ⟨fun p => if p = "k" then some ⟨"k", [0, 0, 0, 1], false⟩ else none, false,
        some ⟨List.replicate 32 7, [⟨1, 1, List.replicate 32 7⟩], 1,
          defaultRotationConfig⟩, aesgcmVersion2, true,
        fun _ _ => 0, 0⟩ =
      .error (.panic "slice bounds out of range") b' :=
  ⟨_, @get_of_decrypt_panic ⟨AEAD.tagged, natCodec⟩ _ rfl "k" ⟨"k", [0, 0, 0, 1], false⟩
    (by simp) (by simp) _ rfl 1 rfl ⟨1, 1, List.replicate 32 7⟩ rfl (by simp [ValidKeySize]) _
    (decrypt_of_lt_nonce (by simp [gcmNonceSize]))⟩

end Vault.Barrier
