import Vault.Barrier.AESGCM

/-!
# What the barrier stores

`Put` stores an entry's value sealed under the entry's path, `Delete` removes the path, and
`Get` opens what is stored with the key of the term the value names. By the AEAD laws an
opening that succeeds returns the plaintext the value was sealed with (`decrypt_sealed`),
whatever key it used.

The first part says what a call that returns has done, and that `Put` and `Delete` write
nothing when they fail. The second computes the calls that return: `Initialize` on an empty
backend persists a keyring, `Unseal` with the master key recovers it, and `Get` opens what
was sealed with the key of its term.
-/

namespace Vault.Barrier

open GoRuntime StateFrame

variable {rt : Runtime}

/-! ## Sealed values -/

@[simp] theorem putUint32_length (t : UInt32) : (putUint32 t).length = 4 := rfl

/-- `binary.BigEndian.Uint32` reads back what `PutUint32` wrote. -/
theorem uint32_putUint32 (t : UInt32) (rest : Bytes) : uint32 (putUint32 t ++ rest) = .ok t := by
  simp only [putUint32, uint32, List.cons_append, List.nil_append, Except.ok.injEq]
  apply UInt32.toNat_inj.mp
  simp only [UInt32.toNat_or, UInt32.toNat_shiftLeft, UInt8.toNat_toUInt32,
    UInt32.toNat_toUInt8, UInt32.toNat_shiftRight]
  have ht : t.toNat < 2 ^ 32 := t.toNat_lt
  generalize t.toNat = a at ht ⊢
  -- compare the two numbers bit by bit
  apply Nat.eq_of_testBit_eq
  intro i
  have h24 : UInt32.toNat 24 % 32 = 24 := rfl
  have h16 : UInt32.toNat 16 % 32 = 16 := rfl
  have h8 : UInt32.toNat 8 % 32 = 8 := rfl
  simp only [Nat.testBit_or, Nat.testBit_mod_two_pow, Nat.testBit_shiftLeft,
    Nat.testBit_shiftRight, h24, h16, h8]
  by_cases hi : i < 32
  · -- bit `i` comes from the byte that holds it
    rcases (by omega : i < 8 ∨ (8 ≤ i ∧ i < 16) ∨ (16 ≤ i ∧ i < 24) ∨ 24 ≤ i) with
      h | ⟨h1, h2⟩ | ⟨h1, h2⟩ | h
    · simp [hi, h, show ¬ 8 ≤ i by omega, show ¬ 16 ≤ i by omega, show ¬ 24 ≤ i by omega]
    · simp [hi, h1, show i - 8 < 8 by omega, show ¬ 16 ≤ i by omega, show ¬ 24 ≤ i by omega,
        show ¬ i < 8 by omega, Nat.add_sub_cancel' h1]
    · simp [hi, h1, show i - 16 < 8 by omega, show ¬ 24 ≤ i by omega, show ¬ i < 8 by omega,
        show 8 ≤ i by omega, show ¬ i - 8 < 8 by omega, Nat.add_sub_cancel' h1]
    · simp [hi, h, show i - 24 < 8 by omega, show ¬ i < 8 by omega, show 8 ≤ i by omega,
        show 16 ≤ i by omega, show ¬ i - 8 < 8 by omega, show ¬ i - 16 < 8 by omega,
        Nat.add_sub_cancel' h]
  · -- above the 32 bits both sides are zero
    have hbit : a.testBit i = false :=
      Nat.testBit_lt_two_pow (lt_of_lt_of_le ht (Nat.pow_le_pow_right (by norm_num) (by omega)))
    simp [hi, hbit]

/-- A value that `encrypt` can write for `plain` at `path`: term, version byte and nonce,
then the sealed plaintext, with the path as additional data from version 2 on. -/
def SealedFor (aead : AEAD.Cipher) (path : String) (plain value : Bytes) : Prop :=
  ∃ term gcm nonce, nonce.length = gcmNonceSize ∧
    (value = putUint32 term ++ [aesgcmVersion1] ++ nonce ++ aead.sealText gcm nonce plain [] ∨
      value = putUint32 term ++ [aesgcmVersion2] ++ nonce ++
        aead.sealText gcm nonce plain (aadOf path))

theorem gcmOpen_eq_ok {gcm nonce raw aad p : Bytes} :
    gcmOpen rt gcm nonce raw aad = .ok p ↔ rt.aead.openText gcm nonce raw aad = some p := by
  unfold gcmOpen
  split <;> simp_all

theorem liftGo_run_ok {α : Type} {x : Go α} {s s' : AESGCMBarrier} {a : α}
    (h : (liftGo x).run s = .ok a s') : x = .ok a ∧ s' = s := by
  unfold liftGo at h
  split at h <;> simp_all [EStateM.run]

/-- What `encrypt` writes: the term, the version byte, a fresh nonce and the sealed text, under
the additional data the version byte picks. -/
theorem encrypt_run_ok {path : String} {term : UInt32} {gcm plain value : Bytes}
    {s s' : AESGCMBarrier} (h : (encrypt rt path term gcm plain).run s = .ok value s') :
    ∃ nonce : Bytes, nonce.length = gcmNonceSize ∧
      (value = putUint32 term ++ [aesgcmVersion1] ++ nonce ++ rt.aead.sealText gcm nonce plain [] ∨
        value = putUint32 term ++ [aesgcmVersion2] ++ nonce ++
          rt.aead.sealText gcm nonce plain (aadOf path)) := by
  simp only [encrypt, run_bind_ok, run_get, nextNonce, run_modifyGet] at h
  obtain ⟨_, _, ⟨⟩, _, _, ⟨⟩, h⟩ := h
  refine ⟨List.ofFn (s.nonces s.reads), List.length_ofFn, ?_⟩
  -- the version byte in the barrier picks the additional data
  split_ifs at h with h1 h2
  · rw [run_pure, EStateM.Result.ok.injEq] at h
    exact .inl (h1 ▸ h.1.symm)
  · rw [run_pure, EStateM.Result.ok.injEq] at h
    exact .inr (h2 ▸ h.1.symm)
  · cases h

theorem encrypt_ok {path : String} {term : UInt32} {gcm plain value : Bytes}
    {s s' : AESGCMBarrier} (h : (encrypt rt path term gcm plain).run s = .ok value s') :
    SealedFor rt.aead path plain value :=
  ⟨term, gcm, encrypt_run_ok h⟩

/-- `decrypt` on a value with a header: the nonce and the sealed text are read back, and the
version byte picks the additional data. -/
theorem decrypt_eq {path : String} {gcm nonce : Bytes} (term : UInt32) (v : UInt8) (raw : Bytes)
    (hn : nonce.length = gcmNonceSize) :
    decrypt rt path gcm (putUint32 term ++ [v] ++ nonce ++ raw) =
      if raw.length < gcmNonceSize then .error (.panic "makeslice: cap out of range")
      else if v = aesgcmVersion1 then gcmOpen rt gcm nonce raw []
      else if v = aesgcmVersion2 then gcmOpen rt gcm nonce raw (aadOf path)
      else .error (.error "version bytes mis-match") := by
  have hhead : (putUint32 term ++ [v]).length = 5 := rfl
  have hdrop : (putUint32 term ++ [v] ++ nonce ++ raw).drop 5 = nonce ++ raw := by
    rw [List.append_assoc, List.append_assoc, ← List.append_assoc (putUint32 term),
      List.drop_left' hhead]
  have hraw : (putUint32 term ++ [v] ++ nonce ++ raw).drop (5 + gcmNonceSize) = raw := by
    rw [← List.drop_drop, hdrop, ← hn, List.drop_left]
  have hv : (putUint32 term ++ [v] ++ nonce ++ raw)[4]? = some v := by
    simp [putUint32]
  have hlen : ¬ (putUint32 term ++ [v] ++ nonce ++ raw).length < 5 + gcmNonceSize := by
    simp only [List.length_append, putUint32_length, List.length_singleton, hn]
    omega
  simp only [decrypt, hlen, hdrop, hraw, index, hv, List.take_left' hn, if_false, ok_bind]
  split_ifs <;> rfl

/-- Whatever key `decrypt` is given, an opening that succeeds returns the sealed plaintext. -/
theorem decrypt_sealed (haead : rt.aead.Lawful) {path : String} {gcm plain value p : Bytes}
    (hv : SealedFor rt.aead path plain value) (h : decrypt rt path gcm value = .ok p) :
    p = plain := by
  obtain ⟨term, gcm₀, nonce, hn, rfl | rfl⟩ := hv <;>
    rw [decrypt_eq term _ _ hn] at h <;> split_ifs at h <;>
    first
      | cases h
      | exact (haead.open_seal_eq (gcmOpen_eq_ok.mp h)).2.2

/-! ## Put, Get and Delete -/

theorem putInternal_ok {term : UInt32} {primary : Option Bytes} {entry : StorageEntry}
    {s s' : AESGCMBarrier} {u : Unit} (h : (putInternal rt term primary entry).run s = .ok u s') :
    ∃ value, SealedFor rt.aead entry.key entry.value value ∧
      s'.backend = Function.update s.backend entry.key (some ⟨entry.key, value, entry.sealWrap⟩) := by
  unfold putInternal at h
  split at h
  · obtain ⟨value, s₁, he, h⟩ := run_bind_ok.mp h
    have hb : s₁.backend = s.backend := (encrypt_backend _ _ _ _ _).of_run_ok he
    simp only [backendPut, run_modify, EStateM.Result.ok.injEq] at h
    refine ⟨value, encrypt_ok he, ?_⟩
    rw [← h.2, hb]
  · cases h

/-- A `Put` that returns has stored a sealing of the value at the entry's path. -/
theorem put_ok {entry : StorageEntry} {s s' : AESGCMBarrier} {u : Unit}
    (h : (AESGCMBarrier.put rt entry).run s = .ok u s') :
    ∃ value, SealedFor rt.aead entry.key entry.value value ∧
      s'.backend = Function.update s.backend entry.key (some ⟨entry.key, value, entry.sealWrap⟩) := by
  simp only [AESGCMBarrier.put, run_bind_ok, run_get] at h
  obtain ⟨_, _, ⟨⟩, h⟩ := h
  split at h
  · simp at h
  obtain ⟨keyring, s₁, hk, h⟩ := run_bind_ok.mp h
  obtain ⟨primary, s₂, hp, h⟩ := run_bind_ok.mp h
  have h₁ : s₁.backend = s.backend := requireKeyring_backend.of_run_ok hk
  have h₂ : s₂.backend = s₁.backend := (aeadForTerm_backend _).of_run_ok hp
  rw [← h₁, ← h₂]
  exact putInternal_ok h

/-- A `Put` that fails has written nothing: the only write is its last step. -/
theorem put_onError (rt : Runtime) (entry : StorageEntry) :
    PreservesOnError SameBackend (AESGCMBarrier.put rt entry) := by
  unfold AESGCMBarrier.put putInternal backendPut
  repeat' first
    | exact (Preserves.throw _).onError
    | exact PreservesOnError.modify _
    | exact Preserves.get
    | exact Preserves.throw _
    | exact requireKeyring_backend
    | exact aeadForTerm_backend _
    | exact encrypt_backend _ _ _ _ _
    | refine PreservesOnError.bind ?_ fun _ => ?_
    | refine PreservesOnError.ite ?_ ?_
    | split

theorem delete_ok {key : String} {s s' : AESGCMBarrier} {u : Unit}
    (h : (AESGCMBarrier.delete key).run s = .ok u s') :
    s'.backend = Function.update s.backend key none := by
  simp only [AESGCMBarrier.delete, run_bind_ok, run_get] at h
  obtain ⟨_, _, ⟨⟩, h⟩ := h
  split at h
  · simp at h
  simp only [backendDelete, run_modify, EStateM.Result.ok.injEq] at h
  rw [← h.2]

theorem delete_onError (key : String) :
    PreservesOnError SameBackend (AESGCMBarrier.delete key) := by
  unfold AESGCMBarrier.delete backendDelete
  repeat' first
    | exact (Preserves.throw _).onError
    | exact PreservesOnError.modify _
    | exact Preserves.get
    | exact Preserves.throw _
    | refine PreservesOnError.bind ?_ fun _ => ?_
    | refine PreservesOnError.ite ?_ ?_

/-- A `Get` that returns found nothing at the path, or opened what is stored there. -/
theorem get_ok {key : String} {s s' : AESGCMBarrier} {r : Option StorageEntry}
    (h : (AESGCMBarrier.get rt key).run s = .ok r s') :
    (s.backend key = none ∧ r = none) ∨
      ∃ pe gcm plain, s.backend key = some pe ∧ decrypt rt key gcm pe.value = .ok plain ∧
        r = some ⟨key, plain, pe.sealWrap⟩ := by
  simp only [AESGCMBarrier.get, lockSwitchedGet, run_bind_ok, run_get] at h
  obtain ⟨_, _, ⟨⟩, h⟩ := h
  split at h
  · simp at h
  split at h
  · rename_i hkey
    simp only [run_pure, EStateM.Result.ok.injEq] at h
    exact .inl ⟨hkey, h.1.symm⟩
  rename_i pe hkey
  split at h
  · simp at h
  simp only [run_bind_ok] at h
  obtain ⟨term, s₁, -, gcm, s₂, -, h⟩ := h
  split at h
  · simp at h
  rename_i gcm
  obtain ⟨plain, s₃, hdec, h⟩ := run_bind_ok.mp h
  obtain ⟨hdec, -⟩ := liftGo_run_ok hdec
  simp only [run_pure, EStateM.Result.ok.injEq] at h
  exact .inr ⟨pe, gcm, plain, hkey, wrapError_eq_ok.mp hdec, h.1.symm⟩

/-! ## Calls that return -/

/-- A key size AES accepts. -/
def ValidKeySize (key : Bytes) : Prop := key.length = 16 ∨ key.length = 24 ∨ key.length = 32

theorem aeadFromKey_of_valid {key : Bytes} (h : ValidKeySize key) : aeadFromKey key = .ok key :=
  if_pos h

/-- What `encrypt` writes in version 2. -/
def sealedV2 (aead : AEAD.Cipher) (path : String) (term : UInt32) (gcm nonce plain : Bytes) :
    Bytes :=
  putUint32 term ++ [aesgcmVersion2] ++ nonce ++ aead.sealText gcm nonce plain (aadOf path)

theorem uint32_sealedV2 (aead : AEAD.Cipher) (path : String) (term : UInt32)
    (gcm nonce plain : Bytes) : uint32 (sealedV2 aead path term gcm nonce plain) = .ok term := by
  rw [sealedV2, List.append_assoc, List.append_assoc, uint32_putUint32]

theorem sealedV2_length (aead : AEAD.Cipher) (path : String) (term : UInt32)
    (gcm nonce plain : Bytes) : 4 ≤ (sealedV2 aead path term gcm nonce plain).length := by
  simp [sealedV2]

/-- `decrypt` with the key a value was sealed with opens it, when the sealed text is as long
as a nonce. -/
theorem decrypt_sealedV2 (haead : rt.aead.Lawful) {path : String} {term : UInt32}
    {gcm nonce plain : Bytes} (hn : nonce.length = gcmNonceSize)
    (hraw : gcmNonceSize ≤ (rt.aead.sealText gcm nonce plain (aadOf path)).length) :
    decrypt rt path gcm (sealedV2 rt.aead path term gcm nonce plain) = .ok plain := by
  rw [sealedV2, decrypt_eq _ _ _ hn, if_neg (not_lt.mpr hraw), gcmOpen_eq_ok.mpr (haead.open_seal ..)]
  rfl

theorem encrypt_run {s : AESGCMBarrier} (hv : s.currentAESGCMVersionByte = aesgcmVersion2)
    (path : String) (term : UInt32) (gcm plain : Bytes) :
    (encrypt rt path term gcm plain).run s =
      .ok (sealedV2 rt.aead path term gcm (List.ofFn (s.nonces s.reads)) plain)
        { s with reads := s.reads + 1 } := by
  simp only [encrypt, run_bind, run_get, nextNonce, run_modifyGet, hv]
  simp [aesgcmVersion1, aesgcmVersion2, sealedV2]

theorem wrapErrorM_run_of_ok {α : Type} {pre : String} {x : BarrierM α} {s s' : AESGCMBarrier}
    {a : α} (h : x.run s = .ok a s') : (wrapErrorM pre x).run s = .ok a s' := by
  simp only [EStateM.run, wrapErrorM] at h ⊢
  rw [h]

/-- `persistKeyring` writes the keyring under term 1 with the master key, then the master
key with the active key, each with the next nonce. -/
theorem persistKeyring_run {s : AESGCMBarrier} (hv : s.currentAESGCMVersionByte = aesgcmVersion2)
    {keyring : Keyring} {active : Key} (hactive : keyring.activeKey = some active)
    (hmaster : ValidKeySize keyring.masterKey) (hkey : ValidKeySize active.value) :
    (persistKeyring rt keyring).run s = .ok ()
      { s with
        backend := Function.update (Function.update s.backend keyringPath
            (some ⟨keyringPath, sealedV2 rt.aead keyringPath initialKeyTerm keyring.masterKey
              (List.ofFn (s.nonces s.reads)) (keyring.serialize rt.codec), false⟩))
          masterKeyPath
            (some ⟨masterKeyPath, sealedV2 rt.aead masterKeyPath active.term active.value
              (List.ofFn (s.nonces (s.reads + 1)))
              (rt.codec.encodeKey (some ⟨1, 1, keyring.masterKey⟩)), false⟩)
        reads := s.reads + 2 } := by
  simp [persistKeyring, aeadFromKey_of_valid hmaster, aeadFromKey_of_valid hkey, encrypt_run, hv,
    hactive, backendPut]

/-- `Initialize` on a barrier that finds no keyring and no sentinel persists the keyring of
term 1, with the random key. -/
theorem initialize_run {s : AESGCMBarrier} (hinit : s.initialized = false)
    (hk : s.backend keyringPath = none) (hi : s.backend barrierInitPath = none) {key : Bytes}
    (hkey : ValidKeySize key) (random : Fin 32 → UInt8) :
    EStateM.run ( AESGCMBarrier.initialize rt key [] random) s =
      (persistKeyring rt ⟨key, [⟨1, 1, List.ofFn random⟩], 1, defaultRotationConfig⟩).run
        { s with initialized := false } := by
  have hlen : ¬ (key.length < 16 ∨ key.length > 32) := by
    unfold ValidKeySize at hkey
    omega
  simp [ AESGCMBarrier.initialize, AESGCMBarrier.initializedCheck, hlen, hinit, hk, hi,
    Keyring.addKey, Keyring.termKey, Keyring.newKeyring, Keyring.setMasterKey, -List.ofFn_succ]

/-- `Unseal` with the key the stored keyring is sealed with recovers the keyring. -/
theorem unseal_run (haead : rt.aead.Lawful) (hcodec : rt.codec.Lawful) {s : AESGCMBarrier}
    (hs : s.sealed = true) {key nonce : Bytes} (hkey : ValidKeySize key)
    (hn : nonce.length = gcmNonceSize) {keyring : Keyring} {pe : StorageEntry}
    (hb : s.backend keyringPath = some pe)
    (hv : pe.value = sealedV2 rt.aead keyringPath initialKeyTerm key nonce
      (keyring.serialize rt.codec))
    (hraw : gcmNonceSize ≤
      (rt.aead.sealText key nonce (keyring.serialize rt.codec) (aadOf keyringPath)).length) :
    (AESGCMBarrier.unseal rt key).run s = .ok ()
      { s with
        keyring := some (keyring.keys.foldl Keyring.installKey
          { Keyring.newKeyring with
            masterKey := keyring.masterKey, rotationConfig := keyring.rotationConfig.sanitize })
        sealed := false } := by
  have huint : uint32 pe.value = .ok initialKeyTerm := by
    rw [hv, uint32_sealedV2]
  have hdec : decrypt rt keyringPath key pe.value = .ok (keyring.serialize rt.codec) := by
    rw [hv, decrypt_sealedV2 haead hn hraw]
  -- the keyring decodes to what was encoded
  have hrec : (wrapErrorM "keyring deserialization failed: "
      (recoverKeyring rt (keyring.serialize rt.codec))).run s = .ok ()
        { s with keyring := some (keyring.keys.foldl Keyring.installKey
          { Keyring.newKeyring with
            masterKey := keyring.masterKey, rotationConfig := keyring.rotationConfig.sanitize }) } := by
    apply wrapErrorM_run_of_ok
    simp [recoverKeyring, deserializeKeyring, Keyring.serialize, hcodec.decodeKeyring_encode]
  simp [AESGCMBarrier.unseal, hs, aeadFromKey_of_valid hkey, hb, huint, hdec, invalidKeyOnAuth,
    hrec]

/-- `Get` of an unsealed barrier opens a value sealed with the key of its term. -/
theorem get_run (haead : rt.aead.Lawful) {s : AESGCMBarrier} (hs : s.sealed = false)
    {keyring : Keyring} (hk : s.keyring = some keyring) {term : UInt32} {key : Key}
    (hterm : keyring.termKey term = some key) (hkey : ValidKeySize key.value) {path : String}
    {pe : StorageEntry} (hb : s.backend path = some pe) {nonce plain : Bytes}
    (hn : nonce.length = gcmNonceSize)
    (hv : pe.value = sealedV2 rt.aead path term key.value nonce plain)
    (hraw : gcmNonceSize ≤ (rt.aead.sealText key.value nonce plain (aadOf path)).length) :
    (AESGCMBarrier.get rt path).run s = .ok (some ⟨path, plain, pe.sealWrap⟩) s := by
  have hlen : ¬ pe.value.length < 4 := by
    rw [hv]
    exact not_lt.mpr (sealedV2_length ..)
  have huint : uint32 pe.value = .ok term := by
    rw [hv, uint32_sealedV2]
  have hdec : decrypt rt path key.value pe.value = .ok plain := by
    rw [hv, decrypt_sealedV2 haead hn hraw]
  simp [AESGCMBarrier.get, lockSwitchedGet, hs, hb, hlen, huint, aeadForTerm, hk, hterm,
    aeadFromKey_of_valid hkey, hdec]

/-- `Put` on an unsealed barrier whose active term has a key stores the value sealed with
that key under the active term. -/
theorem put_run {s : AESGCMBarrier} (hs : s.sealed = false)
    (hv : s.currentAESGCMVersionByte = aesgcmVersion2) {keyring : Keyring}
    (hk : s.keyring = some keyring) {key : Key} (hterm : keyring.termKey keyring.activeTerm = some key)
    (hkey : ValidKeySize key.value) (entry : StorageEntry) :
    (AESGCMBarrier.put rt entry).run s = .ok ()
      { s with
        backend := Function.update s.backend entry.key
          (some ⟨entry.key, sealedV2 rt.aead entry.key keyring.activeTerm key.value
            (List.ofFn (s.nonces s.reads)) entry.value, entry.sealWrap⟩)
        reads := s.reads + 1 } := by
  simp [AESGCMBarrier.put, hs, requireKeyring, hk, aeadForTerm, hterm, aeadFromKey_of_valid hkey,
    putInternal, encrypt_run hv, backendPut]

/-- `Initialize` with no seal key, then `Unseal` with the same key, on a sealed barrier that
holds neither a keyring nor a sentinel: the keyring of term 1 is back in memory, and the
master key is stored sealed with the key of term 1. -/
theorem initialize_unseal_run (haead : rt.aead.Lawful) (hcodec : rt.codec.Lawful)
    (hoverhead : ∀ k n p a, ValidKeySize k → gcmNonceSize ≤ (rt.aead.sealText k n p a).length)
    (s : AESGCMBarrier) (hs : s.sealed = true) (hinit : s.initialized = false)
    (hv : s.currentAESGCMVersionByte = aesgcmVersion2) (hk : s.backend keyringPath = none)
    (hi : s.backend barrierInitPath = none) {key : Bytes} (hkey : ValidKeySize key)
    (random : Fin 32 → UInt8) :
    ∃ s₁, EStateM.run ( AESGCMBarrier.initialize rt key [] random) s = .ok () s₁ ∧
      (AESGCMBarrier.unseal rt key).run s₁ =
        .ok () { s₁ with keyring := some ⟨key, [⟨1, 1, List.ofFn random⟩], 1, defaultRotationConfig⟩, sealed := false } ∧
      s₁.currentAESGCMVersionByte = aesgcmVersion2 ∧
      s₁.backend masterKeyPath = some ⟨masterKeyPath, sealedV2 rt.aead masterKeyPath 1
        (List.ofFn random) (List.ofFn (s.nonces (s.reads + 1)))
        (rt.codec.encodeKey (some ⟨1, 1, key⟩)), false⟩ := by
  have hrandom : ValidKeySize (List.ofFn random) := by simp [ValidKeySize]
  have hv' : ({ s with initialized := false } : AESGCMBarrier).currentAESGCMVersionByte =
      aesgcmVersion2 := hv
  have hpaths : keyringPath ≠ masterKeyPath := by decide
  -- `Initialize` writes the keyring and the master key and leaves the barrier sealed
  obtain ⟨s₁, hrun, hs₁, hv₁, hb₁, hm₁⟩ : ∃ s₁,
      EStateM.run ( AESGCMBarrier.initialize rt key [] random) s = .ok () s₁ ∧
      s₁.sealed = true ∧ s₁.currentAESGCMVersionByte = aesgcmVersion2 ∧
      s₁.backend keyringPath = some ⟨keyringPath, sealedV2 rt.aead keyringPath initialKeyTerm key
        (List.ofFn (s.nonces s.reads))
        (Keyring.serialize rt.codec ⟨key, [⟨1, 1, List.ofFn random⟩], 1, defaultRotationConfig⟩), false⟩ ∧
      s₁.backend masterKeyPath = some ⟨masterKeyPath, sealedV2 rt.aead masterKeyPath 1
        (List.ofFn random) (List.ofFn (s.nonces (s.reads + 1)))
        (rt.codec.encodeKey (some ⟨1, 1, key⟩)), false⟩ :=
    ⟨_, (initialize_run hinit hk hi hkey random).trans (persistKeyring_run hv' rfl hkey hrandom),
      hs, hv, by simp [Function.update_of_ne hpaths], by simp⟩
  refine ⟨s₁, hrun, ?_, hv₁, hm₁⟩
  -- `Unseal` opens the keyring and decodes it
  rw [unseal_run haead hcodec hs₁ hkey List.length_ofFn hb₁ rfl (hoverhead _ _ _ _ hkey)]
  simp [Keyring.installKey, Keyring.newKeyring, -List.ofFn_succ]

/-- On an unsealed barrier whose active term has a key, `Put` returns, and `Get` of the
entry's path then returns the entry. -/
theorem put_get_run (rt : Runtime) (haead : rt.aead.Lawful)
    (hoverhead : ∀ k n p a, ValidKeySize k → gcmNonceSize ≤ (rt.aead.sealText k n p a).length)
    {s : AESGCMBarrier} (hs : s.sealed = false) (hv : s.currentAESGCMVersionByte = aesgcmVersion2)
    {keyring : Keyring} (hk : s.keyring = some keyring) {key : Key}
    (hterm : keyring.termKey keyring.activeTerm = some key) (hkey : ValidKeySize key.value)
    (entry : StorageEntry) :
    ∃ s', (AESGCMBarrier.put rt entry).run s = .ok () s' ∧
      (AESGCMBarrier.get rt entry.key).run s' = .ok (some entry) s' := by
  obtain ⟨s', hput, hs', hk', hb'⟩ : ∃ s', (AESGCMBarrier.put rt entry).run s = .ok () s' ∧
      s'.sealed = false ∧ s'.keyring = some keyring ∧
      s'.backend entry.key = some ⟨entry.key, sealedV2 rt.aead entry.key keyring.activeTerm
        key.value (List.ofFn (s.nonces s.reads)) entry.value, entry.sealWrap⟩ :=
    ⟨_, put_run hs hv hk hterm hkey entry, hs, hk, Function.update_self _ _ _⟩
  -- the value is sealed with the key of the active term, which `Get` reads back
  exact ⟨s', hput,
    get_run haead hs' hk' hterm hkey hb' List.length_ofFn rfl (hoverhead _ _ _ _ hkey)⟩

end Vault.Barrier
