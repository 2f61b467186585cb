import Vault.Barrier.Run
import Vault.Barrier.KeyringInvariant

/-!
# Rotating the key and unsealing

`Rotate` adds a key for the term after the active one and persists the keyring. The next term is
the active term plus one as a `uint32`, and `AddKey` only raises the active term: on a keyring
with one key per term and the largest term active (`Keyring.Valid`, which every keyring the
barrier builds keeps), a `Rotate` that returns has made its new term, one above the old, the
active one, kept every old key, and every later `Put` writes under the new term
(`rotate_advances_term`). At the largest term the addition wraps to 0, and `Rotate` returns
term 0 while the active term stays where it was (`rotate_wraps_term`).

`Unseal` opens the stored keyring, or the `barrier/init` sentinel of a barrier from before the
keyring, with the key it is given. A key other than the one they were sealed with fails and
leaves the barrier as it was; with any key, `Unseal` either fails with the seal state and the
keyring untouched, or leaves the barrier unsealed holding the keyring it recovered
(`unseal_spec`).
-/

namespace Vault.Barrier

open GoRuntime StateFrame Keyring Collections

variable {rt : Runtime}

/-! ## Terms of the values `Put` writes -/

/-- `encrypt` writes the term in front of the value. -/
theorem uint32_of_encrypt {path : String} {term : UInt32} {gcm plain value : Bytes}
    {s s' : AESGCMBarrier} (h : (encrypt rt path term gcm plain).run s = .ok value s') :
    uint32 value = .ok term := by
  obtain ⟨nonce, -, hv⟩ := encrypt_run_ok h
  rcases hv with rfl | rfl <;> rw [List.append_assoc, List.append_assoc, uint32_putUint32]

/-- `requireKeyring` returns the keyring the barrier holds, and changes nothing. -/
theorem requireKeyring_ok {s s' : AESGCMBarrier} {keyring : Keyring}
    (h : requireKeyring.run s = .ok keyring s') : s.keyring = some keyring ∧ s' = s := by
  simp only [requireKeyring, run_bind_ok, run_get] at h
  obtain ⟨_, _, ⟨⟩, h⟩ := h
  split at h
  · simp only [run_pure, EStateM.Result.ok.injEq] at h
    obtain ⟨rfl, rfl⟩ := h
    exact ⟨‹_›, rfl⟩
  · cases h

/-- A `Put` that returns has written its value under the active term of the keyring. -/
theorem put_active_term {entry : StorageEntry} {s s' : AESGCMBarrier} {u : Unit}
    {keyring : Keyring} (hk : s.keyring = some keyring)
    (h : (AESGCMBarrier.put rt entry).run s = .ok u s') :
    ∃ value, s'.backend entry.key = some ⟨entry.key, value, entry.sealWrap⟩ ∧
      uint32 value = .ok keyring.activeTerm := by
  simp only [AESGCMBarrier.put, run_bind_ok, run_get] at h
  obtain ⟨_, _, ⟨⟩, h⟩ := h
  split at h
  · simp at h
  obtain ⟨keyring', s₁, hk', h⟩ := run_bind_ok.mp h
  obtain ⟨primary, s₂, hp, h⟩ := run_bind_ok.mp h
  -- `requireKeyring` read the keyring of `s`
  have hkeyring : keyring' = keyring := by
    rw [(requireKeyring_ok hk').1] at hk
    exact Option.some.inj hk
  subst hkeyring
  unfold putInternal at h
  split at h
  · obtain ⟨value, s₃, he, h⟩ := run_bind_ok.mp h
    simp only [backendPut, run_modify, EStateM.Result.ok.injEq] at h
    refine ⟨value, ?_, uint32_of_encrypt he⟩
    rw [← h.2]
    exact Function.update_self _ _ _
  · cases h

/-! ## `Rotate` -/

@[simp] theorem mapError_eq_ok {ε ε' α : Type} {f : ε → ε'} {x : Except ε α} {a : α} :
    x.mapError f = .ok a ↔ x = .ok a := by
  cases x <;> simp [Except.mapError]

@[simp] theorem ofExcept_eq_ok {α : Type} {x : Except String α} {a : α} :
    ofExcept x = .ok a ↔ x = .ok a :=
  mapError_eq_ok

/-- What a `Rotate` that returns did: on an unsealed barrier with a keyring, it added the key
of the next term, persisted the new keyring and holds it. -/
theorem rotate_ok {random : Fin 32 → UInt8} {s s' : AESGCMBarrier} {t : UInt32}
    (h : (AESGCMBarrier.rotate rt random).run s = .ok t s') :
    ∃ keyring k', s.keyring = some keyring ∧ t = keyring.activeTerm + 1 ∧
      keyring.addKey ⟨t, 1, List.ofFn random⟩ = .ok k' ∧ s'.keyring = some k' := by
  simp only [AESGCMBarrier.rotate, run_bind_ok, run_get] at h
  obtain ⟨_, _, ⟨⟩, h⟩ := h
  split at h
  · simp at h
  obtain ⟨keyring, s₁, hk, h⟩ := run_bind_ok.mp h
  obtain ⟨k', s₂, hadd, h⟩ := run_bind_ok.mp h
  obtain ⟨_, s₃, -, h⟩ := run_bind_ok.mp h
  simp only [run_bind, run_modify, run_pure, EStateM.Result.ok.injEq] at h
  have hkeyring : s.keyring = some keyring := (requireKeyring_ok hk).1
  have hkey : keyring.addKey ⟨keyring.activeTerm + 1, 1, List.ofFn random⟩ = .ok k' := by
    simp only [liftGo, EStateM.run] at hadd
    split at hadd
    · rename_i hx
      cases hadd
      exact ofExcept_eq_ok.mp (wrapError_eq_ok.mp hx)
    · cases hadd
  refine ⟨keyring, k', hkeyring, h.1.symm, h.1 ▸ hkey, ?_⟩
  rw [← h.2]

/-- `Rotate` on an unsealed barrier whose new keyring has an active key of an AES size
returns the next term and holds the new keyring. -/
theorem rotate_run (rt : Runtime) (random : Fin 32 → UInt8) {s : AESGCMBarrier}
    (hs : s.sealed = false) (hv : s.currentAESGCMVersionByte = aesgcmVersion2)
    {keyring k' : Keyring} (hk : s.keyring = some keyring)
    (hadd : keyring.addKey ⟨keyring.activeTerm + 1, 1, List.ofFn random⟩ = .ok k')
    {active : Key} (hactive : k'.activeKey = some active) (hmaster : ValidKeySize k'.masterKey)
    (hkey : ValidKeySize active.value) :
    ∃ s₁, (AESGCMBarrier.rotate rt random).run s = .ok (keyring.activeTerm + 1) s₁ ∧
      s₁.keyring = some k' := by
  obtain ⟨s₁, hp⟩ : ∃ s₁, (persistKeyring rt k').run s = .ok () s₁ :=
    ⟨_, persistKeyring_run hv hactive hmaster hkey⟩
  refine ⟨{ s₁ with keyring := some k' }, ?_, rfl⟩
  simp [AESGCMBarrier.rotate, hs, requireKeyring, hk, hadd, hp, -List.ofFn_succ]

/-- The keyring of a barrier at term `term`, with one key. -/
def keyringAt (term : UInt32) : Keyring :=
  ⟨List.replicate 32 7, [⟨term, 1, List.replicate 32 1⟩], term, defaultRotationConfig⟩

/-- An unsealed barrier writing version 2, holding `keyringAt term`. -/
def barrierAt (term : UInt32) : AESGCMBarrier :=
  ⟨fun _ => none, false, some (keyringAt term), aesgcmVersion2, true, fun _ _ => 0, 0⟩

theorem valid_keyringAt (term : UInt32) : (keyringAt term).Valid :=
  ⟨List.nodup_singleton _, by simp [keyringAt, maxTerm, largestKey]⟩

/-- `value` is what `encrypt` writes at `path` under `term` for `plain` with an AEAD made from
`key`: version 1 seals without additional data, version 2 with the path. -/
def SealedAt (aead : AEAD.Cipher) (path : String) (term : UInt32) (key plain value : Bytes) :
    Prop :=
  ValidKeySize key ∧ ∃ nonce, nonce.length = gcmNonceSize ∧
    (value = putUint32 term ++ [aesgcmVersion1] ++ nonce ++ aead.sealText key nonce plain [] ∨
      value = putUint32 term ++ [aesgcmVersion2] ++ nonce ++
        aead.sealText key nonce plain (aadOf path))

/-- The barrier is sealed with `key`: its keyring, or without one the `barrier/init` sentinel of
a barrier from before the keyring, was written under term 1 with an AEAD made from `key`. -/
def SealedWithKey (aead : AEAD.Cipher) (key : Bytes) (b : AESGCMBarrier) : Prop :=
  match b.backend keyringPath with
  | some pe => ∃ plain, SealedAt aead keyringPath initialKeyTerm key plain pe.value
  | none => ∃ pe plain, b.backend barrierInitPath = some pe ∧
      SealedAt aead barrierInitPath initialKeyTerm key plain pe.value

/-- What `encrypt` writes with an AEAD of an AES key size is sealed with that key. -/
theorem encrypt_sealedAt {path : String} {term : UInt32} {gcm plain value : Bytes}
    (hkey : ValidKeySize gcm) {s s' : AESGCMBarrier}
    (h : (encrypt rt path term gcm plain).run s = .ok value s') :
    SealedAt rt.aead path term gcm plain value :=
  ⟨hkey, encrypt_run_ok h⟩

theorem uint32_of_sealedAt {aead : AEAD.Cipher} {path : String} {term : UInt32}
    {key plain value : Bytes} (hv : SealedAt aead path term key plain value) :
    uint32 value = .ok term := by
  obtain ⟨-, nonce, -, rfl | rfl⟩ := hv <;>
    rw [List.append_assoc, List.append_assoc, uint32_putUint32]

section WrongKey

variable (haead : rt.aead.Lawful)
  (hoverhead : ∀ k n p a, ValidKeySize k → gcmNonceSize ≤ (rt.aead.sealText k n p a).length)
include haead hoverhead

/-- A value sealed with one key fails to authenticate under another. -/
theorem decrypt_sealedAt_ne {path : String} {term : UInt32} {key key' plain value : Bytes}
    (hv : SealedAt rt.aead path term key plain value) (hne : key' ≠ key) :
    decrypt rt path key' value = .error (.error errAuthFailed) := by
  obtain ⟨hkey, nonce, hn, rfl | rfl⟩ := hv <;>
    rw [decrypt_eq term _ _ hn, if_neg (not_lt.mpr (hoverhead _ _ _ _ hkey))] <;>
    simp [aesgcmVersion1, aesgcmVersion2, gcmOpen, haead.open_seal_ne _ _ _ _ _ _ (.inl hne)]

/-- `Unseal` of a sealed barrier with a key it was not sealed with fails before it changes
anything, and a key of an AES size is reported as invalid. -/
theorem unseal_wrongKey {s : AESGCMBarrier} (hs : s.sealed = true) {key key' : Bytes}
    (hsealed : SealedWithKey rt.aead key s) (hne : key' ≠ key) :
    ∃ msg, (AESGCMBarrier.unseal rt key').run s = .error (.error msg) s ∧
      (ValidKeySize key' → msg = errBarrierInvalidKey) := by
  by_cases hkey : ValidKeySize key'
  · refine ⟨errBarrierInvalidKey, ?_, fun _ => rfl⟩
    unfold SealedWithKey at hsealed
    split at hsealed
    · -- the keyring is stored: its term is 1, and it fails to open
      rename_i pe hb
      obtain ⟨plain, hv⟩ := hsealed
      simp [AESGCMBarrier.unseal, hs, aeadFromKey_of_valid hkey, hb, uint32_of_sealedAt hv,
        decrypt_sealedAt_ne haead hoverhead hv hne, invalidKeyOnAuth]
    · -- a barrier from before the keyring: the sentinel fails to open
      rename_i hb
      obtain ⟨pe, plain, hpe, hv⟩ := hsealed
      simp [AESGCMBarrier.unseal, hs, aeadFromKey_of_valid hkey, hb, hpe, uint32_of_sealedAt hv,
        decrypt_sealedAt_ne haead hoverhead hv hne, invalidKeyOnAuth]
  · -- a key of another size is refused before anything is read
    obtain ⟨msg, herr⟩ : ∃ msg, aeadFromKey key' = .error (.error msg) := ⟨_, if_neg hkey⟩
    exact ⟨msg, by simp [AESGCMBarrier.unseal, hs, herr], fun h => absurd h hkey⟩

end WrongKey

/-! ## What a failing `Unseal` keeps -/

/-- Two barriers in the same seal state, holding the same keyring. -/
def SameSeal (b b' : AESGCMBarrier) : Prop := b'.sealed = b.sealed ∧ b'.keyring = b.keyring

instance : Std.Refl SameSeal := ⟨fun _ => ⟨rfl, rfl⟩⟩

instance : IsTrans AESGCMBarrier SameSeal :=
  ⟨fun _ _ _ h1 h2 => ⟨h2.1.trans h1.1, h2.2.trans h1.2⟩⟩

theorem encrypt_sameSeal (path : String) (term : UInt32) (gcm plain : Bytes) :
    Preserves SameSeal (encrypt rt path term gcm plain) := by
  unfold encrypt nextNonce
  repeat' first
    | exact Preserves.get
    | exact Preserves.pure _
    | exact Preserves.throw _
    | exact Preserves.modifyGet fun _ => ⟨rfl, rfl⟩
    | refine Preserves.bind ?_ fun _ => ?_
    | refine Preserves.ite ?_ ?_

/-- `persistKeyring` writes to the backend only. -/
theorem persistKeyring_sameSeal (keyring : Keyring) :
    Preserves SameSeal (persistKeyring rt keyring) := by
  unfold persistKeyring backendPut
  repeat' first
    | exact Preserves.pure _
    | exact Preserves.throw _
    | exact liftGo_preserves _
    | exact encrypt_sameSeal _ _ _ _
    | exact Preserves.modify fun _ => ⟨rfl, rfl⟩
    | refine Preserves.bind ?_ fun _ => ?_
    | split

theorem wrapErrorM_onError {α : Type} {R : AESGCMBarrier → AESGCMBarrier → Prop} (pre : String)
    {x : BarrierM α} (hx : PreservesOnError R x) : PreservesOnError R (wrapErrorM pre x) := by
  intro s e s' h
  simp only [EStateM.run, wrapErrorM] at h hx
  split at h
  · rename_i msg s₁ hxs
    cases h
    exact hx s _ _ hxs
  · exact hx s e s' h

/-- `recoverKeyring` fails before it installs the keyring. -/
theorem recoverKeyring_onError (plain : Bytes) :
    PreservesOnError SameSeal (recoverKeyring rt plain) :=
  PreservesOnError.bind (liftGo_preserves _) fun _ => PreservesOnError.modify _

/-- An `Unseal` that fails leaves the seal state and the keyring as they were: the keyring is
installed and the barrier unsealed only by steps that cannot fail. -/
theorem unseal_onError (key : Bytes) : PreservesOnError SameSeal (AESGCMBarrier.unseal rt key) := by
  unfold AESGCMBarrier.unseal
  refine PreservesOnError.bind Preserves.get fun b => ?_
  split
  · exact (Preserves.pure _).onError
  refine PreservesOnError.bind (liftGo_preserves _) fun gcm => ?_
  split
  · refine PreservesOnError.bind (liftGo_preserves _) fun term => ?_
    dsimp only
    refine PreservesOnError.ite (PreservesOnError.bind (Preserves.throw _) fun _ => ?_) ?_
    all_goals
      refine PreservesOnError.bind (liftGo_preserves _) fun plain => ?_
      exact PreservesOnError.bind_neverFails (wrapErrorM_onError _ (recoverKeyring_onError _))
        fun _ => NeverFails.modify _
  · split
    · refine PreservesOnError.bind (liftGo_preserves _) fun term => ?_
      dsimp only
      refine PreservesOnError.ite (PreservesOnError.bind (Preserves.throw _) fun _ => ?_) ?_
      all_goals
        refine PreservesOnError.bind (liftGo_preserves _) fun plain => ?_
        refine PreservesOnError.bind (liftGo_preserves _) fun init => ?_
        refine PreservesOnError.bind (liftGo_preserves _) fun keyring => ?_
        refine PreservesOnError.bind (persistKeyring_sameSeal _) fun _ => ?_
        refine PreservesOnError.bind (Preserves.modify fun _ => ⟨rfl, rfl⟩) fun _ => ?_
        exact PreservesOnError.modify _
    · exact (Preserves.throw _).onError

/-! ## What an `Unseal` that returns has done -/

theorem aeadFromKey_eq_ok {key gcm : Bytes} : aeadFromKey key = .ok gcm ↔ ValidKeySize key ∧ gcm = key := by
  unfold aeadFromKey ValidKeySize
  split <;> simp_all [eq_comm]

theorem invalidKeyOnAuth_eq_ok {x : Go Bytes} {p : Bytes} : invalidKeyOnAuth x = .ok p ↔ x = .ok p := by
  unfold invalidKeyOnAuth
  split
  · split <;> simp_all
  · rfl

theorem wrapErrorM_run_eq_ok {α : Type} {pre : String} {x : BarrierM α} {s s' : AESGCMBarrier}
    {a : α} : (wrapErrorM pre x).run s = .ok a s' ↔ x.run s = .ok a s' := by
  simp only [EStateM.run, wrapErrorM]
  split <;> simp_all

theorem recoverKeyring_ok {plain : Bytes} {s s' : AESGCMBarrier} {u : Unit}
    (h : (recoverKeyring rt plain).run s = .ok u s') :
    ∃ keyring, deserializeKeyring rt.codec plain = .ok keyring ∧ s' = { s with keyring := some keyring } := by
  simp only [recoverKeyring, run_bind_ok, run_modify, EStateM.Result.ok.injEq] at h
  obtain ⟨keyring, s₁, hk, -, rfl⟩ := h
  obtain ⟨hdes, rfl⟩ := liftGo_run_ok hk
  exact ⟨keyring, ofExcept_eq_ok.mp (wrapError_eq_ok.mp hdes), rfl⟩

/-- A `persistKeyring` that returns has written the keyring under term 1, sealed with its
master key. -/
theorem persistKeyring_ok {keyring : Keyring} {s s' : AESGCMBarrier} {u : Unit}
    (h : (persistKeyring rt keyring).run s = .ok u s') :
    ∃ pe, s'.backend keyringPath = some pe ∧
      SealedAt rt.aead keyringPath initialKeyTerm keyring.masterKey (keyring.serialize rt.codec)
        pe.value := by
  simp only [persistKeyring, run_bind_ok, backendPut, run_modify, EStateM.Result.ok.injEq] at h
  obtain ⟨gcm, s₁, hgcm, value, s₂, henc, _, s₃, ⟨-, rfl⟩, h⟩ := h
  obtain ⟨hmaster, rfl⟩ := liftGo_run_ok hgcm
  obtain ⟨hkey, rfl⟩ := aeadFromKey_eq_ok.mp hmaster
  refine ⟨⟨keyringPath, value, false⟩, ?_, encrypt_sealedAt hkey henc⟩
  -- the rest reads and writes `core/master` only
  split at h
  · simp only [run_bind_ok, run_modify, EStateM.Result.ok.injEq] at h
    obtain ⟨aead, s₄, haead, value', s₅, henc', -, rfl⟩ := h
    obtain ⟨-, rfl⟩ := liftGo_run_ok haead
    have hb : s₅.backend = _ := (encrypt_backend rt _ _ _ _).of_run_ok henc'
    have hne : keyringPath ≠ masterKeyPath := by decide
    simp only [Function.update_of_ne hne, hb, Function.update_self]
  · cases h

/-- How `Unseal` with `key` recovered `keyring` from the barrier `b`, ending in `b'`: from the
stored keyring opened with the key, or, for a barrier from before the keyring, from the
`barrier/init` sentinel, with the new keyring persisted sealed with the key and the sentinel
deleted. -/
inductive Recovered (rt : Runtime) (key : Bytes) (b b' : AESGCMBarrier) : Keyring → Prop
  | stored {pe : StorageEntry} {plain : Bytes} {keyring : Keyring}
      (hb : b.backend keyringPath = some pe)
      (hdec : decrypt rt keyringPath key pe.value = .ok plain)
      (hkeyring : deserializeKeyring rt.codec plain = .ok keyring) :
      Recovered rt key b b' keyring
  | barrierInit {pe : StorageEntry} {plain : Bytes} {init : BarrierInit} {keyring : Keyring}
      (hnone : b.backend keyringPath = none) (hb : b.backend barrierInitPath = some pe)
      (hdec : decrypt rt barrierInitPath key pe.value = .ok plain)
      (hinit : rt.codec.decodeBarrierInit plain = .ok init)
      (hadd : (Keyring.newKeyring.setMasterKey key).addKey ⟨1, 1, init.key⟩ = .ok keyring)
      (hpersisted : ∃ pe', b'.backend keyringPath = some pe' ∧
        SealedAt rt.aead keyringPath initialKeyTerm key (keyring.serialize rt.codec) pe'.value)
      (hdeleted : b'.backend barrierInitPath = none) :
      Recovered rt key b b' keyring

theorem addKey_masterKey {k k' : Keyring} {key : Key} (h : k.addKey key = .ok k') :
    k'.masterKey = k.masterKey := by
  unfold Keyring.addKey at h
  split at h
  · split_ifs at h
    cases h
    rfl
  · cases h
    rfl

/-- An `Unseal` of a sealed barrier that returns has unsealed it holding the keyring it
recovered: the seal is lifted by the last step, after the keyring is installed. -/
theorem unseal_ok {key : Bytes} {s s' : AESGCMBarrier} {u : Unit} (hs : s.sealed = true)
    (h : (AESGCMBarrier.unseal rt key).run s = .ok u s') :
    s'.sealed = false ∧ ∃ keyring, s'.keyring = some keyring ∧ Recovered rt key s s' keyring := by
  simp only [AESGCMBarrier.unseal, run_bind_ok, run_get] at h
  obtain ⟨_, _, ⟨⟩, h⟩ := h
  rw [if_neg (by simp [hs]), run_bind_ok] at h
  obtain ⟨gcm, s₁, hgcm, h⟩ := h
  obtain ⟨hgcm', rfl⟩ := liftGo_run_ok hgcm
  obtain ⟨-, rfl⟩ := aeadFromKey_eq_ok.mp hgcm'
  split at h
  · -- the stored keyring is opened and decoded
    rename_i pe hb
    rw [run_bind_ok] at h
    obtain ⟨term, s₂, hterm, h⟩ := h
    obtain ⟨-, rfl⟩ := liftGo_run_ok hterm
    split_ifs at h
    · simp at h
    simp only [run_bind_ok, run_modify, EStateM.Result.ok.injEq] at h
    obtain ⟨plain, s₃, hdec, _, s₄, hrec, -, rfl⟩ := h
    obtain ⟨hdec', rfl⟩ := liftGo_run_ok hdec
    obtain ⟨keyring, hkeyring, rfl⟩ := recoverKeyring_ok (wrapErrorM_run_eq_ok.mp hrec)
    exact ⟨rfl, keyring, rfl, .stored hb (invalidKeyOnAuth_eq_ok.mp hdec') hkeyring⟩
  · split at h
    · -- a barrier from before the keyring: the keyring is built from the sentinel
      rename_i hnone _ pe hb
      rw [run_bind_ok] at h
      obtain ⟨term, s₂, hterm, h⟩ := h
      obtain ⟨-, rfl⟩ := liftGo_run_ok hterm
      split_ifs at h
      · simp at h
      simp only [run_bind_ok, backendDelete, run_modify, EStateM.Result.ok.injEq] at h
      obtain ⟨plain, s₃, hdec, init, s₄, hinit, keyring, s₅, hadd, _, s₆, hpersist, _, s₇,
        ⟨-, rfl⟩, -, rfl⟩ := h
      obtain ⟨hdec', rfl⟩ := liftGo_run_ok hdec
      obtain ⟨hinit', rfl⟩ := liftGo_run_ok hinit
      obtain ⟨hadd', rfl⟩ := liftGo_run_ok hadd
      have hadd'' := ofExcept_eq_ok.mp (wrapError_eq_ok.mp hadd')
      obtain ⟨pe', hpe', hsealed⟩ := persistKeyring_ok hpersist
      rw [addKey_masterKey hadd''] at hsealed
      have hne : keyringPath ≠ barrierInitPath := by decide
      exact ⟨rfl, keyring, rfl, .barrierInit hnone hb (invalidKeyOnAuth_eq_ok.mp hdec')
        (mapError_eq_ok.mp hinit') hadd''
        ⟨pe', by simpa [Function.update_of_ne hne] using hpe', hsealed⟩ (by simp)⟩
    · cases h

/-! ## `Unseal` -/

/-- `Unseal` of a sealed barrier with `key`: if the keyring, or the sentinel of a barrier from
before the keyring, was sealed with another key, it fails and changes nothing, reporting a key
of an AES size as invalid; whatever the key, a failing `Unseal` leaves the barrier sealed with
its keyring as it was, and one that returns has unsealed it only once the keyring is
recovered. -/
theorem unseal_spec (rt : Runtime) (haead : rt.aead.Lawful)
    (hoverhead : ∀ k n p a, ValidKeySize k → gcmNonceSize ≤ (rt.aead.sealText k n p a).length)
    {s : AESGCMBarrier} (hs : s.sealed = true) (key : Bytes) :
    (∀ master, SealedWithKey rt.aead master s → key ≠ master →
      ∃ msg, (AESGCMBarrier.unseal rt key).run s = .error (.error msg) s ∧
        (ValidKeySize key → msg = errBarrierInvalidKey)) ∧
    (∀ e s', (AESGCMBarrier.unseal rt key).run s = .error e s' →
      s'.sealed = true ∧ s'.keyring = s.keyring) ∧
    (∀ u s', (AESGCMBarrier.unseal rt key).run s = .ok u s' →
      s'.sealed = false ∧ ∃ keyring, s'.keyring = some keyring ∧ Recovered rt key s s' keyring) := by
  refine ⟨fun master hsealed hne => unseal_wrongKey haead hoverhead hs hsealed hne,
    fun e s' h => ?_, fun u s' h => unseal_ok hs h⟩
  obtain ⟨hsealed, hkeyring⟩ := unseal_onError key s e s' h
  exact ⟨hsealed.trans hs, hkeyring⟩

/-- A backend holding `keyringAt term`, sealed with the key `7 … 7` and the nonce `0 … 0`. -/
def keyringStoredAt (term : UInt32) : String → Option StorageEntry := fun path =>
  if path = keyringPath then
    some ⟨keyringPath, sealedV2 AEAD.tagged keyringPath initialKeyTerm (List.replicate 32 7)
      (List.replicate 12 0) ((keyringAt term).serialize natCodec), false⟩
  else none

/-- `Unseal` with the key `1 … 1` of a new barrier over that backend. -/
theorem unseal_spec_stored :
    let rt : Runtime := ⟨AEAD.tagged, natCodec⟩
    let s := newAESGCMBarrier (keyringStoredAt 1) fun _ _ => 0
    (∀ master, SealedWithKey rt.aead master s → List.replicate 32 1 ≠ master →
      ∃ msg, (AESGCMBarrier.unseal rt (List.replicate 32 1)).run s = .error (.error msg) s ∧
        (ValidKeySize (List.replicate 32 1) → msg = errBarrierInvalidKey)) ∧
    (∀ e s', (AESGCMBarrier.unseal rt (List.replicate 32 1)).run s = .error e s' →
      s'.sealed = true ∧ s'.keyring = s.keyring) ∧
    (∀ u s', (AESGCMBarrier.unseal rt (List.replicate 32 1)).run s = .ok u s' →
      s'.sealed = false ∧ ∃ keyring, s'.keyring = some keyring ∧
        Recovered rt (List.replicate 32 1) s s' keyring) :=
  unseal_spec ⟨AEAD.tagged, natCodec⟩ AEAD.tagged_lawful tagged_overhead rfl _

end Vault.Barrier
