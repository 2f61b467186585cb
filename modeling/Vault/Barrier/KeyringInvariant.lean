import Vault.Barrier.Keyring
import Vault.Lib.Collections

/-!
# The keyring's invariant, and its serialisation round trip

A keyring holds one key per term, and its active term is the largest term it holds, 0 while it
holds none (`Keyring.Valid`). `NewKeyring` starts there, and `SetMasterKey`, `AddKey` and
`RemoveKey` keep it whenever they return a keyring (`Keyring.Valid.exec`): `AddKey` only
raises the active term, and `RemoveKey` refuses the active term alone, which is what keeps the
largest term in place. So every keyring a run of such calls builds has it
(`valid_runKeyringOps`).

`DeserializeKeyring` rebuilds the active term as the largest term of the stored list, in
whatever order the map was serialized. For a keyring with the invariant that is its own active
term, and every term maps to the key it had (`deserializeKeyring_serialize`).
-/

namespace Vault.Barrier

open Collections

namespace Keyring

/-- The largest term present, as a number; 0 with no keys. -/
def maxTerm (keys : List Key) : ℕ := largestKey (fun key : Key => key.term.toNat) keys

/-- The keyring's invariant: one key per term, and the active term is the largest present. -/
structure Valid (k : Keyring) : Prop where
  terms_nodup : (k.keys.map Key.term).Nodup
  active_eq_max : k.activeTerm.toNat = maxTerm k.keys

/-- The active term as `AddKey` and `DeserializeKeyring` raise it. -/
theorem toNat_raise (a b : UInt32) : (if a > b then a else b).toNat = max a.toNat b.toNat := by
  split
  · have hlt : b.toNat < a.toNat := UInt32.lt_iff_toNat_lt.mp ‹_›
    omega
  · have hge : ¬b.toNat < a.toNat := fun h => ‹¬a > b› (UInt32.lt_iff_toNat_lt.mpr h)
    omega

theorem termKey_eq_some_iff {k : Keyring} (hnd : (k.keys.map Key.term).Nodup) (term : UInt32)
    (key : Key) : k.termKey term = some key ↔ key ∈ k.keys ∧ key.term = term :=
  find?_eq_some_iff_of_nodup Key.term hnd term key

theorem termKey_eq_none_iff {k : Keyring} {term : UInt32} :
    k.termKey term = none ↔ ∀ key ∈ k.keys, key.term ≠ term := by
  simp [termKey]

/-- The key of the largest term is the active key. -/
theorem Valid.exists_active {k : Keyring} (hv : k.Valid) (hne : k.keys ≠ []) :
    ∃ m ∈ k.keys, m.term = k.activeTerm := by
  obtain ⟨m, hm, hmax⟩ := exists_key_eq_largestKey (fun key : Key => key.term.toNat) hne
  exact ⟨m, hm, UInt32.toNat_inj.mp (hmax.trans hv.active_eq_max.symm)⟩

/-- With the invariant, a keyring that holds keys has an active key. -/
theorem Valid.activeKey_isSome {k : Keyring} (hv : k.Valid) (hne : k.keys ≠ []) :
    k.activeKey.isSome := by
  obtain ⟨m, hm, hterm⟩ := hv.exists_active hne
  rw [activeKey, (termKey_eq_some_iff hv.terms_nodup _ m).mpr ⟨hm, hterm⟩]
  rfl

/-! ## The calls keep the invariant -/

theorem valid_newKeyring : newKeyring.Valid := ⟨List.nodup_nil, rfl⟩

theorem Valid.setMasterKey {k : Keyring} (hv : k.Valid) (val : Bytes) :
    (k.setMasterKey val).Valid :=
  ⟨hv.terms_nodup, hv.active_eq_max⟩

theorem Valid.addKey {k k' : Keyring} (hv : k.Valid) {key : Key} (h : k.addKey key = .ok k') :
    k'.Valid := by
  unfold Keyring.addKey at h
  split at h
  · -- the term is present: the same key again leaves the keyring as it was
    split at h
    · cases h
      exact hv
    · cases h
  · -- a new term joins the keys, and becomes active if it is the largest
    rename_i hnone
    cases h
    have hfresh : key.term ∉ k.keys.map Key.term := by
      simpa using termKey_eq_none_iff.mp hnone
    refine ⟨List.nodup_cons.mpr ⟨hfresh, hv.terms_nodup⟩, ?_⟩
    rw [toNat_raise, hv.active_eq_max]
    rfl

theorem Valid.removeKey {k k' : Keyring} (hv : k.Valid) {term : UInt32}
    (h : k.removeKey term = .ok k') : k'.Valid := by
  unfold Keyring.removeKey at h
  split at h
  · cases h
  · rename_i hactive
    split at h
    · cases h
      exact hv
    · rename_i key hkey
      cases h
      -- the active key is not the one removed, so the largest term stays
      have hne : k.keys ≠ [] :=
        List.ne_nil_of_mem ((termKey_eq_some_iff hv.terms_nodup _ _).mp hkey).1
      obtain ⟨m, hm, hmax⟩ := exists_key_eq_largestKey (fun key : Key => key.term.toNat) hne
      have hm_active : m.term = k.activeTerm :=
        UInt32.toNat_inj.mp (hmax.trans hv.active_eq_max.symm)
      have hkeep : (m.term != term) = true := by
        simpa [hm_active] using Ne.symm hactive
      refine ⟨hv.terms_nodup.sublist (List.filter_sublist.map _), ?_⟩
      show k.activeTerm.toNat = maxTerm (k.keys.filter fun key => key.term != term)
      rw [hv.active_eq_max]
      exact (largestKey_filter _ _ hm hkeep hmax).symm

end Keyring

open Keyring

/-! ## Runs of keyring calls -/

/-- The calls that change a keyring. -/
inductive KeyringOp where
  | setMasterKey (val : Bytes)
  | addKey (key : Key)
  | removeKey (term : UInt32)
deriving DecidableEq, Repr

/-- One call on a keyring; `SetMasterKey` always returns. -/
def KeyringOp.exec (k : Keyring) : KeyringOp → Except String Keyring
  | .setMasterKey val => .ok (k.setMasterKey val)
  | .addKey key => k.addKey key
  | .removeKey term => k.removeKey term

/-- A run of calls from `NewKeyring`, each made on the keyring the last returned; it fails as
soon as one call does. -/
def runKeyringOps (ops : List KeyringOp) : Except String Keyring :=
  ops.foldlM KeyringOp.exec newKeyring

theorem Keyring.Valid.exec {k k' : Keyring} (hv : k.Valid) {op : KeyringOp}
    (h : op.exec k = .ok k') : k'.Valid := by
  cases op with
  | setMasterKey val =>
    cases h
    exact hv.setMasterKey val
  | addKey key => exact hv.addKey h
  | removeKey term => exact hv.removeKey h

/-- Every keyring a run of calls returns has the invariant. -/
theorem valid_runKeyringOps {ops : List KeyringOp} {k : Keyring} (h : runKeyringOps ops = .ok k) :
    k.Valid := by
  have hsat : SatisfiesM Keyring.Valid (ops.foldlM KeyringOp.exec newKeyring) :=
    List.satisfiesM_foldlM valid_newKeyring fun _ hv _ _ =>
      SatisfiesM_Except_eq.mpr fun _ h' => hv.exec h'
  exact SatisfiesM_Except_eq.mp hsat k h

/-! ## Deserialization -/

namespace Keyring

theorem termKey_installKey (k : Keyring) (key : Key) (term : UInt32) :
    (k.installKey key).termKey term = if key.term = term then some key else k.termKey term := by
  by_cases h : key.term = term
  · simp [installKey, termKey, h]
  · -- the keys of other terms are searched as before
    have hb : (key.term == term) = false := by simpa using h
    simp only [installKey, termKey, List.find?_cons, hb, List.find?_filter, if_neg h]
    congr 1
    funext other
    by_cases ho : other.term = term
    · simp [ho, Ne.symm h]
    · simp [ho]

theorem activeTerm_foldl_installKey (keys : List Key) (k : Keyring) :
    (keys.foldl installKey k).activeTerm.toNat = max (maxTerm keys) k.activeTerm.toNat := by
  induction keys generalizing k with
  | nil => simp [maxTerm]
  | cons key keys ih =>
    rw [List.foldl_cons, ih, installKey, toNat_raise]
    simp only [maxTerm, largestKey_cons]
    omega

theorem masterKey_foldl_installKey (keys : List Key) (k : Keyring) :
    (keys.foldl installKey k).masterKey = k.masterKey := by
  induction keys generalizing k with
  | nil => rfl
  | cons key keys ih => exact ih _

theorem rotationConfig_foldl_installKey (keys : List Key) (k : Keyring) :
    (keys.foldl installKey k).rotationConfig = k.rotationConfig := by
  induction keys generalizing k with
  | nil => rfl
  | cons key keys ih => exact ih _

/-- Installing keys of distinct terms into a keyring without `term`: the key of `term` is the
one installed with it. -/
theorem termKey_foldl_installKey_eq_some_iff {keys : List Key} (hnd : (keys.map Key.term).Nodup)
    {k : Keyring} {term : UInt32} (hk : k.termKey term = none) (key : Key) :
    (keys.foldl installKey k).termKey term = some key ↔ key ∈ keys ∧ key.term = term :=
  lookup_foldl_replace_eq_some_iff termKey installKey Key.term termKey_installKey hnd hk key

/-- `DeserializeKeyring` of what `Serialize` wrote, with the keys in any order the map gives
them: the same master key, the same key under each term, the same active term, and the
rotation config sanitized. -/
theorem deserializeKeyring_serialize {codec : Codec} (hcodec : codec.Lawful) {k : Keyring}
    (hv : k.Valid) {ks : List Key} (hks : ks.Perm k.keys) :
    ∃ k', deserializeKeyring codec (serialize codec { k with keys := ks }) = .ok k' ∧
      k'.masterKey = k.masterKey ∧ (∀ term, k'.termKey term = k.termKey term) ∧
      k'.activeTerm = k.activeTerm ∧ k'.rotationConfig = k.rotationConfig.sanitize := by
  have hnd : (ks.map Key.term).Nodup := (hks.map Key.term).nodup_iff.mpr hv.terms_nodup
  refine ⟨ks.foldl installKey
      { newKeyring with masterKey := k.masterKey, rotationConfig := k.rotationConfig.sanitize },
    by simp [deserializeKeyring, serialize, hcodec.decodeKeyring_encode],
    masterKey_foldl_installKey ks _, ?_, ?_, rotationConfig_foldl_installKey ks _⟩
  · -- both keyrings hold, under each term, the one key of that term
    intro term
    apply Option.ext
    intro key
    rw [termKey_foldl_installKey_eq_some_iff hnd rfl key, termKey_eq_some_iff hv.terms_nodup,
      hks.mem_iff]
  · -- the largest term of the stored list, in any order, is the active term
    have hmax : maxTerm ks = maxTerm k.keys := largestKey_congr _ fun _ => hks.mem_iff
    apply UInt32.toNat_inj.mp
    rw [activeTerm_foldl_installKey, hmax, hv.active_eq_max]
    simp [newKeyring]

end Keyring

/-- Every keyring built from `NewKeyring` by calls that returned has as active term the largest
term it holds (0 with none), and an active key once it holds keys; serialized with its keys in
any order and deserialized, it gives back its master key, its key under each term and its
active term, with the rotation config sanitized. -/
theorem runKeyringOps_valid_roundtrip {codec : Codec} (hcodec : codec.Lawful)
    {ops : List KeyringOp} {k : Keyring} (hrun : runKeyringOps ops = .ok k) :
    k.activeTerm.toNat = maxTerm k.keys ∧ (k.keys ≠ [] → k.activeKey.isSome) ∧
      ∀ ks : List Key, ks.Perm k.keys →
        ∃ k', deserializeKeyring codec (serialize codec { k with keys := ks }) = .ok k' ∧
          k'.masterKey = k.masterKey ∧ (∀ term, k'.termKey term = k.termKey term) ∧
          k'.activeTerm = k.activeTerm ∧ k'.rotationConfig = k.rotationConfig.sanitize := by
  have hv := valid_runKeyringOps hrun
  exact ⟨hv.active_eq_max, hv.activeKey_isSome,
    fun _ hks => deserializeKeyring_serialize hcodec hv hks⟩

/-- Two keys added, the first removed again: term 2 is active, and the keyring survives the
trip through `natCodec`. -/
theorem runKeyringOps_valid_roundtrip_rotated :
    runKeyringOps [.setMasterKey (List.replicate 32 1), .addKey ⟨1, 1, List.replicate 32 2⟩,
        .addKey ⟨2, 1, List.replicate 32 3⟩, .removeKey 1] =
      .ok ⟨List.replicate 32 1, [⟨2, 1, List.replicate 32 3⟩], 2, defaultRotationConfig⟩ ∧
    (2 : UInt32).toNat = maxTerm [⟨2, 1, List.replicate 32 3⟩] ∧
      ([⟨2, 1, List.replicate 32 3⟩] ≠ ([] : List Key) →
        (Keyring.activeKey
          ⟨List.replicate 32 1, [⟨2, 1, List.replicate 32 3⟩], 2, defaultRotationConfig⟩).isSome) ∧
      ∀ ks : List Key, ks.Perm [⟨2, 1, List.replicate 32 3⟩] →
        ∃ k', deserializeKeyring natCodec (serialize natCodec
            ⟨List.replicate 32 1, ks, 2, defaultRotationConfig⟩) = .ok k' ∧
          k'.masterKey = List.replicate 32 1 ∧
          (∀ term, k'.termKey term = Keyring.termKey
            ⟨List.replicate 32 1, [⟨2, 1, List.replicate 32 3⟩], 2, defaultRotationConfig⟩ term) ∧
          k'.activeTerm = 2 ∧ k'.rotationConfig = defaultRotationConfig.sanitize :=
  ⟨rfl, @runKeyringOps_valid_roundtrip natCodec natCodec_lawful
    [.setMasterKey (List.replicate 32 1), .addKey ⟨1, 1, List.replicate 32 2⟩,
      .addKey ⟨2, 1, List.replicate 32 3⟩, .removeKey 1]
    ⟨List.replicate 32 1, [⟨2, 1, List.replicate 32 3⟩], 2, defaultRotationConfig⟩ rfl⟩

end Vault.Barrier
