import Vault.Barrier.Storage

/-!
# Runs of barrier calls

A client calls the barrier over and over; `runOps` runs a list of calls from a barrier and,
beside it, the key-value store the barrier should act as: a `Put` that returns writes the
value, a `Delete` that returns removes the key. Every path the barrier does not write on its
own account holds a sealing of the store's value there (`Holds`), from an empty backend and
after every call (`holds_stepOp`), so a `Get` of such a path that returns gives the store's
value (`get_returns_last_put`).

The barrier's own paths are left out for a reason: after `Initialize` and `Unseal`, `Get` of
`core/master` returns the encoded master key, though no `Put` wrote it.
-/

namespace Vault.Barrier

open GoRuntime StateFrame

variable {rt : Runtime}

/-! ## Runs of barrier calls -/

/-- The calls a client makes on the barrier (`Initialize`, `Unseal` and `Seal` under names
that are not Lean keywords). -/
inductive BarrierOp where
  | initBarrier (key sealKey : Bytes) (random : Fin 32 → UInt8)
  | unsealBarrier (key : Bytes)
  | sealBarrier
  | put (entry : StorageEntry)
  | get (key : String)
  | delete (key : String)
  | rotate (random : Fin 32 → UInt8)
  | rekey (key : Bytes)
  | createUpgrade (term : UInt32)
  | checkUpgrade
  | reloadKeyring
  | reloadMasterKey

/-- A call, its result dropped. -/
def BarrierOp.exec (rt : Runtime) : BarrierOp → BarrierM Unit
  | .initBarrier key sealKey random => AESGCMBarrier.initialize rt key sealKey random
  | .unsealBarrier key => AESGCMBarrier.unseal rt key
  | .sealBarrier => AESGCMBarrier.seal
  | .put entry => AESGCMBarrier.put rt entry
  | .get key => do let _ ← AESGCMBarrier.get rt key
  | .delete key => AESGCMBarrier.delete key
  | .rotate random => do let _ ← AESGCMBarrier.rotate rt random
  | .rekey key => AESGCMBarrier.rekey rt key
  | .createUpgrade term => AESGCMBarrier.createUpgrade rt term
  | .checkUpgrade => do let _ ← AESGCMBarrier.checkUpgrade rt
  | .reloadKeyring => AESGCMBarrier.reloadKeyring rt
  | .reloadMasterKey => AESGCMBarrier.reloadMasterKey rt

/-- What a call that returns does to a key-value store: `Put` writes the value, `Delete`
removes the key, every other call leaves the store alone. -/
def BarrierOp.expect : BarrierOp → (String → Option Bytes) → String → Option Bytes
  | .put entry, m => Function.update m entry.key (some entry.value)
  | .delete key, m => Function.update m key none
  | _, m => m

/-- One call on the barrier, beside the key-value store it should act as; a call that fails
leaves the store alone. -/
def stepOp (rt : Runtime) (bm : AESGCMBarrier × (String → Option Bytes)) (op : BarrierOp) :
    AESGCMBarrier × (String → Option Bytes) :=
  match (op.exec rt).run bm.1 with
  | .ok _ b => (b, op.expect bm.2)
  | .error _ b => (b, bm.2)

/-- A run of calls from a barrier, beside the store, empty at the start. -/
def runOps (rt : Runtime) (b : AESGCMBarrier) (ops : List BarrierOp) :
    AESGCMBarrier × (String → Option Bytes) :=
  ops.foldl (stepOp rt) (b, fun _ => none)

/-! ## Every unreserved path holds a sealing of the store's value -/

/-- What a path holds against the store's value there: nothing for nothing, a sealing of
the value for a value. -/
def StoredAs (aead : AEAD.Cipher) (path : String) : Option StorageEntry → Option Bytes → Prop
  | none, none => True
  | some pe, some v => SealedFor aead path v pe.value
  | _, _ => False

/-- Every unreserved path of the barrier holds what the store says. -/
def Holds (aead : AEAD.Cipher) (b : AESGCMBarrier) (m : String → Option Bytes) : Prop :=
  ∀ key, reserved key = false → StoredAs aead key (b.backend key) (m key)

section Holds

variable {aead : AEAD.Cipher} {b b' : AESGCMBarrier} {m : String → Option Bytes}

theorem Holds.of_sameUserEntries (h : Holds aead b m) (hs : SameUserEntries b b') :
    Holds aead b' m := by
  intro key hkey
  rw [hs key hkey]
  exact h key hkey

/-- Writing `x` at one path and `v` into the store there keeps the invariant when `x` holds
`v`. -/
theorem Holds.update (h : Holds aead b m) {key : String} {x : Option StorageEntry}
    {v : Option Bytes} (hb : b'.backend = Function.update b.backend key x)
    (hst : StoredAs aead key x v) : Holds aead b' (Function.update m key v) := by
  intro k hk
  rw [hb]
  by_cases hkey : k = key
  · subst hkey
    simpa using hst
  · simpa [Function.update_of_ne hkey] using h k hk

theorem holds_empty (b : AESGCMBarrier) (hb : b.backend = fun _ => none) :
    Holds aead b fun _ => none := by
  intro key _
  rw [hb]
  trivial

end Holds

/-- A call other than `Put` and `Delete` keeps the invariant: it keeps the unreserved paths
and the store. -/
theorem holds_stepOp_of_frame (op : BarrierOp) (hframe : Preserves SameUserEntries (op.exec rt))
    (hm : ∀ m, op.expect m = m) {b : AESGCMBarrier} {m : String → Option Bytes}
    (h : Holds rt.aead b m) : Holds rt.aead (stepOp rt (b, m) op).1 (stepOp rt (b, m) op).2 := by
  unfold stepOp
  have hs := hframe b
  split
  · rename_i b' hrun
    rw [hrun] at hs
    rw [hm]
    exact h.of_sameUserEntries hs
  · rename_i b' hrun
    rw [hrun] at hs
    exact h.of_sameUserEntries hs

theorem holds_stepOp {b : AESGCMBarrier} {m : String → Option Bytes} (h : Holds rt.aead b m)
    (op : BarrierOp) : Holds rt.aead (stepOp rt (b, m) op).1 (stepOp rt (b, m) op).2 := by
  cases op with
  | put entry =>
    unfold stepOp
    split
    · -- a `Put` that returns has sealed the value at the entry's path
      rename_i hrun
      obtain ⟨value, hv, hb⟩ := put_ok hrun
      exact h.update hb hv
    · rename_i b' hrun
      have hb : b'.backend = b.backend := put_onError rt entry b _ _ hrun
      exact h.of_sameUserEntries (SameBackend.sameUserEntries hb)
  | delete key =>
    unfold stepOp
    split
    · rename_i hrun
      exact h.update (delete_ok hrun) trivial
    · rename_i b' hrun
      have hb : b'.backend = b.backend := delete_onError key b _ _ hrun
      exact h.of_sameUserEntries (SameBackend.sameUserEntries hb)
  | initBarrier key sealKey random =>
    exact holds_stepOp_of_frame (.initBarrier key sealKey random) (initialize_frame rt key sealKey random) (fun _ => rfl) h
  | unsealBarrier key => exact holds_stepOp_of_frame (.unsealBarrier key) (unseal_frame rt key) (fun _ => rfl) h
  | sealBarrier => exact holds_stepOp_of_frame .sealBarrier seal_frame (fun _ => rfl) h
  | get key =>
    exact holds_stepOp_of_frame (.get key)
      (Preserves.bind (lockSwitchedGet_frame rt key) fun _ => Preserves.pure _) (fun _ => rfl) h
  | rotate random =>
    exact holds_stepOp_of_frame (.rotate random)
      (Preserves.bind (rotate_frame rt random) fun _ => Preserves.pure _) (fun _ => rfl) h
  | rekey key => exact holds_stepOp_of_frame (.rekey key) (rekey_frame rt key) (fun _ => rfl) h
  | createUpgrade term =>
    exact holds_stepOp_of_frame (.createUpgrade term) (createUpgrade_frame rt term) (fun _ => rfl) h
  | checkUpgrade =>
    exact holds_stepOp_of_frame .checkUpgrade
      (Preserves.bind (checkUpgrade_frame rt) fun _ => Preserves.pure _) (fun _ => rfl) h
  | reloadKeyring => exact holds_stepOp_of_frame .reloadKeyring (reloadKeyring_frame rt) (fun _ => rfl) h
  | reloadMasterKey => exact holds_stepOp_of_frame .reloadMasterKey (reloadMasterKey_frame rt) (fun _ => rfl) h

theorem holds_foldl (ops : List BarrierOp) {b : AESGCMBarrier} {m : String → Option Bytes}
    (h : Holds rt.aead b m) :
    Holds rt.aead (ops.foldl (stepOp rt) (b, m)).1 (ops.foldl (stepOp rt) (b, m)).2 := by
  induction ops generalizing b m with
  | nil => exact h
  | cons op ops ih => exact ih (holds_stepOp h op)

/-- A `Get` of an unreserved path that returns gives the store's value there. -/
theorem get_of_holds (haead : rt.aead.Lawful) {b b' : AESGCMBarrier}
    {m : String → Option Bytes} (h : Holds rt.aead b m) {key : String}
    (hkey : reserved key = false) {r : Option StorageEntry}
    (hget : (AESGCMBarrier.get rt key).run b = .ok r b') :
    r.map (·.value) = m key := by
  have hst := h key hkey
  rcases get_ok hget with ⟨hnone, rfl⟩ | ⟨pe, gcm, plain, hsome, hdec, rfl⟩
  · -- nothing is stored, so the store holds nothing
    rw [hnone] at hst
    cases hm : m key with
    | none => rfl
    | some v => simp [hm, StoredAs] at hst
  · rw [hsome] at hst
    cases hm : m key with
    | none => simp [hm, StoredAs] at hst
    | some v =>
      rw [hm] at hst
      -- the stored value is a sealing of `v`, which the opening returns
      have hplain : plain = v := decrypt_sealed haead hst hdec
      simp [hplain]

/-! ## Runs that return -/

theorem runOps_concat (rt : Runtime) (b : AESGCMBarrier) (ops : List BarrierOp) (op : BarrierOp) :
    runOps rt b (ops ++ [op]) = stepOp rt (runOps rt b ops) op := by
  simp [runOps, List.foldl_append]

theorem stepOp_ok (op : BarrierOp) {bm : AESGCMBarrier × (String → Option Bytes)}
    {b : AESGCMBarrier} {u : Unit} (h : (op.exec rt).run bm.1 = .ok u b) :
    stepOp rt bm op = (b, op.expect bm.2) := by
  simp [stepOp, h]

/-- `tagged` seals keys of AES sizes into texts longer than a nonce. -/
theorem tagged_overhead (k n p a : Bytes) (hk : ValidKeySize k) :
    gcmNonceSize ≤ (AEAD.tagged.sealText k n p a).length := by
  rw [AEAD.tagged_sealText_length]
  unfold ValidKeySize at hk
  unfold gcmNonceSize
  omega

/-- `Initialize` and `Unseal` with the same key from an empty backend leave an unsealed barrier
that holds the keyring of term 1, stores nothing outside its own paths and stores the master
key under `core/master`; the store is empty. -/
theorem runOps_initialize_unseal (rt : Runtime) (haead : rt.aead.Lawful) (hcodec : rt.codec.Lawful)
    (hoverhead : ∀ k n p a, ValidKeySize k → gcmNonceSize ≤ (rt.aead.sealText k n p a).length)
    (nonces : ℕ → Fin gcmNonceSize → UInt8) {key : Bytes} (hkey : ValidKeySize key)
    (random : Fin 32 → UInt8) :
    let run := runOps rt (newAESGCMBarrier (fun _ => none) nonces)
      [.initBarrier key [] random, .unsealBarrier key]
    run.2 = (fun _ => none) ∧ run.1.sealed = false ∧
      run.1.keyring = some ⟨key, [⟨1, 1, List.ofFn random⟩], 1, defaultRotationConfig⟩ ∧
      run.1.currentAESGCMVersionByte = aesgcmVersion2 ∧
      (∀ k, reserved k = false → run.1.backend k = none) ∧
      run.1.backend masterKeyPath = some ⟨masterKeyPath, sealedV2 rt.aead masterKeyPath 1
        (List.ofFn random) (List.ofFn (nonces 1)) (rt.codec.encodeKey (some ⟨1, 1, key⟩)),
        false⟩ := by
  intro run
  obtain ⟨s₁, h₁, h₂, hv, hm⟩ := initialize_unseal_run haead hcodec hoverhead
    (newAESGCMBarrier (fun _ => none) nonces) rfl rfl rfl rfl rfl hkey random
  have hrun : run =
      ({ s₁ with keyring := some ⟨key, [⟨1, 1, List.ofFn random⟩], 1, defaultRotationConfig⟩, sealed := false },
        fun _ => none) := by
    simp only [run, runOps, List.foldl, stepOp, BarrierOp.exec, h₁, h₂, BarrierOp.expect]
  -- `Initialize` keeps the unreserved paths, which were empty
  have hframe : SameUserEntries (newAESGCMBarrier (fun _ => none) nonces) s₁ :=
    (initialize_frame rt key [] random).of_run_ok h₁
  rw [hrun]
  exact ⟨rfl, rfl, rfl, hv, hframe, hm⟩

/-! ## Get returns the last Put -/

/-- After any run of calls from an empty backend, a `Get` of a path the barrier does not
write for itself that returns gives the value of the last `Put` there that returned, and
nothing when there was none or a `Delete` came after it. -/
theorem get_returns_last_put (rt : Runtime) (haead : rt.aead.Lawful)
    (nonces : ℕ → Fin gcmNonceSize → UInt8) (ops : List BarrierOp) (key : String)
    (hkey : reserved key = false) (r : Option StorageEntry) (b' : AESGCMBarrier)
    (hget : (AESGCMBarrier.get rt key).run
      (runOps rt (newAESGCMBarrier (fun _ => none) nonces) ops).1 = .ok r b') :
    r.map (·.value) = (runOps rt (newAESGCMBarrier (fun _ => none) nonces) ops).2 key :=
  get_of_holds haead (holds_foldl ops (holds_empty _ rfl)) hkey hget

theorem get_returns_last_put_tagged :
    Option.map (·.value) (some (⟨"secret", [42], false⟩ : StorageEntry)) =
      (runOps ⟨AEAD.tagged, natCodec⟩ (newAESGCMBarrier (fun _ => none) fun _ _ => 0)
        [.initBarrier (List.replicate 32 7) [] (fun _ => 1), .unsealBarrier (List.replicate 32 7),
          .put ⟨"secret", [42], false⟩]).2 "secret" := by
  have hkey : ValidKeySize (List.replicate 32 7) := by simp [ValidKeySize]
  obtain ⟨-, hs, hk, hv, -, -⟩ := runOps_initialize_unseal ⟨AEAD.tagged, natCodec⟩
    AEAD.tagged_lawful natCodec_lawful tagged_overhead (fun _ _ => 0) hkey fun _ => 1
  -- the `Put` returns, and a `Get` right after it returns the entry
  obtain ⟨s', hput, hget⟩ := put_get_run ⟨AEAD.tagged, natCodec⟩ AEAD.tagged_lawful
    tagged_overhead hs hv hk rfl (by simp [ValidKeySize]) ⟨"secret", [42], false⟩
  have hrun := runOps_concat ⟨AEAD.tagged, natCodec⟩
    (newAESGCMBarrier (fun _ => none) fun _ _ => 0)
    [.initBarrier (List.replicate 32 7) [] (fun _ => 1), .unsealBarrier (List.replicate 32 7)]
    (.put ⟨"secret", [42], false⟩)
  rw [stepOp_ok (.put ⟨"secret", [42], false⟩) hput, List.cons_append, List.cons_append,
    List.nil_append] at hrun
  exact get_returns_last_put ⟨AEAD.tagged, natCodec⟩ AEAD.tagged_lawful (fun _ _ => 0) _ "secret"
    rfl _ _ (by rw [hrun]; exact hget)

/-! ## The barrier's own paths -/

/-- After `Initialize` and `Unseal` with the same key on an empty backend, no `Put` has
written `core/master`, yet `Get` of it returns the encoded master key. -/
theorem get_master_without_put (rt : Runtime) (haead : rt.aead.Lawful) (hcodec : rt.codec.Lawful)
    (hoverhead : ∀ k n p a, ValidKeySize k → gcmNonceSize ≤ (rt.aead.sealText k n p a).length)
    (nonces : ℕ → Fin gcmNonceSize → UInt8) (key : Bytes) (hkey : ValidKeySize key)
    (random : Fin 32 → UInt8) :
    let run := runOps rt (newAESGCMBarrier (fun _ => none) nonces)
      [.initBarrier key [] random, .unsealBarrier key]
    run.2 masterKeyPath = none ∧
      (AESGCMBarrier.get rt masterKeyPath).run run.1 =
        .ok (some ⟨masterKeyPath, rt.codec.encodeKey (some ⟨1, 1, key⟩), false⟩) run.1 := by
  intro run
  obtain ⟨hstore, hs, hk, -, -, hm⟩ :=
    runOps_initialize_unseal rt haead hcodec hoverhead nonces hkey random
  have hrandom : ValidKeySize (List.ofFn random) := by simp [ValidKeySize]
  have hterm : Keyring.termKey ⟨key, [⟨1, 1, List.ofFn random⟩], 1, defaultRotationConfig⟩ 1 =
      some ⟨1, 1, List.ofFn random⟩ := rfl
  refine ⟨congrFun hstore masterKeyPath, ?_⟩
  -- the master key is sealed with the key of term 1, which the keyring holds
  exact get_run haead hs hk hterm hrandom hm List.length_ofFn rfl (hoverhead _ _ _ _ hrandom)

theorem get_master_without_put_tagged :
    (runOps ⟨AEAD.tagged, natCodec⟩ (newAESGCMBarrier (fun _ => none) fun _ _ => 0)
        [.initBarrier (List.replicate 32 7) [] (fun _ => 1),
          .unsealBarrier (List.replicate 32 7)]).2 masterKeyPath = none ∧
      (AESGCMBarrier.get ⟨AEAD.tagged, natCodec⟩ masterKeyPath).run
          (runOps ⟨AEAD.tagged, natCodec⟩ (newAESGCMBarrier (fun _ => none) fun _ _ => 0)
            [.initBarrier (List.replicate 32 7) [] (fun _ => 1),
              .unsealBarrier (List.replicate 32 7)]).1 =
        .ok (some ⟨masterKeyPath, natCodec.encodeKey (some ⟨1, 1, List.replicate 32 7⟩), false⟩)
          (runOps ⟨AEAD.tagged, natCodec⟩ (newAESGCMBarrier (fun _ => none) fun _ _ => 0)
            [.initBarrier (List.replicate 32 7) [] (fun _ => 1),
              .unsealBarrier (List.replicate 32 7)]).1 :=
  get_master_without_put ⟨AEAD.tagged, natCodec⟩ AEAD.tagged_lawful natCodec_lawful
    tagged_overhead (fun _ _ => 0) (List.replicate 32 7) (by simp [ValidKeySize]) fun _ => 1

end Vault.Barrier
