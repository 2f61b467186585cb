import Vault.Lib.Quorum
import Vault.Lib.GoStrings
import Vault.Shamir.Split

/-!
# Key shares: unseal, rekey and root generation

Three operations of `Core` take the shares of a key one request at a time: `unsealFragment`,
`BarrierRekeyUpdate` and `GenerateRootUpdate`. Each keeps the shares it was given in a
progress list, refuses a share it already holds (the unseal silently, the other two with an
error), and once the list reaches the seal's threshold combines it with `shamir.Combine`
and clears it, whether the combination succeeds or not.

Each of them is a `Quorum` collector over the shares that pass its checks: its progress is
the collection, and the combination is made on the batch the collector hands over. By the
Shamir round trip, a batch of distinct shares of one `split` of a key gives that key.

The seal's configuration is read once per request and has the threshold `secretThreshold`;
what the operations do with the recovered key is an input (`unsealWith`) or not modelled.
-/

namespace Vault.Seal

open GoRuntime GoStrings Vault.Shamir Quorum

/-- `shamir.ShareOverhead`: the tag byte of every share. -/
def shareOverhead : ℕ := 1

/-- `barrier.KeyLength()`: the bounds on the length of a key. -/
structure KeyLength where
  min : ℕ
  max : ℕ
deriving DecidableEq, Repr

/-- The check of a submitted key against the barrier's bounds, the tag byte allowed for;
`pre` is what the error type puts before the reason. -/
def checkKeyLength (pre : String) (keyLength : KeyLength) (key : List UInt8) : Go Unit :=
  if key.length < keyLength.min then
    throw (.error (pre ++ "key is shorter than minimum " ++ toString keyLength.min ++ " bytes"))
  else if key.length > keyLength.max + shareOverhead then
    throw (.error (pre ++ "key is longer than maximum " ++
      toString (keyLength.max + shareOverhead) ++ " bytes"))
  else pure ()

/-- The key the collected parts give: the first part when the threshold is one, otherwise
their Shamir combination, its error wrapped with `pre`. -/
def recoverKey (pre : String) (secretThreshold : ℕ) (parts : List (List UInt8)) :
    Go (List UInt8) :=
  if secretThreshold = 1 then pure (parts.headD []) else wrapError pre (combine parts)

/-! ## Unseal -/

/-- `unlockInformation`: the parts given so far, and the nonce of this unseal. -/
structure UnlockInformation where
  parts : List (List UInt8)
  nonce : String
deriving DecidableEq, Repr

/-- What `getUnsealKey` reads of the seal: the threshold of its configuration, and its check
of a recovery key when it supports recovery keys. -/
structure SealAccess where
  secretThreshold : ℕ
  verifyRecoveryKey : Option (List UInt8 → Go Unit)

/-- `seal.VerifyRecoveryKey`, for a seal that supports recovery keys. -/
def SealAccess.verify (sealAccess : SealAccess) (key : List UInt8) : Go Unit :=
  match sealAccess.verifyRecoveryKey with
  | some verifyRecoveryKey => verifyRecoveryKey key
  | none => pure ()

/-- `Core.recordUnsealPart`: whether `key` is a new part, and the unlock information
afterwards; `generateUUID` is what `uuid.GenerateUUID` returns for a first part. -/
def recordUnsealPart (unlockInfo : Option UnlockInformation) (generateUUID : Go String)
    (key : List UInt8) : Go Bool × Option UnlockInformation :=
  match unlockInfo with
  | some info =>
    -- `subtle.ConstantTimeCompare` is `1` exactly on equal slices
    if key ∈ info.parts then (.ok false, some info)
    else (.ok true, some { info with parts := info.parts ++ [key] })
  | none =>
    match generateUUID with
    | .ok uuid => (.ok true, some ⟨[key], uuid⟩)
    | .error e => (.error e, none)

/-- `Core.getUnsealKey`: `none` below the threshold, otherwise the recovered key; the
unlock information afterwards, cleared by the deferred reset once the threshold is met. -/
def getUnsealKey (sealAccess : SealAccess) (info : UnlockInformation) :
    Go (Option (List UInt8)) × Option UnlockInformation :=
  if info.parts.length < sealAccess.secretThreshold then (.ok none, some info)
  else
    (do
      let unsealKey ← recoverKey "failed to compute combined key: " sealAccess.secretThreshold
        info.parts
      sealAccess.verify unsealKey
      pure (some unsealKey), none)

/-- The state `unsealFragment` works on. -/
structure UnsealState where
  unlockInfo : Option UnlockInformation
  sealed : Bool
deriving DecidableEq, Repr

/-- The environment of one call of `unsealFragment`: the barrier's key lengths, the UUID a
first part gets, and the result of unsealing with a combined key. -/
structure UnsealEnv where
  keyLength : KeyLength
  generateUUID : Go String
  unsealWith : List UInt8 → Go Unit

/-- `Core.unsealFragment` without a seal migration, on an initialized core. -/
def unsealFragment (sealAccess : SealAccess) (env : UnsealEnv) (s : UnsealState)
    (key : List UInt8) : Go Unit × UnsealState :=
  match checkKeyLength "invalid key: " env.keyLength key with
  | .error e => (.error e, s)
  | .ok () =>
    if !s.sealed then (.ok (), s)
    else
      match recordUnsealPart s.unlockInfo env.generateUUID key with
      | (.error e, unlockInfo) => (.error e, { s with unlockInfo })
      | (.ok false, unlockInfo) => (.ok (), { s with unlockInfo })
      | (.ok true, none) =>
        (.error (.panic "invalid memory address or nil pointer dereference"), s)
      | (.ok true, some info) =>
        match getUnsealKey sealAccess info with
        | (.error e, unlockInfo) => (.error e, { s with unlockInfo })
        | (.ok none, unlockInfo) => (.ok (), { s with unlockInfo })
        | (.ok (some combinedKey), unlockInfo) =>
          match env.unsealWith combinedKey with
          | .ok () => (.ok (), { unlockInfo, sealed := false })
          | .error e => (.error e, { s with unlockInfo })

/-- The parts an unseal has collected. -/
def UnsealState.parts (s : UnsealState) : List (List UInt8) :=
  (s.unlockInfo.map UnlockInformation.parts).getD []

/-- A request to unseal: the key, with the environment of its call. -/
structure UnsealRequest where
  key : List UInt8
  env : UnsealEnv

/-- The unseal state after each request in turn. -/
def unsealRun (sealAccess : SealAccess) (s : UnsealState) (rs : List UnsealRequest) :
    UnsealState :=
  rs.foldl (fun s r => (unsealFragment sealAccess r.env s r.key).2) s

/-! ## Rekey -/

/-- What the rekey update reads and writes of `Core.barrierRekeyConfig`. -/
structure RekeyConfig where
  nonce : String
  verificationKey : List UInt8
  verificationNonce : String
  rekeyProgress : List (List UInt8)
deriving DecidableEq, Repr

/-- `Core.BarrierRekeyUpdate` on an unsealed active core, up to the recovered key (`none`
while shares are missing): the key's length, the rekey in progress, its nonce and the
share are checked, the share recorded, and the shares combined once they reach the
threshold. What the update does with the recovered key is not modelled. -/
def barrierRekeyUpdate (secretThreshold : ℕ) (keyLength : KeyLength)
    (config : Option RekeyConfig) (key : List UInt8) (nonce : String) :
    Go (Option (List UInt8)) × Option RekeyConfig :=
  match checkKeyLength "" keyLength key, config with
  | .error e, _ => (.error e, config)
  | .ok (), none => (.error (.error "no barrier rekey in progress"), none)
  | .ok (), some c =>
    if c.verificationKey.length > 0 then
      (.error (.error ("rekey operation already finished; verification must be performed; " ++
        "nonce for the verification operation is " ++ goQuote c.verificationNonce)), some c)
    else if nonce ≠ c.nonce then
      (.error (.error ("incorrect nonce supplied; nonce for this rekey operation is " ++
        goQuote c.nonce)), some c)
    else if key ∈ c.rekeyProgress then
      (.error (.error "given key has already been provided during this generation operation"),
        some c)
    else
      let c := { c with rekeyProgress := c.rekeyProgress ++ [key] }
      if c.rekeyProgress.length < secretThreshold then (.ok none, some c)
      else
        -- the progress is cleared before the error of the combination is returned
        ((recoverKey "failed to compute master key: " secretThreshold c.rekeyProgress).map some,
          some { c with rekeyProgress := [] })

/-- The shares a rekey has collected. -/
def rekeyProgress (config : Option RekeyConfig) : List (List UInt8) :=
  (config.map RekeyConfig.rekeyProgress).getD []

/-- The rekey configuration after each update `(key, nonce)` in turn. -/
def rekeyRun (secretThreshold : ℕ) (keyLength : KeyLength) (config : Option RekeyConfig)
    (rs : List (List UInt8 × String)) : Option RekeyConfig :=
  rs.foldl (fun c r => (barrierRekeyUpdate secretThreshold keyLength c r.1 r.2).2) config

/-! ## Root generation -/

/-- What the update reads of `Core.generateRootConfig`; `σ` is the type of strategies. -/
structure GenerateRootConfig (σ : Type) where
  nonce : String
  pgpFingerprint : String
  strategy : σ
deriving DecidableEq, Repr

/-- How the part of `GenerateRootUpdate` that collects the shares ends: the progress it
reports while shares are missing, or the combined key the generation goes on with. -/
inductive GenerateRootProgress where
  | progress (progress required : ℕ) (pgpFingerprint : String)
  | combined (key : List UInt8)
deriving DecidableEq, Repr

/-- `Core.GenerateRootUpdate` on an unsealed active core, up to the combined key, with the
progress `generateRootProgress` before and after. -/
def generateRootUpdate {σ : Type} [DecidableEq σ] (secretThreshold : ℕ) (keyLength : KeyLength)
    (config : Option (GenerateRootConfig σ)) (generateRootProgress : List (List UInt8))
    (key : List UInt8) (nonce : String) (strategy : σ) :
    Go GenerateRootProgress × List (List UInt8) :=
  match checkKeyLength "invalid key: " keyLength key, config with
  | .error e, _ => (.error e, generateRootProgress)
  | .ok (), none => (.error (.error "no root generation in progress"), generateRootProgress)
  | .ok (), some c =>
    if nonce ≠ c.nonce then
      (.error (.error ("incorrect nonce supplied; nonce for this root generation operation is " ++
        goQuote c.nonce)), generateRootProgress)
    else if strategy ≠ c.strategy then
      (.error (.error ("incorrect strategy supplied; a generate root operation of another " ++
        "type is already in progress")), generateRootProgress)
    else if key ∈ generateRootProgress then
      (.error (.error "given key has already been provided during this generation operation"),
        generateRootProgress)
    else
      let generateRootProgress := generateRootProgress ++ [key]
      if generateRootProgress.length < secretThreshold then
        (.ok (.progress generateRootProgress.length secretThreshold c.pgpFingerprint),
          generateRootProgress)
      else
        ((recoverKey "failed to compute master key: " secretThreshold generateRootProgress).map
          .combined, [])

/-- A request to generate a root: the key, the nonce and the strategy. -/
structure GenerateRootRequest (σ : Type) where
  key : List UInt8
  nonce : String
  strategy : σ

/-- The progress after each request in turn. -/
def generateRootRun {σ : Type} [DecidableEq σ] (secretThreshold : ℕ) (keyLength : KeyLength)
    (config : Option (GenerateRootConfig σ)) (progress : List (List UInt8))
    (rs : List (GenerateRootRequest σ)) : List (List UInt8) :=
  rs.foldl (fun p r =>
    (generateRootUpdate secretThreshold keyLength config p r.key r.nonce r.strategy).2) progress

/-! ## The key of a batch -/

/-- A batch of `t` distinct shares of one `split` with threshold `t` gives the split key. -/
theorem recoverKey_of_split {pre : String} {t : ℕ} (ht : 2 ≤ t) {secret : List UInt8}
    {parts : ℤ} {xCoordinates : List ℕ}
    {coeffs : ℕ → Fin (UInt8.ofInt ((t : ℤ) - 1)).toNat → UInt8} {shares : List (List UInt8)}
    (hperm : xCoordinates.Perm (List.range 255))
    (hsplit : split secret parts t xCoordinates (fun idx => .ok (coeffs idx)) = .ok shares)
    {b : List (List UInt8)} (hnd : b.Nodup) (hsub : ∀ s ∈ b, s ∈ shares) (hlen : t ≤ b.length) :
    recoverKey pre t b = .ok secret := by
  unfold recoverKey
  rw [if_neg (by omega), combine_of_split hperm hsplit b hnd hsub (by exact_mod_cast hlen)]
  rfl

/-! ## The unseal collects the parts -/

section Unseal

variable {sealAccess : SealAccess} {env : UnsealEnv} {s : UnsealState} {key : List UInt8}

theorem recordUnsealPart_of_mem {info : UnlockInformation} {generateUUID : Go String}
    (h : key ∈ info.parts) : recordUnsealPart (some info) generateUUID key = (.ok false, some info) :=
  if_pos h

/-- A new part is recorded after the others, in a new unlock if there is none. -/
theorem recordUnsealPart_of_not_mem (h : key ∉ s.parts)
    (huuid : s.unlockInfo = none → ∃ uuid, env.generateUUID = .ok uuid) :
    ∃ info, recordUnsealPart s.unlockInfo env.generateUUID key = (.ok true, some info) ∧
      info.parts = s.parts ++ [key] := by
  rcases hs : s.unlockInfo with _ | info
  · obtain ⟨uuid, hu⟩ := huuid hs
    refine ⟨⟨[key], uuid⟩, by simp [recordUnsealPart, hu], ?_⟩
    simp [UnsealState.parts, hs]
  · have hparts : s.parts = info.parts := by simp [UnsealState.parts, hs]
    rw [hparts] at h ⊢
    exact ⟨_, if_neg h, rfl⟩

theorem getUnsealKey_of_lt {info : UnlockInformation}
    (h : info.parts.length < sealAccess.secretThreshold) :
    getUnsealKey sealAccess info = (.ok none, some info) := if_pos h

theorem getUnsealKey_of_le {info : UnlockInformation}
    (h : sealAccess.secretThreshold ≤ info.parts.length) :
    getUnsealKey sealAccess info =
      (do
        let unsealKey ← recoverKey "failed to compute combined key: "
          sealAccess.secretThreshold info.parts
        sealAccess.verify unsealKey
        pure (some unsealKey), none) := if_neg (Nat.not_lt.mpr h)

/-- The unseal on a key that passes the checks: its parts are those of the collector, and it
combines exactly the batch the collector hands over, then unseals with the key. -/
theorem unsealFragment_of_accepted
    (hkey : checkKeyLength "invalid key: " env.keyLength key = .ok ()) (hsealed : s.sealed = true)
    (huuid : s.unlockInfo = none → ∃ uuid, env.generateUUID = .ok uuid) :
    (unsealFragment sealAccess env s key).2.parts =
        (submit sealAccess.secretThreshold s.parts key).1 ∧
      (unsealFragment sealAccess env s key).1 =
        match (submit sealAccess.secretThreshold s.parts key).2 with
        | none => .ok ()
        | some b => (do
          let unsealKey ← recoverKey "failed to compute combined key: "
            sealAccess.secretThreshold b
          sealAccess.verify unsealKey
          env.unsealWith unsealKey) := by
  by_cases hmem : key ∈ s.parts
  · -- a part given before: nothing changes
    obtain ⟨info, hs, hparts⟩ : ∃ info, s.unlockInfo = some info ∧ info.parts = s.parts := by
      rcases hs : s.unlockInfo with _ | info
      · simp [UnsealState.parts, hs] at hmem
      · exact ⟨info, rfl, by simp [UnsealState.parts, hs]⟩
    rw [submit_of_mem hmem]
    simp only [unsealFragment, hkey, hsealed, Bool.not_true, Bool.false_eq_true, if_false, hs,
      recordUnsealPart_of_mem (hparts ▸ hmem)]
    exact ⟨by simp [UnsealState.parts, hs], trivial⟩
  obtain ⟨info, hrec, hinfo⟩ := recordUnsealPart_of_not_mem hmem huuid
  by_cases hlt : s.parts.length + 1 < sealAccess.secretThreshold
  · -- below the threshold the part is kept
    rw [submit_of_lt hmem hlt]
    have hlt' : info.parts.length < sealAccess.secretThreshold := by simpa [hinfo] using hlt
    simp only [unsealFragment, hkey, hsealed, Bool.not_true, Bool.false_eq_true, if_false, hrec,
      getUnsealKey_of_lt hlt']
    exact ⟨by simp [UnsealState.parts, hinfo], trivial⟩
  · -- at the threshold the parts are combined and the unlock is cleared
    rw [submit_of_le hmem (Nat.not_lt.mp hlt)]
    have hle : sealAccess.secretThreshold ≤ info.parts.length := by
      simpa [hinfo] using Nat.not_lt.mp hlt
    simp only [unsealFragment, hkey, hsealed, Bool.not_true, Bool.false_eq_true, if_false, hrec,
      getUnsealKey_of_le hle, ← hinfo]
    -- whatever the combination, the verification and the unseal give, the unlock is cleared
    rcases recoverKey "failed to compute combined key: " sealAccess.secretThreshold info.parts
      with e | unsealKey
    · exact ⟨rfl, rfl⟩
    simp only [ok_bind]
    rcases hverify : sealAccess.verify unsealKey with e | ⟨⟩
    · exact ⟨rfl, rfl⟩
    simp only [ok_bind, pure, Except.pure]
    rcases env.unsealWith unsealKey with e | ⟨⟩ <;> exact ⟨rfl, rfl⟩

/-- Every call of the unseal keeps its parts or submits the key to the collector. -/
theorem unsealFragment_cases :
    (unsealFragment sealAccess env s key).2.parts = s.parts ∨
      (unsealFragment sealAccess env s key).2.parts =
        (submit sealAccess.secretThreshold s.parts key).1 := by
  rcases hkey : checkKeyLength "invalid key: " env.keyLength key with e | ⟨⟩
  · left
    simp only [unsealFragment, hkey]
  cases hsealed : s.sealed
  · left
    simp [unsealFragment, hkey, hsealed]
  by_cases huuid : s.unlockInfo = none → ∃ uuid, env.generateUUID = .ok uuid
  · exact .inr (unsealFragment_of_accepted hkey hsealed huuid).1
  -- a first part whose unlock gets no UUID is not recorded
  obtain ⟨hnone, hfail⟩ : s.unlockInfo = none ∧ ∀ uuid, env.generateUUID ≠ .ok uuid := by
    simpa using huuid
  obtain ⟨e, he⟩ : ∃ e, env.generateUUID = .error e := by
    rcases hg : env.generateUUID with e | uuid
    · exact ⟨e, rfl⟩
    · exact absurd hg (hfail uuid)
  left
  simp [unsealFragment, hkey, hsealed, hnone, recordUnsealPart, he, UnsealState.parts]

/-- Along every run the unseal holds fewer than the threshold of distinct parts. -/
theorem unsealRun_collecting (ht : 0 < sealAccess.secretThreshold) (rs : List UnsealRequest)
    (s : UnsealState) (hs : Collecting sealAccess.secretThreshold s.parts) :
    Collecting sealAccess.secretThreshold (unsealRun sealAccess s rs).parts :=
  foldl_collecting ht UnsealState.parts _
    (fun _ r _ => unsealFragment_cases.imp id fun h => ⟨r.key, h⟩) rs s hs

end Unseal

/-! ## The rekey collects the shares -/

section Rekey

variable {secretThreshold : ℕ} {keyLength : KeyLength} {c : RekeyConfig} {key : List UInt8}
  {nonce : String}

/-- A rekey update with the nonce of the rekey in progress, before its verification: its
progress is that of the collector, and it combines exactly the batch the collector hands
over. -/
theorem barrierRekeyUpdate_of_accepted (hkey : checkKeyLength "" keyLength key = .ok ())
    (hverification : c.verificationKey = []) (hnonce : nonce = c.nonce) :
    rekeyProgress (barrierRekeyUpdate secretThreshold keyLength (some c) key nonce).2 =
        (submit secretThreshold c.rekeyProgress key).1 ∧
      (barrierRekeyUpdate secretThreshold keyLength (some c) key nonce).1 =
        match (submit secretThreshold c.rekeyProgress key).2 with
        | none =>
          if key ∈ c.rekeyProgress then
            .error (.error "given key has already been provided during this generation operation")
          else .ok none
        | some b => (recoverKey "failed to compute master key: " secretThreshold b).map some := by
  subst hnonce
  have hfinished : ¬c.verificationKey.length > 0 := by simp [hverification]
  by_cases hmem : key ∈ c.rekeyProgress
  · rw [submit_of_mem hmem]
    simp only [barrierRekeyUpdate, hkey, hfinished, ne_eq, not_true_eq_false, hmem, if_true,
      if_false, and_true]
    rfl
  by_cases hlt : c.rekeyProgress.length + 1 < secretThreshold
  · rw [submit_of_lt hmem hlt]
    have hlt' : (c.rekeyProgress ++ [key]).length < secretThreshold := by simpa using hlt
    simp only [barrierRekeyUpdate, hkey, hfinished, ne_eq, not_true_eq_false, hmem, hlt',
      if_true, if_false, and_true]
    rfl
  · rw [submit_of_le hmem (Nat.not_lt.mp hlt)]
    have hle : ¬(c.rekeyProgress ++ [key]).length < secretThreshold := by simpa using hlt
    simp only [barrierRekeyUpdate, hkey, hfinished, ne_eq, not_true_eq_false, hmem, hle,
      if_false, and_true]
    rfl

/-- Every rekey update keeps the progress or submits the key to the collector. -/
theorem barrierRekeyUpdate_cases (config : Option RekeyConfig) :
    rekeyProgress (barrierRekeyUpdate secretThreshold keyLength config key nonce).2 =
        rekeyProgress config ∨
      rekeyProgress (barrierRekeyUpdate secretThreshold keyLength config key nonce).2 =
        (submit secretThreshold (rekeyProgress config) key).1 := by
  rcases hkey : checkKeyLength "" keyLength key with e | ⟨⟩
  · left
    simp only [barrierRekeyUpdate, hkey]
  rcases config with _ | c
  · left
    simp only [barrierRekeyUpdate, hkey]
  by_cases haccepted : c.verificationKey = [] ∧ nonce = c.nonce
  · exact .inr (barrierRekeyUpdate_of_accepted hkey haccepted.1 haccepted.2).1
  -- a finished rekey or another nonce is refused as it is
  left
  have hrefused : c.verificationKey.length > 0 ∨ nonce ≠ c.nonce := by
    rcases Nat.eq_zero_or_pos c.verificationKey.length with hzero | hpos
    · exact .inr fun hn => haccepted ⟨List.eq_nil_of_length_eq_zero hzero, hn⟩
    · exact .inl hpos
  unfold barrierRekeyUpdate
  rw [hkey]
  dsimp only
  by_cases hfinished : c.verificationKey.length > 0
  · rw [if_pos hfinished]
  · rw [if_neg hfinished, if_pos (hrefused.resolve_left hfinished)]

/-- Along every run the rekey holds fewer than the threshold of distinct shares. -/
theorem rekeyRun_collecting (ht : 0 < secretThreshold) (rs : List (List UInt8 × String))
    (config : Option RekeyConfig) (hc : Collecting secretThreshold (rekeyProgress config)) :
    Collecting secretThreshold (rekeyProgress (rekeyRun secretThreshold keyLength config rs)) :=
  foldl_collecting ht rekeyProgress _
    (fun _ r _ => barrierRekeyUpdate_cases _ |>.imp id fun h => ⟨r.1, h⟩) rs config hc

end Rekey

/-! ## The root generation collects the shares -/

section GenerateRoot

variable {σ : Type} [DecidableEq σ] {secretThreshold : ℕ} {keyLength : KeyLength}
  {c : GenerateRootConfig σ} {progress : List (List UInt8)} {key : List UInt8} {nonce : String}
  {strategy : σ}

/-- A root generation update with the nonce and strategy of the generation in progress: its
progress is that of the collector, and it combines exactly the batch the collector hands
over. -/
theorem generateRootUpdate_of_accepted (hkey : checkKeyLength "invalid key: " keyLength key = .ok ())
    (hnonce : nonce = c.nonce) (hstrategy : strategy = c.strategy) :
    (generateRootUpdate secretThreshold keyLength (some c) progress key nonce strategy).2 =
        (submit secretThreshold progress key).1 ∧
      (generateRootUpdate secretThreshold keyLength (some c) progress key nonce strategy).1 =
        match (submit secretThreshold progress key).2 with
        | none =>
          if key ∈ progress then
            .error (.error "given key has already been provided during this generation operation")
          else .ok (.progress (progress.length + 1) secretThreshold c.pgpFingerprint)
        | some b =>
          (recoverKey "failed to compute master key: " secretThreshold b).map .combined := by
  subst hnonce hstrategy
  by_cases hmem : key ∈ progress
  · rw [submit_of_mem hmem]
    simp only [generateRootUpdate, hkey, ne_eq, not_true_eq_false, hmem, if_true, if_false,
      and_true]
  by_cases hlt : progress.length + 1 < secretThreshold
  · rw [submit_of_lt hmem hlt]
    simp only [generateRootUpdate, hkey, ne_eq, not_true_eq_false, hmem, if_false,
      List.length_append, List.length_singleton, hlt, if_true, and_self]
  · rw [submit_of_le hmem (Nat.not_lt.mp hlt)]
    have hle : ¬(progress ++ [key]).length < secretThreshold := by simpa using hlt
    simp only [generateRootUpdate, hkey, ne_eq, not_true_eq_false, hmem, hle, if_false,
      and_true]

/-- Every root generation update keeps the progress or submits the key to the collector. -/
theorem generateRootUpdate_cases (config : Option (GenerateRootConfig σ)) :
    (generateRootUpdate secretThreshold keyLength config progress key nonce strategy).2 =
        progress ∨
      (generateRootUpdate secretThreshold keyLength config progress key nonce strategy).2 =
        (submit secretThreshold progress key).1 := by
  rcases hkey : checkKeyLength "invalid key: " keyLength key with e | ⟨⟩
  · left
    simp only [generateRootUpdate, hkey]
  rcases config with _ | c
  · left
    simp only [generateRootUpdate, hkey]
  by_cases haccepted : nonce = c.nonce ∧ strategy = c.strategy
  · exact .inr (generateRootUpdate_of_accepted hkey haccepted.1 haccepted.2).1
  -- another nonce or strategy is refused as it is
  left
  unfold generateRootUpdate
  rw [hkey]
  dsimp only
  by_cases hnonce : nonce = c.nonce
  · rw [if_neg (not_not.mpr hnonce), if_pos fun hs => haccepted ⟨hnonce, hs⟩]
  · rw [if_pos hnonce]

/-- Along every run the root generation holds fewer than the threshold of distinct shares. -/
theorem generateRootRun_collecting (ht : 0 < secretThreshold)
    (config : Option (GenerateRootConfig σ)) (rs : List (GenerateRootRequest σ))
    (progress : List (List UInt8)) (hp : Collecting secretThreshold progress) :
    Collecting secretThreshold (generateRootRun secretThreshold keyLength config progress rs) :=
  foldl_collecting ht id _
    (fun _ r _ => generateRootUpdate_cases config |>.imp id fun h => ⟨r.key, h⟩) rs progress hp

end GenerateRoot

theorem keyShares_combined_at_threshold (t : ℕ) (ht : 2 ≤ t) :
    (∀ (acc : List (List UInt8)) (key : List UInt8) (b : List (List UInt8)), Collecting t acc →
      ((submit t acc key).2 = some b ↔ key ∉ acc ∧ acc.length + 1 = t ∧ b = acc ++ [key]) ∧
      ((submit t acc key).2 = some b → (submit t acc key).1 = [] ∧ b.Nodup ∧
        ∀ (pre : String) (secret : List UInt8) (parts : ℤ) (xCoordinates : List ℕ)
          (coeffs : ℕ → Fin (UInt8.ofInt ((t : ℤ) - 1)).toNat → UInt8)
          (shares : List (List UInt8)), xCoordinates.Perm (List.range 255) →
          split secret parts t xCoordinates (fun idx => .ok (coeffs idx)) = .ok shares →
          (∀ s ∈ b, s ∈ shares) → recoverKey pre t b = .ok secret)) ∧
    (∀ verifyRecoveryKey (s : UnsealState) (rs : List UnsealRequest), Collecting t s.parts →
      Collecting t (unsealRun ⟨t, verifyRecoveryKey⟩ s rs).parts) ∧
    (∀ verifyRecoveryKey (env : UnsealEnv) (s : UnsealState) (key : List UInt8),
      checkKeyLength "invalid key: " env.keyLength key = .ok () → s.sealed = true →
      (s.unlockInfo = none → ∃ uuid, env.generateUUID = .ok uuid) →
      (unsealFragment ⟨t, verifyRecoveryKey⟩ env s key).2.parts = (submit t s.parts key).1 ∧
      (unsealFragment ⟨t, verifyRecoveryKey⟩ env s key).1 =
        match (submit t s.parts key).2 with
        | none => .ok ()
        | some b => (do
          let unsealKey ← recoverKey "failed to compute combined key: " t b
          SealAccess.verify ⟨t, verifyRecoveryKey⟩ unsealKey
          env.unsealWith unsealKey)) ∧
    (∀ (keyLength : KeyLength) (config : Option RekeyConfig) (rs : List (List UInt8 × String)),
      Collecting t (rekeyProgress config) →
      Collecting t (rekeyProgress (rekeyRun t keyLength config rs))) ∧
    (∀ (keyLength : KeyLength) (c : RekeyConfig) (key : List UInt8) (nonce : String),
      checkKeyLength "" keyLength key = .ok () → c.verificationKey = [] → nonce = c.nonce →
      rekeyProgress (barrierRekeyUpdate t keyLength (some c) key nonce).2 =
          (submit t c.rekeyProgress key).1 ∧
        (barrierRekeyUpdate t keyLength (some c) key nonce).1 =
          match (submit t c.rekeyProgress key).2 with
          | none =>
            if key ∈ c.rekeyProgress then
              .error (.error "given key has already been provided during this generation operation")
            else .ok none
          | some b => (recoverKey "failed to compute master key: " t b).map some) ∧
    (∀ {σ : Type} [DecidableEq σ] (keyLength : KeyLength) (config : Option (GenerateRootConfig σ))
      (rs : List (GenerateRootRequest σ)) (progress : List (List UInt8)), Collecting t progress →
      Collecting t (generateRootRun t keyLength config progress rs)) ∧
    (∀ {σ : Type} [DecidableEq σ] (keyLength : KeyLength) (c : GenerateRootConfig σ)
      (progress : List (List UInt8)) (key : List UInt8) (nonce : String) (strategy : σ),
      checkKeyLength "invalid key: " keyLength key = .ok () → nonce = c.nonce →
      strategy = c.strategy →
      (generateRootUpdate t keyLength (some c) progress key nonce strategy).2 =
          (submit t progress key).1 ∧
        (generateRootUpdate t keyLength (some c) progress key nonce strategy).1 =
          match (submit t progress key).2 with
          | none =>
            if key ∈ progress then
              .error (.error "given key has already been provided during this generation operation")
            else .ok (.progress (progress.length + 1) t c.pgpFingerprint)
          | some b => (recoverKey "failed to compute master key: " t b).map .combined) := by
  have ht0 : 0 < t := by omega
  refine ⟨fun acc key b hacc => ⟨submit_snd_eq_some_iff hacc, fun hb => ?_⟩, ?_, ?_, ?_, ?_, ?_, ?_⟩
  · -- a batch is `t` distinct shares, and from shares of one split it gives the key
    obtain ⟨hnd, hlen⟩ := batch_spec hacc hb
    refine ⟨submit_fst_of_snd_eq_some hb, hnd, ?_⟩
    intro pre secret parts xCoordinates coeffs shares hperm hsplit hsub
    exact recoverKey_of_split ht hperm hsplit hnd hsub hlen.ge
  · intro verifyRecoveryKey s rs hs
    exact unsealRun_collecting ht0 rs s hs
  · intro verifyRecoveryKey env s key hkey hsealed huuid
    exact unsealFragment_of_accepted hkey hsealed huuid
  · intro keyLength config rs hc
    exact rekeyRun_collecting ht0 rs config hc
  · intro keyLength c key nonce hkey hverification hnonce
    exact barrierRekeyUpdate_of_accepted hkey hverification hnonce
  · intro σ _ keyLength config rs progress hp
    exact generateRootRun_collecting ht0 config rs progress hp
  · intro σ _ keyLength c progress key nonce strategy hkey hnonce hstrategy
    exact generateRootUpdate_of_accepted hkey hnonce hstrategy

/-- At the threshold two, a second distinct share completes the batch. -/
theorem keyShares_combined_at_threshold_two :
    2 ≤ 2 ∧ ((submit 2 [[1, 2]] ([3, 4] : List UInt8)).2 = some [[1, 2], [3, 4]] ↔
      ([3, 4] : List UInt8) ∉ [[(1 : UInt8), 2]] ∧ [[(1 : UInt8), 2]].length + 1 = 2 ∧
        [[(1 : UInt8), 2], [3, 4]] = [[1, 2]] ++ [[3, 4]]) :=
  ⟨by decide, ((keyShares_combined_at_threshold 2 (by decide)).1 [[1, 2]] [3, 4]
    [[1, 2], [3, 4]] (by decide)).1⟩

end Vault.Seal
