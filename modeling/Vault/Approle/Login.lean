import Vault.Lib.GoRuntime
import Vault.Lib.GoStrings
import Vault.Lib.StateFrame

/-!
# AppRole logins with a secret ID of limited uses

`pathLoginUpdate` (builtin/credential/approle/path_login.go) logs in with a role ID and, for a
role with `bind_secret_id`, a secret ID. The secret ID is stored under the HMACs of the role
name and of the secret ID, with a random accessor stored beside it. A secret ID created with
`secret_id_num_uses = n` keeps its count in the entry: a login reads the entry under the secret
ID's read lock, takes the write lock, reads it again, and then deletes the accessor and the
entry for the last use, or stores the count one lower. An entry whose accessor is missing is
deleted by the next login that finds it so.

What the calls outside the two secret-ID tables do (the reads of the role, `SaltID`, each
storage call's own failure, and the CIDR checks) is given by an environment for each call, so
a theorem over every environment holds for every way these calls can end. `SaltID` maps
accessors one to one onto storage keys, so the accessor table is keyed by accessor.

From the entry `registerSecretIDEntry` stores with `n ≥ 1` uses, over any run of logins that
present it (`secretID_uses_enforced`): at most `n` logins return an `Auth`; while fewer than
`n` calls have changed the secret ID's storage, the stored count is `n` less that number; and
after `n`, every login fails, with the error of a failed storage call or with the response
`invalid secret id`, after which the entry and its accessor are gone.
-/

namespace Vault.Approle

open GoRuntime GoStrings StateFrame

/-- `secretIDStorageEntry`, with the fields the login reads and writes. -/
structure SecretIDStorageEntry where
  secretIDAccessor : String
  secretIDNumUses : ℤ
  metadata : List (String × String)
  secretIDNumUsesDeprecated : ℤ
  deriving DecidableEq

/-- `roleStorageEntry`, with the fields the login reads. -/
structure Role where
  name : String
  bindSecretID : Bool
  hmacKey : String
  secretIDPrefix : String

/-- The storage: the role found by each role ID (the role ID index and the role entry), the
secret ID entries by their index, and the accessor entries, each holding a secret ID's HMAC. -/
structure Storage where
  roles : String → Option Role
  secretIDs : String → Option SecretIDStorageEntry
  accessors : String → Option String

/-- What a login returns: an error response, or a response carrying an `Auth`. -/
inductive Response where
  | errorResponse (text : String)
  | auth (roleName : String) (metadata : List (String × String))
  deriving DecidableEq

/-- How the calls of one login outside the secret-ID tables end. -/
structure LoginEnv where
  /-- The reads of the role ID index and of the role. -/
  readRole : Go Unit
  /-- The first read of the secret ID entry, and the store of its upgrade. -/
  readEntry : Go Unit
  upgradeEntry : Go Unit
  /-- The first read of the accessor entry. -/
  readAccessor : Go Unit
  /-- The read of the entry under the write lock, and the store of its upgrade. -/
  rereadEntry : Go Unit
  reupgradeEntry : Go Unit
  /-- The read of the accessor entry under the write lock. -/
  rereadAccessor : Go Unit
  /-- The delete of an entry whose accessor is missing. -/
  deleteOrphan : Go Unit
  /-- The deletes of the last use, accessor first: `Salt`, and the two deletes. -/
  saltAccessor : Go Unit
  deleteAccessor : Go Unit
  deleteEntry : Go Unit
  /-- The store of the count one lower. -/
  putEntry : Go Unit
  /-- The CIDR checks of the secret ID: `none` when they pass, or an error response. -/
  secretIDChecks : Go (Option String)
  /-- The CIDR check of the role and the parse of the token's CIDRs. -/
  roleChecks : Go (Option String)

/-- How the calls of one `registerSecretIDEntry` outside the secret-ID tables end. -/
structure RegisterEnv where
  read : Go Unit
  upgrade : Go Unit
  reread : Go Unit
  reupgrade : Go Unit
  /-- `uuid.GenerateUUID`: 36 characters. -/
  generateUUID : Go (Vector Char 36)
  salt : Go Unit
  putAccessor : Go Unit
  put : Go Unit

/-- A call on the AppRole storage: its result or error, and the storage it leaves either way. -/
abbrev LoginM := EStateM GoError Storage

/-! ## Storage calls -/

/-- `fmt.Errorf(pre + "%w", err)` around a method: what it wrote stays written. -/
def wrapErrorM {α : Type} (pre : String) (x : LoginM α) : LoginM α := fun s =>
  match x s with
  | .error (.error msg) s' => .error (.error (pre ++ msg)) s'
  | r => r

/-- `createHMAC`: the hex text of the HMAC-SHA256 (`mac`, 64 characters) of `value`. -/
def createHMAC (mac : String → String → Vector Char 64) (key value : String) : Go String :=
  if key = "" then .error (.error "invalid HMAC key") else .ok (String.ofList (mac key value).toList)

/-- The index of a secret ID entry. -/
def entryIndex (roleSecretIDPrefix roleNameHMAC secretIDHMAC : String) : String :=
  roleSecretIDPrefix ++ roleNameHMAC ++ "/" ++ secretIDHMAC

def storagePut (result : Go Unit) (index : String) (entry : SecretIDStorageEntry) : LoginM Unit := do
  lift result
  modify fun s => { s with secretIDs := Function.update s.secretIDs index (some entry) }

def storageDelete (result : Go Unit) (index : String) : LoginM Unit := do
  lift result
  modify fun s => { s with secretIDs := Function.update s.secretIDs index none }

/-- The upgrade on read of the deprecated count: a set old count wins when the count is unset
or higher, the old count then follows the count down, and a change needs a store. -/
def upgradeSecretIDNumUses (e : SecretIDStorageEntry) : SecretIDStorageEntry × Bool :=
  if e.secretIDNumUsesDeprecated = 0 then (e, false)
  else
    let (e, p₁) :=
      if e.secretIDNumUses = 0 ∨ e.secretIDNumUsesDeprecated < e.secretIDNumUses then
        ({ e with secretIDNumUses := e.secretIDNumUsesDeprecated }, true)
      else (e, false)
    let (e, p₂) :=
      if e.secretIDNumUses < e.secretIDNumUsesDeprecated then
        ({ e with secretIDNumUsesDeprecated := e.secretIDNumUses }, true)
      else (e, false)
    (e, p₁ || p₂)

/-- `nonLockedSetSecretIDStorageEntry`. -/
def nonLockedSetSecretIDStorageEntry (put : Go Unit)
    (roleSecretIDPrefix roleNameHMAC secretIDHMAC : String) (entry : SecretIDStorageEntry) :
    LoginM Unit :=
  if roleSecretIDPrefix = "" then throw (.error "missing secret ID prefix")
  else if secretIDHMAC = "" then throw (.error "missing secret ID HMAC")
  else if roleNameHMAC = "" then throw (.error "missing role name HMAC")
  else storagePut put (entryIndex roleSecretIDPrefix roleNameHMAC secretIDHMAC) entry

/-- `nonLockedSecretIDStorageEntry`: the entry, upgraded and stored back if the upgrade
changed it. -/
def nonLockedSecretIDStorageEntry (read persist : Go Unit)
    (roleSecretIDPrefix roleNameHMAC secretIDHMAC : String) :
    LoginM (Option SecretIDStorageEntry) :=
  if secretIDHMAC = "" then throw (.error "missing secret ID HMAC")
  else if roleNameHMAC = "" then throw (.error "missing role name HMAC")
  else do
    lift read
    match (← get).secretIDs (entryIndex roleSecretIDPrefix roleNameHMAC secretIDHMAC) with
    | none => pure none
    | some entry =>
      let (result, persistNeeded) := upgradeSecretIDNumUses entry
      if persistNeeded then
        wrapErrorM "failed to upgrade role storage entry "
          (nonLockedSetSecretIDStorageEntry persist roleSecretIDPrefix roleNameHMAC secretIDHMAC
            result)
      pure (some result)

/-- `secretIDAccessorEntry`: the accessor entry, as the HMAC it holds. -/
def secretIDAccessorEntry (read : Go Unit) (secretIDAccessor : String) : LoginM (Option String) :=
  if secretIDAccessor = "" then throw (.error "missing secretIDAccessor")
  else do
    lift read
    pure ((← get).accessors secretIDAccessor)

/-- `deleteSecretIDAccessorEntry`. -/
def deleteSecretIDAccessorEntry (salt result : Go Unit) (secretIDAccessor : String) :
    LoginM Unit := do
  lift salt
  lift (wrapError "failed to delete accessor storage entry: " result)
  modify fun s => { s with accessors := Function.update s.accessors secretIDAccessor none }

/-- `createSecretIDAccessorEntry`: a fresh accessor, stored before the entry. -/
def createSecretIDAccessorEntry (env : RegisterEnv) (entry : SecretIDStorageEntry)
    (secretIDHMAC : String) : LoginM SecretIDStorageEntry := do
  let accessorUUID := String.ofList (← lift env.generateUUID).toList
  lift env.salt
  lift (wrapError "failed to persist accessor index entry: " env.putAccessor)
  modify fun s => { s with accessors := Function.update s.accessors accessorUUID (some secretIDHMAC) }
  pure { entry with secretIDAccessor := accessorUUID }

/-- The entry `handleRoleSecretIDCommon` registers for a new secret ID. -/
def newSecretIDStorageEntry (numUses : ℤ) (metadata : List (String × String)) :
    SecretIDStorageEntry :=
  ⟨"", numUses, metadata, 0⟩

/-- `registerSecretIDEntry`: the secret ID must be new, under both locks; its accessor is stored
first, then its entry. -/
def registerSecretIDEntry (mac : String → String → Vector Char 64) (env : RegisterEnv)
    (roleName secretID hmacKey roleSecretIDPrefix : String) (secretEntry : SecretIDStorageEntry) :
    LoginM SecretIDStorageEntry := do
  let secretIDHMAC ← lift (wrapError "failed to create HMAC of secret ID: " (createHMAC mac hmacKey secretID))
  let roleNameHMAC ← lift (wrapError "failed to create HMAC of role_name: " (createHMAC mac hmacKey roleName))
  match ← nonLockedSecretIDStorageEntry env.read env.upgrade roleSecretIDPrefix roleNameHMAC
      secretIDHMAC with
  | some _ => throw (.error "SecretID is already registered")
  | none =>
    match ← nonLockedSecretIDStorageEntry env.reread env.reupgrade roleSecretIDPrefix roleNameHMAC
        secretIDHMAC with
    | some _ => throw (.error "SecretID is already registered")
    | none =>
      let secretEntry ← createSecretIDAccessorEntry env secretEntry secretIDHMAC
      nonLockedSetSecretIDStorageEntry env.put roleSecretIDPrefix roleNameHMAC secretIDHMAC secretEntry
      pure secretEntry

/-! ## The login -/

section Login

variable (env : LoginEnv)

/-- The CIDR checks of the secret ID: `some` response ends the login. -/
def checkSecretIDCIDRs : LoginM (Option Response) := do
  match ← lift env.secretIDChecks with
  | some msg => pure (some (.errorResponse msg))
  | none => pure none

/-- The branch for an entry whose accessor is missing: under the write lock the entry and its
accessor are read again, and an entry whose accessor is still missing is deleted. -/
def revokeOrphan (roleSecretIDPrefix roleNameHMAC secretIDHMAC : String) : LoginM Response := do
  match ← nonLockedSecretIDStorageEntry env.rereadEntry env.reupgradeEntry roleSecretIDPrefix
      roleNameHMAC secretIDHMAC with
  | none => pure (.errorResponse "invalid secret id")
  | some entry =>
    let accessorEntry ← wrapErrorM "failed to read secret ID accessor entry: "
      (secretIDAccessorEntry env.rereadAccessor entry.secretIDAccessor)
    if accessorEntry = none then
      wrapErrorM ("error deleting secret ID " ++ goQuote secretIDHMAC ++ " from storage: ")
        (storageDelete env.deleteOrphan (entryIndex roleSecretIDPrefix roleNameHMAC secretIDHMAC))
    pure (.errorResponse "invalid secret id")

/-- The use of a secret ID with a use count, under the write lock: the entry is read again; its
last use deletes the accessor and then the entry, an earlier one stores the count one lower.
The entry is returned, or the response that ends the login. -/
def consumeUse (secretID roleSecretIDPrefix roleNameHMAC secretIDHMAC : String) :
    LoginM (Except Response SecretIDStorageEntry) := do
  match ← nonLockedSecretIDStorageEntry env.rereadEntry env.reupgradeEntry roleSecretIDPrefix
      roleNameHMAC secretIDHMAC with
  | none => pure (.error (.errorResponse ("invalid secret_id " ++ goQuote secretID)))
  | some entry =>
    if entry.secretIDNumUses = 1 then
      deleteSecretIDAccessorEntry env.saltAccessor env.deleteAccessor entry.secretIDAccessor
      wrapErrorM "failed to delete secret ID: "
        (storageDelete env.deleteEntry (entryIndex roleSecretIDPrefix roleNameHMAC secretIDHMAC))
      pure (.ok entry)
    else
      let entry := { entry with secretIDNumUses := entry.secretIDNumUses - 1 }
      storagePut env.putEntry (entryIndex roleSecretIDPrefix roleNameHMAC secretIDHMAC) entry
      pure (.ok entry)

/-- The CIDR checks after the secret ID's entry: its metadata, or the response that ends the
login. -/
def afterSecretIDChecks (entry : SecretIDStorageEntry) :
    LoginM (Except Response (List (String × String))) := do
  match ← checkSecretIDCIDRs env with
  | some r => pure (.error r)
  | none => pure (.ok entry.metadata)

/-- The secret ID part of `pathLoginUpdate`, for a role with `bind_secret_id`: the secret ID's
metadata, or the response that ends the login. -/
def validateSecretID (mac : String → String → Vector Char 64) (role : Role) (secretIDRaw : String) :
    LoginM (Except Response (List (String × String))) := do
  let secretID := trimSpace secretIDRaw
  if secretID = "" then pure (.error (.errorResponse "missing secret_id"))
  else do
    let secretIDHMAC ← lift (wrapError "failed to create HMAC of secret_id: "
      (createHMAC mac role.hmacKey secretID))
    let roleNameHMAC ← lift (wrapError "failed to create HMAC of role_name: "
      (createHMAC mac role.hmacKey role.name))
    match ← nonLockedSecretIDStorageEntry env.readEntry env.upgradeEntry role.secretIDPrefix
        roleNameHMAC secretIDHMAC with
    | none => pure (.error (.errorResponse "invalid secret id"))
    | some entry =>
      let accessorEntry ← wrapErrorM "failed to read secret ID accessor entry: "
        (secretIDAccessorEntry env.readAccessor entry.secretIDAccessor)
      if accessorEntry = none then
        .error <$> revokeOrphan env role.secretIDPrefix roleNameHMAC secretIDHMAC
      else if entry.secretIDNumUses = 0 then afterSecretIDChecks env entry
      else
        match ← consumeUse env secretID role.secretIDPrefix roleNameHMAC secretIDHMAC with
        | .error r => pure (.error r)
        | .ok entry => afterSecretIDChecks env entry

/-- `pathLoginUpdate`. -/
def pathLoginUpdate (mac : String → String → Vector Char 64) (roleIDRaw secretIDRaw : String) :
    LoginM Response := do
  let roleID := trimSpace roleIDRaw
  if roleID = "" then pure (.errorResponse "missing role_id")
  else do
    lift env.readRole
    match (← get).roles roleID with
    | none => pure (.errorResponse "invalid role ID")
    | some role =>
      let secret ← if role.bindSecretID then validateSecretID env mac role secretIDRaw
        else pure (.ok [])
      match secret with
      | .error r => pure r
      | .ok metadata =>
        match ← lift env.roleChecks with
        | some msg => pure (.errorResponse msg)
        | none => pure (.auth role.name (("role_name", role.name) :: metadata))

end Login

/-- Whether a login returned a response carrying an `Auth`. -/
def returnedAuth : EStateM.Result GoError Storage Response → Bool
  | .ok (.auth _ _) _ => true
  | _ => false

/-! ## What each call does to the storage -/

theorem ofList_vector_ne_empty {m : ℕ} (v : Vector Char (m + 1)) : String.ofList v.toList ≠ "" := by
  intro h
  have := congrArg String.length h
  simp at this

@[simp] theorem createHMAC_of_ne {mac : String → String → Vector Char 64} {key : String}
    (h : key ≠ "") (value : String) :
    createHMAC mac key value = .ok (String.ofList (mac key value).toList) := by
  simp [createHMAC, h]

/-- On an entry that needs no upgrade, the read writes nothing: it returns the entry, or the
read's error. -/
theorem nonLockedSecretIDStorageEntry_run {read persist : Go Unit} {p r h : String} {s : Storage}
    (hr : r ≠ "") (hh : h ≠ "")
    (hup : ∀ e, s.secretIDs (entryIndex p r h) = some e → e.secretIDNumUsesDeprecated = 0) :
    (nonLockedSecretIDStorageEntry read persist p r h).run s =
      (lift (read.map fun _ => s.secretIDs (entryIndex p r h))).run s := by
  rcases read with e | u
  · simp [nonLockedSecretIDStorageEntry, hr, hh, Except.map]
  · cases he : s.secretIDs (entryIndex p r h) with
    | none => simp [nonLockedSecretIDStorageEntry, hr, hh, Except.map, he]
    | some e => simp [nonLockedSecretIDStorageEntry, hr, hh, Except.map, he,
        upgradeSecretIDNumUses, hup e he]

theorem run_wrapErrorM {α : Type} (pre : String) (x : LoginM α) (s : Storage) :
    (wrapErrorM pre x).run s = match x.run s with
      | .error (.error msg) s' => .error (.error (pre ++ msg)) s'
      | r => r := rfl

@[simp] theorem run_storagePut_ok (u : Unit) (index : String) (entry : SecretIDStorageEntry)
    (s : Storage) : (storagePut (.ok u) index entry).run s =
      .ok () { s with secretIDs := Function.update s.secretIDs index (some entry) } := rfl

@[simp] theorem run_storagePut_error (e : GoError) (index : String) (entry : SecretIDStorageEntry)
    (s : Storage) : (storagePut (.error e) index entry).run s = .error e s := rfl

@[simp] theorem run_storageDelete_ok (u : Unit) (index : String) (s : Storage) :
    (storageDelete (.ok u) index).run s =
      .ok () { s with secretIDs := Function.update s.secretIDs index none } := rfl

@[simp] theorem run_storageDelete_error (e : GoError) (index : String) (s : Storage) :
    (storageDelete (.error e) index).run s = .error e s := rfl

/-- A read that found no entry wrote nothing. -/
theorem nonLockedSecretIDStorageEntry_eq_ok_none {read persist : Go Unit} {p r h : String}
    {s s' : Storage} (hrun : (nonLockedSecretIDStorageEntry read persist p r h).run s = .ok none s') :
    s' = s ∧ s.secretIDs (entryIndex p r h) = none := by
  by_cases hh : h = ""
  · simp [nonLockedSecretIDStorageEntry, hh] at hrun
  by_cases hr : r = ""
  · simp [nonLockedSecretIDStorageEntry, hh, hr] at hrun
  rcases read with e | u
  · simp [nonLockedSecretIDStorageEntry, hh, hr] at hrun
  cases he : s.secretIDs (entryIndex p r h) with
  | none =>
    simp [nonLockedSecretIDStorageEntry, hh, hr, he] at hrun
    exact ⟨hrun.symm, rfl⟩
  | some e =>
    -- a found entry is returned, upgraded or not
    simp [nonLockedSecretIDStorageEntry, hh, hr, he] at hrun
    split at hrun
    · rw [run_map] at hrun
      split at hrun <;> cases hrun
    · cases hrun

theorem secretIDAccessorEntry_run {read : Go Unit} {a : String} (ha : a ≠ "") (s : Storage) :
    (secretIDAccessorEntry read a).run s = (lift (read.map fun _ => s.accessors a)).run s := by
  rcases read with e | u <;> simp [secretIDAccessorEntry, ha, Except.map]

theorem createSecretIDAccessorEntry_eq_ok {env : RegisterEnv} {entry e : SecretIDStorageEntry}
    {secretIDHMAC : String} {s s' : Storage}
    (h : (createSecretIDAccessorEntry env entry secretIDHMAC).run s = .ok e s') :
    ∃ uuid : Vector Char 36, e = { entry with secretIDAccessor := String.ofList uuid.toList } ∧
      s' = { s with accessors :=
        Function.update s.accessors (String.ofList uuid.toList) (some secretIDHMAC) } := by
  rcases hu : env.generateUUID with err | uuid
  · simp [createSecretIDAccessorEntry, hu] at h
  rcases hs : env.salt with err | u
  · simp [createSecretIDAccessorEntry, hu, hs] at h
  rcases hp : env.putAccessor with err | v
  · rcases err with msg | msg <;> simp [createSecretIDAccessorEntry, hu, hs, hp, wrapError] at h
  simp [createSecretIDAccessorEntry, hu, hs, hp] at h
  exact ⟨uuid, h.1.symm, h.2.symm⟩

theorem nonLockedSetSecretIDStorageEntry_eq_ok {put : Go Unit} {p r h : String}
    {entry : SecretIDStorageEntry} {s s' : Storage} {u : Unit}
    (hrun : (nonLockedSetSecretIDStorageEntry put p r h entry).run s = .ok u s') :
    s' = { s with secretIDs := Function.update s.secretIDs (entryIndex p r h) (some entry) } := by
  unfold nonLockedSetSecretIDStorageEntry at hrun
  split_ifs at hrun
  · cases hrun
  · cases hrun
  · cases hrun
  rcases put with e | v
  · cases hrun
  · simp at hrun
    exact hrun.symm

/-- What a registration of a new secret ID leaves: its entry, with a fresh accessor stored beside
it. -/
theorem registerSecretIDEntry_ok {mac : String → String → Vector Char 64} {env : RegisterEnv}
    {roleName secretID hmacKey roleSecretIDPrefix : String} {numUses : ℤ}
    {metadata : List (String × String)} {s s' : Storage} {entry : SecretIDStorageEntry}
    (h : (registerSecretIDEntry mac env roleName secretID hmacKey roleSecretIDPrefix
      (newSecretIDStorageEntry numUses metadata)).run s = .ok entry s') :
    hmacKey ≠ "" ∧ entry = ⟨entry.secretIDAccessor, numUses, metadata, 0⟩ ∧
      entry.secretIDAccessor ≠ "" ∧ s'.roles = s.roles ∧
      s'.secretIDs (entryIndex roleSecretIDPrefix (String.ofList (mac hmacKey roleName).toList)
        (String.ofList (mac hmacKey secretID).toList)) = some entry ∧
      s'.accessors entry.secretIDAccessor ≠ none := by
  have hkey : hmacKey ≠ "" := by
    rintro rfl
    simp [registerSecretIDEntry, createHMAC, wrapError] at h
  simp [registerSecretIDEntry, hkey] at h
  -- both reads, under the read lock and the write lock, found nothing and wrote nothing
  rcases h₁ : (nonLockedSecretIDStorageEntry env.read env.upgrade roleSecretIDPrefix
      (String.ofList (mac hmacKey roleName).toList)
      (String.ofList (mac hmacKey secretID).toList)).run s with ⟨o₁, s₁⟩ | ⟨e, s₁⟩ <;>
    rw [h₁] at h
  · cases o₁ with
    | some _ => cases h
    | none =>
    obtain ⟨rfl, -⟩ := nonLockedSecretIDStorageEntry_eq_ok_none h₁
    dsimp only at h
    obtain ⟨o₂, s₂, h₂, h'⟩ := run_bind_ok.mp h
    cases o₂ with
    | some _ => cases h'
    | none =>
    obtain ⟨rfl, hnone⟩ := nonLockedSecretIDStorageEntry_eq_ok_none h₂
    dsimp only at h'
    -- the accessor is stored, then the entry
    obtain ⟨e₃, s₃, h₃, h''⟩ := run_bind_ok.mp h'
    obtain ⟨uuid, rfl, rfl⟩ := createSecretIDAccessorEntry_eq_ok h₃
    rw [run_map] at h''
    split at h''
    · rename_i u s₄ h₄
      obtain ⟨rfl, rfl⟩ := h''
      rw [nonLockedSetSecretIDStorageEntry_eq_ok h₄]
      simp [hkey, newSecretIDStorageEntry]
    · cases h''
  · cases h

/-! ## The storage of one secret ID -/

/-- Where `registerSecretIDEntry` stores the secret ID `secretID` of `role`. -/
def secretIDIndex (mac : String → String → Vector Char 64) (role : Role) (secretID : String) :
    String :=
  entryIndex role.secretIDPrefix (String.ofList (mac role.hmacKey role.name).toList)
    (String.ofList (mac role.hmacKey secretID).toList)

section Secret

variable (key acc : String) (n : ℕ) (md : List (String × String))

/-- The secret ID's storage after `k < n` spent uses: its entry, with `n - k` uses left, and its
accessor. -/
structure Unspent (k : ℕ) (s : Storage) : Prop where
  lt : k < n
  entry : s.secretIDs key = some ⟨acc, (n : ℤ) - k, md, 0⟩
  accessor : s.accessors acc ≠ none

/-- The secret ID's storage after its last use: the accessor is gone, and an entry left behind by
a failed delete is the secret ID's own. -/
structure Exhausted (s : Storage) : Prop where
  accessor : s.accessors acc = none
  entry : ∀ e, s.secretIDs key = some e →
    e.secretIDAccessor = acc ∧ e.secretIDNumUsesDeprecated = 0

/-- Whether a call spent a use of the secret ID: it stored its entry anew (with the count one
lower) or removed its accessor (the last use). Deleting an entry whose accessor is gone spends
nothing. -/
def spentUse (s s' : Storage) : Bool :=
  decide (s'.accessors acc ≠ s.accessors acc) ||
    decide (s'.secretIDs key ≠ s.secretIDs key ∧ (s'.secretIDs key).isSome)

/-- A call from `k` spent uses that spent the next one. -/
structure Spends (k : ℕ) (s s' : Storage) : Prop where
  spent : spentUse key acc s s' = true
  roles : s'.roles = s.roles
  next : Unspent key acc n md (k + 1) s' ∨ (k + 1 = n ∧ Exhausted key acc s')

/-- A call on the exhausted secret ID: it kept the storage, or deleted the entry left behind. -/
structure StaysExhausted (s s' : Storage) : Prop where
  roles : s'.roles = s.roles
  accessors : s'.accessors = s.accessors
  entry : s'.secretIDs = s.secretIDs ∨ s'.secretIDs = Function.update s.secretIDs key none

/-- How a call on the exhausted secret ID ends: in an error, or with the answer `invalid` once
the entry is gone. -/
def Rejected {α : Type} (invalid : α) : EStateM.Result GoError Storage α → Prop
  | .error _ _ => True
  | .ok a s' => a = invalid ∧ s'.secretIDs key = none

variable {key acc n md}

theorem spentUse_self (s : Storage) : spentUse key acc s s = false := by
  simp [spentUse]

/-- The secret ID's entry needs no upgrade of its count, with uses left or exhausted. -/
theorem Unspent.upgraded {k : ℕ} {s : Storage} (hU : Unspent key acc n md k s) :
    ∀ e, s.secretIDs key = some e → e.secretIDNumUsesDeprecated = 0 := by
  intro e he
  rw [hU.entry] at he
  cases he
  rfl

/-- With uses left, a read of the secret ID's entry finds it and writes nothing. -/
theorem Unspent.read_run {read : Go Unit} {p r h : String} {k : ℕ} {s : Storage} {u : Unit}
    (hU : Unspent (entryIndex p r h) acc n md k s) (hr : r ≠ "") (hh : h ≠ "")
    (hread : read = .ok u) (persist : Go Unit) :
    (nonLockedSecretIDStorageEntry read persist p r h).run s = .ok (some ⟨acc, n - k, md, 0⟩) s := by
  simp [nonLockedSecretIDStorageEntry_run hr hh hU.upgraded, hread, Except.map, hU.entry]

theorem Exhausted.upgraded {s : Storage} (hE : Exhausted key acc s) :
    ∀ e, s.secretIDs key = some e → e.secretIDNumUsesDeprecated = 0 :=
  fun e he => (hE.entry e he).2

/-- Storing the count one lower spends a use that was not the last. -/
theorem spends_put {k : ℕ} {s : Storage} (hU : Unspent key acc n md k s) (hlast : (n : ℤ) - k ≠ 1) :
    Spends key acc n md k s
      { s with secretIDs := Function.update s.secretIDs key (some ⟨acc, (n : ℤ) - k - 1, md, 0⟩) } := by
  have hlt := hU.lt
  refine ⟨?_, rfl, .inl ⟨by omega, ?_, hU.accessor⟩⟩
  · simp [spentUse, hU.entry]
  · simp only [Function.update_self]
    congr 2
    push_cast
    ring

/-- Deleting the accessor spends the last use, whether the entry's delete then fails or not. -/
theorem spends_deleteAccessor {k : ℕ} {s s' : Storage} (hU : Unspent key acc n md k s)
    (hlast : (n : ℤ) - k = 1) (hroles : s'.roles = s.roles)
    (haccessors : s'.accessors = Function.update s.accessors acc none)
    (hentry : s'.secretIDs = s.secretIDs ∨ s'.secretIDs = Function.update s.secretIDs key none) :
    Spends key acc n md k s s' := by
  have hlt := hU.lt
  refine ⟨?_, hroles, .inr ⟨by omega, by simp [haccessors], ?_⟩⟩
  · simp [spentUse, haccessors, Ne.symm hU.accessor]
  · intro e he
    rcases hentry with h | h
    · rw [h, hU.entry, Option.some.injEq] at he
      subst he
      exact ⟨rfl, rfl⟩
    · simp [h] at he

/-- `consumeUse` from `k` spent uses fails having written nothing, or spends the next use: it
stores the count one lower, or deletes the accessor of the last use and then the entry, and may
still fail after the accessor is gone. -/
theorem consumeUse_unspent (env : LoginEnv) (secretID : String) {p r h : String} {k : ℕ}
    {s : Storage} (hr : r ≠ "") (hh : h ≠ "") (hU : Unspent (entryIndex p r h) acc n md k s) :
    let res := (consumeUse env secretID p r h).run s
    (Result.state res = s ∧ ∀ a s', res ≠ .ok a s') ∨
      Spends (entryIndex p r h) acc n md k s (Result.state res) := by
  intro res
  have hup := hU.upgraded
  rcases hre : env.rereadEntry with e | u
  · -- the read under the write lock failed
    left
    simp [res, consumeUse, nonLockedSecretIDStorageEntry_run hr hh hup, hre, Except.map]
  have hfound := hU.read_run hr hh hre
  by_cases hlast : (n : ℤ) - k = 1
  · -- the last use: the accessor is deleted, then the entry
    rcases hsalt : env.saltAccessor with e | u
    · left
      simp [res, consumeUse, hfound, hlast, deleteSecretIDAccessorEntry, hsalt]
    rcases hdel : env.deleteAccessor with e | u
    · left
      rcases e with msg | msg <;>
        simp [res, consumeUse, hfound, hlast, deleteSecretIDAccessorEntry, hsalt, hdel, wrapError]
    right
    have hrun : res = ((wrapErrorM "failed to delete secret ID: "
          (storageDelete env.deleteEntry (entryIndex p r h))).run
          { s with accessors := Function.update s.accessors acc none }).map
          fun _ => .ok ⟨acc, 1, md, 0⟩ := by
      simp [res, consumeUse, hfound, hlast, deleteSecretIDAccessorEntry, hsalt, hdel]
    rcases hdelE : env.deleteEntry with e | u
    · -- the entry's delete failed after the accessor's: the entry is left behind
      refine spends_deleteAccessor hU hlast ?_ ?_ (.inl ?_) <;>
        rcases e with msg | msg <;> simp [hrun, hdelE, run_wrapErrorM]
    · refine spends_deleteAccessor hU hlast ?_ ?_ (.inr ?_) <;>
        simp [hrun, hdelE, run_wrapErrorM]
  · rcases hput : env.putEntry with e | u
    · left
      simp [res, consumeUse, hfound, hlast, storagePut, hput]
    · right
      convert spends_put hU hlast using 1
      simp [res, consumeUse, hfound, hlast, storagePut, hput]

/-- The CIDR checks after the entry write nothing. -/
theorem afterSecretIDChecks_state (env : LoginEnv) (entry : SecretIDStorageEntry) (s : Storage) :
    Result.state ((afterSecretIDChecks env entry).run s) = s := by
  rcases h : env.secretIDChecks with e | (_ | msg) <;>
    simp [afterSecretIDChecks, checkSecretIDCIDRs, h]

/-- The secret ID part of a login from `k` spent uses fails or answers with an error response
having written nothing, or spends the next use; only a login that spent one goes on. -/
theorem validateSecretID_unspent (env : LoginEnv) (mac : String → String → Vector Char 64)
    (role : Role) (secretIDRaw : String) {k : ℕ} {s : Storage} (hkey : role.hmacKey ≠ "")
    (hacc : acc ≠ "")
    (hU : Unspent (secretIDIndex mac role (trimSpace secretIDRaw)) acc n md k s) :
    let res := (validateSecretID env mac role secretIDRaw).run s
    (Result.state res = s ∧ ∀ a s', res = .ok a s' → ∃ msg, a = .error (.errorResponse msg)) ∨
      (trimSpace secretIDRaw ≠ "" ∧
        Spends (secretIDIndex mac role (trimSpace secretIDRaw)) acc n md k s (Result.state res)) := by
  intro res
  by_cases hsec : trimSpace secretIDRaw = ""
  · left
    simp [res, validateSecretID, hsec]
  have hrh := ofList_vector_ne_empty (mac role.hmacKey role.name)
  have hsh := ofList_vector_ne_empty (mac role.hmacKey (trimSpace secretIDRaw))
  -- the index, as the login computes it
  unfold secretIDIndex at hU ⊢
  have hup := hU.upgraded
  rcases hre : env.readEntry with e | u
  · left
    simp [res, validateSecretID, hsec, hkey, nonLockedSecretIDStorageEntry_run hrh hsh hup, hre,
      Except.map]
  have hfound := hU.read_run hrh hsh hre
  rcases hra : env.readAccessor with e | u
  · left
    rcases e with msg | msg <;>
      simp [res, validateSecretID, hsec, hkey, hfound, run_wrapErrorM,
        secretIDAccessorEntry_run hacc, hra, Except.map]
  -- the entry and its accessor were found, with uses left: the use is spent
  have hcount : (n : ℤ) - k ≠ 0 := by
    have := hU.lt
    omega
  have hres : res = (consumeUse env (trimSpace secretIDRaw) role.secretIDPrefix
      (String.ofList (mac role.hmacKey role.name).toList)
      (String.ofList (mac role.hmacKey (trimSpace secretIDRaw)).toList) >>= fun c =>
        match c with
        | .error r => pure (.error r)
        | .ok entry => afterSecretIDChecks env entry).run s := by
    simp [res, validateSecretID, hsec, hkey, hfound, run_wrapErrorM,
      secretIDAccessorEntry_run hacc, hra, Except.map, hU.accessor, hcount]
  have hcons := consumeUse_unspent env (trimSpace secretIDRaw) hrh hsh hU
  rw [hres, run_bind]
  rcases hc : (consumeUse env (trimSpace secretIDRaw) role.secretIDPrefix
      (String.ofList (mac role.hmacKey role.name).toList)
      (String.ofList (mac role.hmacKey (trimSpace secretIDRaw)).toList)).run s with
    ⟨c, s'⟩ | ⟨err, s'⟩
  · rw [hc] at hcons
    rcases hcons with ⟨-, hnot⟩ | hspend
    · exact absurd rfl (hnot c s')
    right
    refine ⟨hsec, ?_⟩
    rcases c with r | entry
    · exact hspend
    · dsimp only
      rw [afterSecretIDChecks_state]
      exact hspend
  · rw [hc] at hcons
    rcases hcons with ⟨hs, -⟩ | hspend
    · left
      simpa using hs
    · exact .inr ⟨hsec, hspend⟩

theorem StaysExhausted.refl (s : Storage) : StaysExhausted key s s := ⟨rfl, rfl, .inl rfl⟩

theorem StaysExhausted.exhausted {s s' : Storage} (h : StaysExhausted key s s')
    (hE : Exhausted key acc s) : Exhausted key acc s' := by
  refine ⟨by rw [h.accessors]; exact hE.accessor, ?_⟩
  intro e he
  rcases h.entry with h' | h'
  · rw [h'] at he
    exact hE.entry e he
  · simp [h'] at he

theorem StaysExhausted.spentUse_eq_false {s s' : Storage} (h : StaysExhausted key s s') :
    spentUse key acc s s' = false := by
  rcases h.entry with h' | h' <;> simp [spentUse, h.accessors, h']

/-- Revoking an entry whose accessor is gone ends in an error, or in `invalid secret id` with the
entry deleted. -/
theorem revokeOrphan_exhausted (env : LoginEnv) {p r h : String} {s : Storage} (hr : r ≠ "")
    (hh : h ≠ "") (hacc : acc ≠ "") (hE : Exhausted (entryIndex p r h) acc s) :
    let res := (revokeOrphan env p r h).run s
    StaysExhausted (entryIndex p r h) s (Result.state res) ∧
      Rejected (entryIndex p r h) (.errorResponse "invalid secret id") res := by
  intro res
  have hup := hE.upgraded
  rcases hre : env.rereadEntry with e | u
  · simp [res, revokeOrphan, nonLockedSecretIDStorageEntry_run hr hh hup, hre, Except.map,
      Rejected, StaysExhausted.refl]
  cases hs : s.secretIDs (entryIndex p r h) with
  | none =>
    simp [res, revokeOrphan, nonLockedSecretIDStorageEntry_run hr hh hup, hre, Except.map, hs,
      Rejected, StaysExhausted.refl]
  | some e =>
    -- the entry left behind: its accessor is read again, and it is gone
    have he := (hE.entry e hs).1
    rcases hra : env.rereadAccessor with err | v
    · rcases err with msg | msg <;>
        simp [res, revokeOrphan, nonLockedSecretIDStorageEntry_run hr hh hup, hre, Except.map, hs,
          he, run_wrapErrorM, secretIDAccessorEntry_run hacc, hra, Rejected, StaysExhausted.refl]
    rcases hdel : env.deleteOrphan with err | w
    · rcases err with msg | msg <;>
        simp [res, revokeOrphan, nonLockedSecretIDStorageEntry_run hr hh hup, hre, Except.map, hs,
          he, run_wrapErrorM, secretIDAccessorEntry_run hacc, hra, hE.accessor, hdel, Rejected,
          StaysExhausted.refl]
    · simp [res, revokeOrphan, nonLockedSecretIDStorageEntry_run hr hh hup, hre, Except.map, hs,
        he, run_wrapErrorM, secretIDAccessorEntry_run hacc, hra, hE.accessor, hdel, Rejected]
      exact ⟨rfl, rfl, .inr rfl⟩

/-- The secret ID part of a login on the exhausted secret ID ends in an error, or in
`invalid secret id` with the entry gone. -/
theorem validateSecretID_exhausted (env : LoginEnv) (mac : String → String → Vector Char 64)
    (role : Role) (secretIDRaw : String) {s : Storage} (hkey : role.hmacKey ≠ "") (hacc : acc ≠ "")
    (hsec : trimSpace secretIDRaw ≠ "")
    (hE : Exhausted (secretIDIndex mac role (trimSpace secretIDRaw)) acc s) :
    let res := (validateSecretID env mac role secretIDRaw).run s
    StaysExhausted (secretIDIndex mac role (trimSpace secretIDRaw)) s (Result.state res) ∧
      Rejected (secretIDIndex mac role (trimSpace secretIDRaw))
        (.error (.errorResponse "invalid secret id")) res := by
  intro res
  have hrh := ofList_vector_ne_empty (mac role.hmacKey role.name)
  have hsh := ofList_vector_ne_empty (mac role.hmacKey (trimSpace secretIDRaw))
  unfold secretIDIndex at hE ⊢
  have hup := hE.upgraded
  rcases hre : env.readEntry with e | u
  · simp [res, validateSecretID, hsec, hkey, nonLockedSecretIDStorageEntry_run hrh hsh hup, hre,
      Except.map, Rejected, StaysExhausted.refl]
  cases hs : s.secretIDs (entryIndex role.secretIDPrefix
      (String.ofList (mac role.hmacKey role.name).toList)
      (String.ofList (mac role.hmacKey (trimSpace secretIDRaw)).toList)) with
  | none =>
    simp [res, validateSecretID, hsec, hkey, nonLockedSecretIDStorageEntry_run hrh hsh hup, hre,
      Except.map, hs, Rejected, StaysExhausted.refl]
  | some e =>
    have he := (hE.entry e hs).1
    rcases hra : env.readAccessor with err | v
    · rcases err with msg | msg <;>
        simp [res, validateSecretID, hsec, hkey, nonLockedSecretIDStorageEntry_run hrh hsh hup,
          hre, Except.map, hs, he, run_wrapErrorM, secretIDAccessorEntry_run hacc, hra, Rejected,
          StaysExhausted.refl]
    -- the accessor is gone: the entry left behind is revoked
    have hres : res = (Except.error <$> revokeOrphan env role.secretIDPrefix
        (String.ofList (mac role.hmacKey role.name).toList)
        (String.ofList (mac role.hmacKey (trimSpace secretIDRaw)).toList)).run s := by
      simp [res, validateSecretID, hsec, hkey, nonLockedSecretIDStorageEntry_run hrh hsh hup,
        hre, Except.map, hs, he, run_wrapErrorM, secretIDAccessorEntry_run hacc, hra, hE.accessor]
    have hrev := revokeOrphan_exhausted env hrh hsh hacc hE
    rw [hres, run_map]
    rcases hr : (revokeOrphan env role.secretIDPrefix
        (String.ofList (mac role.hmacKey role.name).toList)
        (String.ofList (mac role.hmacKey (trimSpace secretIDRaw)).toList)).run s with
      ⟨a, s'⟩ | ⟨err, s'⟩ <;> rw [hr] at hrev
    · obtain ⟨hst, rfl, hnone⟩ := hrev
      exact ⟨hst, rfl, hnone⟩
    · exact ⟨hrev.1, trivial⟩

/-- Past a role found with `bind_secret_id`, a login is the secret ID's validation followed by
the role's own checks. -/
theorem pathLoginUpdate_run_bound (env : LoginEnv) (mac : String → String → Vector Char 64)
    (roleIDRaw secretIDRaw : String) {role : Role} {s : Storage} {u : Unit}
    (hid : trimSpace roleIDRaw ≠ "") (hread : env.readRole = .ok u)
    (hrole : s.roles (trimSpace roleIDRaw) = some role) (hbind : role.bindSecretID = true) :
    (pathLoginUpdate env mac roleIDRaw secretIDRaw).run s =
      (validateSecretID env mac role secretIDRaw >>= fun secret =>
        match secret with
        | .error r => pure r
        | .ok metadata => do
          match ← lift env.roleChecks with
          | some msg => pure (.errorResponse msg)
          | none => pure (.auth role.name (("role_name", role.name) :: metadata))).run s := by
  simp [pathLoginUpdate, hid, hread, hrole, hbind]

/-- A login from `k` spent uses, presenting the role's ID and the secret ID: it returns no `Auth`
and writes nothing, or it spends the next use. -/
theorem pathLoginUpdate_unspent (env : LoginEnv) (mac : String → String → Vector Char 64)
    (roleIDRaw secretIDRaw : String) {role : Role} {k : ℕ} {s : Storage}
    (hrole : s.roles (trimSpace roleIDRaw) = some role) (hbind : role.bindSecretID = true)
    (hkey : role.hmacKey ≠ "") (hacc : acc ≠ "")
    (hU : Unspent (secretIDIndex mac role (trimSpace secretIDRaw)) acc n md k s) :
    let res := (pathLoginUpdate env mac roleIDRaw secretIDRaw).run s
    (Result.state res = s ∧ returnedAuth res = false) ∨
      (trimSpace roleIDRaw ≠ "" ∧ trimSpace secretIDRaw ≠ "" ∧
        Spends (secretIDIndex mac role (trimSpace secretIDRaw)) acc n md k s (Result.state res)) := by
  intro res
  by_cases hid : trimSpace roleIDRaw = ""
  · left
    simp [res, pathLoginUpdate, hid, returnedAuth]
  rcases hread : env.readRole with e | u
  · left
    simp [res, pathLoginUpdate, hid, hread, returnedAuth]
  have hres : res = _ := pathLoginUpdate_run_bound env mac roleIDRaw secretIDRaw hid hread hrole hbind
  have hv := validateSecretID_unspent env mac role secretIDRaw hkey hacc hU
  rw [hres, run_bind]
  rcases hc : (validateSecretID env mac role secretIDRaw).run s with ⟨c, s'⟩ | ⟨err, s'⟩ <;>
    rw [hc] at hv
  · rcases hv with ⟨hs, hrej⟩ | ⟨hsec, hspend⟩
    · -- rejected: the answer is the error response
      obtain ⟨msg, rfl⟩ := hrej c s' rfl
      exact .inl ⟨hs, rfl⟩
    · right
      refine ⟨hid, hsec, ?_⟩
      rcases c with r | metadata
      · exact hspend
      · rcases hchk : env.roleChecks with e | (_ | msg) <;> simpa [hchk] using hspend
  · rcases hv with ⟨hs, -⟩ | ⟨hsec, hspend⟩
    · exact .inl ⟨hs, rfl⟩
    · exact .inr ⟨hid, hsec, hspend⟩

/-- A login on the exhausted secret ID ends in an error, or in `invalid secret id` with the
entry gone. -/
theorem pathLoginUpdate_exhausted (env : LoginEnv) (mac : String → String → Vector Char 64)
    (roleIDRaw secretIDRaw : String) {role : Role} {s : Storage}
    (hrole : s.roles (trimSpace roleIDRaw) = some role) (hbind : role.bindSecretID = true)
    (hkey : role.hmacKey ≠ "") (hacc : acc ≠ "") (hid : trimSpace roleIDRaw ≠ "")
    (hsec : trimSpace secretIDRaw ≠ "")
    (hE : Exhausted (secretIDIndex mac role (trimSpace secretIDRaw)) acc s) :
    let res := (pathLoginUpdate env mac roleIDRaw secretIDRaw).run s
    StaysExhausted (secretIDIndex mac role (trimSpace secretIDRaw)) s (Result.state res) ∧
      Rejected (secretIDIndex mac role (trimSpace secretIDRaw))
        (.errorResponse "invalid secret id") res := by
  intro res
  rcases hread : env.readRole with e | u
  · simp [res, pathLoginUpdate, hid, hread, Rejected, StaysExhausted.refl]
  have hres : res = _ := pathLoginUpdate_run_bound env mac roleIDRaw secretIDRaw hid hread hrole hbind
  have hv := validateSecretID_exhausted env mac role secretIDRaw hkey hacc hsec hE
  rw [hres, run_bind]
  rcases hc : (validateSecretID env mac role secretIDRaw).run s with ⟨c, s'⟩ | ⟨err, s'⟩ <;>
    rw [hc] at hv
  · obtain ⟨hst, rfl, hnone⟩ := hv
    exact ⟨hst, rfl, hnone⟩
  · exact ⟨hv.1, trivial⟩

theorem returnedAuth_of_rejected {res : EStateM.Result GoError Storage Response}
    (h : Rejected key (.errorResponse "invalid secret id") res) : returnedAuth res = false := by
  rcases res with ⟨r, s'⟩ | ⟨e, s'⟩
  · obtain ⟨rfl, -⟩ := h
    rfl
  · rfl

end Secret

/-! ## Runs of logins -/

/-- A run of logins on one secret ID: the storage, the logins that returned an `Auth`, and the
uses spent. -/
structure World where
  storage : Storage
  auths : ℕ
  spent : ℕ

section Run

variable (mac : String → String → Vector Char 64) (roleIDRaw secretIDRaw key acc : String)

/-- One login presenting `roleIDRaw` and `secretIDRaw`, counted against the secret ID stored at
`key` with the accessor `acc`. -/
def World.step (w : World) (env : LoginEnv) : World :=
  let res := (pathLoginUpdate env mac roleIDRaw secretIDRaw).run w.storage
  { storage := Result.state res
    auths := w.auths + if returnedAuth res then 1 else 0
    spent := w.spent + if spentUse key acc w.storage (Result.state res) then 1 else 0 }

/-- A run of logins, each with its own outcomes of the calls outside the secret-ID tables. -/
def World.run (w : World) (envs : List LoginEnv) : World :=
  envs.foldl (World.step mac roleIDRaw secretIDRaw key acc) w

variable (role : Role) (n : ℕ) (md : List (String × String))

/-- The invariant of a run of logins on the secret ID of `role` registered with `n` uses: no more
`Auth`s than uses spent, and the storage holds the uses left, or the secret ID is exhausted. -/
structure UsesInv (w : World) : Prop where
  roles : w.storage.roles (trimSpace roleIDRaw) = some role
  auths_le : w.auths ≤ w.spent
  state : Unspent key acc n md w.spent w.storage ∨
    (w.spent = n ∧ trimSpace roleIDRaw ≠ "" ∧ trimSpace secretIDRaw ≠ "" ∧
      Exhausted key acc w.storage)

variable {mac roleIDRaw secretIDRaw acc role n md}

section Inv

variable (hbind : role.bindSecretID = true) (hkey : role.hmacKey ≠ "") (hacc : acc ≠ "")
include hbind hkey hacc

/-- Every login keeps the invariant. -/
theorem UsesInv.step {w : World}
    (h : UsesInv roleIDRaw secretIDRaw (secretIDIndex mac role (trimSpace secretIDRaw)) acc role n md w)
    (env : LoginEnv) :
    UsesInv roleIDRaw secretIDRaw (secretIDIndex mac role (trimSpace secretIDRaw)) acc role n md
      (w.step mac roleIDRaw secretIDRaw (secretIDIndex mac role (trimSpace secretIDRaw)) acc env) := by
  rcases h.state with hU | ⟨hn, hid, hsec, hE⟩
  · rcases pathLoginUpdate_unspent env mac roleIDRaw secretIDRaw h.roles hbind hkey hacc hU with
      ⟨hs, hauth⟩ | ⟨hid, hsec, hsp⟩
    · -- nothing written and no `Auth`: the world is as it was
      simpa [World.step, hs, hauth, spentUse_self] using h
    · -- the next use is spent, and at most one `Auth` returned
      have hle := h.auths_le
      refine ⟨by simpa [World.step, hsp.roles] using h.roles, ?_, ?_⟩
      · simp only [World.step, hsp.spent, if_true]
        split <;> omega
      · simp only [World.step, hsp.spent, if_true]
        rcases hsp.next with hU' | ⟨hn', hE'⟩
        · exact .inl hU'
        · exact .inr ⟨hn', hid, hsec, hE'⟩
  · -- exhausted: every login is rejected, and spends nothing
    obtain ⟨hst, hrej⟩ := pathLoginUpdate_exhausted env mac roleIDRaw secretIDRaw h.roles hbind hkey
      hacc hid hsec hE
    have hspent : spentUse (secretIDIndex mac role (trimSpace secretIDRaw)) acc w.storage
        (Result.state ((pathLoginUpdate env mac roleIDRaw secretIDRaw).run w.storage)) = false :=
      hst.spentUse_eq_false
    refine ⟨by simpa [World.step, hst.roles] using h.roles, ?_, ?_⟩
    · simpa [World.step, returnedAuth_of_rejected hrej, hspent] using h.auths_le
    · simp only [World.step, returnedAuth_of_rejected hrej, hspent]
      exact .inr ⟨by simpa using hn, hid, hsec, hst.exhausted hE⟩

theorem UsesInv.run {w : World}
    (h : UsesInv roleIDRaw secretIDRaw (secretIDIndex mac role (trimSpace secretIDRaw)) acc role n md w)
    (envs : List LoginEnv) :
    UsesInv roleIDRaw secretIDRaw (secretIDIndex mac role (trimSpace secretIDRaw)) acc role n md
      (w.run mac roleIDRaw secretIDRaw (secretIDIndex mac role (trimSpace secretIDRaw)) acc envs) := by
  induction envs generalizing w with
  | nil => exact h
  | cons env envs ih => exact ih (h.step hbind hkey hacc env)

end Inv

/-- The world just after `registerSecretIDEntry` stored the secret ID. -/
theorem usesInv_registered {mac : String → String → Vector Char 64} {env : RegisterEnv}
    {role : Role} {roleIDRaw secretIDRaw : String} {n : ℕ} {metadata : List (String × String)}
    {s₀ s₁ : Storage} {entry : SecretIDStorageEntry} (hn : 1 ≤ n)
    (hrole : s₀.roles (trimSpace roleIDRaw) = some role)
    (hreg : (registerSecretIDEntry mac env role.name (trimSpace secretIDRaw) role.hmacKey
      role.secretIDPrefix (newSecretIDStorageEntry n metadata)).run s₀ = .ok entry s₁) :
    role.hmacKey ≠ "" ∧ entry.secretIDAccessor ≠ "" ∧
      UsesInv roleIDRaw secretIDRaw (secretIDIndex mac role (trimSpace secretIDRaw))
        entry.secretIDAccessor role n metadata ⟨s₁, 0, 0⟩ := by
  obtain ⟨hkey, hentry, hacc, hroles, hstored, haccessor⟩ := registerSecretIDEntry_ok hreg
  refine ⟨hkey, hacc, ⟨by rw [hroles]; exact hrole, le_rfl, .inl ⟨hn, ?_, haccessor⟩⟩⟩
  change s₁.secretIDs (entryIndex role.secretIDPrefix _ _) = _
  rw [hstored, hentry]
  simp

end Run

/-- A secret ID registered with `n ≥ 1` uses, over any run of logins presenting the role's ID and
the secret ID: at most `n` logins return an `Auth`; while fewer than `n` uses are spent, the stored
count, after the upgrade on read, is `n` less the uses spent, and the accessor is stored; once `n`
are spent, every further login fails with the error of a failed call, or answers
`invalid secret id` with the entry and its accessor gone. -/
theorem secretID_uses_enforced (mac : String → String → Vector Char 64) (env : RegisterEnv)
    (role : Role) (roleIDRaw secretIDRaw secretID : String) (n : ℕ)
    (metadata : List (String × String)) {s₀ s₁ : Storage} {entry : SecretIDStorageEntry}
    (hbind : role.bindSecretID = true) (hn : 1 ≤ n) (htrim : trimSpace secretIDRaw = secretID)
    (hrole : s₀.roles (trimSpace roleIDRaw) = some role)
    (hreg : (registerSecretIDEntry mac env role.name secretID role.hmacKey role.secretIDPrefix
      (newSecretIDStorageEntry n metadata)).run s₀ = .ok entry s₁)
    (envs : List LoginEnv) :
    let key := secretIDIndex mac role secretID
    let w := World.run mac roleIDRaw secretIDRaw key entry.secretIDAccessor ⟨s₁, 0, 0⟩ envs
    w.auths ≤ n ∧
      (w.spent < n → ∃ e, w.storage.secretIDs key = some e ∧
        (upgradeSecretIDNumUses e).1.secretIDNumUses = n - w.spent ∧
        w.storage.accessors entry.secretIDAccessor ≠ none) ∧
      (n ≤ w.spent → ∀ env : LoginEnv,
        let res := (pathLoginUpdate env mac roleIDRaw secretIDRaw).run w.storage
        (∃ err, res = .error err (Result.state res)) ∨
          (res = .ok (.errorResponse "invalid secret id") (Result.state res) ∧
            (Result.state res).secretIDs key = none ∧
            (Result.state res).accessors entry.secretIDAccessor = none)) := by
  subst htrim
  intro key w
  obtain ⟨hkey, hacc, h0⟩ := usesInv_registered hn hrole hreg
  have hinv : UsesInv roleIDRaw secretIDRaw key entry.secretIDAccessor role n metadata w :=
    h0.run hbind hkey hacc envs
  have hle : w.spent ≤ n := by
    rcases hinv.state with hU | ⟨hn', -⟩
    · exact hU.lt.le
    · exact hn'.le
  refine ⟨hinv.auths_le.trans hle, ?_, ?_⟩
  · intro hlt
    rcases hinv.state with hU | ⟨hn', -⟩
    · exact ⟨_, hU.entry, by simp [upgradeSecretIDNumUses], hU.accessor⟩
    · omega
  · intro hge env
    rcases hinv.state with hU | ⟨-, hid, hsec, hE⟩
    · exact absurd hU.lt (by omega)
    -- the secret ID is exhausted: the login is rejected
    obtain ⟨hst, hrej⟩ := pathLoginUpdate_exhausted env mac roleIDRaw secretIDRaw hinv.roles hbind
      hkey hacc hid hsec hE
    rcases hres : (pathLoginUpdate env mac roleIDRaw secretIDRaw).run w.storage with
      ⟨r, s'⟩ | ⟨err, s'⟩ <;> rw [hres] at hst hrej
    · obtain ⟨rfl, hnone⟩ := hrej
      exact .inr ⟨rfl, hnone, by rw [hst.accessors]; exact hE.accessor⟩
    · exact .inl ⟨err, rfl⟩

/-- A role with `bind_secret_id`, under an HMAC that ignores its input. -/
def sampleRole : Role := ⟨"web", true, "hmac-key", "secret_id/"⟩

def sampleMac (_ _ : String) : Vector Char 64 := Vector.replicate 64 'a'

/-- The storage before the secret ID is registered: the role, found by `role-id`. -/
def sampleStorage : Storage :=
  ⟨fun roleID => if roleID = "role-id" then some sampleRole else none, fun _ => none, fun _ => none⟩

/-- Every call of the registration succeeds. -/
def sampleRegisterEnv : RegisterEnv :=
  ⟨.ok (), .ok (), .ok (), .ok (), .ok (Vector.replicate 36 'u'), .ok (), .ok (), .ok ()⟩

/-- The entry registered with `n` uses, and the storage that holds it. -/
def sampleEntry (n : ℤ) : SecretIDStorageEntry :=
  ⟨String.ofList (Vector.replicate 36 'u').toList, n, [], 0⟩

def sampleRegistered (n : ℤ) : Storage :=
  { { sampleStorage with
      accessors := Function.update sampleStorage.accessors (sampleEntry n).secretIDAccessor
        (some (String.ofList (sampleMac "hmac-key" "s3cret").toList)) } with
    secretIDs := Function.update sampleStorage.secretIDs
      (secretIDIndex sampleMac sampleRole "s3cret") (some (sampleEntry n)) }

/-- Every call of a login succeeds, and every check passes. -/
def liveLoginEnv : LoginEnv :=
  ⟨.ok (), .ok (), .ok (), .ok (), .ok (), .ok (), .ok (), .ok (), .ok (), .ok (), .ok (), .ok (),
    .ok none, .ok none⟩

/-- Three logins with a secret ID of two uses. -/
theorem secretID_uses_enforced_sample :
    let key := secretIDIndex sampleMac sampleRole "s3cret"
    let w := World.run sampleMac "role-id" "s3cret" key (sampleEntry 2).secretIDAccessor
      ⟨sampleRegistered 2, 0, 0⟩ [liveLoginEnv, liveLoginEnv, liveLoginEnv]
    w.auths ≤ 2 ∧
      (w.spent < 2 → ∃ e, w.storage.secretIDs key = some e ∧
        (upgradeSecretIDNumUses e).1.secretIDNumUses = ((2 : ℕ) : ℤ) - w.spent ∧
        w.storage.accessors (sampleEntry 2).secretIDAccessor ≠ none) ∧
      (2 ≤ w.spent → ∀ env : LoginEnv,
        let res := (pathLoginUpdate env sampleMac "role-id" "s3cret").run w.storage
        (∃ err, res = .error err (Result.state res)) ∨
          (res = .ok (.errorResponse "invalid secret id") (Result.state res) ∧
            (Result.state res).secretIDs key = none ∧
            (Result.state res).accessors (sampleEntry 2).secretIDAccessor = none)) :=
  secretID_uses_enforced sampleMac sampleRegisterEnv sampleRole "role-id" "s3cret" "s3cret" 2 []
    rfl (by norm_num) rfl (show sampleStorage.roles (trimSpace "role-id") = some sampleRole from rfl)
    rfl _

/-- With one use, the login after the one that spent it, when its read of the role fails, answers
no response at all: it does not answer `invalid secret id`. -/
theorem secretID_exhausted_login_fails :
    let w := World.run sampleMac "role-id" "s3cret" (secretIDIndex sampleMac sampleRole "s3cret")
      (sampleEntry 1).secretIDAccessor ⟨sampleRegistered 1, 0, 0⟩ [liveLoginEnv]
    w.auths = 1 ∧ w.spent = 1 ∧
      (pathLoginUpdate { liveLoginEnv with readRole := .error (.error "storage unavailable") }
        sampleMac "role-id" "s3cret").run w.storage =
        .error (.error "storage unavailable") w.storage :=
  ⟨rfl, rfl, rfl⟩

end Vault.Approle
