import Vault.Lib.GoRuntime
import Vault.Lib.GoStrings
import Vault.Lib.StateFrame
import Vault.Token.Batch

/-!
# The token store: looking a token up and using it

`TokenStore` keeps each service token as a JSON entry under its salted ID. `lookupInternal`
reads the entry, hides it while its `NumUses` is negative (a token whose last use is spent and
whose revocation is pending) unless tainted entries are asked for, upgrades the fields of the
entry's older JSON form and checks the token's lease. `UseToken` spends one use of a token
with restricted uses: it reads the entry again under the token's lock and stores `NumUses` one
lower, or `tokenRevocationPending` for the last use.

What the calls outside the storage do (the namespace lookups, `SaltID`, the JSON codec, the
storage's own failures and the expiration manager) is given by an `Env` for each call. The
storage is keyed by token ID: `SaltID` maps IDs one to one onto storage keys.
-/

namespace Vault.Token

open GoRuntime GoStrings StateFrame

/-- `tokenRevocationPending`: the `NumUses` of a token whose last use is spent. -/
def tokenRevocationPending : ℤ := -1

/-- `controlGroupPolicyName`. -/
def controlGroupPolicyName : String := "control-group"

/-- `logical.TokenTypeDefault`. -/
def tokenTypeDefault : TokenType := 0

/-- `logical.TokenTypeService`. -/
def tokenTypeService : TokenType := 1

/-- `logical.TokenTypeBatch`. -/
def tokenTypeBatch : TokenType := 2

/-- `logical.TokenTypeDefaultService`. -/
def tokenTypeDefaultService : TokenType := 3

/-- `logical.TokenTypeDefaultBatch`. -/
def tokenTypeDefaultBatch : TokenType := 4

/-- `logical.TokenEntry` as the token store keeps it in JSON, with the fields of its older form
(`DisplayName`, `NumUses`, `CreationTime` and `ExplicitMaxTTL` under their old JSON names). -/
structure StoredEntry (Addr : Type) extends TokenEntry Addr where
  displayNameDeprecated : String
  numUsesDeprecated : ℤ
  creationTimeDeprecated : ℤ
  explicitMaxTTLDeprecated : ℤ
deriving DecidableEq, Repr

/-- What `FetchLeaseTimesByToken` finds: no lease, or one whose `ExpireTime` is not yet past,
or is past. -/
inductive LeaseTimes where
  | noLease
  | unexpired
  | expired
deriving DecidableEq, Repr

/-- How the calls of one token store method outside its storage end. -/
structure Env (Addr : Type) where
  /-- `lookupBatchToken`, for an ID with the `b.` prefix. -/
  lookupBatchToken : Go (Option (StoredEntry Addr))
  /-- The namespace lookup, `SaltID`, the storage read and the JSON decoding of the entry. -/
  read : Go Unit
  /-- `FetchLeaseTimesByToken` (a nil expiration manager is its error). -/
  fetchLeaseTimes : Go LeaseTimes
  /-- `CreateOrFetchRevocationLeaseByToken` and `Revoke` of a token with no lease. -/
  revoke : Go Unit
  /-- `ts.store` of the upgraded fields in `lookupInternal`, before its write. -/
  persist : Go Unit
  /-- `ts.store` of the used entry in `UseToken`, before its write. -/
  store : Go Unit

/-- The storage: the entry under each token ID. -/
abbrev Store (Addr : Type) := String → Option (StoredEntry Addr)

/-- A token store method: its result or error, and the storage it leaves either way. -/
abbrev TokenM (Addr : Type) := EStateM GoError (Store Addr)

variable {Addr : Type}

/-! ## Helpers -/

/-- A call outside the storage. -/
def liftGo {α : Type} (x : Go α) : TokenM Addr α := fun s =>
  match x with
  | .ok a => .ok a s
  | .error e => .error e s

/-- `fmt.Errorf(pre + "%w", err)` around a method: what it wrote stays written. -/
def wrapErrorM {α : Type} (pre : String) (x : TokenM Addr α) : TokenM Addr α := fun s =>
  match x s with
  | .error (.error msg) s' => .error (.error (pre ++ msg)) s'
  | r => r

/-- `ts.store` (`storeCommon` with no secondary index): `put` is how the calls before the
write end. -/
def store (put : Go Unit) (entry : StoredEntry Addr) : TokenM Addr Unit := do
  liftGo put
  modify fun s => Function.update s entry.id (some entry)

/-- The token's revocation: when it returns, the entry is gone. -/
def revokeToken (result : Go Unit) (id : String) : TokenM Addr Unit := do
  liftGo result
  modify fun s => Function.update s id none

/-! ## `lookupInternal` -/

/-- The upgrade of one field of the older form: a set old value fills the field if that is
unset, and the entry then needs a store. -/
def upgradeField {α : Type} [DecidableEq α] (zero field deprecated : α) : α × Bool :=
  if deprecated ≠ zero then (if field = zero then deprecated else field, true) else (field, false)

/-- The upgrade of `NumUsesDeprecated`, which also wins when it is the lower count. -/
def upgradeNumUses (numUses numUsesDeprecated : ℤ) : ℤ × Bool :=
  if numUsesDeprecated ≠ 0 then
    (if numUses = 0 ∨ numUsesDeprecated < numUses then numUsesDeprecated else numUses, true)
  else (numUses, false)

/-- What `lookupInternal` makes of an entry it read: the namespace and type defaults, the fields
of the older form moved over and cleared, and whether that needs a store. -/
def upgrade (raw : StoredEntry Addr) : StoredEntry Addr × Bool :=
  let (displayName, p₁) := upgradeField "" raw.displayName raw.displayNameDeprecated
  let (creationTime, p₂) := upgradeField 0 raw.creationTime raw.creationTimeDeprecated
  let (explicitMaxTTL, p₃) := upgradeField 0 raw.explicitMaxTTL raw.explicitMaxTTLDeprecated
  let (numUses, p₄) := upgradeNumUses raw.numUses raw.numUsesDeprecated
  ({ raw with
      namespaceID := if raw.namespaceID = "" then rootNamespaceID else raw.namespaceID
      type := if raw.type = tokenTypeDefault then tokenTypeService else raw.type
      displayName := displayName
      creationTime := creationTime
      explicitMaxTTL := explicitMaxTTL
      numUses := numUses
      displayNameDeprecated := ""
      numUsesDeprecated := 0
      creationTimeDeprecated := 0
      explicitMaxTTLDeprecated := 0 },
    p₁ || p₂ || p₃ || p₄)

/-- `lookupInternal` of an unsalted ID. -/
def lookupInternal (env : Env Addr) (id : String) (tainted : Bool) :
    TokenM Addr (Option (StoredEntry Addr)) := do
  if 2 < len id ∧ hasPrefix id "b." then return ← liftGo env.lookupBatchToken
  liftGo env.read
  let some raw := (← get) id | return none
  -- awaiting its deferred revocation
  if raw.numUses < 0 ∧ tainted = false then return none
  let (entry, persistNeeded) := upgrade raw
  let ret ←
    -- a root token with no TTL never expires: no lease is checked
    if entry.policies = ["root"] ∧ entry.ttl = 0 then pure (some entry)
    else
      match ← liftGo (wrapError "failed to fetch lease times: " env.fetchLeaseTimes) with
      | .noLease => do
        -- an expiring token with no lease is revoked on the spot
        revokeToken env.revoke entry.id
        pure none
      | .unexpired => pure (some entry)
      | .expired => pure (if tainted then some entry else none)
  if persistNeeded then
    store (wrapError "failed to persist token upgrade: " env.persist) entry
  return ret

/-- `Lookup`. -/
def lookup (env : Env Addr) (id : String) : TokenM Addr (Option (StoredEntry Addr)) := do
  if id = "" then throw (.error "cannot lookup blank token")
  if 2 < len id ∧ hasPrefix id "b." then return ← liftGo env.lookupBatchToken
  lookupInternal env id false

/-! ## `UseToken` -/

/-- `UseToken` of a non-nil entry, the token's lock held. -/
def useToken (env : Env Addr) (te : StoredEntry Addr) : TokenM Addr (Option (StoredEntry Addr)) := do
  -- restricted uses go from 1 to -1, never to 0
  if te.numUses = 0 then return some te
  -- a control group request does not use the token
  if te.policies = [controlGroupPolicyName] then return some te
  let some te ← wrapErrorM "failed to refresh entry: " (lookupInternal env te.id false)
    | throw (.error "token not found or fully used already")
  let te := { te with
    numUses := if te.numUses = 1 then tokenRevocationPending else te.numUses - 1 }
  store env.store te
  return some te

/-! ## What a call does to a stored token -/

section Spec

@[simp] theorem run_liftGo_ok {α : Type} (a : α) (s : Store Addr) :
    (liftGo (.ok a : Go α)).run s = .ok a s := rfl

@[simp] theorem run_liftGo_error {α : Type} (e : GoError) (s : Store Addr) :
    (liftGo (.error e : Go α)).run s = .error e s := rfl

/-- The fields of the older form are unset, as `upgrade` leaves them. -/
def StoredEntry.Upgraded (e : StoredEntry Addr) : Prop :=
  e.displayNameDeprecated = "" ∧ e.numUsesDeprecated = 0 ∧ e.creationTimeDeprecated = 0 ∧
    e.explicitMaxTTLDeprecated = 0

@[simp] theorem upgrade_id (raw : StoredEntry Addr) : (upgrade raw).1.id = raw.id := rfl

@[simp] theorem upgrade_policies (raw : StoredEntry Addr) :
    (upgrade raw).1.policies = raw.policies := rfl

theorem upgraded_upgrade (raw : StoredEntry Addr) : (upgrade raw).1.Upgraded := by
  simp [upgrade, StoredEntry.Upgraded]

/-- An upgraded entry needs no store, and keeps its count. -/
theorem upgrade_of_upgraded {raw : StoredEntry Addr} (h : raw.Upgraded) :
    (upgrade raw).2 = false ∧ (upgrade raw).1.numUses = raw.numUses := by
  obtain ⟨h₁, h₂, h₃, h₄⟩ := h
  simp [upgrade, upgradeField, upgradeNumUses, h₁, h₂, h₃, h₄]

/-- The entry under `id`, if any, is the token `id`'s, upgraded. -/
def StoredUpgraded (id : String) (s : Store Addr) : Prop :=
  ∀ e, s id = some e → e.id = id ∧ e.Upgraded

/-- A call that returned no entry, and left the storage as it was or without the token `id`. -/
def Misses (id : String) (s : Store Addr)
    (r : EStateM.Result GoError (Store Addr) (Option (StoredEntry Addr))) : Prop :=
  (∀ e s', r ≠ .ok (some e) s') ∧ (Result.state r = s ∨ Result.state r = Function.update s id none)

theorem misses_none {id : String} {s : Store Addr} : Misses id s (.ok none s) := by
  simp [Misses]

/-- A revocation deletes the token or fails with the storage kept. -/
theorem revokeToken_state (result : Go Unit) (id : String) (s : Store Addr) :
    Result.state ((revokeToken result id).run s) = s ∨
      Result.state ((revokeToken result id).run s) = Function.update s id none := by
  rcases result with e | ⟨⟩
  · left
    rfl
  · right
    rfl

section Lookup

variable (env : Env Addr) {id : String} {s : Store Addr}

/-- What `lookupInternal` of a service token does, the stored entry upgraded: it finds no
entry, and keeps the storage or revokes the token; or it finds the entry of a token whose
uses are not spent, and returns it upgraded, the storage kept. -/
theorem lookupInternal_cases (hid : ¬(2 < len id ∧ hasPrefix id "b." = true))
    (hslot : StoredUpgraded id s) :
    Misses id s ((lookupInternal env id false).run s) ∨
      ∃ e, s id = some e ∧ 0 ≤ e.numUses ∧
        (lookupInternal env id false).run s = .ok (some (upgrade e).1) s := by
  unfold lookupInternal
  simp only [hid, if_false]
  rcases hread : env.read with e | ⟨⟩
  · left
    simp [Misses]
  cases hs : s id with
  | none =>
    left
    simp [Misses, hs]
  | some raw =>
    obtain ⟨hrid, hup⟩ := hslot raw hs
    have hp := (upgrade_of_upgraded hup).1
    simp [hs, hp]
    split_ifs with hneg hroot
    · exact .inl misses_none
    · exact .inr ⟨not_lt.mp hneg, rfl⟩
    · -- the lease check
      rcases hlease : env.fetchLeaseTimes with (msg | msg) | lt
      · left
        simp [Misses, wrapError]
      · left
        simp [Misses, wrapError]
      · cases lt with
        | noLease =>
          left
          rcases hrev : env.revoke with e | ⟨⟩
          · simp [Misses, revokeToken]
          · simp [Misses, revokeToken, hrid]
        | unexpired => exact .inr ⟨not_lt.mp hneg, by simp⟩
        | expired =>
          left
          simp [Misses]

theorem lookup_cases (hid : ¬(2 < len id ∧ hasPrefix id "b." = true))
    (hslot : StoredUpgraded id s) :
    Misses id s ((lookup env id).run s) ∨
      ∃ e, s id = some e ∧ 0 ≤ e.numUses ∧ (lookup env id).run s = .ok (some (upgrade e).1) s := by
  by_cases hblank : id = ""
  · left
    simp [lookup, hblank, Misses]
  · have heq : lookup env id = lookupInternal env id false := by
      simp [lookup, hblank, hid]
    rw [heq]
    exact lookupInternal_cases env hid hslot

end Lookup

section Use

variable (env : Env Addr) {s : Store Addr}

/-- The entry `UseToken` stores for the stored entry `e`: upgraded, with one use fewer, or
`tokenRevocationPending` after the last. -/
def spentEntry (e : StoredEntry Addr) : StoredEntry Addr :=
  { (upgrade e).1 with
    numUses := if (upgrade e).1.numUses = 1 then tokenRevocationPending
      else (upgrade e).1.numUses - 1 }

@[simp] theorem spentEntry_id (e : StoredEntry Addr) : (spentEntry e).id = e.id := rfl

@[simp] theorem spentEntry_policies (e : StoredEntry Addr) :
    (spentEntry e).policies = e.policies := rfl

theorem upgraded_spentEntry (e : StoredEntry Addr) : (spentEntry e).Upgraded :=
  upgraded_upgrade e

theorem spentEntry_numUses {e : StoredEntry Addr} (h : e.Upgraded) :
    (spentEntry e).numUses = if e.numUses = 1 then tokenRevocationPending else e.numUses - 1 := by
  simp [spentEntry, (upgrade_of_upgraded h).2]

theorem run_wrapErrorM_of_ok {α : Type} {pre : String} {x : TokenM Addr α} {a : α}
    {s' : Store Addr} (h : x.run s = .ok a s') : (wrapErrorM pre x).run s = .ok a s' := by
  simp only [EStateM.run, wrapErrorM] at h ⊢
  rw [h]

theorem run_wrapErrorM_of_error {α : Type} {pre : String} {x : TokenM Addr α} {e : GoError}
    {s' : Store Addr} (h : x.run s = .error e s') :
    ∃ e', (wrapErrorM pre x).run s = .error e' s' := by
  simp only [EStateM.run, wrapErrorM] at h ⊢
  rw [h]
  rcases e with msg | msg <;> simp

/-- What `UseToken` does with an entry of a service token that is not a control group's and
has restricted uses: it finds no entry, and keeps the storage or revokes the token; or it finds
the stored entry of a token whose uses are not spent, and stores and returns it spent once. -/
theorem useToken_cases {te : StoredEntry Addr} (hzero : te.numUses ≠ 0)
    (hcg : te.policies ≠ [controlGroupPolicyName])
    (hid : ¬(2 < len te.id ∧ hasPrefix te.id "b." = true)) (hslot : StoredUpgraded te.id s) :
    Misses te.id s ((useToken env te).run s) ∨
      ∃ e, s te.id = some e ∧ 0 ≤ e.numUses ∧
        (useToken env te).run s =
          .ok (some (spentEntry e)) (Function.update s te.id (some (spentEntry e))) := by
  unfold useToken
  simp only [hzero, hcg, if_false]
  rw [run_bind]
  rcases lookupInternal_cases env hid hslot with ⟨hnone, hstate⟩ | ⟨e, hs, hnn, hrun⟩
  · -- the refresh found nothing: `UseToken` fails where the refresh left the storage
    left
    rcases hr : (lookupInternal env te.id false).run s with ⟨o, s'⟩ | ⟨err, s'⟩
    · cases o with
      | some e => exact absurd hr (hnone e s')
      | none =>
        rw [hr] at hstate
        rw [run_wrapErrorM_of_ok hr]
        simpa [Misses] using hstate
    · rw [hr] at hstate
      obtain ⟨err', hw⟩ := run_wrapErrorM_of_error hr
      rw [hw]
      simpa [Misses] using hstate
  · -- the refresh found the entry: the spent entry is stored under the token's ID
    have hkey : e.id = te.id := (hslot e hs).1
    rw [run_wrapErrorM_of_ok hrun]
    rcases hput : env.store with err | ⟨⟩
    · left
      simp [Misses, store]
    · right
      refine ⟨e, hs, hnn, ?_⟩
      simp [store, spentEntry, hkey]

end Use

end Spec

end Vault.Token
