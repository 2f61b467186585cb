import Vault.Lib.GoRuntime
import Vault.Lib.GoStrings
import Vault.Helper.Strutil

/-!
# Entity aliases in the identity store

An alias ties an entity to a name under a mount accessor. MemDB holds the aliases in a table
whose `factors` index is unique on the accessor and the name, the name lowercased unless
`disableLowerCasedNames`; the entities table holds each entity with the list of its aliases.

`handleAliasCreateUpdate` creates an alias or updates one found by ID or by factors.
`handleAliasUpdate` renames, moves to another entity (`canonical_id`), or both, and then writes
the entity back through `upsertEntityInTxn`. That function checks each alias of the entity
against the alias the committed factors index holds: one tied to another entity makes the entity
absorb that other entity (`mergeEntity`), and the function returns there, before the alias
itself is written.

Before a rename, `handleAliasUpdate` looks for an alias already under the new factors, but it
refuses one only when its name differs up to case from the new name. The index found it by that
name, lowercased or exact, so the check never refuses
(`checkExistingAlias_of_memDBAliasByFactors`). A rename onto the factors of another entity's
alias then merges that entity into the renamed alias's entity and leaves the alias table with
the old name (`rename_onto_used_factors`).

The namespace checks are left out (one namespace), as are timestamps, metadata, MFA secrets,
the merge bookkeeping fields and storage persistence.
-/

namespace Vault.Identity

open GoRuntime GoStrings Vault.Helper

/-- `identity.Alias` of an entity: its ID, its entity's ID (`CanonicalID`) and its factors. -/
structure Alias where
  id : String
  canonicalID : String
  mountAccessor : String
  name : String
deriving DecidableEq, Repr

/-- `identity.Entity`: its ID, its aliases and its policies. -/
structure Entity where
  id : String
  aliases : List Alias
  policies : List String
deriving DecidableEq, Repr

/-- A mount as `router.MatchingMountByAccessor` returns it: its accessor and `Local`. -/
structure MountEntry where
  accessor : String
  isLocal : Bool
deriving DecidableEq, Repr

/-- MemDB's entity alias and entity tables. -/
structure Tables where
  aliases : List Alias
  entities : List Entity
deriving DecidableEq, Repr

/-- What the alias requests read of `IdentityStore`: the name setting, the mounts, and the
committed MemDB tables. -/
structure IdentityStore where
  disableLowerCasedNames : Bool
  mounts : List MountEntry
  db : Tables
deriving DecidableEq, Repr

/-! ## MemDB -/

namespace IdentityStore

variable (i : IdentityStore)

/-- `sanitizeName`: names as the store compares them. -/
def sanitizeName (name : String) : String :=
  if i.disableLowerCasedNames then name else toLower name

/-- `MemDBAliasByID`. -/
def memDBAliasByID (aliasID : String) : Go (Option Alias) :=
  if aliasID = "" then .error (.error "missing alias ID")
  else .ok (i.db.aliases.find? (·.id == aliasID))

/-- `MemDBAliasByFactors`: the `factors` index compares names after `sanitizeName`. -/
def memDBAliasByFactors (mountAccessor aliasName : String) : Go (Option Alias) :=
  if aliasName = "" then .error (.error "missing alias name")
  else if mountAccessor = "" then .error (.error "missing mount accessor")
  else .ok (i.db.aliases.find? fun a =>
    a.mountAccessor == mountAccessor && i.sanitizeName a.name == i.sanitizeName aliasName)

/-- `MemDBEntityByID`. -/
def memDBEntityByID (entityID : String) : Go (Option Entity) :=
  if entityID = "" then .error (.error "missing entity id")
  else .ok (i.db.entities.find? (·.id == entityID))

/-- `MemDBEntityByAliasID`: the entity of the alias's `CanonicalID`. -/
def memDBEntityByAliasID (aliasID : String) : Go (Option Entity) :=
  if aliasID = "" then .error (.error "missing alias ID")
  else
    match i.memDBAliasByID aliasID with
    | .error err => .error err
    | .ok none => .ok none
    | .ok (some entityAlias) => i.memDBEntityByID entityAlias.canonicalID

/-- `router.MatchingMountByAccessor`. -/
def matchingMountByAccessor (mountAccessor : String) : Option MountEntry :=
  i.mounts.find? (·.accessor == mountAccessor)

end IdentityStore

namespace Tables

/-- `MemDBUpsertAliasInTxn`: the alias replaces the one of its ID. -/
def upsertAlias (txn : Tables) (entityAlias : Alias) : Tables :=
  { txn with aliases := entityAlias :: txn.aliases.filter (·.id != entityAlias.id) }

/-- `MemDBUpsertEntityInTxn`: the entity replaces the one of its ID. -/
def upsertEntity (txn : Tables) (entity : Entity) : Tables :=
  { txn with entities := entity :: txn.entities.filter (·.id != entity.id) }

/-- `MemDBDeleteEntityByIDInTxn`. -/
def deleteEntityByID (txn : Tables) (entityID : String) : Tables :=
  if entityID = "" then txn
  else { txn with entities := txn.entities.filter (·.id != entityID) }

end Tables

/-! ## `mergeEntity` and `upsertEntityInTxn` -/

namespace IdentityStore

variable (i : IdentityStore)

/-- The checks both loops of `mergeEntity` make of an entity to merge from. -/
def fromEntity (toEntity : Entity) (fromEntityID : String) : Go Entity :=
  if fromEntityID = toEntity.id then
    .error (.error "to_entity_id should not be present in from_entity_ids")
  else someOr "entity id to merge from is invalid" (i.memDBEntityByID fromEntityID)

/-- One turn of the second loop of `mergeEntity`: the aliases of the entity merged from move to
`toEntity`, its policies join when `mergePolicies`, and it is deleted. -/
def mergeFrom (mergePolicies : Bool) (acc : Entity × Tables) (fromEntityID : String) :
    Go (Entity × Tables) := do
  let (toEntity, txn) := acc
  let fromEntity ← i.fromEntity toEntity fromEntityID
  let aliases := fromEntity.aliases.map fun entityAlias =>
    { entityAlias with canonicalID := toEntity.id }
  let toEntity := { toEntity with
    aliases := toEntity.aliases ++ aliases
    policies :=
      if mergePolicies then mergeSlices toEntity.policies fromEntity.policies
      else toEntity.policies }
  pure (toEntity, (aliases.foldl Tables.upsertAlias txn).deleteEntityByID fromEntity.id)

/-- `mergeEntity`: the first loop (over MFA secrets) only checks the entities; the second
merges them into `toEntity`, which is written last. -/
def mergeEntity (txn : Tables) (toEntity : Entity) (fromEntityIDs : List String)
    (mergePolicies : Bool) : Go Tables := do
  fromEntityIDs.forM fun fromEntityID => do
    let _ ← i.fromEntity toEntity fromEntityID
  let (toEntity, txn) ← fromEntityIDs.foldlM (i.mergeFrom mergePolicies) (toEntity, txn)
  pure (txn.upsertEntity toEntity)

/-- The `switch` of `upsertEntityInTxn` on the alias the factors index holds: the entity to
merge from, when that alias is tied to another entity (the `default` case, reached too by the
`fallthrough` while the previous entity still lists the alias). -/
def mergeFromID (entity : Entity) (previousEntity : Option Entity) (entityAlias : Alias) :
    Option Alias → Option String
  | none => none
  | some aliasByFactors =>
    if aliasByFactors.canonicalID = entity.id then none
    else
      match previousEntity with
      | some previousEntity =>
        if aliasByFactors.canonicalID = previousEntity.id ∧
            !previousEntity.aliases.any (·.id == entityAlias.id) then none
        else some aliasByFactors.canonicalID
      | none => some aliasByFactors.canonicalID

/-- The loop of `upsertEntityInTxn` over the entity's aliases from position `idx` on, with
the factors written so far (`aliasFactors`, made with one empty string per alias); after the
loop the previous entity and the entity are written. A merge ends the function. -/
def upsertAliases (entity : Entity) (previousEntity : Option Entity) :
    List Alias → ℕ → List String → Tables → Go Tables
  | [], _, _, txn =>
    let txn := match previousEntity with
      | some previousEntity => txn.upsertEntity previousEntity
      | none => txn
    .ok (txn.upsertEntity entity)
  | entityAlias :: rest, idx, aliasFactors, txn =>
    match i.memDBAliasByFactors entityAlias.mountAccessor entityAlias.name with
    | .error err => .error err
    | .ok aliasByFactors =>
      match mergeFromID entity previousEntity entityAlias aliasByFactors with
      | some fromEntityID => i.mergeEntity txn entity [fromEntityID] true
      | none =>
        let factors := i.sanitizeName entityAlias.name ++ entityAlias.mountAccessor
        -- a duplicate is only logged when names are not lowercased
        if aliasFactors.contains factors && !i.disableLowerCasedNames then
          .error (.error "duplicate identity name")
        else
          upsertAliases entity previousEntity rest (idx + 1) (aliasFactors.set idx factors)
            (txn.upsertAlias entityAlias)

/-- `upsertEntityInTxn`. -/
def upsertEntityInTxn (txn : Tables) (entity : Entity) (previousEntity : Option Entity) :
    Go Tables :=
  i.upsertAliases entity previousEntity entity.aliases 0
    (List.replicate entity.aliases.length "") txn

/-- `upsertEntity`: one transaction over the committed tables, committed when it succeeds. -/
def upsertEntity (entity : Entity) (previousEntity : Option Entity) : Go IdentityStore := do
  let txn ← i.upsertEntityInTxn i.db entity previousEntity
  pure { i with db := txn }

/-! ## The alias handlers -/

/-- The checks of the mount behind an accessor; `field` is how each handler names the accessor
in its message for a local mount. -/
def checkMountAccessor (mountAccessor field : String) : Go Unit :=
  match i.matchingMountByAccessor mountAccessor with
  | none => .error (.error ("invalid mount accessor " ++ goQuote mountAccessor))
  | some mountEntry =>
    if mountEntry.isLocal then
      .error (.error (field ++ " " ++ goQuote mountAccessor ++ " is of a local mount"))
    else .ok ()

end IdentityStore

/-- The check of `handleAliasUpdate` on the alias found under the new factors: it bails unless
the names are equal up to case. -/
def checkExistingAlias (existingAlias : Option Alias) (name : String) : Go Unit :=
  match existingAlias with
  | some existingAlias =>
    if !equalFold existingAlias.name name then
      .error (.error "alias with combination of mount accessor and name already exists")
    else .ok ()
  | none => .ok ()

namespace IdentityStore

variable (i : IdentityStore)

/-- `handleAliasUpdate` of `alias` (a copy of the stored one) to the given name, accessor and
entity. -/
def handleAliasUpdate (canonicalID name mountAccessor : String) (entityAlias : Alias) :
    Go IdentityStore := do
  if name = entityAlias.name ∧ mountAccessor = entityAlias.mountAccessor ∧
      (canonicalID = entityAlias.canonicalID ∨ canonicalID = "") then
    return i
  let entityAlias ← if name ≠ entityAlias.name ∨ mountAccessor ≠ entityAlias.mountAccessor then do
      i.checkMountAccessor mountAccessor "mount_accessor"
      let existingAlias ← i.memDBAliasByFactors mountAccessor name
      checkExistingAlias existingAlias name
      pure { entityAlias with name, mountAccessor }
    else pure entityAlias
  let currentEntity ← someOr "given alias is not associated with an entity"
    (i.memDBEntityByAliasID entityAlias.id)
  if canonicalID ≠ "" ∧ canonicalID ≠ entityAlias.canonicalID then
    let newEntity ← someOr "given \x27canonical_id\x27 is not associated with an entity"
      (i.memDBEntityByID canonicalID)
    -- the alias moves from its current entity to the new one
    let entityAlias := { entityAlias with canonicalID := newEntity.id }
    let newEntity := { newEntity with aliases := newEntity.aliases ++ [entityAlias] }
    let currentEntity := { currentEntity with
      aliases := currentEntity.aliases.eraseP (·.id == entityAlias.id) }
    i.upsertEntity newEntity (some currentEntity)
  else
    let currentEntity := { currentEntity with
      aliases := currentEntity.aliases.set
        (currentEntity.aliases.findIdx (·.id == entityAlias.id)) entityAlias }
    i.upsertEntity currentEntity none

/-- `handleAliasCreate`, with the IDs `uuid.GenerateUUID` gives a new entity and the alias;
`sanitizeAlias` refuses an alias without entity or name. -/
def handleAliasCreate (canonicalID name mountAccessor newEntityID newAliasID : String) :
    Go IdentityStore := do
  let entity ← if canonicalID ≠ "" then
      someOr "invalid canonical ID" (i.memDBEntityByID canonicalID)
    else pure ⟨newEntityID, [], []⟩
  if entity.id = "" then .error (.error "missing canonical ID")
  else if name = "" then .error (.error ("missing alias name " ++ goQuote name))
  else
    let entityAlias : Alias := ⟨newAliasID, entity.id, mountAccessor, name⟩
    i.upsertEntity { entity with aliases := entity.aliases ++ [entityAlias] } none

end IdentityStore

/-- A request to `identity/entity-alias`: its fields, and the IDs a creation would generate. -/
structure AliasRequest where
  name : String
  mountAccessor : String
  id : String
  canonicalID : String
  entityID : String
  newEntityID : String
  newAliasID : String

namespace IdentityStore

variable (i : IdentityStore)

/-- `handleAliasCreateUpdate`: an update of the alias given by ID, with the fields left empty
taken from it; otherwise, by factors, an update of the alias under them or a creation. -/
def handleAliasCreateUpdate (req : AliasRequest) : Go IdentityStore :=
  -- `entity_id` for backwards compatibility
  let canonicalID := if req.canonicalID = "" then req.entityID else req.canonicalID
  if req.id ≠ "" then
    match someOr "invalid alias ID provided" (i.memDBAliasByID req.id) with
    | .error err => .error err
    | .ok entityAlias =>
      if req.mountAccessor = "" ∧ req.name = "" then
        if canonicalID = "" then .ok i
        else i.handleAliasUpdate canonicalID entityAlias.name entityAlias.mountAccessor entityAlias
      else if req.mountAccessor = "" then
        i.handleAliasUpdate canonicalID req.name entityAlias.mountAccessor entityAlias
      else if req.name = "" then
        i.handleAliasUpdate canonicalID entityAlias.name req.mountAccessor entityAlias
      else i.handleAliasUpdate canonicalID req.name req.mountAccessor entityAlias
  else if req.mountAccessor = "" ∨ req.name = "" then
    .error (.error "\x27id\x27 or \x27mount_accessor\x27 and \x27name\x27 must be provided")
  else do
    i.checkMountAccessor req.mountAccessor "mount accessor"
    match ← i.memDBAliasByFactors req.mountAccessor req.name with
    | some entityAlias =>
      i.handleAliasUpdate entityAlias.canonicalID req.name req.mountAccessor entityAlias
    | none =>
      i.handleAliasCreate canonicalID req.name req.mountAccessor req.newEntityID req.newAliasID

end IdentityStore

/-- Requests one after the other; a failed one leaves the store. -/
def IdentityStore.runAliasRequests (i : IdentityStore) : List AliasRequest → IdentityStore
  | [] => i
  | req :: reqs =>
    (match i.handleAliasCreateUpdate req with
      | .ok i' => i'
      | .error _ => i).runAliasRequests reqs

/-! ## The rename check -/

section RenameCheck

variable {i : IdentityStore}

theorem toLower_eq_of_sanitizeName_eq {a b : String} (h : i.sanitizeName a = i.sanitizeName b) :
    toLower a = toLower b := by
  unfold IdentityStore.sanitizeName at h
  split_ifs at h
  · rw [h]
  · exact h

/-- The alias the factors index returns has the accessor and, after `sanitizeName`, the name it
was asked for. -/
theorem factors_of_memDBAliasByFactors {mountAccessor name : String} {found : Alias}
    (h : i.memDBAliasByFactors mountAccessor name = .ok (some found)) :
    found.mountAccessor = mountAccessor ∧ i.sanitizeName found.name = i.sanitizeName name := by
  unfold IdentityStore.memDBAliasByFactors at h
  split_ifs at h
  have hfind := List.find?_some (Except.ok.inj h)
  simpa using hfind

/-- `handleAliasUpdate` never refuses a rename for an alias already under the new factors:
whatever the index finds there has the new name up to case. -/
theorem checkExistingAlias_of_memDBAliasByFactors {mountAccessor name : String}
    {existingAlias : Option Alias}
    (h : i.memDBAliasByFactors mountAccessor name = .ok existingAlias) :
    checkExistingAlias existingAlias name = .ok () := by
  cases existingAlias with
  | none => rfl
  | some found =>
    have hname := (factors_of_memDBAliasByFactors h).2
    have hfold : equalFold found.name name = true :=
      equalFold_of_toLower_eq (toLower_eq_of_sanitizeName_eq hname)
    simp [checkExistingAlias, hfold]

/-- Renaming an alias onto the factors of another alias. With lowercased names (first run), the
entity of the other alias is merged into the renamed alias's entity and deleted, and the alias
table keeps the old name; with `disableLowerCasedNames` (second run), two aliases of one entity
end up under the same factors. -/
theorem rename_onto_used_factors :
    (IdentityStore.runAliasRequests ⟨false, [⟨"m", false⟩], ⟨[], []⟩⟩
        [⟨"bob", "m", "", "", "", "e1", "a1"⟩, ⟨"alice", "m", "", "", "", "e2", "a2"⟩]).db =
      ⟨[⟨"a2", "e2", "m", "alice"⟩, ⟨"a1", "e1", "m", "bob"⟩],
        [⟨"e2", [⟨"a2", "e2", "m", "alice"⟩], []⟩, ⟨"e1", [⟨"a1", "e1", "m", "bob"⟩], []⟩]⟩ ∧
    (IdentityStore.runAliasRequests ⟨false, [⟨"m", false⟩], ⟨[], []⟩⟩
        [⟨"bob", "m", "", "", "", "e1", "a1"⟩, ⟨"alice", "m", "", "", "", "e2", "a2"⟩,
          ⟨"bob", "", "a2", "", "", "", ""⟩]).db =
      ⟨[⟨"a1", "e2", "m", "bob"⟩, ⟨"a2", "e2", "m", "alice"⟩],
        [⟨"e2", [⟨"a2", "e2", "m", "bob"⟩, ⟨"a1", "e2", "m", "bob"⟩], []⟩]⟩ ∧
    (IdentityStore.runAliasRequests ⟨true, [⟨"m", false⟩], ⟨[], []⟩⟩
        [⟨"bob", "m", "", "", "", "e1", "a1"⟩, ⟨"alice", "m", "", "e1", "", "", "a2"⟩,
          ⟨"bob", "", "a2", "", "", "", ""⟩]).db =
      ⟨[⟨"a2", "e1", "m", "bob"⟩, ⟨"a1", "e1", "m", "bob"⟩],
        [⟨"e1", [⟨"a1", "e1", "m", "bob"⟩, ⟨"a2", "e1", "m", "bob"⟩], []⟩]⟩ := by
  refine ⟨?_, ?_, ?_⟩ <;> decide

end RenameCheck

end Vault.Identity
