import Vault.Token.Store
import Vault.Framework.Lease

/-!
# Creating a token: `handleCreateCommon`

`TokenStore.handleCreateCommon` serves `auth/token/create`, `create-orphan` and the role
endpoints. From the parent token, the decoded request, the role and whether the client holds
sudo on the path, it decides the new token's type, policies, parent, entity, uses and
lifetimes, and hands the entry to `TokenStore.create`. The model's result is that entry, with
what the response reports beside it.

What a created token may hold (`PoliciesGranted`): no internal policy; `root` only when the
parent holds `root`, and never on a batch token; within a role's allowed and outside its
disallowed policies when the role restricts policies; and otherwise, for a client without sudo
creating in the parent's namespace, within the parent's policies (`default` apart, which it may
get when the parent has it). The fields only sudo may set are the token's ID, its period, its
namespace when it differs from the parent's, and a missing parent outside roles and
`create-orphan`. A token without a TTL is a root token of a parent without one.

Two checks are weaker than their messages. The one against `root` policies across namespaces
reads the request before `SanitizePolicies` lowercases it, so `ROOT` passes it and the token
gets `root`. The batch token check is a Go `switch` that tests only the first of
`explicit_max_ttl`, `num_uses` and `period` that is set: an `explicit_max_ttl` of `0` lets a
batch token have uses or a period.

The library functions, the clock, the mount's TTLs and the identity store come in a
`CreateEnv`. `SanitizePolicies` lowercases the slice it is given in place, and the check
against a `root` parent reads the parent's slice after that; `sanitizeInPlace` is what the
slice holds then.
-/

namespace Vault.Token

open GoRuntime GoStrings MachineArith Vault.Helper Vault.Framework

variable {Addr : Type}

/-! ## The data the handler reads -/

/-- `responseWrappingPolicyName`. -/
def responseWrappingPolicyName : String := "response-wrapping"

/-- `nonAssignablePolicies`: internal policies that no token may be given. -/
def nonAssignablePolicies : List String := [responseWrappingPolicyName, controlGroupPolicyName]

/-- `logical.TokenType.String()`, which panics on a type it does not know. -/
def tokenTypeString (t : TokenType) : Go String :=
  if t = tokenTypeDefault then pure "default"
  else if t = tokenTypeService then pure "service"
  else if t = tokenTypeBatch then pure "batch"
  else if t = tokenTypeDefaultService then pure "default-service"
  else if t = tokenTypeDefaultBatch then pure "default-batch"
  else throw (.panic "unreachable")

/-- `tsRoleEntry`, with the fields of its embedded `tokenutil.TokenParams` that token creation
reads. -/
structure TsRoleEntry (Addr : Type) where
  name : String
  allowedPolicies : List String
  disallowedPolicies : List String
  orphan : Bool
  pathSuffix : String
  renewable : Bool
  allowedEntityAliases : List String
  tokenBoundCIDRs : List Addr
  tokenExplicitMaxTTL : ℤ
  tokenNoDefaultPolicy : Bool
  tokenNumUses : ℤ
  tokenPeriod : ℤ
  tokenType : TokenType
deriving DecidableEq, Repr

/-- The role sets its own policy rules: it has allowed or disallowed policies. -/
def TsRoleEntry.restrictsPolicies (role : TsRoleEntry Addr) : Bool :=
  !role.allowedPolicies.isEmpty || !role.disallowedPolicies.isEmpty

/-- The request fields `handleCreateCommon` decodes; `renewable` is a pointer, `none` when the
request leaves it out. -/
structure CreateData where
  id : String
  policies : List String
  metadata : List (String × String)
  noParent : Bool
  noDefaultPolicy : Bool
  lease : String
  ttl : String
  renewable : Option Bool
  explicitMaxTTL : String
  displayName : String
  numUses : ℤ
  period : String
  type : String
  entityAlias : String
deriving DecidableEq, Repr

/-- The request: the client token, the path under the token store and the namespace of the
request's context. -/
structure CreateRequest where
  clientToken : String
  path : String
  namespaceID : String
deriving DecidableEq, Repr

/-- The fields of a mount entry the entity alias takes. -/
structure MountInfo where
  accessor : String
  type : String
deriving DecidableEq, Repr

/-- `logical.Alias`, with the fields the handler sets. -/
structure EntityAlias where
  name : String
  mountAccessor : String
  mountType : String
deriving DecidableEq, Repr

/-- The fields of an `identity.Entity` the handler reads. -/
structure Entity where
  id : String
  disabled : Bool
deriving DecidableEq, Repr

/-- What the handler takes from outside the request: `time.ParseDuration`, `glob.Glob`, the
mount of the request's accessor, the identity store's `CreateOrFetchEntity`, the mount's TTLs,
the Unix time the entry is created at and the time `CalculateTTL` reads. -/
structure CreateEnv where
  parseDuration : String → Go ℤ
  glob : String → String → Bool
  matchingMountByAccessor : Option MountInfo
  createOrFetchEntity : EntityAlias → Go (Option Entity)
  sysView : SystemView
  creationTime : ℤ
  now : ℤ

/-- The warnings the handler adds before the token is stored, with the durations they print. -/
inductive CreateWarning where
  | explicitMaxTTLBoth (explicitMaxTTL : ℤ)
  | periodBoth (period : ℤ)
  | ttl (w : TTLWarning)
  | customID
deriving DecidableEq, Repr

/-- The token being created, with what the response reports beside the entry: whether it is
renewable, the explicit maximum TTL and period in use, and the warnings. -/
structure Creation (Addr : Type) where
  entry : TokenEntry Addr
  renewable : Bool
  explicitMaxTTL : ℤ
  period : ℤ
  warnings : List CreateWarning
deriving DecidableEq, Repr

/-- `time.Unix(sec, 0)`, in nanoseconds from the zero time: 62135596800 seconds lie between
January 1 of year 1 and of 1970. -/
def unixTime (sec : ℤ) : ℤ := (sec + 62135596800) * second

/-! ## The checks before the entry -/

/-- The checks on the parent token. -/
def checkParent (parent : TokenEntry Addr) : Go Unit :=
  if parent.type = tokenTypeBatch then throw (.error "batch tokens cannot create more tokens")
  -- a token with restricted uses could escape its count through its children
  else if parent.numUses > 0 then
    throw (.error "restricted use token cannot generate child tokens")
  else pure ()

/-- The checks on a request whose namespace is not the parent's. -/
def checkNamespace (nsID : String) (parent : TokenEntry Addr) (isSudo : Bool)
    (policies : List String) : Go Unit :=
  if nsID ≠ parent.namespaceID then
    if !isSudo then
      throw (.error
        "root or sudo privileges required to directly generate a token in a child namespace")
    else if strListContains policies "root" then
      throw (.error "root tokens may not be created from a parent namespace")
    else pure ()
  else pure ()

/-- The token type the request asks for, as the role overrides or defaults it. -/
def roleTokenType (role : Option (TsRoleEntry Addr)) (tokenTypeStr : String) : Go String :=
  match role with
  | none => pure tokenTypeStr
  | some role =>
    if role.tokenType = tokenTypeDefault ∨ role.tokenType = tokenTypeDefaultService then
      pure tokenTypeStr
    else if role.tokenType = tokenTypeDefaultBatch then
      pure (if tokenTypeStr = "" then "batch" else tokenTypeStr)
    else if role.tokenType = tokenTypeService then pure "service"
    else if role.tokenType = tokenTypeBatch then pure "batch"
    else do
      let name ← tokenTypeString role.tokenType
      throw (.error ("role being used for token creation contains invalid token type " ++
        goQuote name))

/-- The field a batch token request may not set: the first of `explicit_max_ttl`, `num_uses`
and `period` that the request gives, if its value is not zero; `""` for none. -/
def batchBadReason (parseDuration : String → Go ℤ) (data : CreateData) : Go String :=
  -- a Go `switch`: only the first case that holds is tested
  if data.explicitMaxTTL ≠ "" then do
    let dur ← replaceError "\"explicit_max_ttl\" value could not be parsed"
      (parseDurationSecond parseDuration (.string data.explicitMaxTTL))
    pure (if dur ≠ 0 then "explicit_max_ttl" else "")
  else if data.numUses ≠ 0 then pure "num_uses"
  else if data.period ≠ "" then do
    let dur ← replaceError "\"period\" value could not be parsed"
      (parseDurationSecond parseDuration (.string data.period))
    pure (if dur ≠ 0 then "period" else "")
  else pure ""

/-- The token's type from the type the request asks for, and whether the token may be renewed. -/
def tokenTypeOf (parseDuration : String → Go ℤ) (data : CreateData) (tokenTypeStr : String)
    (renewable : Bool) : Go (TokenType × Bool) :=
  if tokenTypeStr = "" ∨ tokenTypeStr = "service" then pure (tokenTypeService, renewable)
  else if tokenTypeStr = "batch" then do
    let badReason ← batchBadReason parseDuration data
    if badReason ≠ "" then
      throw (.error ("batch tokens cannot have " ++ goQuote badReason ++ " set"))
    else pure (tokenTypeBatch, false)
  else throw (.error "invalid 'token_type' value")

/-- The entity an entity alias names: only with a role that allows the alias (its name compared
lowercased, exactly or by glob), through the mount of the request's accessor. `""` when the
request gives no alias. -/
def explicitEntityID (env : CreateEnv) (role : Option (TsRoleEntry Addr))
    (aliasName : String) : Go String :=
  if aliasName = "" then pure "" else
  match role with
  | none => throw (.error "'entity_alias' is only allowed in combination with token role")
  | some role => do
    let entityAlias := toLower aliasName
    if !strListContains role.allowedEntityAliases entityAlias &&
        !strListContainsGlob env.glob role.allowedEntityAliases entityAlias then
      throw (.error "invalid 'entity_alias' value")
    else
      let some mount := env.matchingMountByAccessor
        | throw (.error "auth token mount accessor not found")
      let entity ← env.createOrFetchEntity ⟨aliasName, mount.accessor, mount.type⟩
      let some entity := entity
        | throw (.error "failed to create or fetch entity from given entity alias")
      if entity.disabled then throw (.error "entity from given entity alias is disabled")
      else pure entity.id

/-! ## The entry -/

/-- The entry as the handler first sets it up. -/
def newEntry (env : CreateEnv) (req : CreateRequest) (data : CreateData)
    (tokenType : TokenType) : TokenEntry Addr where
  id := ""
  accessor := ""
  parent := req.clientToken
  policies := []
  path := "auth/token/" ++ req.path
  metadata := data.metadata
  displayName := "token"
  numUses := data.numUses
  creationTime := env.creationTime
  ttl := 0
  explicitMaxTTL := 0
  role := ""
  period := 0
  entityID := ""
  boundCIDRs := []
  namespaceID := req.namespaceID
  cubbyholeID := ""
  type := tokenType

/-- The uses a role allows: its own when the request asks for unlimited uses or for more. -/
def roleNumUses (roleNumUses numUses : ℤ) : ℤ :=
  if roleNumUses = 0 then numUses
  else if numUses = 0 then roleNumUses
  else if roleNumUses < numUses then roleNumUses
  else numUses

/-- The role's name, renewability, uses and path suffix. -/
def applyRole (role : Option (TsRoleEntry Addr)) (c : Creation Addr) : Creation Addr :=
  match role with
  | none => c
  | some role =>
    { c with
      entry.role := role.name
      entry.numUses := roleNumUses role.tokenNumUses c.entry.numUses
      entry.path :=
        if role.pathSuffix ≠ "" then c.entry.path ++ "/" ++ role.pathSuffix else c.entry.path
      renewable := c.renewable && role.renewable }

/-- `displayNameSanitize.ReplaceAllString(s, "-")`: every character outside `[a-zA-Z0-9-]`
becomes `-`. -/
def displayNameSanitize (s : String) : String :=
  s.map fun c => if c.isAlphanum || c = '-' then c else '-'

/-- The display name the request gives, prefixed, sanitized and without a trailing `-`. -/
def displayNameOf (displayName : String) : String :=
  if displayName ≠ "" then trimSuffix (displayNameSanitize ("token-" ++ displayName)) "-"
  else "token"

/-- The token ID the request gives: only with sudo, in the root namespace. -/
def customID (isSudo : Bool) (nsID id : String) : Go String :=
  if id ≠ "" then
    if !isSudo then throw (.error "root or sudo privileges required to specify token id")
    else if nsID ≠ rootNamespaceID then
      throw (.error "token IDs can only be manually specified in the root namespace")
    else pure id
  else pure id

/-! ## The policies -/

/-- What the policy `switch` leaves: the policies in `data.Policies`, whether `default` is to be
added, and the parent's policies as the `SanitizePolicies` calls leave its slice. -/
structure PolicyChoice where
  policies : List String
  addDefault : Bool
  parentPolicies : List String
deriving DecidableEq, Repr

/-- The policies of a role with allowed or disallowed policies, from the request's sanitized
policies: those, within the role's allowed ones when it has some; or else the allowed ones; or
else the parent's. -/
def roleAllowedPolicies (parentPolicies : List String) (role : TsRoleEntry Addr)
    (localAddDefault : Bool) (finalPolicies : List String) : Go PolicyChoice :=
  if !role.allowedPolicies.isEmpty then
    let sanitizedRolePolicies := sanitizePolicies role.allowedPolicies localAddDefault
    if finalPolicies.isEmpty then pure ⟨sanitizedRolePolicies, false, parentPolicies⟩
    else if !strListSubset sanitizedRolePolicies finalPolicies then
      throw (.error ("token policies (" ++ goQuoteList finalPolicies ++
        ") must be subset of the role's allowed policies (" ++
        goQuoteList sanitizedRolePolicies ++ ")"))
    else pure ⟨finalPolicies, false, parentPolicies⟩
  else if finalPolicies.isEmpty then
    pure ⟨sanitizePolicies parentPolicies localAddDefault, false, sanitizeInPlace parentPolicies⟩
  else pure ⟨finalPolicies, false, parentPolicies⟩

/-- The policies of a role with allowed or disallowed policies: `default` comes unless the
request, the role or the disallowed policies refuse it, and no policy may be disallowed. -/
def rolePolicies (parentPolicies : List String) (role : TsRoleEntry Addr) (data : CreateData) :
    Go PolicyChoice := do
  let localAddDefault := !data.noDefaultPolicy && !role.tokenNoDefaultPolicy &&
    !strListContains role.disallowedPolicies "default"
  -- the request's policies are the baseline, if it gives any
  let finalPolicies :=
    if !data.policies.isEmpty then sanitizePolicies data.policies localAddDefault else []
  let choice ← roleAllowedPolicies parentPolicies role localAddDefault finalPolicies
  if !role.disallowedPolicies.isEmpty then
    -- `default` is not added here: it is refused only when asked for
    let sanitizedRolePolicies := removeDuplicates role.disallowedPolicies true
    match choice.policies.find? (strListContains sanitizedRolePolicies ·) with
    | some finalPolicy =>
      throw (.error ("token policy " ++ goQuote finalPolicy ++ " is disallowed by this role"))
    | none => pure choice
  else pure choice

/-- The policies without a role that restricts them: the request's across namespaces or with
sudo, the parent's when the request gives none, and otherwise the request's within the
parent's. -/
def parentPolicies (parentPolicies : List String) (parentNS nsID : String) (data : CreateData)
    (isSudo : Bool) : Go PolicyChoice :=
  if nsID ≠ parentNS then pure ⟨data.policies, !data.noDefaultPolicy, parentPolicies⟩
  -- `default` comes with the parent's policies only if the parent has it
  else if data.policies.isEmpty then
    pure ⟨sanitizePolicies parentPolicies false, false, sanitizeInPlace parentPolicies⟩
  else if !isSudo then
    let sanitizedInputPolicies := sanitizePolicies data.policies false
    let sanitizedParentPolicies := sanitizePolicies parentPolicies false
    if !strListSubset sanitizedParentPolicies sanitizedInputPolicies then
      throw (.error "child policies must be subset of parent")
    else
      -- both calls lowercased their slices in place, and `default` is looked up in the parent's
      let parentPolicies := sanitizeInPlace parentPolicies
      pure ⟨sanitizeInPlace data.policies,
        !data.noDefaultPolicy && strListContains parentPolicies "default", parentPolicies⟩
  else pure ⟨data.policies, !data.noDefaultPolicy, parentPolicies⟩

/-- The policy `switch` of `handleCreateCommon`. -/
def choosePolicies (parent : TokenEntry Addr) (nsID : String) (role : Option (TsRoleEntry Addr))
    (data : CreateData) (isSudo : Bool) : Go PolicyChoice :=
  match role with
  | some role =>
    if role.restrictsPolicies then rolePolicies parent.policies role data
    else parentPolicies parent.policies parent.namespaceID nsID data isSudo
  | none => parentPolicies parent.policies parent.namespaceID nsID data isSudo

/-- The token's policies: the choice sanitized, and without `default` whenever the request says
so; the choice adds it for the subset checks only. -/
def tokenPolicies (choice : PolicyChoice) (noDefaultPolicy : Bool) : List String :=
  let policies := sanitizePolicies choice.policies choice.addDefault
  if noDefaultPolicy then strListDelete policies "default" else policies

/-- The token's policies from the choice, and the checks on them: no internal policy, and
`root` only below a `root` parent and not on a batch token. -/
def checkedPolicies (choice : PolicyChoice) (noDefaultPolicy : Bool) (tokenType : TokenType) :
    Go (List String) :=
  let policies := tokenPolicies choice noDefaultPolicy
  match policies.find? (strListContains nonAssignablePolicies ·) with
  | some policy => throw (.error ("cannot assign policy " ++ goQuote policy))
  | none =>
    if strListContains policies "root" then
      if !strListContains choice.parentPolicies "root" then
        throw (.error "root tokens may not be created without parent token being root")
      else if tokenType = tokenTypeBatch then throw (.error "batch tokens cannot be root tokens")
      else pure policies
    else pure policies

/-! ## Parent, entity and lifetimes -/

/-- The parent link: a role may make the token an orphan, the request may with sudo, and
`create-orphan` does. A role's bound CIDRs go on the token. -/
def setParent (role : Option (TsRoleEntry Addr)) (noParent isSudo orphan : Bool)
    (c : Creation Addr) : Go (Creation Addr) :=
  match role with
  | some role =>
    pure { c with
      entry.parent := if role.orphan then "" else c.entry.parent
      entry.boundCIDRs :=
        if role.tokenBoundCIDRs ≠ [] then role.tokenBoundCIDRs else c.entry.boundCIDRs }
  | none =>
    if noParent then
      if !isSudo then throw (.error "root or sudo privileges required to create orphan token")
      else pure { c with entry.parent := "" }
    else pure (if orphan then { c with entry.parent := "" } else c)

/-- The entity: the alias's, or the parent's for a token with a parent, which outside roles also
takes the parent's bound CIDRs. -/
def setEntity (explicitEntityID : String) (parent : TokenEntry Addr) (hasRole : Bool)
    (c : Creation Addr) : Creation Addr :=
  if explicitEntityID ≠ "" then { c with entry.entityID := explicitEntityID }
  else if c.entry.parent ≠ "" then
    { c with
      entry.entityID := parent.entityID
      entry.boundCIDRs := if hasRole then c.entry.boundCIDRs else parent.boundCIDRs }
  else c

/-- The explicit maximum TTL the request gives. -/
def setExplicitMaxTTL (parseDuration : String → Go ℤ) (explicitMaxTTL : String)
    (c : Creation Addr) : Go (Creation Addr) :=
  if explicitMaxTTL ≠ "" then do
    let dur ← parseDurationSecond parseDuration (.string explicitMaxTTL)
    if dur < 0 then throw (.error "explicit_max_ttl must be positive")
    else pure { c with entry.explicitMaxTTL := dur, explicitMaxTTL := dur }
  else pure c

/-- The period the request gives: a period that is not zero needs sudo. -/
def setPeriod (parseDuration : String → Go ℤ) (isSudo : Bool) (period : String)
    (c : Creation Addr) : Go (Creation Addr) :=
  if period ≠ "" then do
    let dur ← parseDurationSecond parseDuration (.string period)
    if dur < 0 then throw (.error "period must be positive")
    else if dur = 0 then pure c
    else if !isSudo then throw (.error "root or sudo privileges required to create periodic token")
    else pure { c with entry.period := dur, period := dur }
  else pure c

/-- The TTL the request gives, or its lease in `time.ParseDuration` form. -/
def setTTL (parseDuration : String → Go ℤ) (ttl lease : String) (c : Creation Addr) :
    Go (Creation Addr) :=
  if ttl ≠ "" then do
    let dur ← parseDurationSecond parseDuration (.string ttl)
    if dur < 0 then throw (.error "ttl must be positive") else pure { c with entry.ttl := dur }
  else if lease ≠ "" then do
    let dur ← parseDuration lease
    if dur < 0 then throw (.error "lease must be positive") else pure { c with entry.ttl := dur }
  else pure c

/-- The smaller of the request's and the role's value, with a warning when both are set. -/
def lesserOf (warning : ℤ → CreateWarning) (roleValue value : ℤ) : ℤ × List CreateWarning :=
  if roleValue = 0 then (value, [])
  else if value = 0 then (roleValue, [])
  else
    let value := if roleValue < value then roleValue else value
    (value, [warning value])

/-- The role's explicit maximum TTL and period, for a token that is not a batch token. -/
def applyRoleTTLs (role : Option (TsRoleEntry Addr)) (c : Creation Addr) : Creation Addr :=
  match role with
  | some role =>
    if c.entry.type ≠ tokenTypeBatch then
      let explicitMaxTTL :=
        lesserOf .explicitMaxTTLBoth role.tokenExplicitMaxTTL c.explicitMaxTTL
      let period := lesserOf .periodBoth role.tokenPeriod c.period
      { c with
        explicitMaxTTL := explicitMaxTTL.1
        period := period.1
        warnings := c.warnings ++ explicitMaxTTL.2 ++ period.2 }
    else c
  | none => c

/-- The TTL from `CalculateTTL`, for a token that is periodic, has a TTL, or is not a root
token. -/
def calculateEntryTTL (env : CreateEnv) (c : Creation Addr) : Go (Creation Addr) :=
  if c.period > 0 || c.entry.ttl > 0 ||
      (c.entry.ttl = 0 && !strListContains c.entry.policies "root") then do
    let r ← calculateTTL env.sysView env.now 0 c.entry.ttl c.period 0 c.explicitMaxTTL
      (unixTime c.entry.creationTime)
    pure { c with entry.ttl := r.1, warnings := c.warnings ++ r.2.map .ttl }
  else pure c

/-- A token still without a TTL: bound by its explicit maximum, or else not expiring at all,
which a parent that expires may not give; such a token is neither renewable nor bound to
CIDRs. -/
def finishTTL (parent : TokenEntry Addr) (c : Creation Addr) : Go (Creation Addr) :=
  -- root tokens are still bound by an explicit maximum TTL
  let c := if c.entry.ttl = 0 ∧ c.explicitMaxTTL > 0 then { c with entry.ttl := c.explicitMaxTTL }
    else c
  if c.entry.ttl = 0 then
    if parent.ttl ≠ 0 then
      throw (.error "expiring root tokens cannot create non-expiring root tokens")
    else pure { c with renewable := false, entry.boundCIDRs := [] }
  else pure c

/-- The creation before its policies: the entry as first set up, with the role's settings, the
display name and the ID. -/
def baseCreation (env : CreateEnv) (req : CreateRequest) (data : CreateData)
    (role : Option (TsRoleEntry Addr)) (typed : TokenType × Bool) (id : String) : Creation Addr :=
  let c := applyRole role ⟨newEntry env req data typed.1, typed.2, 0, 0, []⟩
  { c with entry.displayName := displayNameOf data.displayName, entry.id := id }

/-- `TokenStore.handleCreateCommon` up to `TokenStore.create`: the entry it stores, or the
error it answers. `orphan` is set by `create-orphan`. The ID check comes before the role's
settings and the display name here, which cannot fail. -/
def handleCreateCommon (env : CreateEnv) (req : CreateRequest) (parent : TokenEntry Addr)
    (isSudo : Bool) (data : CreateData) (orphan : Bool) (role : Option (TsRoleEntry Addr)) :
    Go (Creation Addr) := do
  checkParent parent
  checkNamespace req.namespaceID parent isSudo data.policies
  let tokenTypeStr ← roleTokenType role data.type
  let typed ← tokenTypeOf env.parseDuration data tokenTypeStr (data.renewable.getD true)
  (if data.numUses < 0 then throw (.error "number of uses cannot be negative") else pure ())
  let entityID ← explicitEntityID env role data.entityAlias
  let id ← customID isSudo req.namespaceID data.id
  let c := baseCreation env req data role typed id
  let choice ← choosePolicies parent req.namespaceID role data isSudo
  let policies ← checkedPolicies choice data.noDefaultPolicy c.entry.type
  -- no check after this point may look at other policies
  let c ← setParent role data.noParent isSudo orphan { c with entry.policies := policies }
  let c ← setExplicitMaxTTL env.parseDuration data.explicitMaxTTL
    (setEntity entityID parent role.isSome c)
  let c ← setPeriod env.parseDuration isSudo data.period c
  let c ← setTTL env.parseDuration data.ttl data.lease c
  let c ← calculateEntryTTL env (applyRoleTTLs role c)
  let c ← finishTTL parent c
  pure (if c.entry.id ≠ "" then { c with warnings := c.warnings ++ [.customID] } else c)

/-! ## What each step can do -/

section Steps

variable {env : CreateEnv} {req : CreateRequest} {parent : TokenEntry Addr} {isSudo : Bool}
  {data : CreateData} {role : Option (TsRoleEntry Addr)} {c c' : Creation Addr}

theorem checkParent_eq_ok (h : checkParent parent = .ok ()) :
    parent.type ≠ tokenTypeBatch ∧ parent.numUses ≤ 0 := by
  simp only [checkParent] at h
  split_ifs at h with hbatch huses
  exact ⟨hbatch, by omega⟩

theorem checkNamespace_eq_ok {nsID : String} {policies : List String}
    (h : checkNamespace nsID parent isSudo policies = .ok ()) :
    nsID ≠ parent.namespaceID → isSudo = true ∧ "root" ∉ policies := by
  intro hns
  simp only [checkNamespace] at h
  split_ifs at h with hsudo hroot
  simp_all

theorem customID_eq_ok {nsID id id' : String} (h : customID isSudo nsID id = .ok id') :
    id' = id ∧ (id ≠ "" → isSudo = true ∧ nsID = rootNamespaceID) := by
  simp only [customID] at h
  split_ifs at h with hid hsudo hns <;> cases h
  · simp_all
  · simp_all

/-- A batch token request passes with uses, or with a period that is not zero, only when it
first gives an explicit maximum TTL of zero. -/
theorem batchBadReason_eq_empty {parseDuration : String → Go ℤ}
    (h : batchBadReason parseDuration data = .ok "") :
    data.explicitMaxTTL ≠ "" ∧
        parseDurationSecond parseDuration (.string data.explicitMaxTTL) = .ok 0 ∨
      data.explicitMaxTTL = "" ∧ data.numUses = 0 ∧
        ∀ d, parseDurationSecond parseDuration (.string data.period) = .ok d → d = 0 := by
  simp only [batchBadReason] at h
  split_ifs at h with hmax huses hperiod
  · obtain ⟨dur, hdur, h⟩ := bind_eq_ok h
    have hzero : dur = 0 := by
      by_contra hne
      simp [hne, pure, Except.pure] at h
    exact .inl ⟨hmax, hzero ▸ replaceError_eq_ok.mp hdur⟩
  · simp [pure, Except.pure] at h
  · obtain ⟨dur, hdur, h⟩ := bind_eq_ok h
    have hzero : dur = 0 := by
      by_contra hne
      simp [hne, pure, Except.pure] at h
    refine .inr ⟨not_not.mp hmax, not_not.mp huses, fun d hd => ?_⟩
    rw [replaceError_eq_ok.mp hdur] at hd
    cases hd
    exact hzero
  · refine .inr ⟨not_not.mp hmax, not_not.mp huses, fun d hd => ?_⟩
    rw [not_not.mp hperiod, parseDurationSecond_empty] at hd
    cases hd
    rfl

theorem tokenTypeOf_eq_ok {parseDuration : String → Go ℤ} {tokenTypeStr : String}
    {renewable : Bool} {typed : TokenType × Bool}
    (h : tokenTypeOf parseDuration data tokenTypeStr renewable = .ok typed) :
    typed = (tokenTypeService, renewable) ∨
      typed = (tokenTypeBatch, false) ∧ batchBadReason parseDuration data = .ok "" := by
  simp only [tokenTypeOf] at h
  split_ifs at h with hservice hbatch
  · cases h
    exact .inl rfl
  · obtain ⟨reason, hreason, h⟩ := bind_eq_ok h
    split_ifs at h with hbad
    cases h
    rw [not_not.mp hbad] at hreason
    exact .inr ⟨rfl, hreason⟩

/-! ### The steps after the policies -/

theorem setParent_eq_ok {noParent orphan : Bool}
    (h : setParent role noParent isSudo orphan c = .ok c') :
    ∃ parentID cidrs, c' = { c with entry.parent := parentID, entry.boundCIDRs := cidrs } ∧
      (parentID = c.entry.parent ∨ parentID = "" ∧
        ((∃ r, role = some r ∧ r.orphan = true) ∨
          role = none ∧ (noParent = true ∧ isSudo = true ∨ orphan = true))) := by
  cases role with
  | some r =>
    cases h
    refine ⟨_, _, rfl, ?_⟩
    by_cases horphan : r.orphan = true <;> simp [horphan]
  | none =>
    simp only [setParent] at h
    split_ifs at h with hnoParent hsudo horphan <;> cases h
    · exact ⟨_, _, rfl, .inr ⟨rfl, .inr ⟨rfl, .inl ⟨hnoParent, by simpa using hsudo⟩⟩⟩⟩
    · exact ⟨_, _, rfl, .inr ⟨rfl, .inr ⟨rfl, .inr horphan⟩⟩⟩
    · exact ⟨_, _, rfl, .inl rfl⟩

theorem setEntity_eq (entityID : String) (parent : TokenEntry Addr) (hasRole : Bool)
    (c : Creation Addr) :
    ∃ ent cidrs, setEntity entityID parent hasRole c =
      { c with entry.entityID := ent, entry.boundCIDRs := cidrs } := by
  unfold setEntity
  by_cases hexplicit : entityID ≠ ""
  · rw [if_pos hexplicit]
    exact ⟨_, _, rfl⟩
  · rw [if_neg hexplicit]
    by_cases hparent : c.entry.parent ≠ ""
    · rw [if_pos hparent]
      exact ⟨_, _, rfl⟩
    · rw [if_neg hparent]
      exact ⟨c.entry.entityID, c.entry.boundCIDRs, rfl⟩

theorem setExplicitMaxTTL_eq_ok {parseDuration : String → Go ℤ} {explicitMaxTTL : String}
    (h : setExplicitMaxTTL parseDuration explicitMaxTTL c = .ok c') :
    ∃ d m, c' = { c with entry.explicitMaxTTL := d, explicitMaxTTL := m } := by
  unfold setExplicitMaxTTL at h
  by_cases hset : explicitMaxTTL ≠ ""
  · rw [if_pos hset] at h
    obtain ⟨dur, -, h⟩ := bind_eq_ok h
    split_ifs at h
    cases h
    exact ⟨dur, dur, rfl⟩
  · rw [if_neg hset] at h
    cases h
    exact ⟨c.entry.explicitMaxTTL, c.explicitMaxTTL, rfl⟩

/-- A period is set only with sudo, and only from the request. -/
theorem setPeriod_eq_ok {parseDuration : String → Go ℤ} {period : String}
    (h : setPeriod parseDuration isSudo period c = .ok c') :
    ∃ d p, c' = { c with entry.period := d, period := p } ∧
      (d ≠ c.entry.period → 0 < d ∧ isSudo = true ∧ period ≠ "" ∧
        parseDurationSecond parseDuration (.string period) = .ok d) := by
  unfold setPeriod at h
  by_cases hset : period ≠ ""
  · rw [if_pos hset] at h
    obtain ⟨dur, hdur, h⟩ := bind_eq_ok h
    split_ifs at h with hneg hzero hsudo <;> cases h
    · exact ⟨c.entry.period, c.period, rfl, fun hne => absurd rfl hne⟩
    · exact ⟨dur, dur, rfl, fun _ => ⟨by omega, by simpa using hsudo, hset, hdur⟩⟩
  · rw [if_neg hset] at h
    cases h
    exact ⟨c.entry.period, c.period, rfl, fun hne => absurd rfl hne⟩

/-- A TTL comes from the request, parsed, and is not negative. -/
theorem setTTL_eq_ok {parseDuration : String → Go ℤ} {ttl lease : String}
    (h : setTTL parseDuration ttl lease c = .ok c') :
    ∃ d, c' = { c with entry.ttl := d } ∧
      (d ≠ c.entry.ttl → 0 ≤ d ∧
        (parseDurationSecond parseDuration (.string ttl) = .ok d ∨ parseDuration lease = .ok d)) := by
  unfold setTTL at h
  split_ifs at h with httl hlease
  · obtain ⟨dur, hdur, h⟩ := bind_eq_ok h
    split_ifs at h with hneg
    cases h
    exact ⟨dur, rfl, fun _ => ⟨by omega, .inl hdur⟩⟩
  · obtain ⟨dur, hdur, h⟩ := bind_eq_ok h
    split_ifs at h with hneg
    cases h
    exact ⟨dur, rfl, fun _ => ⟨by omega, .inr hdur⟩⟩
  · cases h
    exact ⟨c.entry.ttl, rfl, fun hne => absurd rfl hne⟩

@[simp] theorem applyRoleTTLs_entry (c : Creation Addr) : (applyRoleTTLs role c).entry = c.entry := by
  unfold applyRoleTTLs
  split <;> (try split) <;> rfl

@[simp] theorem applyRoleTTLs_renewable (c : Creation Addr) :
    (applyRoleTTLs role c).renewable = c.renewable := by
  unfold applyRoleTTLs
  split <;> (try split) <;> rfl

theorem calculateEntryTTL_eq_ok (h : calculateEntryTTL env c = .ok c') :
    ∃ ttl warnings, c' = { c with entry.ttl := ttl, warnings := warnings } := by
  simp only [calculateEntryTTL] at h
  split_ifs at h
  · obtain ⟨r, -, h⟩ := bind_eq_ok h
    cases h
    exact ⟨_, _, rfl⟩
  · cases h
    exact ⟨_, _, rfl⟩

/-- With sane TTLs on the mount, `CalculateTTL` gives a TTL that is not zero: a token is left
without one only when it has none and is a root token. -/
theorem calculateEntryTTL_zero
    (hsys : 0 < env.sysView.defaultLeaseTTL ∧
      env.sysView.defaultLeaseTTL ≤ env.sysView.maxLeaseTTL)
    (hmax : InInt64 env.sysView.maxLeaseTTL) (hnow : 0 ≤ env.now)
    (hfit : InInt64 c.entry.ttl) (hnonneg : 0 ≤ c.entry.ttl)
    (hcreated : 0 ≤ c.entry.creationTime)
    (h : calculateEntryTTL env c = .ok c') (hzero : c'.entry.ttl = 0) :
    c.entry.ttl = 0 ∧ "root" ∈ c.entry.policies := by
  simp only [calculateEntryTTL] at h
  split_ifs at h with hcalc
  · obtain ⟨r, hr, h⟩ := bind_eq_ok h
    cases h
    have hstart : 0 ≤ unixTime c.entry.creationTime := by
      unfold unixTime second
      omega
    have hzeroFits : InInt64 0 := by norm_num [InInt64]
    obtain ⟨hpos, -⟩ := calculateTTL_within_max hsys ⟨hmax, hzeroFits, hfit⟩ ⟨hnow, hstart⟩ hr
    exact absurd hzero (by dsimp only; omega)
  · cases h
    simp only [Bool.or_eq_true, decide_eq_true_eq, Bool.and_eq_true, Bool.not_eq_true',
      not_or, not_and, Bool.not_eq_false] at hcalc
    have hzero' : c.entry.ttl = 0 := le_antisymm (by omega) hnonneg
    exact ⟨hzero', by simpa using hcalc.2 hzero'⟩

/-- A token ends without a TTL only when it had none, its parent has none either, and it is
then neither renewable nor bound to CIDRs. -/
theorem finishTTL_eq_ok (h : finishTTL parent c = .ok c') :
    ∃ ttl cidrs renewable,
      c' = { c with entry.ttl := ttl, entry.boundCIDRs := cidrs, renewable := renewable } ∧
      (ttl = 0 → c.entry.ttl = 0 ∧ parent.ttl = 0 ∧ cidrs = [] ∧ renewable = false) ∧
      (renewable = true → c.renewable = true) := by
  simp only [finishTTL] at h
  by_cases hmax : c.entry.ttl = 0 ∧ c.explicitMaxTTL > 0
  · rw [if_pos hmax] at h
    have hpos : c.explicitMaxTTL ≠ 0 := by omega
    simp only [hpos, if_false] at h
    cases h
    exact ⟨_, _, _, rfl, fun h0 => absurd h0 hpos, id⟩
  · rw [if_neg hmax] at h
    split_ifs at h with hzero hparent <;> cases h
    · exact ⟨_, _, _, rfl, fun _ => ⟨hzero, not_not.mp hparent, rfl, rfl⟩, fun h => by cases h⟩
    · exact ⟨c.entry.ttl, c.entry.boundCIDRs, c.renewable, rfl, fun h0 => absurd h0 hzero, id⟩

/-! ### The policies -/

/-- The policies a role starts from are trimmed and lowercased, within the allowed ones when the
role has some; the parent's slice is left as it was or lowercased. -/
theorem roleAllowedPolicies_eq_ok {pp finalPolicies : List String} {r : TsRoleEntry Addr}
    {b : Bool} {choice : PolicyChoice}
    (hnormal : ∀ q ∈ finalPolicies, toLower (trimSpace q) = q)
    (h : roleAllowedPolicies pp r b finalPolicies = .ok choice) :
    (choice.parentPolicies = pp ∨ choice.parentPolicies = sanitizeInPlace pp) ∧
      choice.addDefault = false ∧ (∀ q ∈ choice.policies, toLower (trimSpace q) = q) ∧
      (r.allowedPolicies ≠ [] → ∀ q ∈ choice.policies, q ∈ sanitizePolicies r.allowedPolicies b) := by
  simp only [roleAllowedPolicies] at h
  split_ifs at h with hallowed hempty hsubset hempty' <;> cases h
  · exact ⟨.inl rfl, rfl, fun q hq => normal_of_mem_sanitizePolicies hq, fun _ _ hq => hq⟩
  · have hsub : ∀ q ∈ finalPolicies, q ∈ sanitizePolicies r.allowedPolicies b := by
      simpa using hsubset
    exact ⟨.inl rfl, rfl, hnormal, fun _ => hsub⟩
  · exact ⟨.inr rfl, rfl, fun q hq => normal_of_mem_sanitizePolicies hq,
      fun h => absurd (by simpa using h) hallowed⟩
  · exact ⟨.inl rfl, rfl, hnormal, fun h => absurd (by simpa using h) hallowed⟩

/-- A role's policies are trimmed and lowercased, within its allowed ones when it has some,
and never among its disallowed ones. -/
theorem rolePolicies_eq_ok {pp : List String} {r : TsRoleEntry Addr} {choice : PolicyChoice}
    (h : rolePolicies pp r data = .ok choice) :
    (choice.parentPolicies = pp ∨ choice.parentPolicies = sanitizeInPlace pp) ∧
      choice.addDefault = false ∧ (∀ q ∈ choice.policies, toLower (trimSpace q) = q) ∧
      (r.allowedPolicies ≠ [] →
        ∀ q ∈ choice.policies, q ∈ sanitizePolicies r.allowedPolicies true) ∧
      ∀ q ∈ choice.policies, q ∉ removeDuplicates r.disallowedPolicies true := by
  simp only [rolePolicies] at h
  obtain ⟨ch, hch, h⟩ := bind_eq_ok h
  have hnormal : ∀ q ∈ (if !data.policies.isEmpty then
      sanitizePolicies data.policies (!data.noDefaultPolicy && !r.tokenNoDefaultPolicy &&
        !strListContains r.disallowedPolicies "default") else []),
      toLower (trimSpace q) = q := by
    intro q hq
    split_ifs at hq
    · exact normal_of_mem_sanitizePolicies hq
    · cases hq
  obtain ⟨hparent, hadd, hnorm, hallowed⟩ := roleAllowedPolicies_eq_ok hnormal hch
  -- the check against the disallowed policies passes the choice on
  have hdisallowed : choice = ch ∧
      ∀ q ∈ ch.policies, q ∉ removeDuplicates r.disallowedPolicies true := by
    split_ifs at h with hsome
    · split at h
      · cases h
      · next hfind =>
        cases h
        refine ⟨rfl, fun q hq hmem => ?_⟩
        simpa [hmem] using List.find?_eq_none.mp hfind q hq
    · cases h
      have hnil : r.disallowedPolicies = [] := by simpa using hsome
      refine ⟨rfl, fun q _ hmem => ?_⟩
      simp [hnil, removeDuplicates] at hmem
  obtain ⟨rfl, hdis⟩ := hdisallowed
  exact ⟨hparent, hadd, hnorm,
    fun hne q hq => mem_sanitizePolicies_true (hallowed hne q hq), hdis⟩

theorem parentPolicies_parentPolicies {pp : List String} {pns nsID : String} {choice : PolicyChoice}
    (h : parentPolicies pp pns nsID data isSudo = .ok choice) :
    choice.parentPolicies = pp ∨ choice.parentPolicies = sanitizeInPlace pp := by
  simp only [parentPolicies] at h
  split_ifs at h <;> cases h
  · exact .inl rfl
  · exact .inr rfl
  · exact .inr rfl
  · exact .inl rfl

/-- Within the parent's namespace and without sudo, a request's policies must lie within the
parent's, `default` apart, which comes only when the parent has it. -/
theorem parentPolicies_within {pp : List String} {pns : String} {choice : PolicyChoice}
    (h : parentPolicies pp pns pns data false = .ok choice) :
    ∀ q ∈ sanitizePolicies choice.policies choice.addDefault,
      q ∈ sanitizePolicies pp false ∨ q = "default" ∧ ∃ p ∈ pp, toLower (trimSpace p) = "default" := by
  intro q hq
  simp only [parentPolicies, ne_eq, not_true_eq_false, if_false, Bool.not_false, if_true] at h
  split_ifs at h with hempty hsubset <;> cases h
  · -- the parent's policies, sanitized once more
    exact .inl (mem_of_mem_sanitizePolicies (fun x hx => normal_of_mem_sanitizePolicies hx) hq)
  · rw [sanitizePolicies_sanitizeInPlace] at hq
    rcases mem_sanitizePolicies_false_or hq with hq | ⟨hadd, rfl⟩
    · have hsub : ∀ x ∈ sanitizePolicies data.policies false, x ∈ sanitizePolicies pp false := by
        simpa using hsubset
      exact .inl (hsub q hq)
    · have hdefault : "default" ∈ sanitizeInPlace pp := by
        dsimp only at hadd
        simp only [Bool.and_eq_true, strListContains_iff] at hadd
        exact hadd.2
      obtain ⟨p, hp, hpd⟩ := exists_of_mem_sanitizeInPlace hdefault
      exact .inr ⟨rfl, p, hp, hpd.trans (by decide)⟩

/-- Across namespaces, the request's policies are taken as they are. -/
theorem parentPolicies_of_ne {pp : List String} {pns nsID : String} {choice : PolicyChoice}
    (hns : nsID ≠ pns) (h : parentPolicies pp pns nsID data isSudo = .ok choice) :
    choice.policies = data.policies := by
  rw [parentPolicies, if_pos hns] at h
  cases h
  rfl

theorem restrictsPolicies_eq_false_iff {r : TsRoleEntry Addr} :
    r.restrictsPolicies = false ↔ r.allowedPolicies = [] ∧ r.disallowedPolicies = [] := by
  simp [TsRoleEntry.restrictsPolicies]

theorem choosePolicies_of_restricts {nsID : String} {r : TsRoleEntry Addr}
    (hr : r.restrictsPolicies = true) :
    choosePolicies parent nsID (some r) data isSudo = rolePolicies parent.policies r data := by
  simp [choosePolicies, hr]

/-- Without a role that restricts policies, the parent's rules apply. -/
theorem choosePolicies_of_not_restricts {nsID : String}
    (hr : ∀ r, role = some r → r.restrictsPolicies = false) :
    choosePolicies parent nsID role data isSudo =
      parentPolicies parent.policies parent.namespaceID nsID data isSudo := by
  cases role with
  | none => rfl
  | some r => simp [choosePolicies, hr r rfl]

theorem choosePolicies_parentPolicies {nsID : String} {choice : PolicyChoice}
    (h : choosePolicies parent nsID role data isSudo = .ok choice) :
    choice.parentPolicies = parent.policies ∨
      choice.parentPolicies = sanitizeInPlace parent.policies := by
  cases role with
  | none => exact parentPolicies_parentPolicies h
  | some r =>
    simp only [choosePolicies] at h
    split_ifs at h
    · exact (rolePolicies_eq_ok h).1
    · exact parentPolicies_parentPolicies h

/-- A policy of the parent's slice after the choice is one of the parent's policies, up to
trimming and lowercasing. -/
theorem exists_of_mem_parentPolicies {nsID q : String} {choice : PolicyChoice}
    (h : choosePolicies parent nsID role data isSudo = .ok choice)
    (hq : q ∈ choice.parentPolicies) :
    ∃ p ∈ parent.policies, toLower (trimSpace p) = toLower (trimSpace q) := by
  rcases choosePolicies_parentPolicies h with hpp | hpp
  · exact ⟨q, hpp ▸ hq, rfl⟩
  · exact exists_of_mem_sanitizeInPlace (hpp ▸ hq)

/-- The token's policies come from the choice; none is internal, and `root` is there only when
the parent's slice holds it and the token is not a batch token. -/
theorem checkedPolicies_eq_ok {choice : PolicyChoice} {noDefaultPolicy : Bool}
    {tokenType : TokenType} {policies : List String}
    (h : checkedPolicies choice noDefaultPolicy tokenType = .ok policies) :
    (∀ q ∈ policies,
        q ∈ sanitizePolicies choice.policies choice.addDefault ∧ q ∉ nonAssignablePolicies) ∧
      ("root" ∈ policies → "root" ∈ choice.parentPolicies ∧ tokenType ≠ tokenTypeBatch) := by
  simp only [checkedPolicies] at h
  have hsub : ∀ q ∈ tokenPolicies choice noDefaultPolicy,
      q ∈ sanitizePolicies choice.policies choice.addDefault := by
    intro q hq
    simp only [tokenPolicies] at hq
    split_ifs at hq
    · exact mem_of_mem_strListDelete hq
    · exact hq
  split at h
  · cases h
  · next hfind =>
    have hassignable := List.find?_eq_none.mp hfind
    split_ifs at h with hroot hparent hbatch <;> cases h
    · refine ⟨fun q hq => ⟨hsub q hq, by simpa using hassignable q hq⟩, fun _ => ⟨?_, hbatch⟩⟩
      simpa using hparent
    · refine ⟨fun q hq => ⟨hsub q hq, by simpa using hassignable q hq⟩, fun hr => ?_⟩
      exact absurd (by simpa using hr) hroot

/-! ### The entry before its policies -/

@[simp] theorem baseCreation_type (typed : TokenType × Bool) (id : String) :
    (baseCreation env req data role typed id).entry.type = typed.1 := by
  cases role <;> rfl

@[simp] theorem baseCreation_id (typed : TokenType × Bool) (id : String) :
    (baseCreation env req data role typed id).entry.id = id := by
  cases role <;> rfl

@[simp] theorem baseCreation_namespaceID (typed : TokenType × Bool) (id : String) :
    (baseCreation env req data role typed id).entry.namespaceID = req.namespaceID := by
  cases role <;> rfl

@[simp] theorem baseCreation_parent (typed : TokenType × Bool) (id : String) :
    (baseCreation env req data role typed id).entry.parent = req.clientToken := by
  cases role <;> rfl

@[simp] theorem baseCreation_period (typed : TokenType × Bool) (id : String) :
    (baseCreation env req data role typed id).entry.period = 0 := by
  cases role <;> rfl

@[simp] theorem baseCreation_creationTime (typed : TokenType × Bool) (id : String) :
    (baseCreation env req data role typed id).entry.creationTime = env.creationTime := by
  cases role <;> rfl

@[simp] theorem baseCreation_ttl (typed : TokenType × Bool) (id : String) :
    (baseCreation env req data role typed id).entry.ttl = 0 := by
  cases role <;> rfl

/-- A role may only take renewability away. -/
theorem baseCreation_renewable (typed : TokenType × Bool) (id : String) :
    (baseCreation env req data role typed id).renewable = true → typed.2 = true := by
  cases role with
  | none => exact fun h => h
  | some r =>
    intro h
    simp only [baseCreation, applyRole, Bool.and_eq_true] at h
    exact h.1

end Steps

end Vault.Token
