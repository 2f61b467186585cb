import Vault.Token.Create

/-!
# What token creation grants

A successful `handleCreateCommon` goes through each of its steps (`CreateTrace`), and the steps
after the policies leave the policies, the ID, the type, the namespace and the uses of the entry
alone (`CreateTrace.entry_eq`). From the checks along the way: the policies a created token
holds are granted by its parent or its role (`PoliciesGranted`); the fields only sudo may set are
set only with sudo; and a token that does not expire is a root token below a parent that does
not expire either.
-/

namespace Vault.Token

open GoRuntime GoStrings MachineArith Vault.Helper Vault.Framework

variable {Addr : Type}

/-! ## A run of the handler -/

/-- The values a successful `handleCreateCommon` computes on its way to the token, and the step
each comes from. -/
structure CreateTrace (env : CreateEnv) (req : CreateRequest) (parent : TokenEntry Addr)
    (isSudo : Bool) (data : CreateData) (orphan : Bool) (role : Option (TsRoleEntry Addr))
    (c : Creation Addr) where
  tokenTypeStr : String
  typed : TokenType × Bool
  entityID : String
  id : String
  choice : PolicyChoice
  policies : List String
  parented : Creation Addr
  maxed : Creation Addr
  perioded : Creation Addr
  ttled : Creation Addr
  calculated : Creation Addr
  finished : Creation Addr
  checkParent_ok : checkParent parent = .ok ()
  checkNamespace_ok : checkNamespace req.namespaceID parent isSudo data.policies = .ok ()
  roleTokenType_ok : roleTokenType role data.type = .ok tokenTypeStr
  tokenTypeOf_ok :
    tokenTypeOf env.parseDuration data tokenTypeStr (data.renewable.getD true) = .ok typed
  numUses_nonneg : 0 ≤ data.numUses
  explicitEntityID_ok : explicitEntityID env role data.entityAlias = .ok entityID
  customID_ok : customID isSudo req.namespaceID data.id = .ok id
  choosePolicies_ok : choosePolicies parent req.namespaceID role data isSudo = .ok choice
  checkedPolicies_ok : checkedPolicies choice data.noDefaultPolicy typed.1 = .ok policies
  setParent_ok : setParent role data.noParent isSudo orphan
    { baseCreation env req data role typed id with entry.policies := policies } = .ok parented
  setExplicitMaxTTL_ok : setExplicitMaxTTL env.parseDuration data.explicitMaxTTL
    (setEntity entityID parent role.isSome parented) = .ok maxed
  setPeriod_ok : setPeriod env.parseDuration isSudo data.period maxed = .ok perioded
  setTTL_ok : setTTL env.parseDuration data.ttl data.lease perioded = .ok ttled
  calculateEntryTTL_ok : calculateEntryTTL env (applyRoleTTLs role ttled) = .ok calculated
  finishTTL_ok : finishTTL parent calculated = .ok finished
  result : c = if finished.entry.id ≠ "" then
    { finished with warnings := finished.warnings ++ [.customID] } else finished

section Run

variable {env : CreateEnv} {req : CreateRequest} {parent : TokenEntry Addr} {isSudo : Bool}
  {data : CreateData} {orphan : Bool} {role : Option (TsRoleEntry Addr)} {c : Creation Addr}

/-- Every successful run goes through each step in turn. -/
theorem handleCreateCommon_trace
    (h : handleCreateCommon env req parent isSudo data orphan role = .ok c) :
    Nonempty (CreateTrace env req parent isSudo data orphan role c) := by
  simp only [handleCreateCommon] at h
  obtain ⟨⟨⟩, hparent, h⟩ := bind_eq_ok h
  obtain ⟨⟨⟩, hns, h⟩ := bind_eq_ok h
  obtain ⟨tokenTypeStr, hstr, h⟩ := bind_eq_ok h
  obtain ⟨typed, htyped, h⟩ := bind_eq_ok h
  obtain ⟨⟨⟩, huses, h⟩ := bind_eq_ok h
  obtain ⟨entityID, hentity, h⟩ := bind_eq_ok h
  obtain ⟨id, hid, h⟩ := bind_eq_ok h
  obtain ⟨choice, hchoice, h⟩ := bind_eq_ok h
  obtain ⟨policies, hpolicies, h⟩ := bind_eq_ok h
  obtain ⟨parented, hparented, h⟩ := bind_eq_ok h
  obtain ⟨maxed, hmaxed, h⟩ := bind_eq_ok h
  obtain ⟨perioded, hperioded, h⟩ := bind_eq_ok h
  obtain ⟨ttled, httled, h⟩ := bind_eq_ok h
  obtain ⟨calculated, hcalculated, h⟩ := bind_eq_ok h
  obtain ⟨finished, hfinished, h⟩ := bind_eq_ok h
  have hnonneg : 0 ≤ data.numUses := by
    by_contra hneg
    rw [if_pos (by omega)] at huses
    cases huses
  rw [baseCreation_type] at hpolicies
  exact ⟨⟨tokenTypeStr, typed, entityID, id, choice, policies, parented, maxed, perioded, ttled,
    calculated, finished, hparent, hns, hstr, htyped, hnonneg, hentity, hid, hchoice, hpolicies,
    hparented, hmaxed, hperioded, httled, hcalculated, hfinished, (Except.ok.inj h).symm⟩⟩

namespace CreateTrace

variable (t : CreateTrace env req parent isSudo data orphan role c)

/-- Up to the explicit maximum TTL, a run sets the parent link, the entity, the bound CIDRs and
the explicit maximum of the entry it has given its policies. -/
theorem maxed_entry : ∃ ent cidrs maxTTL, t.maxed.entry =
    { (baseCreation env req data role t.typed t.id).entry with
      policies := t.policies, parent := t.parented.entry.parent, entityID := ent,
      boundCIDRs := cidrs, explicitMaxTTL := maxTTL } := by
  obtain ⟨parentID, cidrs, hparented, -⟩ := setParent_eq_ok t.setParent_ok
  obtain ⟨ent, cidrs', hentity⟩ := setEntity_eq t.entityID parent role.isSome t.parented
  obtain ⟨maxTTL, m, hmaxed⟩ := setExplicitMaxTTL_eq_ok t.setExplicitMaxTTL_ok
  rw [hmaxed, hentity, hparented]
  exact ⟨_, _, _, rfl⟩

theorem maxed_period : t.maxed.entry.period = 0 := by
  obtain ⟨_, _, _, hmaxed⟩ := t.maxed_entry
  rw [hmaxed]
  simp

theorem perioded_ttl : t.perioded.entry.ttl = 0 := by
  obtain ⟨_, _, hperioded, -⟩ := setPeriod_eq_ok t.setPeriod_ok
  obtain ⟨_, _, _, hmaxed⟩ := t.maxed_entry
  rw [hperioded]
  dsimp only
  rw [hmaxed]
  simp

/-- Up to the TTL the request gives, a run sets the parent link, the entity, the bound CIDRs,
the explicit maximum, the period and the TTL of the entry it has given its policies. -/
theorem ttled_entry : ∃ ent cidrs maxTTL ttl, t.ttled.entry =
    { (baseCreation env req data role t.typed t.id).entry with
      policies := t.policies, parent := t.parented.entry.parent, entityID := ent,
      boundCIDRs := cidrs, explicitMaxTTL := maxTTL, period := t.perioded.entry.period,
      ttl := ttl } := by
  obtain ⟨ent, cidrs, maxTTL, hmaxed⟩ := t.maxed_entry
  obtain ⟨_, _, hperioded, -⟩ := setPeriod_eq_ok t.setPeriod_ok
  obtain ⟨ttl, httled, -⟩ := setTTL_eq_ok t.setTTL_ok
  rw [httled, hperioded]
  dsimp only
  rw [hmaxed]
  exact ⟨ent, cidrs, maxTTL, ttl, rfl⟩

/-- The steps between the policies and the last one leave renewability alone. -/
theorem calculated_renewable :
    t.calculated.renewable = (baseCreation env req data role t.typed t.id).renewable := by
  obtain ⟨_, _, hparented, -⟩ := setParent_eq_ok t.setParent_ok
  obtain ⟨_, _, hentity⟩ := setEntity_eq t.entityID parent role.isSome t.parented
  obtain ⟨_, _, hmaxed⟩ := setExplicitMaxTTL_eq_ok t.setExplicitMaxTTL_ok
  obtain ⟨_, _, hperioded, -⟩ := setPeriod_eq_ok t.setPeriod_ok
  obtain ⟨_, httled, -⟩ := setTTL_eq_ok t.setTTL_ok
  obtain ⟨_, _, hcalculated⟩ := calculateEntryTTL_eq_ok t.calculateEntryTTL_ok
  rw [hcalculated]
  dsimp only
  rw [applyRoleTTLs_renewable, httled, hperioded, hmaxed, hentity, hparented]

theorem entry_eq_finished : c.entry = t.finished.entry :=
  (congrArg Creation.entry t.result).trans (by split <;> rfl)

theorem renewable_eq_finished : c.renewable = t.finished.renewable :=
  (congrArg Creation.renewable t.result).trans (by split <;> rfl)

/-- After the policies, a run changes only the entry's parent link, entity, bound CIDRs and
lifetimes. -/
theorem entry_eq : ∃ ent cidrs maxTTL ttl,
    c.entry = { (baseCreation env req data role t.typed t.id).entry with
      policies := t.policies, parent := t.parented.entry.parent, entityID := ent,
      boundCIDRs := cidrs, explicitMaxTTL := maxTTL, period := t.perioded.entry.period,
      ttl := ttl } := by
  obtain ⟨ent, _, maxTTL, _, httled⟩ := t.ttled_entry
  obtain ⟨_, _, hcalculated⟩ := calculateEntryTTL_eq_ok t.calculateEntryTTL_ok
  obtain ⟨_, cidrs, _, hfinished, -, -⟩ := finishTTL_eq_ok t.finishTTL_ok
  rw [t.entry_eq_finished, hfinished, hcalculated]
  simp only [applyRoleTTLs_entry]
  rw [httled]
  exact ⟨ent, cidrs, maxTTL, _, rfl⟩

end CreateTrace

end Run


/-! ## The policies a token is granted -/

/-- What the policies of a token created below `parent`, in the namespace `nsID`, may be: no
internal policy; `root` only when the parent has it, and not on a batch token; within the role's
allowed and outside its disallowed policies; and, with no role that restricts policies, for a
client without sudo in the parent's namespace, within the parent's policies or `default` when
the parent has it. -/
structure PoliciesGranted (parent : TokenEntry Addr) (nsID : String)
    (role : Option (TsRoleEntry Addr)) (isSudo : Bool) (entry : TokenEntry Addr) : Prop where
  assignable : ∀ q ∈ entry.policies, q ∉ nonAssignablePolicies
  root : "root" ∈ entry.policies →
    (∃ p ∈ parent.policies, toLower (trimSpace p) = "root") ∧ entry.type ≠ tokenTypeBatch
  roleAllowed : ∀ r, role = some r → r.allowedPolicies ≠ [] →
    ∀ q ∈ entry.policies, q ∈ sanitizePolicies r.allowedPolicies true
  roleDisallowed : ∀ r, role = some r →
    ∀ q ∈ entry.policies, q ∉ removeDuplicates r.disallowedPolicies true
  withinParent : (∀ r, role = some r → r.restrictsPolicies = false) →
    nsID = parent.namespaceID → isSudo = false →
    ∀ q ∈ entry.policies, q ∈ sanitizePolicies parent.policies false ∨
      q = "default" ∧ ∃ p ∈ parent.policies, toLower (trimSpace p) = "default"

section Granted

variable {env : CreateEnv} {req : CreateRequest} {parent : TokenEntry Addr} {isSudo : Bool}
  {data : CreateData} {orphan : Bool} {role : Option (TsRoleEntry Addr)} {c : Creation Addr}

/-- The policies of a role that restricts them are the role's own: within its allowed ones and
outside its disallowed ones. -/
theorem roleBounds {r : TsRoleEntry Addr} {nsID : String} {choice : PolicyChoice}
    {policies : List String} (hr : r.restrictsPolicies = true)
    (hchoice : choosePolicies parent nsID (some r) data isSudo = .ok choice)
    (hsub : ∀ q ∈ policies, q ∈ sanitizePolicies choice.policies choice.addDefault) :
    (r.allowedPolicies ≠ [] → ∀ q ∈ policies, q ∈ sanitizePolicies r.allowedPolicies true) ∧
      ∀ q ∈ policies, q ∉ removeDuplicates r.disallowedPolicies true := by
  rw [choosePolicies_of_restricts hr] at hchoice
  obtain ⟨-, hadd, hnormal, hallowed, hdisallowed⟩ := rolePolicies_eq_ok hchoice
  -- the token's policies are the role's choice, sanitized once more
  have hmem : ∀ q ∈ policies, q ∈ choice.policies := fun q hq =>
    mem_of_mem_sanitizePolicies hnormal (hadd ▸ hsub q hq)
  exact ⟨fun hne q hq => hallowed hne q (hmem q hq), fun q hq => hdisallowed q (hmem q hq)⟩

theorem handleCreateCommon_policiesGranted
    (h : handleCreateCommon env req parent isSudo data orphan role = .ok c) :
    PoliciesGranted parent req.namespaceID role isSudo c.entry := by
  obtain ⟨t⟩ := handleCreateCommon_trace h
  obtain ⟨_, _, _, _, hentry⟩ := t.entry_eq
  have hpolicies : c.entry.policies = t.policies := by rw [hentry]
  have htype : c.entry.type = t.typed.1 := by rw [hentry]; simp
  obtain ⟨hchecked, hroot⟩ := checkedPolicies_eq_ok t.checkedPolicies_ok
  have hsub : ∀ q ∈ t.policies, q ∈ sanitizePolicies t.choice.policies t.choice.addDefault :=
    fun q hq => (hchecked q hq).1
  refine ⟨fun q hq => (hchecked q (hpolicies ▸ hq)).2, fun hr => ?_, fun r hrole hne => ?_,
    fun r hrole => ?_, fun hr hns hsudo => ?_⟩
  · -- `root` passed the check against the parent's slice
    obtain ⟨hparent, hbatch⟩ := hroot (hpolicies ▸ hr)
    obtain ⟨p, hp, hpr⟩ := exists_of_mem_parentPolicies t.choosePolicies_ok hparent
    exact ⟨⟨p, hp, hpr.trans (by decide)⟩, htype ▸ hbatch⟩
  · subst hrole
    rw [hpolicies]
    have hr : r.restrictsPolicies = true := by simp [TsRoleEntry.restrictsPolicies, hne]
    exact (roleBounds hr t.choosePolicies_ok hsub).1 hne
  · subst hrole
    rw [hpolicies]
    cases hr : r.restrictsPolicies
    · -- a role without disallowed policies disallows nothing
      intro q _ hq
      simp [(restrictsPolicies_eq_false_iff.mp hr).2, removeDuplicates] at hq
    · exact (roleBounds hr t.choosePolicies_ok hsub).2
  · rw [hpolicies]
    subst hsudo
    have hchoice := t.choosePolicies_ok
    rw [choosePolicies_of_not_restricts hr, hns] at hchoice
    exact fun q hq => parentPolicies_within hchoice q (hsub q hq)

/-- A mount with an hour's default and a day's maximum TTL, where `time.ParseDuration` reads
every text as zero and no alias has an entity, at the Unix epoch. -/
def sampleCreateEnv : CreateEnv where
  parseDuration := fun _ => .ok 0
  glob := fun _ _ => false
  matchingMountByAccessor := none
  createOrFetchEntity := fun _ => .ok none
  sysView := ⟨3600 * second, 86400 * second⟩
  creationTime := 0
  now := unixTime 0

/-- A service token of the root namespace that does not expire, with the given policies. -/
def sampleParent (policies : List String) : TokenEntry String where
  id := "parent"
  accessor := ""
  parent := ""
  policies := policies
  path := "auth/token/root"
  metadata := []
  displayName := "root"
  numUses := 0
  creationTime := 0
  ttl := 0
  explicitMaxTTL := 0
  role := ""
  period := 0
  entityID := ""
  boundCIDRs := []
  namespaceID := rootNamespaceID
  cubbyholeID := ""
  type := tokenTypeService

/-- A request for the given policies that sets nothing else. -/
def requestData (policies : List String) : CreateData where
  id := ""
  policies := policies
  metadata := []
  noParent := false
  noDefaultPolicy := false
  lease := ""
  ttl := ""
  renewable := none
  explicitMaxTTL := ""
  displayName := ""
  numUses := 0
  period := ""
  type := ""
  entityAlias := ""

/-- A child of a `dev` token asks for `dev` without sudo, and gets `default` with it. -/
theorem handleCreateCommon_policiesGranted_dev :
    ∃ c, handleCreateCommon sampleCreateEnv ⟨"parent", "create", rootNamespaceID⟩
        (sampleParent ["default", "dev"]) false (requestData ["dev"]) false none = .ok c ∧
      c.entry.policies = ["default", "dev"] ∧
      PoliciesGranted (sampleParent ["default", "dev"]) rootNamespaceID none false c.entry :=
  have h : handleCreateCommon sampleCreateEnv ⟨"parent", "create", rootNamespaceID⟩
      (sampleParent ["default", "dev"]) false (requestData ["dev"]) false none = .ok _ := rfl
  ⟨_, h, by decide, handleCreateCommon_policiesGranted h⟩

end Granted

/-! ## Fields only sudo may set -/

/-- What only sudo may give a token created below `parent` for the request `req`: its own ID,
in the root namespace only; a period; a namespace other than the parent's, where the request may
not ask for `root`; and no parent, outside roles that make orphans and `create-orphan`. -/
structure SudoGuarded (req : CreateRequest) (parent : TokenEntry Addr) (isSudo : Bool)
    (data : CreateData) (orphan : Bool) (role : Option (TsRoleEntry Addr))
    (entry : TokenEntry Addr) : Prop where
  ownID : entry.id ≠ "" → isSudo = true ∧ req.namespaceID = rootNamespaceID
  periodic : entry.period ≠ 0 → isSudo = true
  crossNamespace : entry.namespaceID ≠ parent.namespaceID → isSudo = true ∧ "root" ∉ data.policies
  parentless : entry.parent ≠ req.clientToken → entry.parent = "" ∧
    ((∃ r, role = some r ∧ r.orphan = true) ∨
      role = none ∧ (data.noParent = true ∧ isSudo = true ∨ orphan = true))

section Sudo

variable {env : CreateEnv} {req : CreateRequest} {parent : TokenEntry Addr} {isSudo : Bool}
  {data : CreateData} {orphan : Bool} {role : Option (TsRoleEntry Addr)} {c : Creation Addr}

theorem handleCreateCommon_sudoGuarded
    (h : handleCreateCommon env req parent isSudo data orphan role = .ok c) :
    SudoGuarded req parent isSudo data orphan role c.entry := by
  obtain ⟨t⟩ := handleCreateCommon_trace h
  obtain ⟨_, _, _, _, hentry⟩ := t.entry_eq
  obtain ⟨hid, hidSudo⟩ := customID_eq_ok t.customID_ok
  refine ⟨fun hne => ?_, fun hne => ?_, fun hne => ?_, fun hne => ?_⟩
  · rw [hentry, baseCreation_id, hid] at hne
    exact hidSudo hne
  · -- only `setPeriod` sets a period, on an entry that has none
    rw [hentry] at hne
    obtain ⟨d, _, hperioded, hset⟩ := setPeriod_eq_ok t.setPeriod_ok
    rw [hperioded] at hne
    exact (hset (by rw [t.maxed_period]; exact hne)).2.1
  · rw [hentry, baseCreation_namespaceID] at hne
    exact checkNamespace_eq_ok t.checkNamespace_ok hne
  · -- only `setParent` changes the parent link
    rw [hentry] at hne ⊢
    obtain ⟨parentID, _, hparented, hcases⟩ := setParent_eq_ok t.setParent_ok
    rw [hparented] at hne ⊢
    simp only [baseCreation_parent] at hcases
    exact hcases.resolve_left hne

/-- A sudo client gives a token of the root namespace its own ID, a period of an hour and no
parent. -/
theorem handleCreateCommon_sudoGuarded_customID :
    ∃ c, handleCreateCommon sampleCreateEnv ⟨"parent", "create", rootNamespaceID⟩
        (sampleParent ["root"]) true
        { requestData [] with id := "custom-id", period := "3600", noParent := true } false
        none = .ok c ∧
      c.entry.id = "custom-id" ∧ c.entry.period = 3600 * second ∧ c.entry.parent = "" ∧
      SudoGuarded ⟨"parent", "create", rootNamespaceID⟩ (sampleParent ["root"]) true
        { requestData [] with id := "custom-id", period := "3600", noParent := true } false
        none c.entry :=
  have h : handleCreateCommon sampleCreateEnv ⟨"parent", "create", rootNamespaceID⟩
      (sampleParent ["root"]) true
      { requestData [] with id := "custom-id", period := "3600", noParent := true } false
      none = .ok _ := rfl
  ⟨_, h, rfl, by decide, rfl, handleCreateCommon_sudoGuarded h⟩

end Sudo

/-! ## Tokens that do not expire -/

section Lifetime

variable {env : CreateEnv} {req : CreateRequest} {parent : TokenEntry Addr} {isSudo : Bool}
  {data : CreateData} {orphan : Bool} {role : Option (TsRoleEntry Addr)} {c : Creation Addr}

/-- The TTL a request gives is a `time.Duration` that is not negative. -/
theorem CreateTrace.ttled_ttl (t : CreateTrace env req parent isSudo data orphan role c)
    (hparse : ∀ s d, env.parseDuration s = .ok d → InInt64 d) :
    InInt64 t.ttled.entry.ttl ∧ 0 ≤ t.ttled.entry.ttl := by
  obtain ⟨d, httled, hset⟩ := setTTL_eq_ok t.setTTL_ok
  rw [httled]
  dsimp only
  by_cases hd : d = t.perioded.entry.ttl
  · rw [hd, t.perioded_ttl]
    norm_num [InInt64]
  · obtain ⟨hnonneg, hparsed⟩ := hset hd
    refine ⟨?_, hnonneg⟩
    rcases hparsed with hparsed | hparsed
    · exact parseDurationSecond_string_inInt64 hparse hparsed
    · exact hparse _ _ hparsed

/-- With sane TTLs on the mount, a token that does not expire is a root token, below a parent
that does not expire either; it is neither renewable nor bound to CIDRs. -/
theorem handleCreateCommon_nonExpiring
    (hsys : 0 < env.sysView.defaultLeaseTTL ∧
      env.sysView.defaultLeaseTTL ≤ env.sysView.maxLeaseTTL)
    (hmax : InInt64 env.sysView.maxLeaseTTL)
    (hparse : ∀ s d, env.parseDuration s = .ok d → InInt64 d)
    (htime : 0 ≤ env.now ∧ 0 ≤ env.creationTime)
    (h : handleCreateCommon env req parent isSudo data orphan role = .ok c)
    (hzero : c.entry.ttl = 0) :
    "root" ∈ c.entry.policies ∧ parent.ttl = 0 ∧ c.renewable = false ∧ c.entry.boundCIDRs = [] := by
  obtain ⟨t⟩ := handleCreateCommon_trace h
  obtain ⟨ttl, cidrs, renewable, hfinished, hfinishedZero, -⟩ := finishTTL_eq_ok t.finishTTL_ok
  rw [t.entry_eq_finished, hfinished] at hzero ⊢
  rw [t.renewable_eq_finished, hfinished]
  obtain ⟨hcalculated, hparent, hcidrs, hrenewable⟩ := hfinishedZero hzero
  -- the TTL is zero only if `CalculateTTL` was not asked, which happens for root tokens only
  obtain ⟨_, _, _, _, httled⟩ := t.ttled_entry
  obtain ⟨hfit, hnonneg⟩ := t.ttled_ttl hparse
  have hcreated : 0 ≤ (applyRoleTTLs role t.ttled).entry.creationTime := by
    rw [applyRoleTTLs_entry, httled]
    simpa using htime.2
  obtain ⟨-, hroot⟩ := calculateEntryTTL_zero hsys hmax htime.1
    (by rw [applyRoleTTLs_entry]; exact hfit) (by rw [applyRoleTTLs_entry]; exact hnonneg)
    hcreated t.calculateEntryTTL_ok hcalculated
  refine ⟨?_, hparent, hrenewable, hcidrs⟩
  obtain ⟨_, _, hcalc⟩ := calculateEntryTTL_eq_ok t.calculateEntryTTL_ok
  rw [hcalc]
  exact hroot

/-- A root token created by a root token that does not expire does not expire either. -/
theorem handleCreateCommon_nonExpiring_root :
    ∃ c, handleCreateCommon sampleCreateEnv ⟨"parent", "create", rootNamespaceID⟩
        (sampleParent ["root"]) true (requestData []) false none = .ok c ∧
      c.entry.ttl = 0 ∧ ("root" ∈ c.entry.policies ∧ (sampleParent ["root"]).ttl = 0 ∧
        c.renewable = false ∧ c.entry.boundCIDRs = []) :=
  have h : handleCreateCommon sampleCreateEnv ⟨"parent", "create", rootNamespaceID⟩
      (sampleParent ["root"]) true (requestData []) false none = .ok _ := rfl
  have hparse : ∀ s d, sampleCreateEnv.parseDuration s = .ok d → InInt64 d := by
    intro s d hd
    cases hd
    norm_num [InInt64]
  ⟨_, h, rfl, handleCreateCommon_nonExpiring (by decide)
    (by norm_num [InInt64, sampleCreateEnv, second]) hparse
    (by decide) h rfl⟩

end Lifetime

/-! ## Batch tokens -/

section Batch

variable {env : CreateEnv} {req : CreateRequest} {parent : TokenEntry Addr} {isSudo : Bool}
  {data : CreateData} {orphan : Bool} {role : Option (TsRoleEntry Addr)} {c : Creation Addr}

/-- A batch token is neither renewable nor a root token. The check on its request tests only
the first of `explicit_max_ttl`, `num_uses` and `period` that the request sets: a batch token
is created with uses or a period only when the request also sets an explicit maximum TTL that
reads as zero. -/
theorem handleCreateCommon_batch
    (h : handleCreateCommon env req parent isSudo data orphan role = .ok c)
    (hbatch : c.entry.type = tokenTypeBatch) :
    c.renewable = false ∧ "root" ∉ c.entry.policies ∧
      (data.numUses ≠ 0 ∨ c.entry.period ≠ 0 →
        data.explicitMaxTTL ≠ "" ∧
          parseDurationSecond env.parseDuration (.string data.explicitMaxTTL) = .ok 0) := by
  obtain ⟨t⟩ := handleCreateCommon_trace h
  obtain ⟨_, _, _, _, hentry⟩ := t.entry_eq
  have htype : t.typed.1 = tokenTypeBatch := by
    rw [← hbatch, hentry]
    simp
  -- the type the request asks for is a batch token, so the batch check passed
  obtain htyped | ⟨htyped, hreason⟩ := tokenTypeOf_eq_ok t.tokenTypeOf_ok
  · rw [htyped] at htype
    exact absurd htype (by simp [tokenTypeService, tokenTypeBatch])
  refine ⟨?_, fun hroot => ?_, fun huses => ?_⟩
  · obtain ⟨_, _, renewable, hfinished, -, hrenewable⟩ := finishTTL_eq_ok t.finishTTL_ok
    rw [t.renewable_eq_finished, hfinished]
    cases renewable
    · rfl
    · have hbase := baseCreation_renewable t.typed t.id
        (t.calculated_renewable ▸ hrenewable rfl)
      rw [htyped] at hbase
      cases hbase
  · rw [hentry] at hroot
    exact (checkedPolicies_eq_ok t.checkedPolicies_ok).2 hroot |>.2 htype
  · rcases batchBadReason_eq_empty hreason with hzero | ⟨hmax, hnone, hperiod⟩
    · exact hzero
    · -- with no explicit maximum the check saw the uses and the period
      exfalso
      rcases huses with huses | hperioded
      · exact huses hnone
      · rw [hentry] at hperioded
        obtain ⟨d, _, hp, hset⟩ := setPeriod_eq_ok t.setPeriod_ok
        rw [hp] at hperioded
        obtain ⟨hpos, -, -, hparsed⟩ := hset (by rw [t.maxed_period]; exact hperioded)
        exact absurd (hperiod d hparsed) (by omega)

/-- A batch token asks for three uses and an explicit maximum TTL of `0`, and is created with
the three uses. -/
theorem handleCreateCommon_batch_uses :
    ∃ c, handleCreateCommon sampleCreateEnv ⟨"parent", "create", rootNamespaceID⟩
        (sampleParent ["default", "dev"]) false
        { requestData [] with type := "batch", explicitMaxTTL := "0", numUses := 3 } false
        none = .ok c ∧
      c.entry.type = tokenTypeBatch ∧ c.entry.numUses = 3 ∧
      (c.renewable = false ∧ "root" ∉ c.entry.policies ∧
        ((3 : ℤ) ≠ 0 ∨ c.entry.period ≠ 0 → "0" ≠ "" ∧
          parseDurationSecond sampleCreateEnv.parseDuration (.string "0") = .ok 0)) :=
  have h : handleCreateCommon sampleCreateEnv ⟨"parent", "create", rootNamespaceID⟩
      (sampleParent ["default", "dev"]) false
      { requestData [] with type := "batch", explicitMaxTTL := "0", numUses := 3 } false
      none = .ok _ := rfl
  ⟨_, h, rfl, rfl, handleCreateCommon_batch h rfl⟩

end Batch

/-! ## Root tokens across namespaces -/

section CrossNamespace

variable {env : CreateEnv} {req : CreateRequest} {parent : TokenEntry Addr} {isSudo : Bool}
  {data : CreateData} {orphan : Bool} {role : Option (TsRoleEntry Addr)} {c : Creation Addr}

/-- Across namespaces, without a role that restricts policies, a token holds `root` only when
the request spelled it otherwise than `root`: the check against `root` reads the request before
`SanitizePolicies` trims and lowercases it. -/
theorem handleCreateCommon_crossNamespaceRoot
    (h : handleCreateCommon env req parent isSudo data orphan role = .ok c)
    (hns : req.namespaceID ≠ parent.namespaceID)
    (hrole : ∀ r, role = some r → r.restrictsPolicies = false)
    (hroot : "root" ∈ c.entry.policies) :
    "root" ∉ data.policies ∧ ∃ p ∈ data.policies, toLower (trimSpace p) = "root" := by
  obtain ⟨t⟩ := handleCreateCommon_trace h
  obtain ⟨_, _, _, _, hentry⟩ := t.entry_eq
  rw [hentry] at hroot
  -- across namespaces the request's policies go to `SanitizePolicies` as they are
  have hchoice := t.choosePolicies_ok
  rw [choosePolicies_of_not_restricts hrole] at hchoice
  have hmem := ((checkedPolicies_eq_ok t.checkedPolicies_ok).1 _ hroot).1
  rw [parentPolicies_of_ne hns hchoice] at hmem
  refine ⟨(checkNamespace_eq_ok t.checkNamespace_ok hns).2, ?_⟩
  by_contra hnone
  rw [mem_sanitizePolicies_of_not_root hnone] at hmem
  obtain ⟨-, hp | ⟨-, hd⟩⟩ := hmem
  · exact hnone hp
  · exact absurd hd (by decide)

/-- A root token of the root namespace asks for `ROOT` in the namespace `ns1`, and the token it
creates there holds `root`. -/
theorem handleCreateCommon_crossNamespaceRoot_upper :
    ∃ c, handleCreateCommon sampleCreateEnv ⟨"parent", "create", "ns1"⟩ (sampleParent ["root"])
        true (requestData ["ROOT"]) false none = .ok c ∧
      "root" ∈ c.entry.policies ∧ ("root" ∉ (requestData ["ROOT"]).policies ∧
        ∃ p ∈ (requestData ["ROOT"]).policies, toLower (trimSpace p) = "root") :=
  have h : handleCreateCommon sampleCreateEnv ⟨"parent", "create", "ns1"⟩ (sampleParent ["root"])
      true (requestData ["ROOT"]) false none = .ok _ := rfl
  ⟨_, h, by decide, handleCreateCommon_crossNamespaceRoot h (by decide) (fun _ hr => by cases hr)
    (by decide)⟩

end CrossNamespace

end Vault.Token
