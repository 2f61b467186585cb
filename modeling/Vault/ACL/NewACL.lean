import Vault.ACL.Policy
import Vault.Lib.Collections

/-!
# Building an ACL from policies

`NewACL` (vault/acl.go) files every path rule of the ACL policies under its path, in one of
three stores. Exact paths go to `exactRules`, prefix globs to `prefixRules`, and patterns
with `+` segments to `segmentWildcardPaths`. The first rule for a path is copied in. Each
later rule for the same path is merged into what is there:
- a deny already there keeps everything out;
- a deny arriving replaces the bitmap and clears the parameter maps;
- otherwise the bitmaps are ORed, the lesser positive wrapping TTLs kept, the parameter maps
  merged key by key, and the required parameters joined.

`rules_newACL` says what an ACL built from a list of policies holds under each key: the
accumulation of that key's rules, in their order (`Collections.lookup_foldl_upsert`).
`bitmap_newACL` then says what its bitmap is: the deny bit alone when any of the rules
denies, and the OR of their bitmaps otherwise.
-/

namespace Vault.Access

open GoRuntime Collections

variable {α : Type}

/-- The three stores of an ACL. -/
inductive RuleKind where
  | exactRules
  | prefixRules
  | segmentWildcardPaths
deriving DecidableEq, Repr

/-- A store of rules: a radix tree, or the map of segment-wildcard patterns. -/
abbrev PermsMap (α : Type) := AList (fun _ : String => ACLPermissions α)

/-- `ACL`. -/
structure ACL (α : Type) where
  exactRules : PermsMap α
  prefixRules : PermsMap α
  segmentWildcardPaths : PermsMap α
  root : Bool
  rgpPolicies : List (Policy α)

namespace ACL

/-- The ACL `NewACL` starts from. -/
def empty : ACL α := ⟨∅, ∅, ∅, false, []⟩

/-- One of the three stores. -/
def rules (a : ACL α) : RuleKind → PermsMap α
  | .exactRules => a.exactRules
  | .prefixRules => a.prefixRules
  | .segmentWildcardPaths => a.segmentWildcardPaths

/-- One of the three stores replaced. -/
def setRules (a : ACL α) : RuleKind → PermsMap α → ACL α
  | .exactRules, m => { a with exactRules := m }
  | .prefixRules, m => { a with prefixRules := m }
  | .segmentWildcardPaths, m => { a with segmentWildcardPaths := m }

@[simp] theorem rules_setRules_self (a : ACL α) (k : RuleKind) (m : PermsMap α) :
    (a.setRules k m).rules k = m := by
  cases k <;> rfl

@[simp] theorem rules_setRules_of_ne (a : ACL α) {k k' : RuleKind} (h : k ≠ k')
    (m : PermsMap α) : (a.setRules k m).rules k' = a.rules k' := by
  cases k <;> cases k' <;> first | rfl | exact absurd rfl h

@[simp] theorem root_setRules (a : ACL α) (k : RuleKind) (m : PermsMap α) :
    (a.setRules k m).root = a.root := by
  cases k <;> rfl

@[simp] theorem rules_empty (k : RuleKind) : (empty : ACL α).rules k = ∅ := by
  cases k <;> rfl

end ACL

/-- The store a rule is filed in. -/
def PathRules.kind (pc : PathRules α) : RuleKind :=
  if pc.hasSegmentWildcards then .segmentWildcardPaths
  else if pc.isPrefix then .prefixRules
  else .exactRules

/-- The key a rule is filed under: its store and its path. -/
def PathRules.ruleKey (pc : PathRules α) : RuleKind × String := (pc.kind, pc.path)

/-! ## Merging two rules of one path -/

/-- Of two wrapping TTLs, the lesser specified one; `0` is unspecified. -/
def mergeWrappingTTL (existing new : ℤ) : ℤ :=
  if 0 < new ∧ (existing = 0 ∨ new < existing) then new else existing

/-- The parameter maps of two rules merged: key by key, an empty value list (on either side)
allows every value and wins, and otherwise the new values go before the old ones. -/
def mergeParameterMap (existing new : ParamMap α) : ParamMap α :=
  if new.entries.isEmpty then existing
  else if existing.entries.isEmpty then new
  else new.entries.foldl (fun acc e =>
    let pcValue := acc.lookup e.1
    if e.2.isEmpty || (pcValue.isSome && (pcValue.getD []).isEmpty) then acc.insert e.1 []
    else acc.insert e.1 (e.2 ++ pcValue.getD [])) existing

/-- The required parameters of two rules joined, each name once (`StrListContains`). -/
def mergeRequiredParameters (existing new : List String) : List String :=
  if new.isEmpty then existing
  else if existing.isEmpty then new
  else new.foldl (fun acc v => if acc.contains v then acc else acc ++ [v]) existing

/-- A rule merged into the permissions of a path that do not deny. -/
def mergePermissions (existing pc : ACLPermissions α) : ACLPermissions α :=
  if pc.denies then
    -- only save the deny value
    { existing with capabilitiesBitmap := denyCapabilityInt, allowedParameters := ∅,
                    deniedParameters := ∅ }
  else
    { capabilitiesBitmap := existing.capabilitiesBitmap ||| pc.capabilitiesBitmap
      minWrappingTTL := mergeWrappingTTL existing.minWrappingTTL pc.minWrappingTTL
      maxWrappingTTL := mergeWrappingTTL existing.maxWrappingTTL pc.maxWrappingTTL
      allowedParameters := mergeParameterMap existing.allowedParameters pc.allowedParameters
      deniedParameters := mergeParameterMap existing.deniedParameters pc.deniedParameters
      requiredParameters :=
        mergeRequiredParameters existing.requiredParameters pc.requiredParameters }

/-- The lesser positive of two wrapping TTLs that are not negative, in either order. -/
theorem mergeWrappingTTL_comm {e n : ℤ} (he : 0 ≤ e) (hn : 0 ≤ n) :
    mergeWrappingTTL e n = mergeWrappingTTL n e := by
  unfold mergeWrappingTTL
  split_ifs <;> omega

theorem mergeWrappingTTL_right_comm (e n m : ℤ) :
    mergeWrappingTTL (mergeWrappingTTL e n) m = mergeWrappingTTL (mergeWrappingTTL e m) n := by
  unfold mergeWrappingTTL
  split_ifs <;> omega

theorem mergeWrappingTTL_nonneg {e n : ℤ} (he : 0 ≤ e) (hn : 0 ≤ n) :
    0 ≤ mergeWrappingTTL e n := by
  unfold mergeWrappingTTL
  split_ifs <;> omega

/-- The loop of `mergeParameterMap` over the new entries: each name of the new map gets its values
before the old ones, or `[]` when either side allows every value. -/
theorem lookup_foldl_mergeEntry (k : String) :
    ∀ (l : List (Σ _ : String, List (ParamValue α))), l.NodupKeys → ∀ acc : ParamMap α,
      (l.foldl (fun acc e =>
        let pcValue := acc.lookup e.1
        if e.2.isEmpty || (pcValue.isSome && (pcValue.getD []).isEmpty) then acc.insert e.1 []
        else acc.insert e.1 (e.2 ++ pcValue.getD [])) acc).lookup k =
      (l.dlookup k).elim (acc.lookup k) fun vs =>
        some (if vs.isEmpty || ((acc.lookup k).isSome && ((acc.lookup k).getD []).isEmpty) then []
          else vs ++ (acc.lookup k).getD [])
  | [], _, _ => rfl
  | e :: l, hl, acc => by
    obtain ⟨he, hl⟩ := List.nodupKeys_cons.mp hl
    rw [List.foldl_cons, lookup_foldl_mergeEntry k l hl]
    by_cases hk : k = e.1
    · -- the entry of `k`: no later entry has its name
      subst hk
      rw [List.dlookup_eq_none.mpr he, List.dlookup_cons_eq, Option.elim_none, Option.elim_some]
      dsimp only
      split <;> rw [AList.lookup_insert]
    · rw [List.dlookup_cons_ne l e hk]
      dsimp only
      split <;> simp only [AList.lookup_insert_ne hk]

/-- What the merged parameter map holds under a name. -/
theorem lookup_mergeParameterMap (existing new : ParamMap α) (k : String) :
    (mergeParameterMap existing new).lookup k =
      if new.entries.isEmpty then existing.lookup k
      else if existing.entries.isEmpty then new.lookup k
      else (new.lookup k).elim (existing.lookup k) fun vs =>
        some (if vs.isEmpty || ((existing.lookup k).isSome &&
            ((existing.lookup k).getD []).isEmpty) then []
          else vs ++ (existing.lookup k).getD []) := by
  unfold mergeParameterMap
  split_ifs
  · rfl
  · rfl
  · exact lookup_foldl_mergeEntry k new.entries new.nodupKeys existing

/-- One turn of the join: the name is appended unless it is there already. -/
theorem mem_joinRequired_step (x v : String) (acc : List String) :
    x ∈ (if acc.contains v then acc else acc ++ [v]) ↔ x ∈ acc ∨ x = v := by
  split
  · rename_i hc
    have hv : v ∈ acc := by simpa using hc
    constructor
    · exact Or.inl
    · rintro (hx | rfl) <;> assumption
  · simp

theorem mem_foldl_joinRequired (x : String) :
    ∀ (l acc : List String),
      x ∈ l.foldl (fun acc v => if acc.contains v then acc else acc ++ [v]) acc ↔ x ∈ acc ∨ x ∈ l
  | [], acc => by simp
  | v :: l, acc => by
    rw [List.foldl_cons, mem_foldl_joinRequired x l, mem_joinRequired_step, List.mem_cons, or_assoc]

/-- The required parameters joined are those of either side. -/
theorem mem_mergeRequiredParameters (existing new : List String) (x : String) :
    x ∈ mergeRequiredParameters existing new ↔ x ∈ existing ∨ x ∈ new := by
  unfold mergeRequiredParameters
  split_ifs with hnew hex
  · simp [List.isEmpty_iff.mp hnew]
  · simp [List.isEmpty_iff.mp hex]
  · exact mem_foldl_joinRequired x new existing

/-! ## The loops of `NewACL` -/

/-- The body of the loop over a policy's rules. -/
def insertRule (a : ACL α) (pc : PathRules α) : ACL α :=
  let tree := a.rules pc.kind
  match tree.lookup pc.path with
  | none => a.setRules pc.kind (tree.insert pc.path pc.permissions)
  | some existing =>
    -- a deny already there: continue
    if existing.denies then a
    else a.setRules pc.kind (tree.insert pc.path (mergePermissions existing pc.permissions))

/-- The check for the policy named `root`: only in the root namespace, and only on its own. -/
def markRoot (ns : Namespace) (numPolicies : ℕ) (a : ACL α) (policy : Policy α) : Go (ACL α) :=
  if policy.name = "root" then
    if ns.id ≠ rootNamespaceID then .error (.error "root policy is only allowed in root namespace")
    else if numPolicies ≠ 1 then .error (.error "other policies present along with root")
    else .ok { a with root := true }
  else .ok a

/-- The body of the loop over the policies, for a list of `numPolicies` policies. -/
def insertPolicy (ns : Namespace) (numPolicies : ℕ) (a : ACL α) :
    Option (Policy α) → Go (ACL α)
  | none => .ok a
  | some policy =>
    match policy.type with
    | .acl => do
      let a ← markRoot ns numPolicies a policy
      pure (policy.paths.foldl insertRule a)
    | .rgp => .ok { a with rgpPolicies := a.rgpPolicies ++ [policy] }
    | _ => .error (.error "unable to parse policy (wrong type)")

/-- `NewACL`; `ns` is the namespace of the request context, if it has one. -/
def newACL (ns : Option Namespace) (policies : List (Option (Policy α))) : Go (ACL α) :=
  match ns with
  | none => .error (.error "no namespace")
  | some ns => policies.foldlM (insertPolicy ns policies.length) ACL.empty

/-! ## What is stored under each key -/

/-- What a later rule does to the permissions of its path: a deny already there keeps them,
otherwise the rule is merged in. -/
def mergeRule (existing : ACLPermissions α) (pc : PathRules α) : ACLPermissions α :=
  if existing.denies then existing else mergePermissions existing pc.permissions

/-- The permissions filed under a key after the rules `rs` arrived at it, from what was there. -/
def storedAfter (old : Option (ACLPermissions α)) (rs : List (PathRules α)) :
    Option (ACLPermissions α) :=
  accumulate (·.permissions) mergeRule old rs

/-- The rules of a policy that `NewACL` files: those of an ACL policy. -/
def policyRules : Option (Policy α) → List (PathRules α)
  | some p => if p.type = .acl then p.paths else []
  | none => []

/-- The rules of all ACL policies, in order. -/
def aclRules (policies : List (Option (Policy α))) : List (PathRules α) :=
  policies.flatMap policyRules

theorem rules_markRoot {ns : Namespace} {n : ℕ} {a a' : ACL α} {p : Policy α}
    (h : markRoot ns n a p = .ok a') : a'.rules = a.rules := by
  unfold markRoot at h
  split at h
  · split at h
    · cases h
    · split at h
      · cases h
      · cases h
        funext k
        cases k <;> rfl
  · cases h
    rfl

theorem rules_insertRule (a : ACL α) (pc : PathRules α) (k : RuleKind) (path : String) :
    ((insertRule a pc).rules k).lookup path =
      if pc.ruleKey = (k, path) then
        some (upsertValue (·.permissions) mergeRule ((a.rules k).lookup path) pc)
      else (a.rules k).lookup path := by
  simp only [insertRule, PathRules.ruleKey, Prod.mk.injEq]
  by_cases hk : pc.kind = k
  · subst hk
    by_cases hp : pc.path = path
    · subst hp
      split <;> rename_i hlook
      · simp [hlook, upsertValue]
      · split <;> simp_all [upsertValue, mergeRule]
    · have hp' : path ≠ pc.path := Ne.symm hp
      split <;> [skip; split] <;> simp [AList.lookup_insert_ne hp', hp]
  · split <;> [skip; split] <;> simp [hk]

@[simp] theorem root_insertRule (a : ACL α) (pc : PathRules α) :
    (insertRule a pc).root = a.root := by
  simp only [insertRule]
  split <;> [skip; split] <;> simp

/-- The rules of a policy, folded in, file each under its key. -/
theorem rules_foldl_insertRule (a : ACL α) (rs : List (PathRules α)) (k : RuleKind)
    (path : String) :
    ((rs.foldl insertRule a).rules k).lookup path =
      storedAfter ((a.rules k).lookup path) (rs.filter (·.ruleKey = (k, path))) :=
  lookup_foldl_upsert (fun a (key : RuleKind × String) => (a.rules key.1).lookup key.2)
    insertRule PathRules.ruleKey (·.permissions) mergeRule
    (fun a pc key => rules_insertRule a pc key.1 key.2) rs a (k, path)

/-- One policy filed in: its ACL rules are added under their keys. -/
theorem rules_insertPolicy {ns : Namespace} {n : ℕ} {a a' : ACL α} {p : Option (Policy α)}
    (h : insertPolicy ns n a p = .ok a') (k : RuleKind) (path : String) :
    (a'.rules k).lookup path =
      storedAfter ((a.rules k).lookup path) ((policyRules p).filter (·.ruleKey = (k, path))) := by
  rcases p with _ | p
  · cases h
    rfl
  · simp only [insertPolicy] at h
    split at h
    · rename_i htype
      obtain ⟨a₁, ha₁, h⟩ := bind_eq_ok h
      cases h
      simp [rules_foldl_insertRule, rules_markRoot ha₁, policyRules, htype]
    · cases h
      rename_i htype
      simp [policyRules, htype]
      cases k <;> rfl
    · cases h

/-- What `NewACL` stores under each key: the accumulation of the key's rules, in order. -/
theorem rules_newACL {ns : Option Namespace} {policies : List (Option (Policy α))} {a : ACL α}
    (h : newACL ns policies = .ok a) (k : RuleKind) (path : String) :
    (a.rules k).lookup path = storedAfter none ((aclRules policies).filter (·.ruleKey = (k, path))) := by
  rcases ns with _ | ns
  · cases h
  · simp only [newACL] at h
    suffices ∀ (ps : List (Option (Policy α))) (a₀ : ACL α),
        ps.foldlM (insertPolicy ns policies.length) a₀ = .ok a →
        (a.rules k).lookup path =
          storedAfter ((a₀.rules k).lookup path) ((aclRules ps).filter (·.ruleKey = (k, path))) by
      simpa using this policies ACL.empty h
    intro ps
    induction ps with
    | nil =>
      intro a₀ h
      cases h
      rfl
    | cons p ps ih =>
      intro a₀ h
      rw [List.foldlM_cons] at h
      obtain ⟨a₁, ha₁, h⟩ := bind_eq_ok h
      rw [ih a₁ h, rules_insertPolicy ha₁]
      simp only [aclRules, List.flatMap_cons, List.filter_append, storedAfter, accumulate_append]

/-! ## The bitmap under a key -/

/-- The OR of the bitmaps of some rules, onto `b`. -/
def orBitmaps (b : UInt32) (rs : List (PathRules α)) : UInt32 :=
  rs.foldl (fun b r => b ||| r.permissions.capabilitiesBitmap) b

/-- The OR of the bitmaps does not depend on the order of the rules. -/
theorem orBitmaps_perm (b : UInt32) {rs rs' : List (PathRules α)} (h : rs.Perm rs') :
    orBitmaps b rs = orBitmaps b rs' :=
  h.foldl_eq' (fun x _ y _ z => by
    rw [UInt32.or_assoc, UInt32.or_comm x.permissions.capabilitiesBitmap, ← UInt32.or_assoc]) b

/-- A rule merged into permissions where neither denies. -/
theorem mergeRule_of_not_denies {e : ACLPermissions α} {pc : PathRules α} (he : e.denies = false)
    (hpc : pc.permissions.denies = false) :
    mergeRule e pc =
      { capabilitiesBitmap := e.capabilitiesBitmap ||| pc.permissions.capabilitiesBitmap
        minWrappingTTL := mergeWrappingTTL e.minWrappingTTL pc.permissions.minWrappingTTL
        maxWrappingTTL := mergeWrappingTTL e.maxWrappingTTL pc.permissions.maxWrappingTTL
        allowedParameters :=
          mergeParameterMap e.allowedParameters pc.permissions.allowedParameters
        deniedParameters := mergeParameterMap e.deniedParameters pc.permissions.deniedParameters
        requiredParameters :=
          mergeRequiredParameters e.requiredParameters pc.permissions.requiredParameters } := by
  simp [mergeRule, mergePermissions, he, hpc]

theorem denies_mergeRule (e : ACLPermissions α) (pc : PathRules α) :
    (mergeRule e pc).denies = (e.denies || pc.permissions.denies) := by
  unfold mergeRule mergePermissions
  cases he : e.denies with
  | true => simp [he]
  | false =>
    cases hp : pc.permissions.denies with
    | true => simp [ACLPermissions.denies, denyCapabilityInt]
    | false =>
      simp only [Bool.false_eq_true, if_false, Bool.or_false]
      rw [denies_eq_false_iff] at he hp ⊢
      exact or_and_deny_eq_zero he hp

theorem bitmap_mergeRule {e : ACLPermissions α} {pc : PathRules α} (he : e.DenyAlone) :
    (mergeRule e pc).capabilitiesBitmap =
      if e.denies || pc.permissions.denies then denyCapabilityInt
      else e.capabilitiesBitmap ||| pc.permissions.capabilitiesBitmap := by
  unfold mergeRule mergePermissions
  cases hed : e.denies with
  | true => simp [he hed]
  | false => cases pc.permissions.denies <;> simp

theorem denyAlone_mergeRule {e : ACLPermissions α} {pc : PathRules α} (he : e.DenyAlone) :
    (mergeRule e pc).DenyAlone := by
  intro hd
  rw [bitmap_mergeRule he, ← denies_mergeRule, hd, if_pos rfl]

/-- The permissions stored after some rules keep denying alone. -/
theorem denyAlone_storedAfter {old : Option (ACLPermissions α)} {rs : List (PathRules α)}
    (hold : ∀ e ∈ old, e.DenyAlone) (hrs : ∀ r ∈ rs, r.permissions.DenyAlone) :
    ∀ e ∈ storedAfter old rs, e.DenyAlone := by
  induction rs generalizing old with
  | nil => exact hold
  | cons r rs ih =>
    refine ih ?_ (fun r' hr' => hrs r' (List.mem_cons_of_mem r hr'))
    intro e he
    cases old with
    | none => cases he; exact hrs r List.mem_cons_self
    | some e₀ =>
      cases he
      exact denyAlone_mergeRule (hold e₀ rfl)

/-- The bitmap stored after some rules arrive at a path that held `e`. -/
theorem bitmap_storedAfter_some {e : ACLPermissions α} (he : e.DenyAlone)
    {rs : List (PathRules α)} (hrs : ∀ r ∈ rs, r.permissions.DenyAlone) :
    ∃ v, storedAfter (some e) rs = some v ∧
      v.denies = (e.denies || rs.any (·.permissions.denies)) ∧
      v.capabilitiesBitmap = if e.denies || rs.any (·.permissions.denies) then denyCapabilityInt
        else orBitmaps e.capabilitiesBitmap rs := by
  induction rs generalizing e with
  | nil =>
    refine ⟨e, rfl, by simp, ?_⟩
    cases hd : e.denies with
    | true => simp [he hd]
    | false => simp [orBitmaps]
  | cons r rs ih =>
    obtain ⟨v, hv, hden, hbits⟩ := ih (denyAlone_mergeRule he)
      (fun r' hr' => hrs r' (List.mem_cons_of_mem r hr'))
    refine ⟨v, hv, ?_, ?_⟩
    · rw [hden, denies_mergeRule, List.any_cons, Bool.or_assoc]
    · rw [hbits, denies_mergeRule, bitmap_mergeRule he, List.any_cons, ← Bool.or_assoc]
      by_cases hd : (e.denies || r.permissions.denies) <;> simp [hd, orBitmaps]

/-- The bitmap `NewACL` stores under a key with rules: the deny bit alone when one of them
denies, else the OR of their bitmaps. -/
theorem bitmap_storedAfter_none {rs : List (PathRules α)} (hne : rs ≠ [])
    (hrs : ∀ r ∈ rs, r.permissions.DenyAlone) :
    ∃ v, storedAfter none rs = some v ∧
      v.capabilitiesBitmap = if rs.any (·.permissions.denies) then denyCapabilityInt
        else orBitmaps 0 rs := by
  obtain ⟨r, rs, rfl⟩ := List.exists_cons_of_ne_nil hne
  have hr := hrs r List.mem_cons_self
  obtain ⟨v, hv, -, hbits⟩ := bitmap_storedAfter_some hr
    (fun r' hr' => hrs r' (List.mem_cons_of_mem r hr'))
  refine ⟨v, hv, ?_⟩
  rw [hbits]
  simp [orBitmaps]

/-! ## Policies as they are parsed -/

/-- The policies `NewACL` is handed, as `ParseACLPolicy` builds them: each one's rules are what
`parsePaths` returned for its stanzas. -/
def Parsed (policies : List (Option (Policy α))) : Prop :=
  ∀ policy, some policy ∈ policies → ∃ ns items, parsePaths ns items = .ok policy.paths

/-- Each rule of parsed policies is one that `parsePath` returned. -/
theorem Parsed.parsePath_of_mem {policies : List (Option (Policy α))} (hp : Parsed policies)
    {r : PathRules α} (hr : r ∈ aclRules policies) : ∃ ns item, parsePath ns item = .ok r := by
  obtain ⟨p, hp', hr⟩ := List.mem_flatMap.mp hr
  rcases p with _ | policy
  · cases hr
  · have hr' : r ∈ policy.paths := by
      simp only [policyRules] at hr
      split at hr
      · exact hr
      · cases hr
    obtain ⟨ns, items, hparse⟩ := hp policy hp'
    obtain ⟨item, -, hitem⟩ := mem_of_mapM_eq_ok hparse hr'
    exact ⟨ns, item, hitem⟩

/-- The rules of parsed policies deny alone. -/
theorem Parsed.denyAlone {policies : List (Option (Policy α))} (hp : Parsed policies)
    {r : PathRules α} (hr : r ∈ aclRules policies) : r.permissions.DenyAlone := by
  obtain ⟨ns, item, hparse⟩ := hp.parsePath_of_mem hr
  exact parsePath_denyAlone hparse

/-- The bitmap `NewACL` stores under a key with rules, from parsed policies: the deny bit alone
when one of the rules denies, else the OR of their bitmaps. -/
theorem bitmap_newACL {ns : Option Namespace} {policies : List (Option (Policy α))} {a : ACL α}
    (h : newACL ns policies = .ok a) (hp : Parsed policies) {k : RuleKind} {path : String}
    (hne : (aclRules policies).filter (·.ruleKey = (k, path)) ≠ []) :
    ∃ v, (a.rules k).lookup path = some v ∧
      v.capabilitiesBitmap =
        if ((aclRules policies).filter (·.ruleKey = (k, path))).any (·.permissions.denies) then
          denyCapabilityInt
        else orBitmaps 0 ((aclRules policies).filter (·.ruleKey = (k, path))) := by
  rw [rules_newACL h k path]
  exact bitmap_storedAfter_none hne fun r hr => hp.denyAlone (List.mem_of_mem_filter hr)

/-- A key with permissions stored under it had rules filed under it. -/
theorem exists_rule_of_lookup_newACL {ns : Option Namespace} {policies : List (Option (Policy α))}
    {a : ACL α} (h : newACL ns policies = .ok a) {k : RuleKind} {path : String}
    (hk : ((a.rules k).lookup path).isSome) : ∃ r ∈ aclRules policies, r.ruleKey = (k, path) := by
  rw [rules_newACL h] at hk
  by_contra hnone
  rw [List.filter_eq_nil_iff.mpr (by simpa using hnone)] at hk
  simp [storedAfter] at hk

/-- From parsed policies, `NewACL` files no segment-wildcard path under the empty key. -/
theorem segmentWildcardPaths_key_ne_empty {ns : Option Namespace}
    {policies : List (Option (Policy α))} {a : ACL α} (h : newACL ns policies = .ok a)
    (hp : Parsed policies) : ∀ k ∈ a.segmentWildcardPaths.keys, k ≠ "" := by
  intro k hk
  have hlook : ((a.rules .segmentWildcardPaths).lookup k).isSome :=
    AList.lookup_isSome.mpr (AList.mem_keys.mp hk)
  obtain ⟨r, hr, hkey⟩ := exists_rule_of_lookup_newACL h hlook
  obtain ⟨ns', item, hparse⟩ := hp.parsePath_of_mem hr
  simp only [PathRules.ruleKey, Prod.mk.injEq] at hkey
  rw [← hkey.2]
  refine parsePath_path_ne_empty hparse ?_
  -- only a rule with segment wildcards is filed with the segment-wildcard paths
  cases hs : r.hasSegmentWildcards with
  | true => rfl
  | false =>
    have hkind := hkey.1
    simp only [PathRules.kind, hs, Bool.false_eq_true, if_false] at hkind
    split at hkind <;> cases hkind

/-! ## When `NewACL` returns, and when its ACL is root -/

/-- Whether `NewACL` accepts a policy among `n` in namespace `ns`: no policy, an ACL policy
(`root` only on its own and in the root namespace), or a Sentinel policy. -/
def PolicyAccepted (ns : Namespace) (n : ℕ) : Option (Policy α) → Prop
  | none => True
  | some policy =>
    (policy.type = .acl ∧ (policy.name = "root" → ns.id = rootNamespaceID ∧ n = 1)) ∨
      policy.type = .rgp

theorem markRoot_ok_iff {ns : Namespace} {n : ℕ} {a : ACL α} {policy : Policy α} :
    (∃ a', markRoot ns n a policy = .ok a') ↔
      (policy.name = "root" → ns.id = rootNamespaceID ∧ n = 1) := by
  unfold markRoot
  split_ifs with hname hid hn <;> simp_all

/-- A policy goes in, whatever the ACL so far, exactly when `NewACL` accepts it. -/
theorem insertPolicy_ok_iff (ns : Namespace) (n : ℕ) (a : ACL α) (p : Option (Policy α)) :
    (∃ a', insertPolicy ns n a p = .ok a') ↔ PolicyAccepted ns n p := by
  rcases p with _ | policy
  · simp [insertPolicy, PolicyAccepted]
  · cases htype : policy.type <;> simp only [insertPolicy, PolicyAccepted, htype]
    case acl =>
      -- the rules always go in once `markRoot` returns
      simp only [true_and, reduceCtorEq, or_false]
      constructor
      · rintro ⟨a', h⟩
        obtain ⟨a₁, ha₁, -⟩ := bind_eq_ok h
        exact markRoot_ok_iff.mp ⟨a₁, ha₁⟩
      · intro h
        obtain ⟨a₁, ha₁⟩ := markRoot_ok_iff.mpr h
        exact ⟨_, by rw [ha₁, ok_bind]; rfl⟩
    all_goals simp

/-- `NewACL` returns exactly when the context has a namespace and every policy is accepted. -/
theorem newACL_ok_iff (ns : Option Namespace) (policies : List (Option (Policy α))) :
    (∃ a, newACL ns policies = .ok a) ↔
      ∃ ns', ns = some ns' ∧ ∀ p ∈ policies, PolicyAccepted ns' policies.length p := by
  rcases ns with _ | ns
  · simp [newACL]
  · simp only [newACL, Option.some.injEq, exists_eq_left']
    exact foldlM_ok_iff _ (fun a p => insertPolicy_ok_iff ns policies.length a p) policies ACL.empty

theorem root_foldl_insertRule (a : ACL α) (rs : List (PathRules α)) :
    (rs.foldl insertRule a).root = a.root := by
  induction rs generalizing a with
  | nil => rfl
  | cons r rs ih => rw [List.foldl_cons, ih, root_insertRule]

theorem root_markRoot {ns : Namespace} {n : ℕ} {a a' : ACL α} {policy : Policy α}
    (h : markRoot ns n a policy = .ok a') :
    a'.root = true ↔ a.root = true ∨ policy.name = "root" := by
  unfold markRoot at h
  split_ifs at h with hname <;> cases h <;> simp [hname]

/-- A policy that goes in makes the ACL root exactly when it is an ACL policy named `root`. -/
theorem root_insertPolicy {ns : Namespace} {n : ℕ} {a a' : ACL α} {p : Option (Policy α)}
    (h : insertPolicy ns n a p = .ok a') :
    a'.root = true ↔
      a.root = true ∨ ∃ policy, p = some policy ∧ policy.type = .acl ∧ policy.name = "root" := by
  rcases p with _ | policy
  · cases h
    simp
  · simp only [insertPolicy] at h
    split at h
    · rename_i htype
      obtain ⟨a₁, ha₁, h⟩ := bind_eq_ok h
      cases h
      rw [root_foldl_insertRule, root_markRoot ha₁]
      simp [htype]
    · rename_i htype
      cases h
      simp [htype]
    · cases h

/-- The ACL `NewACL` builds is root exactly when one of the policies is an ACL policy named
`root`. -/
theorem root_newACL {ns : Option Namespace} {policies : List (Option (Policy α))} {a : ACL α}
    (h : newACL ns policies = .ok a) :
    a.root = true ↔ ∃ policy, some policy ∈ policies ∧ policy.type = .acl ∧ policy.name = "root" := by
  rcases ns with _ | ns
  · cases h
  · simp only [newACL] at h
    suffices ∀ (ps : List (Option (Policy α))) (a₀ : ACL α),
        ps.foldlM (insertPolicy ns policies.length) a₀ = .ok a →
        (a.root = true ↔ a₀.root = true ∨
          ∃ policy, some policy ∈ ps ∧ policy.type = .acl ∧ policy.name = "root") by
      simpa [ACL.empty] using this policies ACL.empty h
    intro ps
    induction ps with
    | nil =>
      intro a₀ h
      cases h
      simp
    | cons p ps ih =>
      intro a₀ h
      rw [List.foldlM_cons] at h
      obtain ⟨a₁, ha₁, h⟩ := bind_eq_ok h
      rw [ih a₁ h, root_insertPolicy ha₁]
      simp only [List.mem_cons]
      grind

end Vault.Access
