import Vault.ACL.AllowOperation

/-!
# The order of the policies

A token's policies come in no fixed order, and `NewACL` merges the rules of one key in the order
their policies come. The bitmap under a key does not depend on that order: it is the deny bit
alone when a rule denies, else the OR of the bitmaps (`bitmap_newACL`). Nor do the keys, nor
whether the ACL is root, nor whether `NewACL` returns at all.

Two ACLs with the same keys, and permissions under each key related by some `R` (`SameRules`),
have `AllowOperation` find rules under the same key, with related permissions: each candidate rule
of a path in one has a counterpart of the same priority in the other, so the top candidates
correspond (`selectRule_rel`). When the checks of a request cannot tell related permissions
apart, the request gets the same answer from both (`allowOperation_eq_of_sameRules`). With the
capability check only, the checks read the bitmap alone, so what `AllowOperation` then answers,
and what `Capabilities` answers, does not depend on the order of the policies
(`allowOperation_capCheckOnly_perm`). Nor does the whole answer, parameters and wrapping TTLs
included, when no wrapping TTL is negative (`allowOperation_perm`); a negative one, which parsing
accepts, makes it depend on the order (`allowOperation_order_of_negative_ttl`).
-/

namespace Vault.Access

open GoRuntime GoStrings Collections Vault.Routing

variable {α : Type}

/-- Two ACLs whose stores have the same keys, with permissions related by `R` under each. -/
def SameRules (R : ACLPermissions α → ACLPermissions α → Prop) (a a' : ACL α) : Prop :=
  ∀ k path, Option.Rel R ((a.rules k).lookup path) ((a'.rules k).lookup path)

/-- Two rules found under the same key, with permissions related by `R`. -/
def HitRel (R : ACLPermissions α → ACLPermissions α → Prop) (hit hit' : RuleHit α) : Prop :=
  hit.ruleKey = hit'.ruleKey ∧ R hit.perms hit'.perms

namespace SameRules

variable {R : ACLPermissions α → ACLPermissions α → Prop} {a a' : ACL α}

theorem symm (h : SameRules R a a') : SameRules (flip R) a' a := by
  intro k path
  have hk := h k path
  generalize (a.rules k).lookup path = o at hk ⊢
  generalize (a'.rules k).lookup path = o' at hk ⊢
  cases hk with
  | none => exact .none
  | some hr => exact .some hr

/-- What one ACL stores under a key, the other stores too, related by `R`. -/
theorem lookup (h : SameRules R a a') (k : RuleKind) {path : String} {p : ACLPermissions α}
    (hp : (a.rules k).lookup path = some p) :
    ∃ p', (a'.rules k).lookup path = some p' ∧ R p p' := by
  have hk := h k path
  rw [hp] at hk
  generalize (a'.rules k).lookup path = o' at hk ⊢
  cases hk with
  | some hr => exact ⟨_, rfl, hr⟩

theorem mem_keys (h : SameRules R a a') (k : RuleKind) {path : String}
    (hk : path ∈ (a.rules k).keys) : path ∈ (a'.rules k).keys := by
  obtain ⟨p, hp⟩ := Option.isSome_iff_exists.mp (AList.lookup_isSome.mpr (AList.mem_keys.mpr hk))
  obtain ⟨p', hp', -⟩ := h.lookup k hp
  exact AList.mem_keys.mp (AList.lookup_isSome.mp (by simp [hp']))

/-- A candidate rule of a path in one ACL has a counterpart in the other, of the same priority,
under the same key and with related permissions. -/
theorem candidate (h : SameRules R a a') {path : String} {d : WcPathDescr α}
    (hd : IsCandidate a path d) :
    ∃ d', IsCandidate a' path d' ∧ priority d' = priority d ∧ HitRel R d.perms d'.perms := by
  rcases hd with ⟨pfx, perms, hmem, hpre, hlong, rfl⟩ | ⟨k, perms, hmem, hmatch, rfl⟩
  · -- the longest prefix rule: the other ACL has the same prefix keys
    obtain ⟨perms', hl', hr⟩ := h.lookup .prefixRules (AList.mem_lookup_iff.mpr hmem)
    exact ⟨prefixDescr pfx perms', .inl ⟨pfx, perms', AList.mem_lookup_iff.mp hl', hpre,
      fun k hk hk' => hlong k (h.symm.mem_keys .prefixRules hk) hk', rfl⟩, rfl, rfl, hr⟩
  · obtain ⟨perms', hl', hr⟩ := h.lookup .segmentWildcardPaths (AList.mem_lookup_iff.mpr hmem)
    exact ⟨segmentDescr k perms', .inr ⟨k, perms', AList.mem_lookup_iff.mp hl', hmatch, rfl⟩,
      rfl, rfl, hr⟩

end SameRules

/-- The top candidate ranks at least as high as every candidate. -/
theorem priority_le_of_top {a : ACL α} {path : String} {d d' : WcPathDescr α}
    (hmax : ∀ d', IsCandidate a path d' → d' ≠ d → less d' d = true)
    (hd' : IsCandidate a path d') : priority d' ≤ priority d := by
  by_cases hne : d' = d
  · rw [hne]
  · have hless := hmax d' hd' hne
    rw [less_eq_decide, decide_eq_true_eq] at hless
    exact hless.le

section Transport

variable {R : ACLPermissions α → ACLPermissions α → Prop} {a a' : ACL α}

/-- Two ACLs with the same keys and related permissions, and no empty segment-wildcard path,
have `CheckAllowedFromNonExactPaths` pick rules under the same key, with related permissions. -/
theorem checkAllowedFromNonExactPaths_rel (h : SameRules R a a')
    (hkeys : ∀ k ∈ a.segmentWildcardPaths.keys, k ≠ "")
    (hkeys' : ∀ k ∈ a'.segmentWildcardPaths.keys, k ≠ "") (path : String) :
    ∃ o o', a.checkAllowedFromNonExactPaths path false = .ok o ∧
      a'.checkAllowedFromNonExactPaths path false = .ok o' ∧ Option.Rel (HitRel R) o o' := by
  unfold ACL.checkAllowedFromNonExactPaths
  rcases checkAllowedFromNonExactPathsIn_max a hkeys (List.Perm.refl _) path with
    ⟨hnone, hno⟩ | ⟨d, hd, hdmax, hres⟩ <;>
  rcases checkAllowedFromNonExactPathsIn_max a' hkeys' (List.Perm.refl _) path with
    ⟨hnone', hno'⟩ | ⟨e, he, hemax, hres'⟩
  · exact ⟨_, _, hnone, hnone', .none⟩
  · -- a candidate in one ACL has a counterpart in the other
    obtain ⟨e', he', -⟩ := h.symm.candidate he
    exact absurd he' (hno e')
  · obtain ⟨d', hd', -⟩ := h.candidate hd
    exact absurd hd' (hno' d')
  · -- the counterpart of the top candidate is the top candidate
    obtain ⟨d', hd', hpd, hrel⟩ := h.candidate hd
    obtain ⟨e', he', hpe, -⟩ := h.symm.candidate he
    have hde : d' = e := by
      by_contra hne
      have hlt := hemax d' hd' hne
      rw [less_eq_decide, decide_eq_true_eq] at hlt
      have hle : priority e ≤ priority d' :=
        calc priority e = priority e' := hpe.symm
          _ ≤ priority d := priority_le_of_top hdmax he'
          _ = priority d' := hpd.symm
      exact absurd hlt (not_lt.mpr hle)
    exact ⟨_, _, hres, hres', .some (hde ▸ hrel)⟩

/-- Two ACLs with the same keys and related permissions, and no empty segment-wildcard path, have
`AllowOperation` find rules under the same key, with related permissions. -/
theorem selectRule_rel (h : SameRules R a a')
    (hkeys : ∀ k ∈ a.segmentWildcardPaths.keys, k ≠ "")
    (hkeys' : ∀ k ∈ a'.segmentWildcardPaths.keys, k ≠ "") (op : Operation) (path : String) :
    ∃ o o', selectRule a op path = .ok o ∧ selectRule a' op path = .ok o' ∧
      Option.Rel (HitRel R) o o' := by
  -- the exact rules of a path correspond
  have hexact (p : String) : Option.Rel R (a.exactRules.lookup p) (a'.exactRules.lookup p) :=
    h .exactRules p
  unfold selectRule
  have hpath := hexact path
  generalize a.exactRules.lookup path = o at hpath ⊢
  generalize a'.exactRules.lookup path = o' at hpath ⊢
  cases hpath with
  | some hr => exact ⟨_, _, rfl, rfl, .some ⟨rfl, hr⟩⟩
  | none =>
    -- no exact rule: for a list, the path without its trailing `/`
    by_cases hlist : op = .list
    · simp only [hlist, if_true]
      have htrim := hexact (trimSuffix path "/")
      generalize a.exactRules.lookup (trimSuffix path "/") = t at htrim ⊢
      generalize a'.exactRules.lookup (trimSuffix path "/") = t' at htrim ⊢
      cases htrim with
      | some hr => exact ⟨_, _, rfl, rfl, .some ⟨rfl, hr⟩⟩
      | none => exact checkAllowedFromNonExactPaths_rel h hkeys hkeys' path
    · simp only [hlist, if_false]
      exact checkAllowedFromNonExactPaths_rel h hkeys hkeys' path

/-- Two ACLs with the same keys, root alike, no empty segment-wildcard path, and permissions
under each key that the checks of a request cannot tell apart, give that request the same answer
from `AllowOperation`. -/
theorem allowOperation_eq_of_sameRules [DecidableEq α] (h : SameRules R a a')
    (hroot : a.root = a'.root) (hkeys : ∀ k ∈ a.segmentWildcardPaths.keys, k ≠ "")
    (hkeys' : ∀ k ∈ a'.segmentWildcardPaths.keys, k ≠ "") {Addr : Type}
    (ctxNs : Option Namespace) (req : Request Addr) (data : RequestData α) (capCheckOnly : Bool)
    (hR : ∀ p p', R p p' →
      checkPermissions req data capCheckOnly p = checkPermissions req data capCheckOnly p') :
    allowOperation a ctxNs req data capCheckOnly = allowOperation a' ctxNs req data capCheckOnly := by
  cases hr : a.root
  · by_cases hop : req.operation = .help
    · simp [allowOperation, hr, ← hroot, hop]
    · rcases ctxNs with _ | ns
      · simp [allowOperation, hr, ← hroot, hop]
      · rw [allowOperation_of_not_root a hr ns req data capCheckOnly hop,
          allowOperation_of_not_root a' (hroot ▸ hr) ns req data capCheckOnly hop]
        obtain ⟨o, o', ho, ho', hrel⟩ := selectRule_rel h hkeys hkeys' req.operation
          (requestPath ns req)
        rw [ho, ho']
        -- the rules found, if any, have permissions the checks cannot tell apart
        cases hrel with
        | none => rfl
        | some hhit => exact congrArg Except.ok (hR _ _ hhit.2)
  · simp [allowOperation, hr, ← hroot]

end Transport

/-! ## Policies in another order -/

/-- Policies parsed in one order are parsed in any. -/
theorem Parsed.perm {ps ps' : List (Option (Policy α))} (hp : Parsed ps) (hperm : ps.Perm ps') :
    Parsed ps' :=
  fun policy h => hp policy (hperm.mem_iff.mpr h)

/-- `NewACL` from parsed policies in two orders stores the same keys, with the same bitmaps. -/
theorem sameBitmaps_newACL {ns : Option Namespace} {ps ps' : List (Option (Policy α))}
    {a a' : ACL α} (h : newACL ns ps = .ok a) (h' : newACL ns ps' = .ok a') (hperm : ps.Perm ps')
    (hp : Parsed ps) :
    SameRules (fun p p' => p.capabilitiesBitmap = p'.capabilitiesBitmap) a a' := by
  intro k path
  -- the rules filed under the key come in another order
  have hacl : (aclRules ps).Perm (aclRules ps') := hperm.flatMap_right policyRules
  have hrules := hacl.filter (fun r => decide (r.ruleKey = (k, path)))
  by_cases hne : (aclRules ps).filter (·.ruleKey = (k, path)) = []
  · have hne' : (aclRules ps').filter (·.ruleKey = (k, path)) = [] := by
      rw [hne] at hrules
      exact hrules.symm.eq_nil
    rw [rules_newACL h, rules_newACL h', hne, hne']
    exact .none
  · have hne' : (aclRules ps').filter (·.ruleKey = (k, path)) ≠ [] := by
      intro h0
      rw [h0] at hrules
      exact hne hrules.eq_nil
    obtain ⟨v, hv, hb⟩ := bitmap_newACL h hp hne
    obtain ⟨v', hv', hb'⟩ := bitmap_newACL h' (hp.perm hperm) hne'
    rw [hv, hv']
    exact .some (by rw [hb, hb', hrules.any_eq, orBitmaps_perm 0 hrules])

/-- `NewACL` returns for policies in one order exactly when it returns for them in another. -/
theorem newACL_ok_perm {ns : Option Namespace} {ps ps' : List (Option (Policy α))}
    (hperm : ps.Perm ps') : (∃ a, newACL ns ps = .ok a) ↔ ∃ a', newACL ns ps' = .ok a' := by
  rw [newACL_ok_iff, newACL_ok_iff, hperm.length_eq]
  simp only [hperm.mem_iff]

/-- `NewACL` from policies in two orders makes a root ACL in both or in neither. -/
theorem root_newACL_perm {ns : Option Namespace} {ps ps' : List (Option (Policy α))}
    {a a' : ACL α} (h : newACL ns ps = .ok a) (h' : newACL ns ps' = .ok a') (hperm : ps.Perm ps') :
    a.root = a'.root := by
  apply Bool.eq_iff_iff.mpr
  rw [root_newACL h, root_newACL h']
  simp only [hperm.mem_iff]

/-- `NewACL` from parsed policies in two orders: a request gets the same answer from both ACLs
when the checks of the request cannot tell apart the permissions related under each key. -/
theorem allowOperation_eq_of_newACL_perm [DecidableEq α] {ns : Option Namespace}
    {ps ps' : List (Option (Policy α))} {a a' : ACL α} (h : newACL ns ps = .ok a)
    (h' : newACL ns ps' = .ok a') (hperm : ps.Perm ps') (hp : Parsed ps)
    {R : ACLPermissions α → ACLPermissions α → Prop} (hsame : SameRules R a a') {Addr : Type}
    (ctxNs : Option Namespace) (req : Request Addr) (data : RequestData α) (capCheckOnly : Bool)
    (hR : ∀ p p', R p p' →
      checkPermissions req data capCheckOnly p = checkPermissions req data capCheckOnly p') :
    allowOperation a ctxNs req data capCheckOnly = allowOperation a' ctxNs req data capCheckOnly :=
  allowOperation_eq_of_sameRules hsame (root_newACL_perm h h' hperm)
    (segmentWildcardPaths_key_ne_empty h hp) (segmentWildcardPaths_key_ne_empty h' (hp.perm hperm))
    ctxNs req data capCheckOnly hR

section CapabilityCheck

variable [DecidableEq α]

/-- With the capability check only, the checks read the bitmap alone. -/
theorem checkPermissions_capCheckOnly {Addr : Type} (req : Request Addr) (data : RequestData α)
    {p p' : ACLPermissions α} (h : p.capabilitiesBitmap = p'.capabilitiesBitmap) :
    checkPermissions req data true p = checkPermissions req data true p' := by
  simp [checkPermissions, h]

/-- The order of the policies changes neither whether `NewACL` returns nor, for parsed policies,
what `AllowOperation` with the capability check only and `Capabilities` answer. -/
theorem allowOperation_capCheckOnly_perm {ns : Option Namespace}
    {policies policies' : List (Option (Policy α))} (hperm : policies.Perm policies')
    (hparsed : Parsed policies) :
    ((∃ a, newACL ns policies = .ok a) ↔ ∃ a', newACL ns policies' = .ok a') ∧
      ∀ {a a' : ACL α}, newACL ns policies = .ok a → newACL ns policies' = .ok a' →
        (∀ {Addr : Type} (ctxNs : Option Namespace) (req : Request Addr) (data : RequestData α),
          allowOperation a ctxNs req data true = allowOperation a' ctxNs req data true) ∧
        ∀ ctxNs path, a.capabilities ctxNs path = a'.capabilities ctxNs path := by
  refine ⟨newACL_ok_perm hperm, fun {a a'} h h' => ?_⟩
  -- with the capability check only, the bitmaps alone decide, and they agree under every key
  have hallow {Addr : Type} (ctxNs : Option Namespace) (req : Request Addr)
      (data : RequestData α) :
      allowOperation a ctxNs req data true = allowOperation a' ctxNs req data true :=
    allowOperation_eq_of_newACL_perm h h' hperm hparsed (sameBitmaps_newACL h h' hperm hparsed)
      ctxNs req data true fun _ _ => checkPermissions_capCheckOnly req data
  refine ⟨hallow, fun ctxNs path => ?_⟩
  unfold ACL.capabilities
  rw [hallow]

theorem perm_sampleAndDeny :
    ([some samplePolicy, some denyPolicy] : List (Option (Policy Unit))).Perm
      [some denyPolicy, some samplePolicy] :=
  List.Perm.swap _ _ []

theorem parsed_sampleAndDeny : Parsed [some samplePolicy, some denyPolicy] := by
  intro policy hp
  simp only [List.mem_cons, List.not_mem_nil, or_false, Option.some.injEq] at hp
  rcases hp with rfl | rfl
  · exact parsed_samplePolicy _ (List.mem_singleton_self _)
  · exact parsed_denyPolicy _ (List.mem_singleton_self _)

theorem allowOperation_capCheckOnly_perm_sample :
    ([some samplePolicy, some denyPolicy] : List (Option (Policy Unit))).Perm
        [some denyPolicy, some samplePolicy] ∧
      Parsed [some samplePolicy, some denyPolicy] ∧
      (((∃ a, newACL (some sampleNamespace) [some samplePolicy, some denyPolicy] = .ok a) ↔
          ∃ a', newACL (some sampleNamespace) [some denyPolicy, some samplePolicy] = .ok a') ∧
        ∀ {a a' : ACL Unit},
          newACL (some sampleNamespace) [some samplePolicy, some denyPolicy] = .ok a →
          newACL (some sampleNamespace) [some denyPolicy, some samplePolicy] = .ok a' →
          (∀ {Addr : Type} (ctxNs : Option Namespace) (req : Request Addr)
              (data : RequestData Unit),
            allowOperation a ctxNs req data true = allowOperation a' ctxNs req data true) ∧
          ∀ ctxNs path, a.capabilities ctxNs path = a'.capabilities ctxNs path) := by
  exact ⟨perm_sampleAndDeny, parsed_sampleAndDeny,
    allowOperation_capCheckOnly_perm perm_sampleAndDeny parsed_sampleAndDeny⟩

end CapabilityCheck

/-! ## The whole decision, for wrapping TTLs that are not negative

`mergeWrappingTTL` keeps the lesser positive TTL, but a negative TTL already there stays, while a
negative TTL arriving is dropped: only for TTLs that are not negative is the merge blind to the
order. Then the permissions `NewACL` stores under a key in two orders are ones the checks cannot
tell apart (`sameChecks_newACL`), and every request gets the same answer (`allowOperation_perm`).
-/

/-- Permissions as `parsePaths` makes them, with no negative wrapping TTL. -/
def ACLPermissions.Regular (p : ACLPermissions α) : Prop :=
  p.DenyAlone ∧ 0 ≤ p.minWrappingTTL ∧ 0 ≤ p.maxWrappingTTL

/-- Two parameter views merged: a name on either side, its values let through by either. -/
def orView : Option (ParamValue α → Bool) → Option (ParamValue α → Bool) →
    Option (ParamValue α → Bool)
  | none, y => y
  | some f, none => some f
  | some f, some g => some fun v => f v || g v

theorem orView_none_right (x : Option (ParamValue α → Bool)) : orView x none = x := by
  cases x <;> rfl

theorem orView_comm (x y : Option (ParamValue α → Bool)) : orView x y = orView y x := by
  cases x <;> cases y <;> simp only [orView, Option.some.injEq]
  funext v
  exact Bool.or_comm _ _

theorem orView_right_comm (x y z : Option (ParamValue α → Bool)) :
    orView (orView x y) z = orView (orView x z) y := by
  cases x <;> cases y <;> cases z <;> simp only [orView, Option.some.injEq] <;> funext v <;>
    simp only [Bool.or_comm, Bool.or_left_comm]

namespace ACLPermissions.Regular

variable {e : ACLPermissions α} {r : PathRules α}

/-- Regular permissions deny exactly when their bitmap is the deny bit alone. -/
theorem bitmap_of_denies (he : e.Regular) (hd : e.denies = true) :
    e.capabilitiesBitmap = denyCapabilityInt :=
  he.1 hd

theorem mergeRule (he : e.Regular) (hr : r.permissions.Regular) : (mergeRule e r).Regular := by
  refine ⟨denyAlone_mergeRule he.1, ?_⟩
  unfold Vault.Access.mergeRule mergePermissions
  split_ifs
  · exact he.2
  · exact he.2
  · exact ⟨mergeWrappingTTL_nonneg he.2.1 hr.2.1, mergeWrappingTTL_nonneg he.2.2 hr.2.2⟩

end ACLPermissions.Regular

/-- Merged permissions where a rule denies have the deny bit alone. -/
theorem bitmap_mergeRule_of_denies {e : ACLPermissions α} {r : PathRules α} (he : e.DenyAlone)
    (hd : (e.denies || r.permissions.denies) = true) :
    (mergeRule e r).capabilitiesBitmap = denyCapabilityInt := by
  rw [bitmap_mergeRule he, if_pos hd]

section Decision

variable [DecidableEq α]

/-- A merged parameter map lets through under a name what either map does. -/
theorem paramView_mergeParameterMap (existing new : ParamMap α) (k : String) :
    paramView (mergeParameterMap existing new) k =
      orView (paramView existing k) (paramView new k) := by
  have hnone : ∀ m : ParamMap α, m.entries.isEmpty → m.lookup k = none := fun m hm => by
    simp [AList.lookup, List.isEmpty_iff.mp hm]
  unfold paramView
  rw [lookup_mergeParameterMap]
  split_ifs with hnew hex
  · rw [hnone new hnew, Option.map_none, orView_none_right]
  · rw [hnone existing hex]
    rfl
  · cases new.lookup k with
    | none => exact (orView_none_right _).symm
    | some vs =>
      -- an empty list lets every value through
      cases existing.lookup k with
      | none => cases vs <;> simp [orView, valueInParameterList]
      | some o =>
        cases vs <;> cases o <;>
          simp [orView, valueInParameterList, List.any_append, Bool.or_comm, Bool.or_left_comm,
            Bool.or_assoc]

namespace SameChecks

variable {p p' p'' : ACLPermissions α}

theorem refl (p : ACLPermissions α) : SameChecks p p :=
  ⟨rfl, .inr ⟨rfl, rfl, fun _ => rfl, fun _ => rfl, fun _ => Iff.rfl⟩⟩

theorem of_deny (h : p.capabilitiesBitmap = denyCapabilityInt)
    (h' : p'.capabilitiesBitmap = denyCapabilityInt) : SameChecks p p' :=
  ⟨h.trans h'.symm, .inl h⟩

theorem trans (h₁ : SameChecks p p') (h₂ : SameChecks p' p'') : SameChecks p p'' := by
  refine ⟨h₁.1.trans h₂.1, ?_⟩
  rcases h₁.2 with hd | ⟨hmin, hmax, hal, hde, hreq⟩
  · exact .inl hd
  · rcases h₂.2 with hd | ⟨hmin', hmax', hal', hde', hreq'⟩
    · exact .inl (h₁.1.trans hd)
    · exact .inr ⟨hmin.trans hmin', hmax.trans hmax', fun k => (hal k).trans (hal' k),
        fun k => (hde k).trans (hde' k), fun x => (hreq x).trans (hreq' x)⟩

theorem denies_eq (h : SameChecks p p') : p.denies = p'.denies := by
  simp only [ACLPermissions.denies, h.1]

end SameChecks

/-- Merges respect permissions the checks cannot tell apart. -/
theorem mergeRule_congr {e e' : ACLPermissions α} (he : e.Regular) (he' : e'.Regular)
    (r : PathRules α) (h : SameChecks e e') : SameChecks (mergeRule e r) (mergeRule e' r) := by
  by_cases hd : (e.denies || r.permissions.denies) = true
  · exact .of_deny (bitmap_mergeRule_of_denies he.1 hd)
      (bitmap_mergeRule_of_denies he'.1 (by rwa [← h.denies_eq]))
  · simp only [Bool.or_eq_true, not_or, Bool.not_eq_true] at hd
    obtain ⟨hde, hdr⟩ := hd
    have hde' : e'.denies = false := h.denies_eq ▸ hde
    -- neither denies, so the two are alike in every field the checks read
    obtain ⟨hbits, hdeny | ⟨hmin, hmax, hal, hden, hreq⟩⟩ := h
    · simp [ACLPermissions.denies, hdeny, denyCapabilityInt] at hde
    rw [mergeRule_of_not_denies hde hdr, mergeRule_of_not_denies hde' hdr]
    refine ⟨by rw [hbits], .inr ⟨by rw [hmin], by rw [hmax], fun k => ?_, fun k => ?_, fun x => ?_⟩⟩
    · simp only [paramView_mergeParameterMap, hal k]
    · simp only [paramView_mergeParameterMap, hden k]
    · simp only [mem_mergeRequiredParameters, hreq x]

/-- Two rules merged in either order leave permissions the checks cannot tell apart. -/
theorem mergeRule_right_comm {e : ACLPermissions α} {r₁ r₂ : PathRules α} (he : e.Regular)
    (h₁ : r₁.permissions.Regular) (h₂ : r₂.permissions.Regular) :
    SameChecks (mergeRule (mergeRule e r₁) r₂) (mergeRule (mergeRule e r₂) r₁) := by
  by_cases hd : (e.denies || r₁.permissions.denies || r₂.permissions.denies) = true
  · -- a rule of the key denies: the deny bit alone, in either order
    refine .of_deny (bitmap_mergeRule_of_denies (he.mergeRule h₁).1 ?_)
      (bitmap_mergeRule_of_denies (he.mergeRule h₂).1 ?_)
    · rwa [denies_mergeRule]
    · rw [denies_mergeRule, Bool.or_right_comm]
      exact hd
  · simp only [Bool.or_eq_true, not_or, Bool.not_eq_true] at hd
    obtain ⟨⟨hde, hd₁⟩, hd₂⟩ := hd
    have h₁₂ : (mergeRule e r₁).denies = false := by rw [denies_mergeRule, hde, hd₁]; rfl
    have h₂₁ : (mergeRule e r₂).denies = false := by rw [denies_mergeRule, hde, hd₂]; rfl
    rw [mergeRule_of_not_denies h₁₂ hd₂, mergeRule_of_not_denies h₂₁ hd₁,
      mergeRule_of_not_denies hde hd₁, mergeRule_of_not_denies hde hd₂]
    refine ⟨?_, .inr ⟨mergeWrappingTTL_right_comm _ _ _, mergeWrappingTTL_right_comm _ _ _,
      fun k => ?_, fun k => ?_, fun x => ?_⟩⟩
    · dsimp only
      rw [UInt32.or_assoc, UInt32.or_comm r₁.permissions.capabilitiesBitmap, ← UInt32.or_assoc]
    · simp only [paramView_mergeParameterMap, orView_right_comm]
    · simp only [paramView_mergeParameterMap, orView_right_comm]
    · simp only [mem_mergeRequiredParameters, or_right_comm]

/-- The first two rules of a key in either order leave permissions the checks cannot tell
apart. -/
theorem mergeRule_swap {r₁ r₂ : PathRules α} (h₁ : r₁.permissions.Regular)
    (h₂ : r₂.permissions.Regular) :
    SameChecks (mergeRule r₁.permissions r₂) (mergeRule r₂.permissions r₁) := by
  by_cases hd : (r₁.permissions.denies || r₂.permissions.denies) = true
  · exact .of_deny (bitmap_mergeRule_of_denies h₁.1 hd)
      (bitmap_mergeRule_of_denies h₂.1 (by rwa [Bool.or_comm]))
  · simp only [Bool.or_eq_true, not_or, Bool.not_eq_true] at hd
    obtain ⟨hd₁, hd₂⟩ := hd
    rw [mergeRule_of_not_denies hd₁ hd₂, mergeRule_of_not_denies hd₂ hd₁]
    refine ⟨UInt32.or_comm _ _, .inr ⟨mergeWrappingTTL_comm h₁.2.1 h₂.2.1,
      mergeWrappingTTL_comm h₁.2.2 h₂.2.2, fun k => ?_, fun k => ?_, fun x => ?_⟩⟩
    · rw [paramView_mergeParameterMap, paramView_mergeParameterMap, orView_comm]
    · rw [paramView_mergeParameterMap, paramView_mergeParameterMap, orView_comm]
    · simp only [mem_mergeRequiredParameters, or_comm]

/-- The merges of `NewACL`, on regular permissions, are blind to the order of the rules. -/
theorem mergeLaws :
    MergeLaws (·.permissions) mergeRule SameChecks ACLPermissions.Regular
      (fun r : PathRules α => r.permissions.Regular) :=
  ⟨fun _ h => h, fun _ _ he hr => he.mergeRule hr, SameChecks.refl, SameChecks.trans,
    fun r he he' _ h => mergeRule_congr he he' r h,
    fun _ _ _ he h₁ h₂ => mergeRule_right_comm he h₁ h₂, fun _ _ h₁ h₂ => mergeRule_swap h₁ h₂⟩

/-- `NewACL` from parsed policies with no negative wrapping TTL, in two orders, stores under each
key permissions the checks cannot tell apart. -/
theorem sameChecks_newACL {ns : Option Namespace} {ps ps' : List (Option (Policy α))}
    {a a' : ACL α} (h : newACL ns ps = .ok a) (h' : newACL ns ps' = .ok a') (hperm : ps.Perm ps')
    (hp : Parsed ps)
    (httl : ∀ r ∈ aclRules ps, 0 ≤ r.permissions.minWrappingTTL ∧ 0 ≤ r.permissions.maxWrappingTTL) :
    SameRules SameChecks a a' := by
  intro k path
  rw [rules_newACL h, rules_newACL h']
  have hrules := (hperm.flatMap_right policyRules).filter (fun r => decide (r.ruleKey = (k, path)))
  refine mergeLaws.accumulate_perm hrules (fun r hr => ?_) (by simp) (by simp) .none
  have hr' := List.mem_of_mem_filter hr
  exact ⟨hp.denyAlone hr', httl r hr'⟩

/-- The order of parsed policies with no negative wrapping TTL changes neither whether `NewACL`
returns nor what `AllowOperation` answers to any request. -/
theorem allowOperation_perm {ns : Option Namespace} {policies policies' : List (Option (Policy α))}
    (hperm : policies.Perm policies') (hparsed : Parsed policies)
    (httl : ∀ r ∈ aclRules policies,
      0 ≤ r.permissions.minWrappingTTL ∧ 0 ≤ r.permissions.maxWrappingTTL) :
    ((∃ a, newACL ns policies = .ok a) ↔ ∃ a', newACL ns policies' = .ok a') ∧
      ∀ {a a' : ACL α}, newACL ns policies = .ok a → newACL ns policies' = .ok a' →
        ∀ {Addr : Type} (ctxNs : Option Namespace) (req : Request Addr) (data : RequestData α)
          (capCheckOnly : Bool),
          allowOperation a ctxNs req data capCheckOnly =
            allowOperation a' ctxNs req data capCheckOnly := by
  refine ⟨newACL_ok_perm hperm, fun {a a'} h h' => ?_⟩
  intro Addr ctxNs req data capCheckOnly
  exact allowOperation_eq_of_newACL_perm h h' hperm hparsed
    (sameChecks_newACL h h' hperm hparsed httl) ctxNs req data capCheckOnly
    fun _ _ hp => checkPermissions_congr hp req data capCheckOnly

theorem allowOperation_perm_sample :
    ([some samplePolicy, some denyPolicy] : List (Option (Policy Unit))).Perm
        [some denyPolicy, some samplePolicy] ∧
      Parsed [some samplePolicy, some denyPolicy] ∧
      (∀ r ∈ aclRules [some samplePolicy, some denyPolicy],
        0 ≤ r.permissions.minWrappingTTL ∧ 0 ≤ r.permissions.maxWrappingTTL) ∧
      (((∃ a, newACL (some sampleNamespace) [some samplePolicy, some denyPolicy] = .ok a) ↔
          ∃ a', newACL (some sampleNamespace) [some denyPolicy, some samplePolicy] = .ok a') ∧
        ∀ {a a' : ACL Unit},
          newACL (some sampleNamespace) [some samplePolicy, some denyPolicy] = .ok a →
          newACL (some sampleNamespace) [some denyPolicy, some samplePolicy] = .ok a' →
          ∀ {Addr : Type} (ctxNs : Option Namespace) (req : Request Addr)
            (data : RequestData Unit) (capCheckOnly : Bool),
            allowOperation a ctxNs req data capCheckOnly =
              allowOperation a' ctxNs req data capCheckOnly) := by
  have httl : ∀ r ∈ aclRules [some samplePolicy, some denyPolicy],
      0 ≤ r.permissions.minWrappingTTL ∧ 0 ≤ r.permissions.maxWrappingTTL := by
    simp [aclRules, policyRules, samplePolicy, denyPolicy, ACLPermissions.denyOnly]
  exact ⟨perm_sampleAndDeny, parsed_sampleAndDeny, httl,
    allowOperation_perm perm_sampleAndDeny parsed_sampleAndDeny httl⟩

/-- A negative TTL already stored stays, and a negative TTL arriving is dropped: for TTLs of both
signs the merge depends on their order. -/
theorem mergeWrappingTTL_neg_pos {t u : ℤ} (ht : t < 0) (hu : 0 < u) :
    mergeWrappingTTL t u = t ∧ mergeWrappingTTL u t = u := by
  unfold mergeWrappingTTL
  constructor <;> split_ifs <;> omega

/-- A policy granting read on `secret/app` with a minimum wrapping TTL of `ttl` seconds. -/
def ttlPolicy (name : String) (ttl : ℤ) : Policy Unit :=
  ⟨name, [⟨"secret/app", ⟨readCapabilityInt, parseDurationSecond ttl, 0, ∅, ∅, []⟩, false, false⟩],
    .acl⟩

/-- A read of `secret/app`, not wrapped. -/
def unwrappedRead : Request Unit := { capabilitiesRequest "secret/app" with operation := .read }

/-- The TTL hypothesis of `allowOperation_perm` cannot be dropped: a negative minimum wrapping TTL
(which parsing accepts) stored first survives a positive one, while arriving second it is dropped,
so an unwrapped read is allowed in one order and refused in the other. -/
theorem allowOperation_order_of_negative_ttl :
    Parsed [some (ttlPolicy "neg" (-5)), some (ttlPolicy "pos" 10)] ∧
      (newACL (some sampleNamespace) [some (ttlPolicy "neg" (-5)), some (ttlPolicy "pos" 10)] >>=
          fun a => (allowOperation a (some sampleNamespace) unwrappedRead ∅ false).map
            (·.allowed)) = .ok true ∧
      (newACL (some sampleNamespace) [some (ttlPolicy "pos" 10), some (ttlPolicy "neg" (-5))] >>=
          fun a => (allowOperation a (some sampleNamespace) unwrappedRead ∅ false).map
            (·.allowed)) = .ok false := by
  refine ⟨fun policy hp => ?_, rfl, rfl⟩
  simp only [List.mem_cons, List.not_mem_nil, or_false, Option.some.injEq] at hp
  rcases hp with rfl | rfl
  · exact ⟨sampleNamespace, [⟨"secret/app", "", ["read"], none, none, [], some (-5), none⟩], rfl⟩
  · exact ⟨sampleNamespace, [⟨"secret/app", "", ["read"], none, none, [], some 10, none⟩], rfl⟩

end Decision

end Vault.Access
