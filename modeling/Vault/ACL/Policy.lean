import Vault.Lib.GoRuntime
import Vault.Lib.GoStrings

/-!
# Policies and their path rules

The types of vault/policy.go, and `parsePaths`. `parsePaths` turns the decoded `path`
stanzas of a policy into path rules. It does three things:
- it classifies each path as exact, prefix (a trailing `*`) or segment-wildcard (a `+`
  segment);
- it folds the capabilities into a bitmap, where `deny` stands alone;
- it lower-cases parameter names and parses the wrapping TTLs.

A Go map is an association list here, and a nil map is the empty one. Go reads the two alike,
and the code writes only to maps it has made.
-/

namespace Vault.Access

open GoRuntime GoStrings

variable {α : Type}

/-! ## Capabilities -/

/-- `DenyCapabilityInt` and the other capability bits, `1 << iota` in the source's order. -/
def denyCapabilityInt : UInt32 := 1
def createCapabilityInt : UInt32 := 2
def readCapabilityInt : UInt32 := 4
def updateCapabilityInt : UInt32 := 8
def deleteCapabilityInt : UInt32 := 16
def listCapabilityInt : UInt32 := 32
def sudoCapabilityInt : UInt32 := 64

/-- `cap2Int`: the bit of each capability name. -/
def cap2Int : String → Option UInt32
  | "deny" => some denyCapabilityInt
  | "create" => some createCapabilityInt
  | "read" => some readCapabilityInt
  | "update" => some updateCapabilityInt
  | "delete" => some deleteCapabilityInt
  | "list" => some listCapabilityInt
  | "sudo" => some sudoCapabilityInt
  | _ => none

/-- `PolicyType`. -/
inductive PolicyType where
  | acl
  | rgp
  | egp
  | token
deriving DecidableEq, Repr

/-! ## Permissions -/

/-- A value of a request's data or of a policy's parameter list, a Go `interface{}` as
`valueInSlice` tells values apart: nil, a string, or another value that `reflect.DeepEqual`
compares. -/
inductive ParamValue (α : Type) where
  | null
  | str (s : String)
  | other (v : α)
deriving DecidableEq, Repr

/-- A `map[string][]interface{}` of parameter names to allowed (or denied) values. -/
abbrev ParamMap (α : Type) := AList (fun _ : String => List (ParamValue α))

/-- `ACLPermissions` (MFA methods and control groups left out). Durations are nanoseconds. -/
structure ACLPermissions (α : Type) where
  capabilitiesBitmap : UInt32
  minWrappingTTL : ℤ
  maxWrappingTTL : ℤ
  allowedParameters : ParamMap α
  deniedParameters : ParamMap α
  requiredParameters : List String

/-- Whether the deny bit is set. -/
def ACLPermissions.denies (p : ACLPermissions α) : Bool :=
  p.capabilitiesBitmap &&& denyCapabilityInt > 0

/-- A permission set that denies denies alone: its bitmap is the deny bit only. Every rule
that `parsePaths` makes has this property, and `NewACL` keeps it. -/
def ACLPermissions.DenyAlone (p : ACLPermissions α) : Prop :=
  p.denies = true → p.capabilitiesBitmap = denyCapabilityInt

/-- The permissions of a rule that only denies. -/
def ACLPermissions.denyOnly : ACLPermissions α :=
  ⟨denyCapabilityInt, 0, 0, ∅, ∅, []⟩

/-- `PathRules` (the capability names, kept as text, left out). -/
structure PathRules (α : Type) where
  path : String
  permissions : ACLPermissions α
  isPrefix : Bool
  hasSegmentWildcards : Bool

/-- `Policy` (raw text, templating flag and Sentinel fields left out). -/
structure Policy (α : Type) where
  name : String
  paths : List (PathRules α)
  type : PolicyType

/-- `namespace.Namespace`. -/
structure Namespace where
  id : String
  path : String

/-- `namespace.RootNamespaceID`. -/
def rootNamespaceID : String := "root"

/-! ## Parsing path stanzas -/

/-- A `path` stanza as `hcl.DecodeObject` leaves it. The TTLs are whole seconds (the
integer inputs of `ParseDurationSecond`), and an absent field is `none`, `""` or `[]`. -/
structure PathRulesHCL (α : Type) where
  key : String
  policy : String
  capabilities : List String
  allowedParametersHCL : Option (List (String × List (ParamValue α)))
  deniedParametersHCL : Option (List (String × List (ParamValue α)))
  requiredParametersHCL : List String
  minWrappingTTLHCL : Option ℤ
  maxWrappingTTLHCL : Option ℤ

/-- `ParseDurationSecond` of a number of seconds: `time.Duration(secs) * time.Second`. -/
def parseDurationSecond (secs : ℤ) : ℤ := secs * 1000000000

/-- The old-style `policy` field mapped onto capabilities. -/
def oldStyleCapabilities (key policy : String) (caps : List String) : Go (List String) :=
  if policy.isEmpty then .ok caps
  else if policy = "deny" then .ok ["deny"]
  else if policy = "read" then .ok (caps ++ ["read", "list"])
  else if policy = "write" then .ok (caps ++ ["create", "read", "update", "delete", "list"])
  else if policy = "sudo" then
    .ok (caps ++ ["create", "read", "update", "delete", "list", "sudo"])
  else .error (.error ("path " ++ goQuote key ++ ": invalid policy " ++ goQuote policy))

/-- The capabilities loop: the bitmap, and whether `deny` ended the loop early. -/
def capabilitiesBitmap (key : String) : List String → UInt32 → Go (UInt32 × Bool)
  | [], acc => .ok (acc, false)
  | cap :: caps, acc =>
    if cap = "deny" then .ok (denyCapabilityInt, true)
    else if cap ∈ ["create", "read", "update", "delete", "list", "sudo"] then
      capabilitiesBitmap key caps (acc ||| (cap2Int cap).getD 0)
    else .error (.error ("path " ++ goQuote key ++ ": invalid capability " ++ goQuote cap))

/-- A decoded parameter map with its names lower-cased. -/
def lowerKeys (hcl : List (String × List (ParamValue α))) : ParamMap α :=
  hcl.foldl (fun m kv => m.insert kv.1.toLower kv.2) ∅

/-- The permissions of one stanza: the capability bitmap and, unless it denies, the parameters
and the wrapping TTLs. -/
def parsePermissions (item : PathRulesHCL α) : Go (ACLPermissions α) := do
  let caps ← oldStyleCapabilities item.key item.policy item.capabilities
  let (bitmap, denied) ← capabilitiesBitmap item.key caps 0
  if denied then
    -- goto PathFinished
    return ACLPermissions.denyOnly
  let allowed := (item.allowedParametersHCL.map lowerKeys).getD ∅
  let deniedParams := (item.deniedParametersHCL.map lowerKeys).getD ∅
  let minTTL := (item.minWrappingTTLHCL.map parseDurationSecond).getD 0
  let maxTTL := (item.maxWrappingTTLHCL.map parseDurationSecond).getD 0
  if minTTL ≠ 0 ∧ maxTTL ≠ 0 ∧ maxTTL < minTTL then
    throw (.error "max_wrapping_ttl cannot be less than min_wrapping_ttl")
  return ⟨bitmap, minTTL, maxTTL, allowed, deniedParams, item.requiredParametersHCL⟩

/-- The path of a stanza as a full request path: a leading '/' stripped, the namespace's path
put in front. -/
def fullPath (ns : Namespace) (key : String) : String :=
  ns.path ++ (if hasPrefix key "/" then String.ofList (key.toList.drop 1) else key)

/-- The body of the `parsePaths` loop for one stanza, in namespace `ns`. -/
def parsePath (ns : Namespace) (item : PathRulesHCL α) : Go (PathRules α) := do
  let path := fullPath ns item.key
  if contains path "+*" then
    throw (.error ("path " ++ goQuote path ++ ": invalid use of wildcards (\x27+*\x27 is forbidden)"))
  -- strings.Count(path, "/+") > 0
  let hasSegmentWildcards := path == "+" || contains path "/+" || hasPrefix path "+/"
  -- a trailing '*' makes a prefix rule, unless there are segment wildcards
  let isPrefix := hasSuffix path "*" && !hasSegmentWildcards
  let perms ← parsePermissions item
  return ⟨if isPrefix then trimSuffix path "*" else path, perms, isPrefix, hasSegmentWildcards⟩

/-- `parsePaths`: every stanza parsed, or the first error. -/
def parsePaths (ns : Namespace) (items : List (PathRulesHCL α)) : Go (List (PathRules α)) :=
  items.mapM (parsePath ns)

/-! ## What parsing guarantees -/

@[simp] theorem denyOnly_denies : (ACLPermissions.denyOnly : ACLPermissions α).denies = true := by
  simp [ACLPermissions.denies, ACLPermissions.denyOnly, denyCapabilityInt]

/-- ORing in bits other than the deny bit keeps it clear. -/
theorem or_and_deny_eq_zero {a b : UInt32} (ha : a &&& denyCapabilityInt = 0)
    (hb : b &&& denyCapabilityInt = 0) : (a ||| b) &&& denyCapabilityInt = 0 := by
  apply UInt32.toBitVec_inj.mp
  have ha := congrArg UInt32.toBitVec ha
  have hb := congrArg UInt32.toBitVec hb
  simp only [UInt32.toBitVec_and, UInt32.toBitVec_or] at ha hb ⊢
  rw [BitVec.and_or_distrib_right, ha, hb]
  rfl

theorem denies_eq_false_iff {p : ACLPermissions α} :
    p.denies = false ↔ p.capabilitiesBitmap &&& denyCapabilityInt = 0 := by
  simp only [ACLPermissions.denies, decide_eq_false_iff_not, gt_iff_lt]
  rw [UInt32.not_lt]
  exact UInt32.le_zero_iff

theorem denyOnly_denyAlone : (ACLPermissions.denyOnly : ACLPermissions α).DenyAlone :=
  fun _ => rfl

/-- The capabilities loop either stops at `deny`, or ORs in bits other than the deny bit. -/
theorem capabilitiesBitmap_eq_ok {key : String} {caps : List String} {acc bitmap : UInt32}
    {denied : Bool} (h : capabilitiesBitmap key caps acc = .ok (bitmap, denied))
    (hacc : acc &&& denyCapabilityInt = 0) :
    denied = true ∧ bitmap = denyCapabilityInt ∨ denied = false ∧ bitmap &&& denyCapabilityInt = 0 := by
  induction caps generalizing acc with
  | nil =>
    cases h
    exact .inr ⟨rfl, hacc⟩
  | cons cap caps ih =>
    simp only [capabilitiesBitmap] at h
    split at h
    · cases h
      exact .inl ⟨rfl, rfl⟩
    · split at h
      · rename_i hcap
        refine ih h ?_
        simp only [List.mem_cons, List.not_mem_nil, or_false] at hcap
        rcases hcap with rfl | rfl | rfl | rfl | rfl | rfl <;>
          exact or_and_deny_eq_zero hacc (by decide)
      · cases h

/-- The permissions of a stanza deny alone. -/
theorem parsePermissions_denyAlone {item : PathRulesHCL α} {p : ACLPermissions α}
    (h : parsePermissions item = .ok p) : p.DenyAlone := by
  obtain ⟨caps, -, h⟩ := bind_eq_ok h
  obtain ⟨⟨bitmap, denied⟩, hbits, h⟩ := bind_eq_ok h
  have hb := capabilitiesBitmap_eq_ok hbits (by decide)
  cases denied with
  | true =>
    cases h
    exact denyOnly_denyAlone
  | false =>
    simp only [Bool.false_eq_true, if_false] at h
    split at h
    · cases h
    · cases h
      intro hd
      rcases hb with ⟨h, -⟩ | ⟨-, hz⟩
      · cases h
      · simp [ACLPermissions.denies, hz] at hd

/-- Every rule that `parsePath` returns denies alone. -/
theorem parsePath_denyAlone {ns : Namespace} {item : PathRulesHCL α} {r : PathRules α}
    (h : parsePath ns item = .ok r) : r.permissions.DenyAlone := by
  unfold parsePath at h
  dsimp only at h
  split at h
  · simp [throw, throwThe, MonadExceptOf.throw] at h
  · obtain ⟨p, hp, h⟩ := bind_eq_ok h
    cases h
    exact parsePermissions_denyAlone hp

/-- A rule with segment wildcards keeps its whole path, which has a `+` in it. -/
theorem parsePath_path_ne_empty {ns : Namespace} {item : PathRulesHCL α} {r : PathRules α}
    (h : parsePath ns item = .ok r) (hseg : r.hasSegmentWildcards = true) : r.path ≠ "" := by
  unfold parsePath at h
  dsimp only at h
  split at h
  · simp [throw, throwThe, MonadExceptOf.throw] at h
  · obtain ⟨p, -, h⟩ := bind_eq_ok h
    cases h
    dsimp only at hseg ⊢
    rw [if_neg (by simp [hseg])]
    intro hempty
    rw [hempty] at hseg
    exact absurd hseg (by decide)

/-- Every rule of a parsed policy denies alone. -/
theorem parsePaths_denyAlone {ns : Namespace} {items : List (PathRulesHCL α)}
    {rules : List (PathRules α)} (h : parsePaths ns items = .ok rules) :
    ∀ r ∈ rules, r.permissions.DenyAlone := by
  intro r hr
  obtain ⟨hlen, hget⟩ := mapM_eq_ok h
  obtain ⟨i, hi, rfl⟩ := List.get_of_mem hr
  exact parsePath_denyAlone (hget i (hlen ▸ i.2) i.2)

end Vault.Access
