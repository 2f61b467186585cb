import Vault.ACL.NewACL
import Vault.Routing.Request
import Vault.Lib.RadixTree
import Mathlib.Data.List.MinMax
import Mathlib.Data.Prod.Lex

/-!
# Checking a request against an ACL

`AllowOperation` (vault/acl.go) finds the rule a request path falls under, then checks the
operation, the wrapping TTL and the request's parameters against that rule's permissions. The
rule is the exact rule of the path (for a list, also that of the path without its trailing `/`),
or else the one `CheckAllowedFromNonExactPaths` picks among the longest prefix rule that begins
the path and the segment-wildcard patterns that match it: the last one after `sort.Slice` by a
five-key priority.

The priority `less` compares is a lexicographic order (`less_eq_decide`). No two candidates of
one path share a priority, so the pick is the candidate that every other one ranks below
(`checkAllowedFromNonExactPathsIn_max`), in whatever order the map's `range` visits the
patterns. A pattern matches when the code's segment check holds, and that check decides the
meaning of a pattern: its `+` segments filled with text free of `/` give the path, or begin it for
a pattern ending in `*` (`segmentsMatch_iff`).

A denying rule leaves the deny bit alone under its key, so a request falling under that key is
refused whatever the other policies grant (`allowOperation_denied_of_deny`). `performPolicyChecks`
decides by `AllowOperation` alone in the open-source build (`allowed_performPolicyChecks`), so the
deny holds there too.
-/

namespace Vault.Access

open GoRuntime GoStrings Collections Vault.Routing Vault.Helper

variable {α : Type}

/-! ## The rule a path falls under -/

/-- A stored rule as the `*ACLPermissions` pointer that `CheckAllowedFromNonExactPaths` returns
names it: its store and path, and its permissions. -/
structure RuleHit (α : Type) where
  ruleKey : RuleKind × String
  perms : ACLPermissions α

/-- `wcPathDescr`. -/
structure WcPathDescr (α : Type) where
  firstWCOrGlob : ℤ
  wildcards : ℕ
  isPrefix : Bool
  wcPath : String
  perms : RuleHit α

/-- The `less` of `CheckAllowedFromNonExactPaths`: whether `pdi` has the lower priority. -/
def less (pdi pdj : WcPathDescr α) : Bool :=
  if pdi.firstWCOrGlob < pdj.firstWCOrGlob then true
  else if pdi.firstWCOrGlob > pdj.firstWCOrGlob then false
  else if pdi.isPrefix && !pdj.isPrefix then true
  else if !pdi.isPrefix && pdj.isPrefix then false
  else if pdi.wildcards > pdj.wildcards then true
  else if pdi.wildcards < pdj.wildcards then false
  else if len pdi.wcPath < len pdj.wcPath then true
  else if len pdi.wcPath > len pdj.wcPath then false
  else if pdi.wcPath < pdj.wcPath then true
  else if pdi.wcPath > pdj.wcPath then false
  else false

/-- The radix tree's `LongestPrefix(s)` on a store: the rule with the longest path that
begins `s`. -/
def longestPrefix (m : PermsMap α) (s : String) : Option (Σ _ : String, ACLPermissions α) :=
  (m.entries.filter fun e => hasPrefix s e.1).argmax fun e => e.1.length

/-- How the segments of a segment-wildcard path end: a mismatch (`continue SWCPATH`), the early
return of a bare mount, or a match with its count of `+` segments. -/
inductive SegmentMatch where
  | mismatch
  | granted
  | matched (wildcards : ℕ)
deriving DecidableEq, Repr

/-- The loop over the segments `aclParts` of a segment-wildcard path with `n` segments, from
index `i`, with the `wildcards` and the path `segments` so far. Every turn reads
`pathParts[i]`, which panics past the end of the path. -/
def matchSegments (path : String) (pathParts : List String) (isPrefix bareMount : Bool)
    (perms : ACLPermissions α) (n : ℕ) : ℕ → List String → ℕ → List String → Go SegmentMatch
  | _, [], wildcards, _ => .ok (.matched wildcards)
  | i, aclPart :: rest, wildcards, segments => do
    let part ← index pathParts i
    let next : Option (ℕ × List String) :=
      if aclPart = "+" then some (wildcards + 1, segments ++ [part])
      else if aclPart = part then some (wildcards, segments ++ [part])
      else if isPrefix && i == n - 1 && hasPrefix part aclPart then
        some (wildcards, segments ++ pathParts.drop i)
      else if !bareMount then none
      else some (wildcards, segments)
    match next with
    | none => pure .mismatch
    | some (wildcards, segments) =>
      -- a bare mount comes with a trailing `/`, so its last segment is empty
      if bareMount && i + 2 = pathParts.length then
        if hasPrefix (join segments '/' ++ "/") path &&
            (perms.capabilitiesBitmap &&& denyCapabilityInt == 0 && perms.capabilitiesBitmap > 0)
        then pure .granted
        else pure .mismatch
      else matchSegments path pathParts isPrefix bareMount perms n (i + 1) rest wildcards segments

/-- The loop over the segment-wildcard paths, in the order the map's `range` visits them, onto
the descriptors so far: the descriptors of the paths that match, or the rule a bare mount
returns early. -/
def collectWCPaths (path : String) (pathParts : List String) (bareMount : Bool) :
    List (Σ _ : String, ACLPermissions α) → List (WcPathDescr α) →
      Go (RuleHit α ⊕ List (WcPathDescr α))
  | [], descrs => .ok (.inr descrs)
  | ⟨fullWCPath, perms⟩ :: rest, descrs =>
    if fullWCPath = "" then collectWCPaths path pathParts bareMount rest descrs
    else
      let isPrefix := hasSuffix fullWCPath "*"
      let currWCPath := if isPrefix then trimSuffix fullWCPath "*" else fullWCPath
      let splitCurrWCPath := split currWCPath '/'
      if !bareMount && pathParts.length < splitCurrWCPath.length then
        -- the path is shorter, so it cannot match
        collectWCPaths path pathParts bareMount rest descrs
      else if !bareMount && !isPrefix && splitCurrWCPath.length ≠ pathParts.length then
        collectWCPaths path pathParts bareMount rest descrs
      else do
        match ← matchSegments path pathParts isPrefix bareMount perms splitCurrWCPath.length 0
            splitCurrWCPath 0 [] with
        | .mismatch => collectWCPaths path pathParts bareMount rest descrs
        | .granted => pure (.inl ⟨(.segmentWildcardPaths, fullWCPath), perms⟩)
        | .matched wildcards =>
          collectWCPaths path pathParts bareMount rest (descrs ++
            [⟨index fullWCPath '+', wildcards, isPrefix, currWCPath,
              ⟨(.segmentWildcardPaths, fullWCPath), perms⟩⟩])

/-- The descriptor of the longest prefix rule `pfx`. -/
def prefixDescr (pfx : String) (perms : ACLPermissions α) : WcPathDescr α :=
  ⟨len pfx, 0, true, pfx, ⟨(.prefixRules, pfx), perms⟩⟩

/-- `CheckAllowedFromNonExactPaths(path, bareMount)`, the map's `range` visiting the
segment-wildcard paths in the order `order`. `sort.Slice` by `less` is `mergeSort` by `less`
read as an order; the last item is the same for every sort (`getLast_mergeSort_eq`). -/
def checkAllowedFromNonExactPathsIn (a : ACL α) (order : List (Σ _ : String, ACLPermissions α))
    (path : String) (bareMount : Bool) : Go (Option (RuleHit α)) :=
  let found := longestPrefix a.prefixRules path
  if a.segmentWildcardPaths.entries.isEmpty then
    .ok (found.map fun e => ⟨(.prefixRules, e.1), e.2⟩)
  else do
    let start := (found.map fun e => prefixDescr e.1 e.2).toList
    match ← collectWCPaths path (split path '/') bareMount order start with
    | .inl hit => pure (some hit)
    | .inr descrs =>
      if bareMount || descrs.isEmpty then pure none
      else pure ((descrs.mergeSort fun x y => !less y x).getLast?.map (·.perms))

/-- `CheckAllowedFromNonExactPaths`, the map's `range` visiting the patterns in the order of its
entries. -/
def ACL.checkAllowedFromNonExactPaths (a : ACL α) (path : String) (bareMount : Bool) :
    Go (Option (RuleHit α)) :=
  checkAllowedFromNonExactPathsIn a a.segmentWildcardPaths.entries path bareMount

/-- The rule `AllowOperation` checks a request path against: the exact rule, for a list also the
exact rule of the path without its trailing `/`, or the one `CheckAllowedFromNonExactPaths`
picks. -/
def selectRule (a : ACL α) (op : Operation) (path : String) : Go (Option (RuleHit α)) :=
  match a.exactRules.lookup path with
  | some permissions => .ok (some ⟨(.exactRules, path), permissions⟩)
  | none =>
    match (if op = .list then a.exactRules.lookup (trimSuffix path "/") else none) with
    | some permissions => .ok (some ⟨(.exactRules, trimSuffix path "/"), permissions⟩)
    | none => a.checkAllowedFromNonExactPaths path false

/-! ## The checks on the rule found -/

/-- `ACLResults` (MFA methods and the control group left out, as in `ACLPermissions`). -/
structure ACLResults where
  allowed : Bool
  rootPrivs : Bool
  isRoot : Bool
  capabilitiesBitmap : UInt32
deriving DecidableEq, Repr

/-- The `ACLResults` that `new` makes. -/
def ACLResults.zero : ACLResults := ⟨false, false, false, 0⟩

/-- A request's `Data`, a `map[string]interface{}`. -/
abbrev RequestData (α : Type) := AList (fun _ : String => ParamValue α)

section Checks

variable [DecidableEq α]

/-- The test of `valueInSlice` of one item `el` of a list against the value `v`: nil matches
nil, two strings match as `GlobbedStringsMatch`, and other values by `reflect.DeepEqual`. -/
def valueMatches : ParamValue α → ParamValue α → Bool
  | .null, .null => true
  | .null, _ => false
  | _, .null => false
  | .str item, .str val => globbedStringsMatch item val
  | .str _, .other _ => false
  | .other _, .str _ => false
  | .other el, .other v => el == v

/-- `valueInParameterList(v, list)`: an empty list holds every value. -/
def valueInParameterList (v : ParamValue α) (list : List (ParamValue α)) : Bool :=
  list.isEmpty || list.any fun el => valueMatches el v

/-- The parameter checks of `AllowOperation`, for a read, an update or a create: every required
parameter present; then, for a request with data, no denied value and only allowed values. -/
def parametersAllowed (permissions : ACLPermissions α) (data : RequestData α) : Bool :=
  if permissions.requiredParameters.any fun parameter => (data.lookup (toLower parameter)).isNone
  then false
  else if data.entries.isEmpty then true
  else if !permissions.deniedParameters.entries.isEmpty &&
      ((permissions.deniedParameters.lookup "*").isSome ||
        data.entries.any fun e =>
          match permissions.deniedParameters.lookup (toLower e.1) with
          | some valueSlice => valueInParameterList e.2 valueSlice
          | none => false)
  then false
  else
    -- ALLOWED_PARAMETERS
    let allowedAll := (permissions.allowedParameters.lookup "*").isSome
    if permissions.allowedParameters.entries.isEmpty then true
    else if permissions.allowedParameters.entries.length = 1 && allowedAll then true
    else data.entries.all fun e =>
      match permissions.allowedParameters.lookup (toLower e.1) with
      | some valueSlice => valueInParameterList e.2 valueSlice
      | none => allowedAll

/-- The wrapping TTL checks: a bound the rule sets needs a wrapped request within it, and merged
bounds that cross refuse every request. -/
def wrappingAllowed (permissions : ACLPermissions α) (wrapInfo : Option RequestWrapInfo) : Bool :=
  (if permissions.maxWrappingTTL > 0 then
    match wrapInfo with
    | none => false
    | some w => !(w.ttl > permissions.maxWrappingTTL)
  else true) &&
  (if permissions.minWrappingTTL > 0 then
    match wrapInfo with
    | none => false
    | some w => !(w.ttl < permissions.minWrappingTTL)
  else true) &&
  !(permissions.minWrappingTTL ≠ 0 && permissions.maxWrappingTTL ≠ 0 &&
    permissions.maxWrappingTTL < permissions.minWrappingTTL)

/-- The capability an operation needs; the `switch` refuses the others. -/
def operationCapability : Operation → Option UInt32
  | .read => some readCapabilityInt
  | .list => some listCapabilityInt
  | .update => some updateCapabilityInt
  | .delete => some deleteCapabilityInt
  | .create => some createCapabilityInt
  -- these three re-use the update capability
  | .revoke | .renew | .rollback => some updateCapabilityInt
  | .help | .aliasLookahead => none

/-- The `CHECK` part of `AllowOperation`, on the permissions of the rule found. -/
def checkPermissions {Addr : Type} (req : Request Addr) (data : RequestData α)
    (capCheckOnly : Bool) (permissions : ACLPermissions α) : ACLResults :=
  let capabilities := permissions.capabilitiesBitmap
  let ret : ACLResults :=
    { ACLResults.zero with rootPrivs := capabilities &&& sudoCapabilityInt > 0 }
  if capCheckOnly then { ret with capabilitiesBitmap := capabilities }
  else
    match operationCapability req.operation with
    | none => ret
    | some cap =>
      if !(capabilities &&& cap > 0) || !wrappingAllowed permissions req.wrapInfo then ret
      else if req.operation = .read || req.operation = .update || req.operation = .create then
        { ret with allowed := parametersAllowed permissions data }
      else { ret with allowed := true }

/-- The path `AllowOperation` checks: the namespace's path before the request's, without leading
`/`. -/
def requestPath {Addr : Type} (ns : Namespace) (req : Request Addr) : String :=
  String.ofList ((ns.path ++ req.path).toList.dropWhile (· == '/'))

/-- `AllowOperation(ctx, req, capCheckOnly)`, with `ctxNs` the namespace of `ctx` if it has one
and `data` the request's `Data`. -/
def allowOperation {Addr : Type} (a : ACL α) (ctxNs : Option Namespace) (req : Request Addr)
    (data : RequestData α) (capCheckOnly : Bool) : Go ACLResults :=
  if a.root then .ok ⟨true, true, true, 0⟩
  else if req.operation = .help then .ok { ACLResults.zero with allowed := true }
  else
    match ctxNs with
    | none => .ok ACLResults.zero
    | some ns => do
      match ← selectRule a req.operation (requestPath ns req) with
      | none => pure ACLResults.zero
      | some hit => pure (checkPermissions req data capCheckOnly hit.perms)

/-- The request `Capabilities` checks: a list of `path`, with no other field set. -/
def capabilitiesRequest (path : String) : Request Unit :=
  ⟨"", .list, path, none, none, none, "", "", "", "", none, 0, "", false, [], none, 0, none⟩

/-- The capabilities `Capabilities` names, in the order it appends them, with their bits. -/
def capabilityNames : List (UInt32 × String) :=
  [(sudoCapabilityInt, "sudo"), (readCapabilityInt, "read"), (listCapabilityInt, "list"),
    (updateCapabilityInt, "update"), (deleteCapabilityInt, "delete"),
    (createCapabilityInt, "create")]

/-- `(*ACL).Capabilities(ctx, path)`: the names of the capabilities `AllowOperation` finds for
`path` with the capability check only. -/
def ACL.capabilities (a : ACL α) (ctxNs : Option Namespace) (path : String) :
    Go (List String) := do
  let res ← allowOperation a ctxNs (capabilitiesRequest path) ∅ true
  if res.isRoot then return ["root"]
  let capabilities := res.capabilitiesBitmap
  let pathCapabilities := capabilityNames.filterMap fun (bit, name) =>
    if capabilities &&& bit > 0 then some name else none
  -- an explicit deny, or no capability at all
  if capabilities &&& denyCapabilityInt > 0 || pathCapabilities.length = 0 then return ["deny"]
  return pathCapabilities

/-- `PolicyCheckOpts`. -/
structure PolicyCheckOpts where
  rootPrivsRequired : Bool
  unauth : Bool
deriving DecidableEq, Repr

/-- `AuthResults` (its error fields, which no check of the open-source build sets, left out). -/
structure AuthResults where
  aclResults : Option ACLResults
  allowed : Bool
  rootPrivs : Bool
deriving DecidableEq, Repr

/-- `performEntPolicyChecks` of the open-source build (acl_util.go): it allows. -/
def performEntPolicyChecks (ret : AuthResults) : AuthResults := { ret with allowed := true }

/-- `(*Core).performPolicyChecks`: the ACL checks, unless there is no ACL or the request is an
unauthenticated login, then `performEntPolicyChecks`. The token entry and the entity are read only
by the enterprise checks. -/
def performPolicyChecks {Addr : Type} (acl : Option (ACL α)) (ctxNs : Option Namespace)
    (req : Request Addr) (data : RequestData α) (opts : PolicyCheckOpts) : Go AuthResults := do
  let ret : AuthResults := ⟨none, false, false⟩
  match acl with
  | some a =>
    if !opts.unauth then
      let r ← allowOperation a ctxNs req data false
      let ret := { ret with aclResults := some r, rootPrivs := r.rootPrivs }
      -- root is always allowed; the enterprise checks are skipped
      if r.isRoot then return { ret with allowed := true }
      if !r.allowed then return ret
      if !ret.rootPrivs && opts.rootPrivsRequired then return ret
      return performEntPolicyChecks ret
    else return performEntPolicyChecks ret
  | none => return performEntPolicyChecks ret


end Checks

/-! ## The priority order -/

/-- The priority `less` compares, as a lexicographic key: a later first `+` or glob, then a
path that is not a prefix, then fewer `+` segments, then a longer path, then a larger one. -/
def priority (d : WcPathDescr α) : Lex (ℤ × Lex (Bool × Lex (ℕᵒᵈ × Lex (ℕ × String)))) :=
  toLex (d.firstWCOrGlob, toLex (!d.isPrefix, toLex (OrderDual.toDual d.wildcards,
    toLex (len d.wcPath, d.wcPath))))

/-- One key of a lexicographic comparison, as `less` writes it: lower, higher, or equal and on
to the next key. -/
theorem ite_lt_lt_eq {β : Type} [LinearOrder β] (a b : β) (r : Bool) :
    (if a < b then true else if b < a then false else r) = (decide (a < b) || decide (a = b) && r) := by
  rcases lt_trichotomy a b with h | rfl | h
  · simp [h]
  · simp
  · simp [h, not_lt_of_gt h, ne_of_gt h]

theorem and_not_eq_true_iff_lt (p q : Bool) : (p && !q) = true ↔ (!p) < (!q) := by
  cases p <;> cases q <;> decide

theorem toDual_eq_toDual_iff_symm {β : Type} (a b : β) :
    OrderDual.toDual a = OrderDual.toDual b ↔ b = a := by
  rw [OrderDual.toDual_inj, eq_comm]

/-- `less` ranks by the lexicographic priority. -/
theorem less_eq_decide (x y : WcPathDescr α) : less x y = decide (priority x < priority y) := by
  have hp : (!x.isPrefix && y.isPrefix) = true ↔ (!y.isPrefix) < (!x.isPrefix) := by
    rw [Bool.and_comm]
    exact and_not_eq_true_iff_lt _ _
  simp only [less, gt_iff_lt, and_not_eq_true_iff_lt, hp, ite_lt_lt_eq, priority,
    Prod.Lex.toLex_lt_toLex, OrderDual.toDual_lt_toDual, toDual_eq_toDual_iff_symm,
    Bool.decide_or, Bool.decide_and, Bool.and_false, Bool.or_false]

/-! ## The longest prefix rule -/

section LongestPrefix

variable {m : PermsMap α} {s : String} {e : Σ _ : String, ACLPermissions α}

theorem longestPrefix_spec (h : longestPrefix m s = some e) :
    e ∈ m.entries ∧ hasPrefix s e.1 = true :=
  List.mem_filter.1 (List.argmax_mem h)

theorem longestPrefix_longest (h : longestPrefix m s = some e)
    {e' : Σ _ : String, ACLPermissions α} (he' : e' ∈ m.entries) (hp : hasPrefix s e'.1 = true) :
    e'.1.length ≤ e.1.length :=
  List.le_of_mem_argmax (f := fun e : Σ _ : String, ACLPermissions α => e.1.length)
    (List.mem_filter.2 ⟨he', hp⟩) h

theorem longestPrefix_eq_none_iff :
    longestPrefix m s = none ↔ ∀ e ∈ m.entries, hasPrefix s e.1 = false := by
  simp [longestPrefix, List.argmax_eq_none, List.filter_eq_nil_iff]

end LongestPrefix

/-! ## The segment check -/

/-- Without a bare mount, the segment loop runs to the end on a path with enough segments: it
matches exactly when every segment agrees, and counts the `+` segments. -/
theorem matchSegments_of_not_bareMount (path : String) (pathParts : List String)
    (isPrefix : Bool) (perms : ACLPermissions α) (n : ℕ) :
    ∀ (aclParts : List String) (i wildcards : ℕ) (segments : List String),
      i + aclParts.length = n → aclParts.length ≤ (pathParts.drop i).length →
      matchSegments path pathParts isPrefix false perms n i aclParts wildcards segments =
        .ok (if segmentsAgree ['+'] isPrefix (aclParts.map String.toList)
            ((pathParts.drop i).map String.toList)
          then .matched (wildcards + aclParts.count "+") else .mismatch) := by
  intro aclParts
  induction aclParts with
  | nil =>
    intro i wildcards segments _ _
    simp [matchSegments, segmentsAgree]
  | cons aclPart rest ih =>
    intro i wildcards segments hn hlen
    -- the path has a segment at `i`, and the rest after it
    obtain ⟨part, parts, hdrop⟩ : ∃ part parts, pathParts.drop i = part :: parts :=
      List.exists_cons_of_ne_nil (by rintro h; simp [h] at hlen)
    have hindex : GoRuntime.index pathParts i = .ok part := by
      have h : pathParts[i]? = some part := by rw [← List.head?_drop, hdrop, List.head?_cons]
      simp [GoRuntime.index, h]
    have hparts : pathParts.drop (i + 1) = parts := by
      rw [← List.drop_drop, hdrop, List.drop_one, List.tail_cons]
    have hlen' : rest.length ≤ (pathParts.drop (i + 1)).length := by
      rw [hparts]
      simpa [hdrop] using hlen
    have hlast : (i == n - 1) = rest.isEmpty := by
      cases rest <;> simp at hn ⊢ <;> omega
    have hplus : (aclPart.toList == ['+']) = decide (aclPart = "+") := by
      rw [Bool.eq_iff_iff, beq_iff_eq, decide_eq_true_iff, ← String.toList_inj]
      rfl
    have hpart : (aclPart.toList == part.toList) = decide (aclPart = part) := by
      rw [Bool.eq_iff_iff, beq_iff_eq, decide_eq_true_iff, String.toList_inj]
    simp only [matchSegments, hindex, ok_bind, hlast, Bool.not_false, Bool.false_and,
      Bool.false_eq_true, if_false]
    rw [hdrop, List.map_cons, List.map_cons]
    simp only [segmentsAgree, hplus, hpart, List.isEmpty_map]
    by_cases h1 : aclPart = "+"
    · simp only [h1, if_true, decide_true, Bool.true_or, Bool.true_and]
      rw [ih (i + 1) _ _ (by simp at hn; omega) hlen', hparts]
      simp [Nat.add_assoc, Nat.add_comm 1]
    have hcount : (aclPart :: rest).count "+" = rest.count "+" := by
      simp [h1]
    simp only [h1, if_false, decide_false, Bool.false_or, hcount]
    by_cases h2 : aclPart = part
    · simp only [h2, if_true, decide_true, Bool.true_or, Bool.true_and]
      rw [ih (i + 1) _ _ (by simp at hn; omega) hlen', hparts]
    simp only [h2, if_false, decide_false, Bool.false_or]
    -- the last segment of a prefix pattern need only begin the path's segment
    by_cases h3 : (isPrefix && rest.isEmpty && hasPrefix part aclPart) = true
    · have hp : (aclPart.toList.isPrefixOf part.toList) = hasPrefix part aclPart := rfl
      simp only [h3, if_true, hp, Bool.true_and]
      rw [ih (i + 1) _ _ (by simp at hn; omega) hlen', hparts]
    · have hp : (aclPart.toList.isPrefixOf part.toList) = hasPrefix part aclPart := rfl
      simp only [h3, if_false, hp, Bool.false_and, Bool.false_eq_true]
      rfl

/-- The path a segment-wildcard path is ranked by: without its trailing `*`. -/
def wcPathOf (fullWCPath : String) : String :=
  if hasSuffix fullWCPath "*" then trimSuffix fullWCPath "*" else fullWCPath

/-- The code's test of a segment-wildcard path `k` against `path`, bare mounts aside: enough
segments (as many, unless it ends in `*`), each agreeing. -/
def segmentsMatch (k path : String) : Bool :=
  let pat := split (wcPathOf k) '/'
  let parts := split path '/'
  decide (pat.length ≤ parts.length) && (hasSuffix k "*" || pat.length == parts.length) &&
    segmentsAgree ['+'] (hasSuffix k "*") (pat.map String.toList) (parts.map String.toList)

/-- The descriptor of a segment-wildcard path `k`: the byte offset of its first `+`, its number
of `+` segments, whether it ends in `*`, and its path without the `*`. -/
def segmentDescr (k : String) (perms : ACLPermissions α) : WcPathDescr α :=
  ⟨index k '+', (split (wcPathOf k) '/').count "+", hasSuffix k "*", wcPathOf k,
    ⟨(.segmentWildcardPaths, k), perms⟩⟩

/-- The descriptor a segment-wildcard path adds for `path`, when the code's checks accept it. -/
def wcCandidate (path : String) (e : Σ _ : String, ACLPermissions α) : Option (WcPathDescr α) :=
  if e.1 ≠ "" ∧ segmentsMatch e.1 path = true then some (segmentDescr e.1 e.2) else none

/-- Without a bare mount, the loop over the segment-wildcard paths adds the descriptor of each
one the checks accept, in the order visited. -/
theorem collectWCPaths_of_not_bareMount (path : String) :
    ∀ (order : List (Σ _ : String, ACLPermissions α)) (descrs : List (WcPathDescr α)),
      collectWCPaths path (split path '/') false order descrs =
        .ok (.inr (descrs ++ order.filterMap (wcCandidate path)))
  | [], descrs => by simp [collectWCPaths]
  | ⟨k, perms⟩ :: rest, descrs => by
    have ih := collectWCPaths_of_not_bareMount path rest
    by_cases hk : k = ""
    · simp [collectWCPaths, hk, wcCandidate, ih]
    have hcur : (if hasSuffix k "*" then trimSuffix k "*" else k) = wcPathOf k := rfl
    simp only [collectWCPaths, hk, if_false, hcur, Bool.not_false, Bool.true_and]
    by_cases hshort : (split path '/').length < (split (wcPathOf k) '/').length
    · -- too few segments
      rw [if_pos (decide_eq_true hshort), ih]
      simp [wcCandidate, segmentsMatch, not_le.mpr hshort]
    rw [if_neg (by simpa using hshort)]
    by_cases hexact : (!hasSuffix k "*" && decide ((split (wcPathOf k) '/').length ≠
        (split path '/').length)) = true
    · -- a pattern without `*` needs exactly as many segments
      rw [if_pos hexact, ih]
      simp only [Bool.and_eq_true, Bool.not_eq_true', decide_eq_true_eq] at hexact
      simp [wcCandidate, segmentsMatch, hexact.1, hexact.2]
    rw [if_neg hexact]
    have hlen : (split (wcPathOf k) '/').length ≤ (split path '/').length := not_lt.mp hshort
    rw [matchSegments_of_not_bareMount path (split path '/') (hasSuffix k "*") perms _
      (split (wcPathOf k) '/') 0 0 [] (by simp) (by simpa using hlen), ok_bind]
    have hsame : (hasSuffix k "*" || (split (wcPathOf k) '/').length == (split path '/').length) =
        true := by
      cases hs : hasSuffix k "*"
      · have heq : (split (wcPathOf k) '/').length = (split path '/').length := by
          by_contra hne
          exact hexact (by simp [hs, hne])
        simp [heq]
      · rfl
    by_cases hagree : segmentsAgree ['+'] (hasSuffix k "*")
        ((split (wcPathOf k) '/').map String.toList) ((split path '/').map String.toList) = true
    · simp [hagree, ih, wcCandidate, segmentsMatch, hk, hlen, hsame, segmentDescr]
    · simp [hagree, ih, wcCandidate, segmentsMatch, hk]

/-- The descriptors the code ranks for `path`: the longest prefix rule, then the segment-wildcard
paths the checks accept, in the order visited. -/
def candidatesIn (a : ACL α) (order : List (Σ _ : String, ACLPermissions α)) (path : String) :
    List (WcPathDescr α) :=
  ((longestPrefix a.prefixRules path).map fun e => prefixDescr e.1 e.2).toList ++
    order.filterMap (wcCandidate path)

/-- Without a bare mount, `CheckAllowedFromNonExactPaths` returns the last of its candidates
sorted by `less`, none when there are none. -/
theorem checkAllowedFromNonExactPathsIn_eq (a : ACL α)
    {order : List (Σ _ : String, ACLPermissions α)} (horder : order.Perm a.segmentWildcardPaths.entries)
    (path : String) :
    checkAllowedFromNonExactPathsIn a order path false =
      .ok (((candidatesIn a order path).mergeSort fun x y => !less y x).getLast?.map (·.perms)) := by
  by_cases hemp : a.segmentWildcardPaths.entries.isEmpty
  · -- no segment-wildcard paths: the prefix rule, if any, is the only candidate
    have horder' : order = [] := by
      rw [List.isEmpty_iff.mp hemp] at horder
      exact horder.eq_nil
    cases hfound : longestPrefix a.prefixRules path <;>
      simp [checkAllowedFromNonExactPathsIn, hemp, hfound, candidatesIn, horder', prefixDescr]
  · simp only [checkAllowedFromNonExactPathsIn, hemp, if_false, Bool.false_eq_true]
    rw [collectWCPaths_of_not_bareMount, ok_bind]
    simp only [Bool.false_or]
    change (if (candidatesIn a order path).isEmpty then pure none else pure _) = _
    split
    · rename_i hnil
      rw [List.isEmpty_iff.mp hnil, List.mergeSort_nil]
      rfl
    · rfl

/-! ## What a segment-wildcard path means -/

/-- The meaning of a segment-wildcard path `k` for `path`: its `+` segments filled with text free
of `/` give the path, or, for a path ending in `*`, text that begins it. -/
def PatternMatches (k path : String) : Prop :=
  if hasSuffix k "*" then
    ∃ fill, Fills '/' ['+'] ((split (wcPathOf k) '/').map String.toList) fill ∧
      ['/'].intercalate fill <+: path.toList
  else
    ∃ fill, Fills '/' ['+'] ((split (wcPathOf k) '/').map String.toList) fill ∧
      ['/'].intercalate fill = path.toList

theorem map_toList_split (s : String) (c : Char) :
    (split s c).map String.toList = s.toList.splitOn c := by
  simp [split, List.map_map, Function.comp_def]

/-- The code's segment check decides the meaning of a segment-wildcard path. -/
theorem segmentsMatch_iff (k path : String) : segmentsMatch k path = true ↔ PatternMatches k path := by
  have hlit : ∀ seg ∈ (wcPathOf k).toList.splitOn '/', '/' ∉ seg :=
    fun _ hseg => not_mem_of_mem_splitOn '/' hseg
  have hne : (wcPathOf k).toList.splitOn '/' ≠ [] := List.splitOn_ne_nil _ _
  have hlen (s : String) : (split s '/').length = (s.toList.splitOn '/').length := by
    rw [← map_toList_split, List.length_map]
  unfold segmentsMatch PatternMatches
  simp only [map_toList_split, hlen]
  cases hs : hasSuffix k "*"
  · -- the path must have exactly the pattern's segments
    rw [← segmentsAgree_iff_exact hlit hne]
    simp only [Bool.false_or, if_false, Bool.false_eq_true, Bool.and_eq_true, decide_eq_true_eq,
      beq_iff_eq]
    constructor
    · rintro ⟨⟨-, heq⟩, hagree⟩
      exact ⟨heq.symm, hagree⟩
    · rintro ⟨heq, hagree⟩
      exact ⟨⟨heq.symm.le, heq.symm⟩, hagree⟩
  · -- or at least the pattern's segments, the last one only begun
    rw [← segmentsAgree_iff_prefix hlit hne]
    simp [Bool.and_eq_true]

/-! ## The rule picked -/

/-- The candidates as the claim reads them, for `path`: the longest prefix rule that begins it,
and every segment-wildcard path that matches it. -/
def IsCandidate (a : ACL α) (path : String) (d : WcPathDescr α) : Prop :=
  (∃ pfx perms, (⟨pfx, perms⟩ : Σ _ : String, ACLPermissions α) ∈ a.prefixRules.entries ∧
      hasPrefix path pfx = true ∧
      (∀ k ∈ a.prefixRules.keys, hasPrefix path k = true → k.length ≤ pfx.length) ∧
      d = prefixDescr pfx perms) ∨
  (∃ k perms, (⟨k, perms⟩ : Σ _ : String, ACLPermissions α) ∈ a.segmentWildcardPaths.entries ∧
      PatternMatches k path ∧ d = segmentDescr k perms)

/-- The descriptor of the longest prefix rule is there exactly when the claim's prefix
candidate is. -/
theorem mem_prefixPart_iff (a : ACL α) (path : String) (d : WcPathDescr α) :
    d ∈ ((longestPrefix a.prefixRules path).map fun e => prefixDescr e.1 e.2).toList ↔
      ∃ pfx perms, (⟨pfx, perms⟩ : Σ _ : String, ACLPermissions α) ∈ a.prefixRules.entries ∧
        hasPrefix path pfx = true ∧
        (∀ k ∈ a.prefixRules.keys, hasPrefix path k = true → k.length ≤ pfx.length) ∧
        d = prefixDescr pfx perms := by
  constructor
  · intro hd
    obtain ⟨e, he, rfl⟩ : ∃ e, longestPrefix a.prefixRules path = some e ∧
        d = prefixDescr e.1 e.2 := by
      simpa [eq_comm] using hd
    obtain ⟨hmem, hpre⟩ := longestPrefix_spec he
    refine ⟨e.1, e.2, hmem, hpre, fun k hk hkp => ?_, rfl⟩
    obtain ⟨v, hkv⟩ := List.mem_keys.mp hk
    exact longestPrefix_longest he hkv hkp
  · rintro ⟨pfx, perms, hmem, hpre, hlong, rfl⟩
    -- the rule found begins the path and is as long as `pfx`, so it is `pfx`
    obtain ⟨e, he⟩ : ∃ e, longestPrefix a.prefixRules path = some e := by
      cases h : longestPrefix a.prefixRules path with
      | none => simp [(longestPrefix_eq_none_iff.mp h) _ hmem] at hpre
      | some e => exact ⟨e, rfl⟩
    obtain ⟨hemem, hepre⟩ := longestPrefix_spec he
    have hlen : e.1.length = pfx.length :=
      le_antisymm (hlong e.1 (List.mem_keys_of_mem hemem) hepre) (longestPrefix_longest he hmem hpre)
    have hkey : e.1 = pfx := SortedStore.Bucket.eq_of_length_eq hepre hpre hlen
    have hentry : e = ⟨pfx, perms⟩ := a.prefixRules.nodupKeys.eq_of_fst_eq hemem hmem hkey
    simp [he, hentry]

/-- With no empty segment-wildcard path, the code's candidates are the claim's. -/
theorem mem_candidatesIn (a : ACL α) {order : List (Σ _ : String, ACLPermissions α)}
    (horder : order.Perm a.segmentWildcardPaths.entries)
    (hkeys : ∀ k ∈ a.segmentWildcardPaths.keys, k ≠ "") (path : String) (d : WcPathDescr α) :
    d ∈ candidatesIn a order path ↔ IsCandidate a path d := by
  rw [candidatesIn, IsCandidate, List.mem_append, mem_prefixPart_iff]
  refine or_congr Iff.rfl ?_
  simp only [List.mem_filterMap, wcCandidate, Option.ite_none_right_eq_some, Option.some.injEq]
  constructor
  · rintro ⟨⟨k, perms⟩, hmem, ⟨-, hmatch⟩, rfl⟩
    exact ⟨k, perms, horder.mem_iff.mp hmem, (segmentsMatch_iff k path).mp hmatch, rfl⟩
  · rintro ⟨k, perms, hmem, hmatch, rfl⟩
    exact ⟨⟨k, perms⟩, horder.mem_iff.mpr hmem,
      ⟨hkeys k (List.mem_keys_of_mem hmem), (segmentsMatch_iff k path).mpr hmatch⟩, rfl⟩

/-- A candidate is the longest prefix rule, or the descriptor of a visited entry. -/
theorem mem_candidatesIn_cases {a : ACL α} {order : List (Σ _ : String, ACLPermissions α)}
    {path : String} {d : WcPathDescr α} (hd : d ∈ candidatesIn a order path) :
    (∃ e, longestPrefix a.prefixRules path = some e ∧ d = prefixDescr e.1 e.2) ∨
      ∃ e ∈ order, d = segmentDescr e.1 e.2 := by
  rcases List.mem_append.mp hd with hd | hd
  · rw [Option.mem_toList] at hd
    obtain ⟨e, he, rfl⟩ := Option.map_eq_some_iff.mp hd
    exact .inl ⟨e, he, rfl⟩
  · obtain ⟨e, he, hc⟩ := List.mem_filterMap.mp hd
    simp only [wcCandidate] at hc
    split at hc
    · exact .inr ⟨e, he, (Option.some.inj hc).symm⟩
    · cases hc

/-! ## No two candidates share a priority -/

/-- Equal priorities mean the same first `+` or glob, prefix flag and path. -/
theorem eq_of_priority_eq {x y : WcPathDescr α} (h : priority x = priority y) :
    x.firstWCOrGlob = y.firstWCOrGlob ∧ x.isPrefix = y.isPrefix ∧ x.wcPath = y.wcPath := by
  simp only [priority, toLex_inj, Prod.mk.injEq, Bool.not_inj_iff] at h
  exact ⟨h.1, h.2.1, h.2.2.2.2⟩

/-- A segment-wildcard path is its ranked path, with the `*` back when it had one. -/
theorem wcPathOf_append (k : String) :
    (if hasSuffix k "*" then wcPathOf k ++ "*" else wcPathOf k) = k := by
  unfold wcPathOf
  split
  · exact trimSuffix_append ‹_›
  · rfl

/-- Two segment-wildcard paths with one prefix flag and one ranked path are the same. -/
theorem eq_of_segmentDescr {k k' : String} {p p' : ACLPermissions α}
    (hpre : (segmentDescr k p).isPrefix = (segmentDescr k' p').isPrefix)
    (hpath : (segmentDescr k p).wcPath = (segmentDescr k' p').wcPath) : k = k' := by
  simp only [segmentDescr] at hpre hpath
  rw [← wcPathOf_append k, ← wcPathOf_append k', hpre, hpath]

/-- The longest prefix rule and a segment-wildcard path never share a priority: with the same
path, the pattern ends in `*`, and its first `+` is before that `*` or nowhere. -/
theorem priority_prefixDescr_ne (pfx k : String) (p p' : ACLPermissions α) :
    priority (prefixDescr pfx p) ≠ priority (segmentDescr k p') := by
  intro h
  obtain ⟨hfirst, hpre, hpath⟩ := eq_of_priority_eq h
  simp only [prefixDescr, segmentDescr] at hfirst hpre hpath
  have hk : k = pfx ++ "*" := by
    rw [← wcPathOf_append k, ← hpre, if_pos rfl, ← hpath]
  rw [hk] at hfirst
  exact index_append_ne_len (by decide) hfirst.symm

/-- No two of the code's candidates share a priority. -/
theorem priority_injOn (a : ACL α) {order : List (Σ _ : String, ACLPermissions α)}
    (horder : order.Perm a.segmentWildcardPaths.entries) (path : String) :
    Set.InjOn priority {d | d ∈ candidatesIn a order path} := by
  have hnd : order.NodupKeys := (List.perm_nodupKeys horder).mpr a.segmentWildcardPaths.nodupKeys
  intro x hx y hy hxy
  rcases mem_candidatesIn_cases hx with ⟨e, he, rfl⟩ | ⟨e, he, rfl⟩ <;>
    rcases mem_candidatesIn_cases hy with ⟨e', he', rfl⟩ | ⟨e', he', rfl⟩
  · -- the prefix rule is one at most
    rw [Option.some.inj (he.symm.trans he')]
  · exact absurd hxy (priority_prefixDescr_ne _ _ _ _)
  · exact absurd hxy.symm (priority_prefixDescr_ne _ _ _ _)
  · -- two segment-wildcard paths with one priority have one key, so they are one entry
    obtain ⟨-, hpre, hpath⟩ := eq_of_priority_eq hxy
    rw [hnd.eq_of_fst_eq he he' (eq_of_segmentDescr hpre hpath)]

/-- Without a bare mount, `CheckAllowedFromNonExactPaths` finds nothing when there is no candidate,
and otherwise the permissions of the one candidate that ranks above every other. -/
theorem checkAllowedFromNonExactPathsIn_max (a : ACL α)
    (hkeys : ∀ k ∈ a.segmentWildcardPaths.keys, k ≠ "")
    {order : List (Σ _ : String, ACLPermissions α)} (horder : order.Perm a.segmentWildcardPaths.entries)
    (path : String) :
    (checkAllowedFromNonExactPathsIn a order path false = .ok none ∧ ∀ d, ¬ IsCandidate a path d) ∨
      ∃ d, IsCandidate a path d ∧ (∀ d', IsCandidate a path d' → d' ≠ d → less d' d = true) ∧
        checkAllowedFromNonExactPathsIn a order path false = .ok (some d.perms) := by
  have hmem := mem_candidatesIn a horder hkeys path
  -- the sort's order is the priority's
  have hsort : (fun x y => !less y x) = keyLE (priority (α := α)) := by
    funext x y
    simp only [keyLE, less_eq_decide, ← not_lt, decide_not]
  rw [checkAllowedFromNonExactPathsIn_eq a horder path, hsort]
  cases hmax : (candidatesIn a order path).argmax priority with
  | none =>
    have hnil := List.argmax_eq_none.mp hmax
    refine .inl ⟨by simp [hnil], fun d hd => ?_⟩
    simpa [hnil] using (hmem d).mpr hd
  | some m =>
    have hm : m ∈ candidatesIn a order path := List.argmax_mem hmax
    have hle : ∀ y ∈ candidatesIn a order path, priority y ≤ priority m :=
      fun y hy => List.le_of_mem_argmax hy hmax
    have hinj := priority_injOn a horder path
    have hne := mergeSort_ne_nil (List.ne_nil_of_mem hm) (keyLE priority)
    refine .inr ⟨m, (hmem m).mp hm, fun d' hd' hne' => ?_, ?_⟩
    · -- any other candidate ranks strictly lower: no two share a priority
      have hd'm := (hmem d').mpr hd'
      rw [less_eq_decide, decide_eq_true_eq]
      exact lt_of_le_of_ne (hle d' hd'm) fun h => hne' (hinj hd'm hm h)
    · rw [List.getLast?_eq_some_getLast hne, getLast_mergeSort_eq priority hinj hne hm hle]
      rfl

/-- For an ACL that `NewACL` builds from parsed policies, `CheckAllowedFromNonExactPaths` without a
bare mount returns nothing when no rule is a candidate for the path, and otherwise the permissions
of the candidate that ranks above every other: the longest prefix rule that begins the path, or a
segment-wildcard path that matches it. The map of segment-wildcard paths may be visited in any
order. -/
theorem checkAllowedFromNonExactPaths_selects_max {ns : Option Namespace}
    {policies : List (Option (Policy α))} {a : ACL α} (h : newACL ns policies = .ok a)
    (hparsed : Parsed policies) {order : List (Σ _ : String, ACLPermissions α)}
    (horder : order.Perm a.segmentWildcardPaths.entries) (path : String) :
    (checkAllowedFromNonExactPathsIn a order path false = .ok none ∧ ∀ d, ¬ IsCandidate a path d) ∨
      ∃ d, IsCandidate a path d ∧ (∀ d', IsCandidate a path d' → d' ≠ d → less d' d = true) ∧
        checkAllowedFromNonExactPathsIn a order path false = .ok (some d.perms) :=
  checkAllowedFromNonExactPathsIn_max a (segmentWildcardPaths_key_ne_empty h hparsed) horder path

/-- A namespace for the samples: the root one. -/
def sampleNamespace : Namespace := ⟨rootNamespaceID, ""⟩

/-- Two stanzas: a deny on `secret/*` and a read on `secret/+/config`. -/
def sampleStanzas : List (PathRulesHCL Unit) :=
  [⟨"secret/*", "", ["deny"], none, none, [], none, none⟩,
   ⟨"secret/+/config", "", ["read"], none, none, [], none, none⟩]

/-- The policy `ParseACLPolicy` makes of the two stanzas. -/
def samplePolicy : Policy Unit :=
  ⟨"sample", [⟨"secret/", .denyOnly, true, false⟩,
    ⟨"secret/+/config", ⟨readCapabilityInt, 0, 0, ∅, ∅, []⟩, false, true⟩], .acl⟩

/-- The ACL of the sample policy. -/
def sampleACL : ACL Unit := samplePolicy.paths.foldl insertRule ACL.empty

theorem newACL_samplePolicy :
    newACL (some sampleNamespace) [some samplePolicy] = .ok sampleACL := rfl

theorem parsed_samplePolicy : Parsed [some samplePolicy] := by
  intro policy hp
  rw [List.mem_singleton, Option.some.injEq] at hp
  subst hp
  exact ⟨sampleNamespace, sampleStanzas, rfl⟩

theorem checkAllowedFromNonExactPaths_selects_max_sample :
    newACL (some sampleNamespace) [some samplePolicy] = .ok sampleACL ∧
      Parsed [some samplePolicy] ∧
      ((checkAllowedFromNonExactPathsIn sampleACL sampleACL.segmentWildcardPaths.entries
          "secret/foo/config" false = .ok none ∧ ∀ d, ¬ IsCandidate sampleACL "secret/foo/config" d) ∨
        ∃ d, IsCandidate sampleACL "secret/foo/config" d ∧
          (∀ d', IsCandidate sampleACL "secret/foo/config" d' → d' ≠ d → less d' d = true) ∧
          checkAllowedFromNonExactPathsIn sampleACL sampleACL.segmentWildcardPaths.entries
            "secret/foo/config" false = .ok (some d.perms)) :=
  ⟨newACL_samplePolicy, parsed_samplePolicy,
    checkAllowedFromNonExactPaths_selects_max newACL_samplePolicy parsed_samplePolicy
      (List.Perm.refl _) "secret/foo/config"⟩

/-! ## A denying rule refuses the request -/

/-- The rule of each candidate is what the ACL stores under its key. -/
theorem lookup_of_mem_candidatesIn {a : ACL α} {order : List (Σ _ : String, ACLPermissions α)}
    (horder : order.Perm a.segmentWildcardPaths.entries) {path : String} {d : WcPathDescr α}
    (hd : d ∈ candidatesIn a order path) :
    (a.rules d.perms.ruleKey.1).lookup d.perms.ruleKey.2 = some d.perms.perms := by
  rcases mem_candidatesIn_cases hd with ⟨e, he, rfl⟩ | ⟨e, he, rfl⟩
  · exact AList.mem_lookup_iff.mpr (longestPrefix_spec he).1
  · exact AList.mem_lookup_iff.mpr (horder.subset he)

/-- The rule `AllowOperation` checks a path against is the one the ACL stores under its key. -/
theorem lookup_of_selectRule {a : ACL α} {op : Operation} {path : String} {hit : RuleHit α}
    (h : selectRule a op path = .ok (some hit)) :
    (a.rules hit.ruleKey.1).lookup hit.ruleKey.2 = some hit.perms := by
  unfold selectRule at h
  split at h
  · -- the exact rule of the path
    cases h
    assumption
  · split at h
    · -- for a list, the exact rule of the path without its trailing `/`
      cases h
      rename_i hlook
      split at hlook
      · exact hlook
      · cases hlook
    · rw [ACL.checkAllowedFromNonExactPaths, checkAllowedFromNonExactPathsIn_eq a (List.Perm.refl _)]
        at h
      obtain ⟨d, hd, rfl⟩ := Option.map_eq_some_iff.mp (Except.ok.inj h)
      exact lookup_of_mem_candidatesIn (List.Perm.refl _)
        (List.mem_mergeSort.mp (List.mem_of_getLast? hd))

/-- The deny bit meets none of the capabilities an operation needs. -/
theorem deny_and_operationCapability {op : Operation} {cap : UInt32}
    (h : operationCapability op = some cap) : denyCapabilityInt &&& cap = 0 := by
  cases op <;> simp only [operationCapability, Option.some.injEq, reduceCtorEq] at h <;>
    subst h <;> decide

/-- The rule a path falls under, in an ACL that `NewACL` builds from parsed policies, holds the
deny bit alone when a policy has a denying rule under its key. -/
theorem bitmap_of_selectRule_deny {ns : Option Namespace} {policies : List (Option (Policy α))}
    {a : ACL α} (h : newACL ns policies = .ok a) (hparsed : Parsed policies) {op : Operation}
    {path : String} {hit : RuleHit α} (hsel : selectRule a op path = .ok (some hit))
    (hdeny : ∃ r ∈ aclRules policies, r.ruleKey = hit.ruleKey ∧ r.permissions.denies = true) :
    hit.perms.capabilitiesBitmap = denyCapabilityInt := by
  obtain ⟨r, hr, hkey, hden⟩ := hdeny
  have hrule : r ∈ (aclRules policies).filter (·.ruleKey = (hit.ruleKey.1, hit.ruleKey.2)) :=
    List.mem_filter.mpr ⟨hr, by simpa using hkey⟩
  obtain ⟨v, hv, hbits⟩ := bitmap_newACL h hparsed (List.ne_nil_of_mem hrule)
  -- the rule found is the one stored under its key, where a denying rule leaves the deny bit
  have hperms : hit.perms = v := Option.some.inj ((lookup_of_selectRule hsel).symm.trans hv)
  rw [if_pos (List.any_eq_true.mpr ⟨r, hrule, hden⟩)] at hbits
  exact hperms ▸ hbits

section Deny

variable [DecidableEq α]

/-- `checkPermissions` never answers as for a root token. -/
theorem checkPermissions_isRoot {Addr : Type} (req : Request Addr) (data : RequestData α)
    (capCheckOnly : Bool) (permissions : ACLPermissions α) :
    (checkPermissions req data capCheckOnly permissions).isRoot = false := by
  unfold checkPermissions
  cases capCheckOnly
  · cases operationCapability req.operation with
    | none => rfl
    | some cap =>
      dsimp only
      split_ifs <;> rfl
  · rfl

/-- Permissions with the deny bit alone allow no operation. -/
theorem checkPermissions_deny {Addr : Type} (req : Request Addr) (data : RequestData α)
    (capCheckOnly : Bool) {permissions : ACLPermissions α}
    (h : permissions.capabilitiesBitmap = denyCapabilityInt) :
    (checkPermissions req data capCheckOnly permissions).allowed = false := by
  unfold checkPermissions
  cases capCheckOnly
  · cases hop : operationCapability req.operation with
    | none => rfl
    | some cap =>
      simp [h, deny_and_operationCapability hop, ACLResults.zero]
  · rfl

/-- For a non-root ACL that `NewACL` builds from parsed policies, a request other than help is
refused when a policy has a denying rule under the key of the rule it falls under. -/
theorem allowOperation_denied_of_deny {ns : Option Namespace} {policies : List (Option (Policy α))}
    {a : ACL α} (h : newACL ns policies = .ok a) (hparsed : Parsed policies)
    (hroot : a.root = false) {Addr : Type} (ctxNs : Namespace) (req : Request Addr)
    (data : RequestData α) (capCheckOnly : Bool) (hop : req.operation ≠ .help) {hit : RuleHit α}
    (hsel : selectRule a req.operation (requestPath ctxNs req) = .ok (some hit))
    (hdeny : ∃ r ∈ aclRules policies, r.ruleKey = hit.ruleKey ∧ r.permissions.denies = true) :
    ∃ res, allowOperation a (some ctxNs) req data capCheckOnly = .ok res ∧ res.allowed = false := by
  refine ⟨checkPermissions req data capCheckOnly hit.perms, ?_,
    checkPermissions_deny req data capCheckOnly (bitmap_of_selectRule_deny h hparsed hsel hdeny)⟩
  simp [allowOperation, hroot, hop, hsel]
  rfl

/-- Two stanzas: a read on `secret/*` and a deny on `secret/admin`. -/
def denyStanzas : List (PathRulesHCL Unit) :=
  [⟨"secret/*", "", ["read"], none, none, [], none, none⟩,
   ⟨"secret/admin", "", ["deny"], none, none, [], none, none⟩]

/-- The policy `ParseACLPolicy` makes of the two stanzas. -/
def denyPolicy : Policy Unit :=
  ⟨"admin-deny", [⟨"secret/", ⟨readCapabilityInt, 0, 0, ∅, ∅, []⟩, true, false⟩,
    ⟨"secret/admin", .denyOnly, false, false⟩], .acl⟩

/-- The ACL of the deny policy. -/
def denyACL : ACL Unit := denyPolicy.paths.foldl insertRule ACL.empty

theorem newACL_denyPolicy : newACL (some sampleNamespace) [some denyPolicy] = .ok denyACL := rfl

theorem parsed_denyPolicy : Parsed [some denyPolicy] := by
  intro policy hp
  rw [List.mem_singleton, Option.some.injEq] at hp
  subst hp
  exact ⟨sampleNamespace, denyStanzas, rfl⟩

/-- A list of `secret/admin` falls under the deny rule of `denyACL`. -/
theorem selectRule_denyACL_admin :
    selectRule denyACL .list (requestPath sampleNamespace (capabilitiesRequest "secret/admin")) =
      .ok (some ⟨(.exactRules, "secret/admin"), .denyOnly⟩) := rfl

theorem denyRule_mem_aclRules :
    (⟨"secret/admin", .denyOnly, false, false⟩ : PathRules Unit) ∈ aclRules [some denyPolicy] := by
  simp [aclRules, policyRules, denyPolicy]

theorem allowOperation_denied_of_deny_sample :
    ∃ res, allowOperation denyACL (some sampleNamespace) (capabilitiesRequest "secret/admin") ∅
      false = .ok res ∧ res.allowed = false := by
  exact allowOperation_denied_of_deny newACL_denyPolicy parsed_denyPolicy rfl sampleNamespace _ ∅
    false (by decide) selectRule_denyACL_admin ⟨_, denyRule_mem_aclRules, rfl, rfl⟩

end Deny

/-! ## What `AllowOperation` reads of the rule found -/

/-- `selectRule` without a bare mount always returns. -/
theorem selectRule_ok (a : ACL α) (op : Operation) (path : String) :
    ∃ o, selectRule a op path = .ok o := by
  unfold selectRule
  split
  · exact ⟨_, rfl⟩
  · split
    · exact ⟨_, rfl⟩
    · exact ⟨_, checkAllowedFromNonExactPathsIn_eq a (List.Perm.refl _) path⟩

section RuleFound

variable [DecidableEq α]

/-- On a non-root ACL, `AllowOperation` for an operation other than help checks the permissions
of the rule found, and nothing else of the ACL. -/
theorem allowOperation_of_not_root (a : ACL α) (hroot : a.root = false) {Addr : Type}
    (ns : Namespace) (req : Request Addr) (data : RequestData α) (capCheckOnly : Bool)
    (hop : req.operation ≠ .help) :
    allowOperation a (some ns) req data capCheckOnly =
      (selectRule a req.operation (requestPath ns req)).map fun o =>
        o.elim ACLResults.zero fun hit => checkPermissions req data capCheckOnly hit.perms := by
  simp only [allowOperation, hroot, hop, Bool.false_eq_true, if_false]
  obtain ⟨o, ho⟩ := selectRule_ok a req.operation (requestPath ns req)
  rw [ho]
  cases o <;> rfl

end RuleFound

/-! ## The policy checks of a request -/

section PolicyChecks

variable [DecidableEq α]

/-- With an ACL and the ACL checks asked for, `performPolicyChecks` allows a root token, and any
other only when `AllowOperation` allows it, with root privileges when they are required. -/
theorem allowed_performPolicyChecks {Addr : Type} (a : ACL α) (ctxNs : Option Namespace)
    (req : Request Addr) (data : RequestData α) {opts : PolicyCheckOpts}
    (hu : opts.unauth = false) :
    (performPolicyChecks (some a) ctxNs req data opts).map (·.allowed) =
      (allowOperation a ctxNs req data false).map fun r =>
        r.isRoot || r.allowed && (r.rootPrivs || !opts.rootPrivsRequired) := by
  simp only [performPolicyChecks, hu, Bool.not_false, if_true]
  cases allowOperation a ctxNs req data false with
  | error e => rfl
  | ok r =>
    -- the three early returns, in the order the source tests them
    by_cases hroot : r.isRoot = true
    · simp [hroot, Except.map, pure, Except.pure]
    by_cases hall : r.allowed = true
    · cases hpriv : r.rootPrivs <;> cases opts.rootPrivsRequired <;>
        simp [hroot, hall, hpriv, performEntPolicyChecks, Except.map, pure, Except.pure]
    · simp [hroot, hall, Except.map, pure, Except.pure]

/-- For a non-root ACL that `NewACL` builds from parsed policies, the policy checks refuse a
request other than help when a policy has a denying rule under the key of the rule it falls
under, whatever the other policies grant. -/
theorem performPolicyChecks_denied_of_deny {ns : Option Namespace}
    {policies : List (Option (Policy α))} {a : ACL α} (h : newACL ns policies = .ok a)
    (hparsed : Parsed policies) (hroot : a.root = false) {Addr : Type} (ctxNs : Namespace)
    (req : Request Addr) (data : RequestData α) {opts : PolicyCheckOpts}
    (hu : opts.unauth = false) (hop : req.operation ≠ .help) {hit : RuleHit α}
    (hsel : selectRule a req.operation (requestPath ctxNs req) = .ok (some hit))
    (hdeny : ∃ r ∈ aclRules policies, r.ruleKey = hit.ruleKey ∧ r.permissions.denies = true) :
    ∃ ret, performPolicyChecks (some a) (some ctxNs) req data opts = .ok ret ∧
      ret.allowed = false := by
  have hallow : allowOperation a (some ctxNs) req data false =
      .ok (checkPermissions req data false hit.perms) := by
    rw [allowOperation_of_not_root a hroot ctxNs req data false hop, hsel]
    rfl
  have hspec := allowed_performPolicyChecks a (some ctxNs) req data hu
  rw [hallow] at hspec
  -- the rule found holds the deny bit alone: not allowed, and not a root token's answer
  have hdenied := checkPermissions_deny req data false (bitmap_of_selectRule_deny h hparsed hsel hdeny)
  cases hp : performPolicyChecks (some a) (some ctxNs) req data opts with
  | error e => rw [hp] at hspec; cases hspec
  | ok ret =>
    refine ⟨ret, rfl, ?_⟩
    rw [hp] at hspec
    simpa [Except.map, hdenied, checkPermissions_isRoot] using hspec

theorem performPolicyChecks_denied_of_deny_sample :
    ∃ ret, performPolicyChecks (some denyACL) (some sampleNamespace)
      (capabilitiesRequest "secret/admin") ∅ ⟨false, false⟩ = .ok ret ∧ ret.allowed = false := by
  exact performPolicyChecks_denied_of_deny newACL_denyPolicy parsed_denyPolicy rfl sampleNamespace
    _ ∅ rfl (by decide) selectRule_denyACL_admin ⟨_, denyRule_mem_aclRules, rfl, rfl⟩

end PolicyChecks

/-! ## Permissions the checks cannot tell apart -/

section SameChecks

variable [DecidableEq α]

/-- What the parameter checks read of a parameter map under a name: whether the name is there,
and which values its list lets through. -/
def paramView (m : ParamMap α) (k : String) : Option (ParamValue α → Bool) :=
  (m.lookup k).map fun vs v => valueInParameterList v vs

/-- Two parameter maps the checks cannot tell apart. -/
def SameParams (m m' : ParamMap α) : Prop :=
  ∀ k, paramView m k = paramView m' k

/-- Two permissions the checks of `AllowOperation` cannot tell apart: the same bitmap and, unless
it is the deny bit alone, the same wrapping TTLs, parameter maps and required parameters. -/
def SameChecks (p p' : ACLPermissions α) : Prop :=
  p.capabilitiesBitmap = p'.capabilitiesBitmap ∧
    (p.capabilitiesBitmap = denyCapabilityInt ∨
      p.minWrappingTTL = p'.minWrappingTTL ∧ p.maxWrappingTTL = p'.maxWrappingTTL ∧
        SameParams p.allowedParameters p'.allowedParameters ∧
        SameParams p.deniedParameters p'.deniedParameters ∧
        ∀ x, x ∈ p.requiredParameters ↔ x ∈ p'.requiredParameters)

namespace SameParams

variable {m m' : ParamMap α}

theorem lookup_isSome (h : SameParams m m') (k : String) :
    (m.lookup k).isSome = (m'.lookup k).isSome := by
  have hk := congrArg Option.isSome (h k)
  simpa [paramView] using hk

theorem length_eq (h : SameParams m m') : m.entries.length = m'.entries.length := by
  -- both key lists hold the same names once each
  have hperm : m.keys.Perm m'.keys := (List.perm_ext_iff_of_nodup m.keys_nodup m'.keys_nodup).mpr
    fun k => by rw [← AList.mem_keys, ← AList.mem_keys, ← AList.lookup_isSome,
      ← AList.lookup_isSome, h.lookup_isSome]
  simpa [AList.keys, List.keys] using hperm.length_eq

theorem isEmpty_eq (h : SameParams m m') : m.entries.isEmpty = m'.entries.isEmpty :=
  Bool.eq_iff_iff.mpr (by rw [List.isEmpty_iff_length_eq_zero, List.isEmpty_iff_length_eq_zero,
    h.length_eq])

/-- The match of the checks on a lookup reads the parameter view. -/
theorem match_eq (h : SameParams m m') (k : String) (v : ParamValue α) (d : Bool) :
    (match m.lookup k with
      | some valueSlice => valueInParameterList v valueSlice
      | none => d) =
    (match m'.lookup k with
      | some valueSlice => valueInParameterList v valueSlice
      | none => d) := by
  have hk := h k
  unfold paramView at hk
  cases hl : m.lookup k <;> cases hl' : m'.lookup k <;> rw [hl, hl'] at hk <;>
    simp only [Option.map_none, Option.map_some, reduceCtorEq, Option.some.injEq] at hk
  all_goals first
    | rfl
    | exact congrFun hk v

end SameParams

theorem any_eq_of_mem_iff {l l' : List String} (h : ∀ x, x ∈ l ↔ x ∈ l') (f : String → Bool) :
    l.any f = l'.any f :=
  Bool.eq_iff_iff.mpr (by simp only [List.any_eq_true, h])

/-- The parameter checks read the required parameters as a set, and the parameter maps through
their views. -/
theorem parametersAllowed_congr {p p' : ACLPermissions α}
    (hreq : ∀ x, x ∈ p.requiredParameters ↔ x ∈ p'.requiredParameters)
    (hallowed : SameParams p.allowedParameters p'.allowedParameters)
    (hdenied : SameParams p.deniedParameters p'.deniedParameters) (data : RequestData α) :
    parametersAllowed p data = parametersAllowed p' data := by
  unfold parametersAllowed
  rw [any_eq_of_mem_iff hreq, hdenied.isEmpty_eq, hdenied.lookup_isSome "*",
    hallowed.isEmpty_eq, hallowed.length_eq, hallowed.lookup_isSome "*"]
  -- the two sides differ in the lookups of the two maps, which the views match
  congr! 7
  · funext e
    exact hdenied.match_eq (toLower e.1) e.2 false
  · dsimp only
    congr! 3
    funext e
    exact hallowed.match_eq (toLower e.1) e.2 _

/-- Permissions the checks cannot tell apart give every request the same answer. -/
theorem checkPermissions_congr {p p' : ACLPermissions α} (h : SameChecks p p') {Addr : Type}
    (req : Request Addr) (data : RequestData α) (capCheckOnly : Bool) :
    checkPermissions req data capCheckOnly p = checkPermissions req data capCheckOnly p' := by
  obtain ⟨hbits, hdeny | ⟨hmin, hmax, hallowed, hdenied, hreq⟩⟩ := h
  · -- the deny bit alone meets no capability, whatever else the permissions hold
    have hdeny' : p'.capabilitiesBitmap = denyCapabilityInt := hbits ▸ hdeny
    unfold checkPermissions
    rw [hdeny, hdeny']
    cases capCheckOnly
    · cases hop : operationCapability req.operation with
      | none => rfl
      | some cap => simp [deny_and_operationCapability hop]
    · rfl
  · unfold checkPermissions wrappingAllowed
    rw [hbits, hmin, hmax, parametersAllowed_congr hreq hallowed hdenied]

end SameChecks

end Vault.Access
