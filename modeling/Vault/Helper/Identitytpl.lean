import Vault.Lib.GoRuntime
import Vault.Lib.GoStrings

/-!
# Identity templating

`PopulateString` (sdk/helper/identitytpl/templating.go) fills the directives of a template
such as `secret/{{identity.entity.name}}/*` from an entity, its groups and the clock. It splits
the template on `{{`; the first piece holds no `}}`, and each later piece must hold exactly one,
as `strings.Split` counts: the text before it is a directive, resolved by `performTemplating`,
and the text after it is kept. With `ValidityCheckOnly` the directives are only checked for
balance, which policy and OIDC code rely on before a template is ever filled.

The library functions the directives call and this model does not (`strconv.Quote`,
`json.Marshal`, `time.ParseDuration`, `time.Now`, `fmt`'s `%q` of an `int`) are parameters
(`Stdlib`). Times are nanoseconds since the Unix epoch.

The grammar (`WellFormed`) is stated on the pieces of the template, and `populateString_grammar`
gives the result in both modes: the validity check fails exactly on templates that are not
well formed, and a substitution returns the directives' results, or the first error among them,
between the kept text.
-/

namespace Vault.Identitytpl

open GoRuntime GoStrings

/-- The delimiters, `{{` and `}}`. -/
def openDelim : String := "\x7b\x7b"

def closeDelim : String := "\x7d\x7d"

def errUnbalancedTemplatingCharacter : String := "unbalanced templating characters"

def errNoEntityAttachedToToken : String :=
  "string contains entity template directives but no entity was provided"

def errNoGroupsAttachedToToken : String :=
  "string contains groups template directives but no groups were provided"

def errTemplateValueNotFound : String :=
  "no value could be found for one of the template directives"

/-- `ACLTemplating` and `JSONTemplating`, the modes of `PopulateStringInput.Mode`. -/
def aclTemplating : ℤ := 0

def jsonTemplating : ℤ := 1

/-- `logical.Alias`, with the fields the templating reads. -/
structure Alias where
  mountAccessor : String
  id : String
  name : String
  metadata : List (String × String)

/-- `logical.Entity`, with the fields the templating reads. -/
structure Entity where
  id : String
  name : String
  metadata : List (String × String)
  aliases : List Alias

/-- `logical.Group`, with the fields the templating reads. -/
structure Group where
  id : String
  name : String
  namespaceID : String
  metadata : List (String × String)

/-- `PopulateStringInput`; a `Now` of `none` is the zero `time.Time`. -/
structure PopulateStringInput where
  string : String
  validityCheckOnly : Bool
  entity : Option Entity
  groups : List Group
  namespaceID : String
  mode : ℤ
  now : Option ℤ

/-- The library functions the directives call. -/
structure Stdlib where
  quote : String → String
  marshalStrings : List String → String
  marshalMap : List (String × String) → String
  parseDuration : String → Except String ℤ
  timeNow : ℤ
  quoteRune : ℤ → String

/-- The values a handler is given: a `string`, a `[]string` or a `map[string]string`. -/
inductive HandlerValue where
  | str (s : String)
  | strs (ss : List String)
  | dict (m : List (String × String))

/-! ## The directives -/

section Directives

variable (lib : Stdlib)

/-- `aclTemplateHandler`: strings verbatim, with an empty one not found; a map by the key. -/
def aclTemplateHandler : HandlerValue → List String → Go String
  | .str t, _ => if t = "" then .error (.error errTemplateValueNotFound) else .ok t
  | .strs _, _ => .error (.error errTemplateValueNotFound)
  | .dict t, keys =>
    match keys with
    | k :: _ =>
      match t.lookup k with
      | some val => .ok val
      | none => .error (.error errTemplateValueNotFound)
    | [] => .error (.error errTemplateValueNotFound)

/-- `jsonTemplateHandler`: strings quoted, a missing map key as `""`. A nil map prints as `{}`,
which is also what `json.Marshal` prints for an empty one. -/
def jsonTemplateHandler : HandlerValue → List String → Go String
  | .str t, _ => .ok (lib.quote t)
  | .strs t, _ => .ok (lib.marshalStrings t)
  | .dict t, keys =>
    match keys with
    | k :: _ => .ok (lib.quote ((t.lookup k).getD ""))
    | [] => .ok (lib.marshalMap t)

/-- The handler `PopulateString` sets up for a mode, `none` for an unknown one. -/
def templateHandler (mode : ℤ) : Option (HandlerValue → List String → Go String) :=
  if mode = aclTemplating then some aclTemplateHandler
  else if mode = jsonTemplating then some (jsonTemplateHandler lib)
  else none

variable (handler : HandlerValue → List String → Go String)

/-- `performAliasTemplating`. -/
def performAliasTemplating (trimmed : String) (entry : Alias) : Go String :=
  if trimmed = "id" then handler (.str entry.id) []
  else if trimmed = "name" then handler (.str entry.name) []
  else if trimmed = "metadata" then handler (.dict entry.metadata) []
  else if hasPrefix trimmed "metadata." then do
    let key ← index (splitN trimmed '.' 2) 1
    handler (.dict entry.metadata) [key]
  else .error (.error errTemplateValueNotFound)

/-- `performEntityTemplating`; an alias missing for the mount is an error in ACL mode, and an
empty alias in JSON mode. -/
def performEntityTemplating (p : PopulateStringInput) (entity : Entity) (trimmed : String) :
    Go String :=
  if trimmed = "id" then handler (.str entity.id) []
  else if trimmed = "name" then handler (.str entity.name) []
  else if trimmed = "metadata" then handler (.dict entity.metadata) []
  else if hasPrefix trimmed "metadata." then do
    let key ← index (splitN trimmed '.' 2) 1
    handler (.dict entity.metadata) [key]
  else if trimmed = "groups.names" then handler (.strs (p.groups.map (·.name))) []
  else if trimmed = "groups.ids" then handler (.strs (p.groups.map (·.id))) []
  else if hasPrefix trimmed "aliases." then
    match splitN (trimPrefix trimmed "aliases.") '.' 2 with
    | [mountAccessor, selector] =>
      match entity.aliases.find? (·.mountAccessor = mountAccessor) with
      | some entry => performAliasTemplating handler selector entry
      | none =>
        if p.mode = aclTemplating then .error (.error "alias not found")
        else performAliasTemplating handler selector ⟨"", "", "", []⟩
    | _ => .error (.error "invalid alias selector")
  else .error (.error errTemplateValueNotFound)

/-- `performGroupsTemplating`: a group by ID, or by name within the namespace, then one of its
fields. -/
def performGroupsTemplating (p : PopulateStringInput) (trimmed : String) : Go String :=
  match splitN trimmed '.' 2 with
  | [kind, rest] =>
    if kind = "ids" ∨ kind = "names" then
      match splitN rest '.' 2 with
      | [accessor, field] =>
        let isMatch (group : Group) : Bool :=
          if kind = "ids" then group.id = accessor
          else (p.namespaceID = "" || group.namespaceID = p.namespaceID) && group.name = accessor
        match p.groups.find? isMatch with
        | none => .error (.error ("entity is not a member of group " ++ lib.quote accessor))
        | some found =>
          if field = "id" then .ok found.id
          else if field = "name" then
            if found.name = "" then .error (.error errTemplateValueNotFound) else .ok found.name
          else if hasPrefix field "metadata." then
            match found.metadata.lookup (trimPrefix field "metadata.") with
            | some val => .ok val
            | none => .error (.error errTemplateValueNotFound)
          else .error (.error errTemplateValueNotFound)
      | _ => .error (.error "invalid groups accessor")
    else .error (.error "invalid groups selector")
  | _ => .error (.error "invalid groups selector")

/-- `performTimeTemplating`: `now`, or `now.plus.<duration>` or `now.minus.<duration>`, as Unix
seconds (`Unix` rounds down). -/
def performTimeTemplating (p : PopulateStringInput) (trimmed : String) : Go String := do
  let now := p.now.getD lib.timeNow
  let opsSplit := splitN trimmed '.' 3
  let op ← index opsSplit 0
  if op ≠ "now" then .error (.error ("invalid time selector " ++ lib.quote op))
  else
    let result ← match opsSplit with
      | [_, _] => .error (.error "missing time operand")
      | [_, operator, operand] =>
        match lib.parseDuration operand with
        | .error e => .error (.error ("invalid duration: " ++ e))
        | .ok duration =>
          if operator = "plus" then .ok (now + duration)
          else if operator = "minus" then .ok (now - duration)
          else .error (.error ("invalid time operator " ++ lib.quote operator))
      | _ => .ok now
    pure (toString (result / 10 ^ 9))

/-- `performTemplating` on a trimmed directive. -/
def performTemplating (p : PopulateStringInput) (input : String) : Go String :=
  if hasPrefix input "identity.entity." then
    match p.entity with
    | none => .error (.error errNoEntityAttachedToToken)
    | some entity => performEntityTemplating handler p entity (trimPrefix input "identity.entity.")
  else if hasPrefix input "identity.groups." then
    if p.groups = [] then .error (.error errNoGroupsAttachedToToken)
    else performGroupsTemplating lib p (trimPrefix input "identity.groups.")
  else if hasPrefix input "time." then performTimeTemplating lib p (trimPrefix input "time.")
  else .error (.error errTemplateValueNotFound)

end Directives

/-! ## `PopulateString` -/

section Populate

variable (lib : Stdlib) (handler : HandlerValue → List String → Go String)

/-- The loop of `PopulateString` over the pieces after the first, with `subst` and the text `b`
built so far: a piece must split on `}}` into two; its directive is then filled, unless only
validity is checked. -/
def populatePieces (p : PopulateStringInput) (subst : Bool) (b : String) :
    List String → Go (Bool × String)
  | [] => .ok (subst, b)
  | str :: rest =>
    match splitSub str closeDelim with
    | [before, after] =>
      if p.validityCheckOnly then populatePieces p true b rest
      else do
        let tmplStr ← performTemplating lib handler p (trimSpace before)
        populatePieces p true (b ++ tmplStr ++ after) rest
    | _ => .error (.error errUnbalancedTemplatingCharacter)

/-- `PopulateString`. -/
def populateString (p : PopulateStringInput) : Go (Bool × String) :=
  if p.string = "" then .ok (false, "")
  else
    match templateHandler lib p.mode with
    | none => .error (.error ("unknown mode " ++ lib.quoteRune p.mode))
    | some modeHandler =>
      match splitSub p.string openDelim with
      | [] => .ok (false, "")
      | first :: rest =>
        if contains first closeDelim then .error (.error errUnbalancedTemplatingCharacter)
        else if rest = [] then .ok (false, p.string)
        else
          populatePieces lib modeHandler p false (if p.validityCheckOnly then "" else first) rest

end Populate


/-! ## The grammar -/

/-- The text `a` before the `}}` of a piece and the text `b` after it, when the piece holds
exactly one `}}` as `strings.Count` counts: `}}` occurs neither in `b` nor in `a` followed by
`}`. So `}}}` holds one, with `a = ""` and `b = "}"`. -/
def ClosedAt (a b : String) : Prop :=
  contains (a ++ "\x7d") closeDelim = false ∧ contains b closeDelim = false

/-- The template split on `{{`: a first piece free of `}}`, and later pieces that each hold
exactly one `}}`. -/
def WellFormed (s : String) : Prop :=
  ∃ first rest, splitSub s openDelim = first :: rest ∧ contains first closeDelim = false ∧
    ∀ piece ∈ rest, ∃ a b, piece = a ++ closeDelim ++ b ∧ ClosedAt a b

/-- A piece splits on `}}` into two exactly when it holds one `}}`. -/
theorem splitSub_closeDelim_eq_pair_iff {piece a b : String} :
    splitSub piece closeDelim = [a, b] ↔ piece = a ++ closeDelim ++ b ∧ ClosedAt a b := by
  have hlast : ("\x7d" : String).toList = closeDelim.toList.dropLast := by decide
  rw [splitSub_eq_pair_iff (by decide), ClosedAt, contains_eq_false_iff, contains_eq_false_iff,
    String.toList_append, hlast]

/-- A piece that is not two texts around one `}}` does not split into two. -/
theorem splitSub_closeDelim_ne_pair {piece : String}
    (h : ¬ ∃ a b, piece = a ++ closeDelim ++ b ∧ ClosedAt a b) (a b : String) :
    splitSub piece closeDelim ≠ [a, b] :=
  fun hab => h ⟨a, b, splitSub_closeDelim_eq_pair_iff.mp hab⟩

/-- The pieces of a well-formed template, in the split the code makes. -/
theorem WellFormed.pieces {s first : String} {rest : List String} (h : WellFormed s)
    (hsplit : splitSub s openDelim = first :: rest) :
    contains first closeDelim = false ∧
      ∀ piece ∈ rest, ∃ a b, piece = a ++ closeDelim ++ b ∧ ClosedAt a b := by
  obtain ⟨first', rest', hsplit', hfirst, hclosed⟩ := h
  rw [hsplit] at hsplit'
  obtain ⟨rfl, rfl⟩ := List.cons.inj hsplit'
  exact ⟨hfirst, hclosed⟩

/-- The pieces of a template that is not well formed: the first holds `}}`, or a later one is
not two texts around one `}}`. -/
theorem not_wellFormed {s first : String} {rest : List String}
    (hsplit : splitSub s openDelim = first :: rest) (h : ¬ WellFormed s) :
    contains first closeDelim = true ∨
      contains first closeDelim = false ∧ rest ≠ [] ∧
        ∃ piece ∈ rest, ¬ ∃ a b, piece = a ++ closeDelim ++ b ∧ ClosedAt a b := by
  by_cases hfirst : contains first closeDelim = true
  · exact .inl hfirst
  · have hbad : ∃ piece ∈ rest, ¬ ∃ a b, piece = a ++ closeDelim ++ b ∧ ClosedAt a b := by
      by_contra hall
      refine h ⟨first, rest, hsplit, by simpa using hfirst, fun piece hmem => ?_⟩
      by_contra hpiece
      exact hall ⟨piece, hmem, hpiece⟩
    have hrest : rest ≠ [] := by
      obtain ⟨piece, hmem, -⟩ := hbad
      exact List.ne_nil_of_mem hmem
    exact .inr ⟨by simpa using hfirst, hrest, hbad⟩

/-- A piece that holds one `}}` is not the bad one: that comes later. -/
theorem exists_bad_of_cons {str : String} {strs : List String}
    (hbad : ∃ piece ∈ str :: strs, ¬ ∃ a b, piece = a ++ closeDelim ++ b ∧ ClosedAt a b)
    (hstr : ∃ a b, str = a ++ closeDelim ++ b ∧ ClosedAt a b) :
    ∃ piece ∈ strs, ¬ ∃ a b, piece = a ++ closeDelim ++ b ∧ ClosedAt a b := by
  obtain ⟨piece, hmem, hpiece⟩ := hbad
  rcases List.mem_cons.mp hmem with rfl | hmem
  · exact absurd hstr hpiece
  · exact ⟨piece, hmem, hpiece⟩

/-! ## The loop over the pieces -/

section Pieces

variable (lib : Stdlib) (handler : HandlerValue → List String → Go String)
  {p : PopulateStringInput}

/-- The pieces `a ++ "}}" ++ b` of a list of pairs. -/
def joinPairs (pairs : List (String × String)) : List String :=
  pairs.map fun ab => ab.1 ++ closeDelim ++ ab.2

/-- The validity check passes over pieces that each hold one `}}`. -/
theorem populatePieces_check (hv : p.validityCheckOnly = true) (strs : List String)
    (hclosed : ∀ piece ∈ strs, ∃ a b, piece = a ++ closeDelim ++ b ∧ ClosedAt a b)
    (subst : Bool) (b : String) :
    populatePieces lib handler p subst b strs = .ok (subst || !strs.isEmpty, b) := by
  induction strs generalizing subst with
  | nil => simp [populatePieces]
  | cons str strs ih =>
    obtain ⟨a, b', hab⟩ := hclosed str List.mem_cons_self
    have ih := ih (fun piece hmem => hclosed piece (List.mem_cons_of_mem str hmem)) true
    simp [populatePieces, splitSub_closeDelim_eq_pair_iff.mpr hab, hv, ih]

/-- The validity check fails on a piece that does not hold exactly one `}}`. -/
theorem populatePieces_check_unbalanced (hv : p.validityCheckOnly = true) (strs : List String)
    (hbad : ∃ piece ∈ strs, ¬ ∃ a b, piece = a ++ closeDelim ++ b ∧ ClosedAt a b)
    (subst : Bool) (b : String) :
    populatePieces lib handler p subst b strs = .error (.error errUnbalancedTemplatingCharacter) := by
  induction strs generalizing subst with
  | nil => simp at hbad
  | cons str strs ih =>
    by_cases hstr : ∃ a b, str = a ++ closeDelim ++ b ∧ ClosedAt a b
    · -- this piece passes, so the bad one comes later
      have hbad' := exists_bad_of_cons hbad hstr
      obtain ⟨a, b', hab⟩ := hstr
      simp [populatePieces, splitSub_closeDelim_eq_pair_iff.mpr hab, hv, ih hbad']
    · simp only [populatePieces]
      split
      · rename_i before after hsplit
        exact absurd ⟨before, after, splitSub_closeDelim_eq_pair_iff.mp hsplit⟩ hstr
      · rfl

/-- Filling pieces that each hold one `}}`: each directive's result, then the text after its
`}}`, or the first directive's error. -/
theorem populatePieces_fill (hv : p.validityCheckOnly = false) (pairs : List (String × String))
    (hclosed : ∀ ab ∈ pairs, ClosedAt ab.1 ab.2) (subst : Bool) (b : String) :
    populatePieces lib handler p subst b (joinPairs pairs) =
      (pairs.mapM fun ab => (· ++ ab.2) <$> performTemplating lib handler p (trimSpace ab.1)).map
        fun rs => (subst || !pairs.isEmpty, b ++ String.join rs) := by
  induction pairs generalizing subst b with
  | nil => simp [joinPairs, populatePieces, Except.map, pure, Except.pure]
  | cons ab pairs ih =>
    have hsplit : splitSub (ab.1 ++ closeDelim ++ ab.2) closeDelim = [ab.1, ab.2] :=
      splitSub_closeDelim_eq_pair_iff.mpr ⟨rfl, hclosed ab List.mem_cons_self⟩
    have ih := ih (fun ab' hab' => hclosed ab' (List.mem_cons_of_mem ab hab'))
    simp only [joinPairs] at ih
    simp only [joinPairs, List.map_cons, populatePieces, hsplit, hv, Bool.false_eq_true, if_false,
      List.mapM_cons]
    -- the first directive either fails, and so does the loop, or is written before the rest
    cases htmpl : performTemplating lib handler p (trimSpace ab.1) with
    | error e => rfl
    | ok r =>
      simp only [ok_bind, ih]
      cases hrest : pairs.mapM fun ab => (· ++ ab.2) <$> performTemplating lib handler p (trimSpace ab.1) with
      | error e => rfl
      | ok rs => simp [Except.map, String.append_assoc]

/-- Filling stops with an error at the latest at a piece that does not hold one `}}`. -/
theorem populatePieces_fill_error (hv : p.validityCheckOnly = false) (strs : List String)
    (hbad : ∃ piece ∈ strs, ¬ ∃ a b, piece = a ++ closeDelim ++ b ∧ ClosedAt a b)
    (subst : Bool) (b : String) :
    ∃ e, populatePieces lib handler p subst b strs = .error e := by
  induction strs generalizing subst b with
  | nil => simp at hbad
  | cons str strs ih =>
    by_cases hstr : ∃ a b, str = a ++ closeDelim ++ b ∧ ClosedAt a b
    · have hbad' := exists_bad_of_cons hbad hstr
      obtain ⟨a, b', hab⟩ := hstr
      simp only [populatePieces, splitSub_closeDelim_eq_pair_iff.mpr hab, hv, Bool.false_eq_true,
        if_false]
      cases performTemplating lib handler p (trimSpace a) with
      | error e => exact ⟨e, rfl⟩
      | ok r => exact ih hbad' true _
    · simp only [populatePieces]
      split
      · rename_i before after hsplit
        exact absurd ⟨before, after, splitSub_closeDelim_eq_pair_iff.mp hsplit⟩ hstr
      · exact ⟨_, rfl⟩

end Pieces

/-! ## `PopulateString` on a template -/

section Populate

variable {lib : Stdlib} {handler : HandlerValue → List String → Go String} {p : PopulateStringInput}

/-- `PopulateString` on a non-empty template in a known mode: the first piece is checked, and
the loop runs over the others when there are any. -/
theorem populateString_eq (hs : p.string ≠ "") (hmode : templateHandler lib p.mode = some handler)
    {first : String} {rest : List String} (hsplit : splitSub p.string openDelim = first :: rest) :
    populateString lib p =
      if contains first closeDelim then .error (.error errUnbalancedTemplatingCharacter)
      else if rest = [] then .ok (false, p.string)
      else populatePieces lib handler p false (if p.validityCheckOnly then "" else first) rest := by
  simp only [populateString, hs, if_false, hmode, hsplit]

end Populate

/-- **The bracket grammar of `PopulateString`.** On a non-empty template, in either mode: with
`ValidityCheckOnly` it fails with `ErrUnbalancedTemplatingCharacter` exactly when the template is
not well formed, and otherwise reports whether there is a directive and returns the template
only when there is none. Without it, a template that is not well formed gives an error, and a
well-formed one gives the directives' results between the kept text, or the first error among
them. -/
theorem populateString_grammar (lib : Stdlib) (p : PopulateStringInput)
    (handler : HandlerValue → List String → Go String) (hs : p.string ≠ "")
    (hmode : templateHandler lib p.mode = some handler) :
    (p.validityCheckOnly = true →
      (populateString lib p = .error (.error errUnbalancedTemplatingCharacter) ↔
        ¬ WellFormed p.string) ∧
      (WellFormed p.string → populateString lib p =
        .ok (decide (1 ≤ (splitSub p.string openDelim).length - 1),
          if (splitSub p.string openDelim).length - 1 = 0 then p.string else ""))) ∧
    (p.validityCheckOnly = false →
      (¬ WellFormed p.string → ∃ e, populateString lib p = .error e) ∧
      ∀ first pairs, splitSub p.string openDelim = first :: joinPairs pairs →
        contains first closeDelim = false → (∀ ab ∈ pairs, ClosedAt ab.1 ab.2) →
        populateString lib p =
          (pairs.mapM fun ab => (· ++ ab.2) <$> performTemplating lib handler p (trimSpace ab.1)).map
            fun rs => (!pairs.isEmpty, first ++ String.join rs)) := by
  obtain ⟨first, rest, hsplit⟩ := List.exists_cons_of_ne_nil (splitSub_ne_nil p.string openDelim)
  have heq := populateString_eq hs hmode hsplit
  have hlen : (splitSub p.string openDelim).length - 1 = rest.length := by simp [hsplit]
  refine ⟨fun hv => ⟨⟨fun herr hwf => ?_, fun hwf => ?_⟩, fun hwf => ?_⟩,
    fun hv => ⟨fun hwf => ?_, ?_⟩⟩
  · -- a well-formed template passes the check
    obtain ⟨hfirst, hclosed⟩ := hwf.pieces hsplit
    rw [heq, hfirst] at herr
    by_cases hrest : rest = []
    · simp [hrest] at herr
    · simp [hrest, hv, populatePieces_check lib handler hv rest hclosed] at herr
  · -- a template that is not well formed fails it
    rw [heq]
    rcases not_wellFormed hsplit hwf with hfirst | ⟨hfirst, hrest, hbad⟩
    · simp [hfirst]
    · simp [hfirst, hrest, populatePieces_check_unbalanced lib handler hv rest hbad]
  · -- and a well-formed one reports whether it has a directive
    obtain ⟨hfirst, hclosed⟩ := hwf.pieces hsplit
    rw [heq, hfirst, hlen]
    by_cases hrest : rest = []
    · simp [hrest]
    · have hpos : 1 ≤ rest.length := List.length_pos_iff.mpr hrest
      simp [hrest, hv, populatePieces_check lib handler hv rest hclosed, hpos,
        Nat.one_le_iff_ne_zero.mp hpos]
  · -- without the check, a template that is not well formed still gives an error
    rw [heq]
    rcases not_wellFormed hsplit hwf with hfirst | ⟨hfirst, hrest, hbad⟩
    · exact ⟨.error errUnbalancedTemplatingCharacter, by simp [hfirst]⟩
    · simpa [hfirst, hrest, hv] using populatePieces_fill_error lib handler hv rest hbad false first
  · -- and a well-formed one is filled piece by piece
    intro first' pairs hsplit' hfirst hclosed
    rw [hsplit] at hsplit'
    obtain ⟨rfl, rfl⟩ := List.cons.inj hsplit'
    rw [heq, hfirst]
    by_cases hpairs : pairs = []
    · -- no directive: the template is its first piece
      subst hpairs
      have hone : p.string = first := ((splitSub_eq_singleton_iff (by decide)).mp hsplit).1
      simp [joinPairs, hone, Except.map, pure, Except.pure]
    · have hrest : joinPairs pairs ≠ [] := by simpa [joinPairs] using hpairs
      simp [hrest, hv, populatePieces_fill lib handler hv pairs hclosed]

/-- A library whose functions return fixed texts, and a template with one time directive. -/
def sampleLib : Stdlib := ⟨id, fun _ => "[]", fun _ => "\x7b\x7d", fun _ => .ok 0, 0, fun _ => ""⟩

def sampleInput : PopulateStringInput :=
  ⟨"a\x7b\x7b time.now \x7d\x7db", false, none, [], "", aclTemplating, some 0⟩

theorem populateString_grammar_sample :
    sampleInput.string ≠ "" ∧ templateHandler sampleLib sampleInput.mode = some aclTemplateHandler ∧
    (sampleInput.validityCheckOnly = true →
      (populateString sampleLib sampleInput = .error (.error errUnbalancedTemplatingCharacter) ↔
        ¬ WellFormed sampleInput.string) ∧
      (WellFormed sampleInput.string → populateString sampleLib sampleInput =
        .ok (decide (1 ≤ (splitSub sampleInput.string openDelim).length - 1),
          if (splitSub sampleInput.string openDelim).length - 1 = 0 then sampleInput.string
          else ""))) ∧
    (sampleInput.validityCheckOnly = false →
      (¬ WellFormed sampleInput.string → ∃ e, populateString sampleLib sampleInput = .error e) ∧
      ∀ first pairs, splitSub sampleInput.string openDelim = first :: joinPairs pairs →
        contains first closeDelim = false → (∀ ab ∈ pairs, ClosedAt ab.1 ab.2) →
        populateString sampleLib sampleInput =
          (pairs.mapM fun ab => (· ++ ab.2) <$>
              performTemplating sampleLib aclTemplateHandler sampleInput (trimSpace ab.1)).map
            fun rs => (!pairs.isEmpty, first ++ String.join rs)) :=
  ⟨by decide, rfl,
    populateString_grammar sampleLib sampleInput aclTemplateHandler (by decide) rfl⟩

/-- `}}}` holds one `}}` as `strings.Split` counts, so `{{}}}` passes the validity check. -/
example : populateString sampleLib ⟨"\x7b\x7b\x7d\x7d\x7d", true, none, [], "", aclTemplating, none⟩ =
    .ok (true, "") := by
  rfl

end Vault.Identitytpl
