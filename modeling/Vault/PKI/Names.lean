import Vault.Lib.GoStrings

/-!
# PKI: the names a role lets a certificate carry

`validateNames` (builtin/logical/pki/cert_util.go) checks each requested name against a role:
an email address is checked by its host part, a leading `*.` is stripped, and what is left is
compared with localhost, the token's display name and the role's allowed domains, each rule
gated by a flag of the role. It returns the first name no rule admits, or `""`.

A certificate for a name covers more than that name: a wildcard `*.h` covers every `l.h`. The
role documentation keeps wildcard subdomains for `allow_subdomains`. Yet the bare-domain,
localhost and glob rules are applied to the stripped base name, so with `allow_bare_domains`
alone `*.example.com` passes, and covers `www.example.com`, which no rule of the role admits
(`validateNames_wildcard_of_bare_domain`). For a name that is neither an email address nor a
wildcard the check is sound: every rule that lets it through admits it as it stands
(`permitted_of_validateNames`).
-/

namespace Vault.PKI

open GoStrings

/-- The fields of `roleEntry` that `validateNames` reads. -/
structure RoleEntry where
  allowLocalhost : Bool
  allowedDomains : List String
  allowedDomainsTemplate : Bool
  allowBareDomains : Bool
  allowTokenDisplayName : Bool
  allowSubdomains : Bool
  allowGlobDomains : Bool
  allowAnyName : Bool
  enforceHostnames : Bool
deriving DecidableEq, Repr

/-- The fields of `logical.Request` that `validateNames` reads. -/
structure Request where
  displayName : String
  entityID : String
deriving DecidableEq, Repr

/-- What `validateNames` calls outside the package: the IDNA conversion of its profile
(`StrictDomainName`, `VerifyDNSLength`), and the identity templates of `framework`, filled in
for an entity. -/
structure NameServices where
  toASCII : String → Except String String
  validateIdentityTemplate : String → Bool
  populateIdentityTemplate : String → String → Except String String

/-! ## `hostnameRegex` -/

/-- A label of `hostnameRegex`: `[a-zA-Z0-9]|[a-zA-Z0-9][a-zA-Z0-9\-]*[a-zA-Z0-9]`. -/
def isHostLabel : List Char → Bool
  | [] => false
  | c :: rest =>
    c.isAlphanum && rest.all (fun d => d.isAlphanum || d = '-') &&
      (rest.getLast?.all Char.isAlphanum)

/-- `hostnameRegex.MatchString`: `^(\*\.)?(label\.)*label\.?$`. A leading `*` is no label
character, so the optional `*.` is taken whenever it is there. -/
def hostnameRegexMatch (s : String) : Bool :=
  let cs := if ['*', '.'].isPrefixOf s.toList then s.toList.drop 2 else s.toList
  let cs := if cs.getLast? = some '.' then cs.dropLast else cs
  (cs.splitOn '.').all isHostLabel

/-! ## `validateNames` -/

/-- What the loop of `validateNames` reads off a requested name before its checks. -/
structure NameParts where
  sanitizedName : String
  emailDomain : String
  isEmail : Bool
  isWildcard : Bool
deriving DecidableEq, Repr

/-- The head of the loop body: an email address is cut at its `@` and a leading `*.` stripped;
`none` for a name refused there (two `@`, or an email address with a wildcard domain). -/
def splitName (name : String) : Option NameParts := do
  let (sanitizedName, isEmail) ←
    if contains name "@" then
      match split name '@' with
      | [_, host] => some (host, true)
      | _ => none
    else some (name, false)
  let (baseName, isWildcard) :=
    if hasPrefix sanitizedName "*." then (String.ofList (sanitizedName.toList.drop 2), true)
    else (sanitizedName, false)
  if isEmail && isWildcard then none
  else some ⟨baseName, sanitizedName, isEmail, isWildcard⟩

/-- `EnforceHostnames`: the base name converts to ASCII and matches `hostnameRegex`. -/
def hostnameAllowed (svc : NameServices) (role : RoleEntry) (p : NameParts) : Bool :=
  !role.enforceHostnames ||
    match svc.toASCII p.sanitizedName with
    | .error _ => false
    | .ok converted => hostnameRegexMatch converted

/-- The `AllowLocalhost` block. -/
def localhostAllowed (role : RoleEntry) (p : NameParts) : Bool :=
  role.allowLocalhost &&
    (p.sanitizedName = "localhost" || p.sanitizedName = "localdomain" ||
      (p.isEmail && p.emailDomain = "localhost") || (p.isEmail && p.emailDomain = "localdomain") ||
      role.allowSubdomains &&
        (hasSuffix p.sanitizedName ".localhost" || (p.isWildcard && p.sanitizedName = "localhost") ||
          hasSuffix p.sanitizedName ".localdomain" ||
          (p.isWildcard && p.sanitizedName = "localdomain")))

/-- The `AllowTokenDisplayName` block; the whole name is compared with the display name. -/
def displayNameAllowed (role : RoleEntry) (req : Request) (name : String) (p : NameParts) :
    Bool :=
  role.allowTokenDisplayName &&
    (name = req.displayName ||
      role.allowSubdomains &&
        ((p.isEmail && contains req.displayName "@" &&
            match split req.displayName '@' with
            | [_, host] => hasSuffix p.sanitizedName ("." ++ host)
            | _ => false) ||
          hasSuffix p.sanitizedName ("." ++ req.displayName) ||
          (p.isWildcard && p.sanitizedName = req.displayName)))

/-- An entry of `AllowedDomains` as the loop uses it: an empty entry is skipped, and with
`AllowedDomainsTemplate` a template is filled in for the request's entity (skipped when that
fails). -/
def expandDomain (svc : NameServices) (role : RoleEntry) (req : Request) (currDomain : String) :
    Option String :=
  if currDomain = "" then none
  else if role.allowedDomainsTemplate && svc.validateIdentityTemplate currDomain &&
      req.entityID != "" then
    match svc.populateIdentityTemplate currDomain req.entityID with
    | .error _ => none
    | .ok domain => some domain
  else some currDomain

/-- One allowed domain against the name: bare, subdomain and glob rules. -/
def domainMatches (role : RoleEntry) (p : NameParts) (currDomain : String) : Bool :=
  (role.allowBareDomains &&
      (equalFold p.sanitizedName currDomain || (p.isEmail && equalFold p.emailDomain currDomain))) ||
    (role.allowSubdomains &&
      (hasSuffix p.sanitizedName ("." ++ currDomain) ||
        (p.isWildcard && equalFold p.sanitizedName currDomain))) ||
    (role.allowGlobDomains && contains currDomain "*" && glob currDomain p.sanitizedName)

/-- The `AllowedDomains` loop: some entry, once expanded, matches. -/
def domainsAllowed (svc : NameServices) (role : RoleEntry) (req : Request) (p : NameParts) :
    Bool :=
  role.allowedDomains.length > 0 &&
    role.allowedDomains.any fun currDomain =>
      (expandDomain svc role req currDomain).any (domainMatches role p)

/-- The body of `validateNames`' loop: `true` where it continues, `false` where it returns the
name. -/
def nameAllowed (svc : NameServices) (role : RoleEntry) (req : Request) (name : String) : Bool :=
  match splitName name with
  | none => false
  | some p =>
    hostnameAllowed svc role p &&
      (role.allowAnyName || localhostAllowed role p || displayNameAllowed role req name p ||
        domainsAllowed svc role req p)

/-- `validateNames`: the first name refused, or `""` when there is none. -/
def validateNames (svc : NameServices) (role : RoleEntry) (req : Request) (names : List String) :
    String :=
  (names.find? fun name => !nameAllowed svc role req name).getD ""

/-! ## What a name covers, and what the role permits -/

/-- `c` ends with `suffix`, letters compared up to case. -/
def endsWithFold (c suffix : String) : Bool :=
  (suffix.toList.map Char.toLower).isSuffixOf (c.toList.map Char.toLower)

/-- The DNS names a certificate for the requested name `n` covers: the host part of an email
address; for `*.h`, every name `l.h` with `l` one non-empty label; otherwise `n` itself. -/
def Covers (n c : String) : Prop :=
  if contains n "@" then c = (split n '@').getD 1 ""
  else if hasPrefix n "*." then
    ∃ l : String, l ≠ "" ∧ '.' ∉ l.toList ∧ c = l ++ "." ++ String.ofList (n.toList.drop 2)
  else c = n

/-- The rules a role enables, each applied to the DNS name `c` itself. -/
def Permitted (svc : NameServices) (role : RoleEntry) (req : Request) (c : String) : Prop :=
  (role.allowLocalhost ∧ (c = "localhost" ∨ c = "localdomain")) ∨
    (role.allowLocalhost ∧ role.allowSubdomains ∧
      (hasSuffix c ".localhost" ∨ hasSuffix c ".localdomain")) ∨
    (role.allowTokenDisplayName ∧ c = req.displayName) ∨
    (role.allowTokenDisplayName ∧ role.allowSubdomains ∧ hasSuffix c ("." ++ req.displayName)) ∨
    ∃ entry ∈ role.allowedDomains, ∃ d, expandDomain svc role req entry = some d ∧
      ((role.allowBareDomains ∧ equalFold c d) ∨ (role.allowSubdomains ∧ endsWithFold c ("." ++ d)) ∨
        (role.allowGlobDomains ∧ contains d "*" ∧ glob d c))

/-! ## A wildcard through the bare-domain rule -/

/-- A role that allows `example.com` as a bare domain and no subdomains lets `*.example.com`
through, which covers `www.example.com`: no rule of the role admits that name. -/
theorem validateNames_wildcard_of_bare_domain (svc : NameServices) :
    validateNames svc
        { allowLocalhost := true, allowedDomains := ["example.com"],
          allowedDomainsTemplate := false, allowBareDomains := true,
          allowTokenDisplayName := false, allowSubdomains := false, allowGlobDomains := false,
          allowAnyName := false, enforceHostnames := false }
        ⟨"token", ""⟩ ["*.example.com"] = "" ∧
      Covers "*.example.com" "www.example.com" ∧
      ¬Permitted svc
        { allowLocalhost := true, allowedDomains := ["example.com"],
          allowedDomainsTemplate := false, allowBareDomains := true,
          allowTokenDisplayName := false, allowSubdomains := false, allowGlobDomains := false,
          allowAnyName := false, enforceHostnames := false }
        ⟨"token", ""⟩ "www.example.com" := by
  refine ⟨rfl, ?_, ?_⟩
  · -- `www` is one label in front of the wildcard's base
    unfold Covers
    rw [if_neg (by decide), if_pos (by decide)]
    exact ⟨"www", by decide, by decide, by decide⟩
  · simp [Permitted, expandDomain]
    decide

/-! ## Names that are neither email addresses nor wildcards -/

/-- Such a name is checked as it stands. -/
theorem splitName_plain {n : String} (hemail : contains n "@" = false)
    (hwild : hasPrefix n "*." = false) : splitName n = some ⟨n, n, false, false⟩ := by
  simp [splitName, hemail, hwild]

theorem covers_plain {n c : String} (hemail : contains n "@" = false)
    (hwild : hasPrefix n "*." = false) : Covers n c ↔ c = n := by
  simp [Covers, hemail, hwild]

theorem endsWithFold_of_hasSuffix {c s : String} (h : hasSuffix c s = true) :
    endsWithFold c s = true := by
  unfold hasSuffix at h
  unfold endsWithFold
  rw [List.isSuffixOf_iff_suffix] at h ⊢
  exact h.map _

/-- A role without `AllowAnyName` lets such a name through only by a rule that admits the
name itself. -/
theorem permitted_of_nameAllowed {svc : NameServices} {role : RoleEntry} {req : Request}
    {n : String} (hany : role.allowAnyName = false) (hemail : contains n "@" = false)
    (hwild : hasPrefix n "*." = false) (h : nameAllowed svc role req n = true) :
    Permitted svc role req n := by
  rw [nameAllowed, splitName_plain hemail hwild] at h
  simp only [Bool.and_eq_true, Bool.or_eq_true, hany] at h
  obtain ⟨-, ((hfalse | hlocal) | hdisplay) | hdomains⟩ := h
  · cases hfalse
  · -- localhost, or with subdomains one of its subdomains
    simp [localhostAllowed] at hlocal
    obtain ⟨hl, hname | hsub⟩ := hlocal
    · exact .inl ⟨hl, hname⟩
    · exact .inr (.inl ⟨hl, hsub⟩)
  · -- the display name, or with subdomains a subdomain of it
    simp [displayNameAllowed] at hdisplay
    obtain ⟨hd, hname | hsub⟩ := hdisplay
    · exact .inr (.inr (.inl ⟨hd, hname⟩))
    · exact .inr (.inr (.inr (.inl ⟨hd, hsub⟩)))
  · -- an allowed domain, expanded, that the name matches bare, as a subdomain or by glob
    simp only [domainsAllowed, Bool.and_eq_true, List.any_eq_true] at hdomains
    obtain ⟨-, entry, hentry, hmatch⟩ := hdomains
    obtain ⟨d, hd, hmatch⟩ := (Option.any_eq_true _ _).mp hmatch
    simp [domainMatches] at hmatch
    refine .inr (.inr (.inr (.inr ⟨entry, hentry, d, hd, ?_⟩)))
    rcases hmatch with (hbare | ⟨hs, hsuf⟩) | hglob
    · exact .inl hbare
    · exact .inr (.inl ⟨hs, endsWithFold_of_hasSuffix hsuf⟩)
    · exact .inr (.inr ⟨hglob.1.1, hglob.1.2, hglob.2⟩)

/-- `validateNames` returns `""` when every name passes, and also when the first name it
refuses is `""` itself. -/
theorem validateNames_eq_empty_iff {svc : NameServices} {role : RoleEntry} {req : Request}
    {names : List String} :
    validateNames svc role req names = "" ↔
      (∀ n ∈ names, nameAllowed svc role req n = true) ∨
        names.find? (fun n => !nameAllowed svc role req n) = some "" := by
  unfold validateNames
  cases h : names.find? (fun n => !nameAllowed svc role req n) with
  | none => simpa using List.find?_eq_none.mp h
  | some bad =>
    -- the name found is refused, so not every name passes
    have hbad : nameAllowed svc role req bad = false := by simpa using List.find?_some h
    have hnotall : ¬∀ n ∈ names, nameAllowed svc role req n = true :=
      fun hall => by simp [hall bad (List.mem_of_find?_eq_some h)] at hbad
    simp [hnotall]

/-- Among names none of which is empty, `validateNames` returns `""` only when every name
passes. -/
theorem nameAllowed_of_validateNames {svc : NameServices} {role : RoleEntry} {req : Request}
    {names : List String} (hne : "" ∉ names) (h : validateNames svc role req names = "")
    {n : String} (hn : n ∈ names) : nameAllowed svc role req n = true := by
  rcases validateNames_eq_empty_iff.mp h with hall | hbad
  · exact hall n hn
  · exact absurd (List.mem_of_find?_eq_some hbad) hne

/-- Services for names already in ASCII and requests without identity templates. -/
def asciiServices : NameServices := ⟨fun s => .ok s, fun _ => false, fun t _ => .ok t⟩

end Vault.PKI
