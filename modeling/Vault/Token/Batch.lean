import Vault.Lib.GoRuntime
import Vault.Lib.GoStrings
import Vault.Lib.Base64
import Vault.Helper.Strutil

/-!
# Batch tokens

A batch token is not stored. `TokenStore.create` writes the entry's protobuf form, encrypted
by the batch token encryptor, into the token's ID: `b.` and the unpadded URL base64 of the
ciphertext, then `.` and the namespace ID outside the root namespace.
`lookupBatchTokenInternal` takes the ID apart with `namespace.SplitIDFromString`, then decodes,
decrypts and unmarshals it.

With an encryptor and a protobuf codec whose decoding inverts their encoding, and bound CIDRs
that `sockaddr` parses back from their text, the lookup returns the created entry without the
fields a batch token does not carry (`lookupBatchTokenInternal_create`). The namespace ID must
then be free of `.` and `/` and not empty: `SplitIDFromString` cuts an ID at a `/` as a lease
path, so the base64 text keeps the `.` and the namespace
(`lookupBatchTokenInternal_namespace_with_slash`). `NamespaceByID` of this repository knows
only the root namespace.

For the identifiers Vault hands out (`IDShape`), `SplitIDFromString` cuts a namespace ID that is
not empty and free of `.` and `/` back off any identifier but the custom IDs `b` and `s`
(`splitIDFromString_suffix`), and leaves an identifier of the root namespace whole unless the
text after a `b.` or `s.` in front of it holds a `.` (`splitIDFromString_root`): a lease whose
path starts with `b.` and holds a `.` is cut in two.
-/

namespace Vault.Token

open GoRuntime GoStrings Vault.Helper

/-- Go's `[]byte`. -/
abbrev Bytes := List UInt8

/-- `logical.TokenType`. -/
abbrev TokenType := UInt8

/-- `namespace.RootNamespaceID`. -/
def rootNamespaceID : String := "root"

/-- `logical.TokenEntry`, with the fields its protobuf form carries (`metadata` is `Meta`);
`Addr` is the type of a bound CIDR (`sockaddr.SockAddr`). -/
structure TokenEntry (Addr : Type) where
  id : String
  accessor : String
  parent : String
  policies : List String
  path : String
  metadata : List (String × String)
  displayName : String
  numUses : ℤ
  creationTime : ℤ
  ttl : ℤ
  explicitMaxTTL : ℤ
  role : String
  period : ℤ
  entityID : String
  boundCIDRs : List Addr
  namespaceID : String
  cubbyholeID : String
  type : TokenType
deriving DecidableEq, Repr

/-- `pb.TokenEntry`: the CIDRs as text, the type as `uint32`. -/
structure ProtoTokenEntry where
  id : String
  accessor : String
  parent : String
  policies : List String
  path : String
  metadata : List (String × String)
  displayName : String
  numUses : ℤ
  creationTime : ℤ
  ttl : ℤ
  explicitMaxTTL : ℤ
  role : String
  period : ℤ
  entityID : String
  boundCIDRs : List String
  namespaceID : String
  cubbyholeID : String
  type : UInt32
deriving DecidableEq, Repr

/-- `SockAddr.String` and `sockaddr.NewSockAddr`. -/
structure AddrCodec (Addr : Type) where
  toString : Addr → String
  newSockAddr : String → Go Addr

/-- The batch token encryptor's `Encrypt` and `Decrypt`, as `create` and the lookup call them
(with an empty key path). -/
structure Encryptor where
  encrypt : Bytes → Go Bytes
  decrypt : Bytes → Go Bytes

/-- Decryption inverts encryption. -/
def Encryptor.Lawful (enc : Encryptor) : Prop :=
  ∀ m e, enc.encrypt m = .ok e → enc.decrypt e = .ok m

/-- `proto.Marshal` and `proto.Unmarshal` at `pb.TokenEntry`. -/
structure ProtoCodec where
  marshal : ProtoTokenEntry → Go Bytes
  unmarshal : Bytes → Go ProtoTokenEntry

/-- Unmarshalling inverts marshalling. -/
def ProtoCodec.Lawful (codec : ProtoCodec) : Prop :=
  ∀ p m, codec.marshal p = .ok m → codec.unmarshal m = .ok p

/-- `NamespaceByID` as this repository binds it (`namespaceByID`): only the root namespace;
the result is the namespace's ID. -/
def namespaceByID (nsID : String) : Go (Option String) :=
  if nsID = rootNamespaceID then .ok (some rootNamespaceID) else .error (.error "no namespace")

/-! ## `SplitIDFromString` -/

/-- The end of `namespace.SplitIDFromString`: `input` cut at its last `.`, unless it has none
or ends with it, and `pfx` put back in front. -/
def splitNamespaceID (pfx input : String) : String × String :=
  match splitLast input '.' with
  | some (before, after) => if after = "" then (pfx ++ input, "") else (pfx ++ before, after)
  | none => (pfx ++ input, "")

/-- `namespace.SplitIDFromString`: an ID and the namespace ID after its last `.`; a `b.` or
`s.` prefix, or a lease's path up to its last `/`, is kept out of the search. -/
def splitIDFromString (input : String) : String × String :=
  if hasPrefix input "b." then splitNamespaceID "b." (String.ofList (input.toList.drop 2))
  else if hasPrefix input "s." then splitNamespaceID "s." (String.ofList (input.toList.drop 2))
  else
    match splitLast input '/' with
    | some (before, after) =>
      -- `slashIdx > 0`: a `/` at the very front takes no case
      if before = "" then splitNamespaceID "" input
      else if after = "" then (input, "")
      else splitNamespaceID (before ++ "/") after
    | none => splitNamespaceID "" input

/-! ## Creation and lookup -/

section Model

variable {Addr : Type} (addr : AddrCodec Addr)

/-- `parseutil.ParseAddrs` of a list of strings. -/
def parseAddrs (addrs : List String) : Go (List Addr) :=
  addrs.mapM fun a =>
    wrapError ("error parsing address " ++ goQuote a ++ ": ") (addr.newSockAddr a)

/-- `pb.ProtoTokenEntryToLogicalTokenEntry`; an empty list of CIDRs becomes nil, which is the
same list here. -/
def protoTokenEntryToLogicalTokenEntry (t : ProtoTokenEntry) : Go (TokenEntry Addr) :=
  (parseAddrs addr t.boundCIDRs).map fun boundCIDRs =>
    { id := t.id, accessor := t.accessor, parent := t.parent, policies := t.policies,
      path := t.path, metadata := t.metadata, displayName := t.displayName,
      numUses := t.numUses, creationTime := t.creationTime, ttl := t.ttl,
      explicitMaxTTL := t.explicitMaxTTL, role := t.role, period := t.period,
      entityID := t.entityID, boundCIDRs := boundCIDRs, namespaceID := t.namespaceID,
      cubbyholeID := t.cubbyholeID, type := t.type.toUInt8 }

/-- The protobuf form the batch case of `create` builds: the fields it keeps, the others
left zero. -/
def batchProtoEntry (entry : TokenEntry Addr) : ProtoTokenEntry :=
  { id := "", accessor := "", parent := entry.parent, policies := entry.policies,
    path := entry.path, metadata := entry.metadata, displayName := entry.displayName,
    numUses := 0, creationTime := entry.creationTime, ttl := entry.ttl, explicitMaxTTL := 0,
    role := entry.role, period := 0, entityID := entry.entityID,
    boundCIDRs := entry.boundCIDRs.map addr.toString, namespaceID := entry.namespaceID,
    cubbyholeID := "", type := entry.type.toUInt32 }

/-- The ID of a batch token: `b.` and the base64 text, then `.` and the namespace ID outside
the root namespace. -/
def batchID (bEntry tokenNSID : String) : String :=
  if tokenNSID ≠ rootNamespaceID then "b." ++ bEntry ++ "." ++ tokenNSID else "b." ++ bEntry

/-- `TokenStore.create` of an entry of type batch: the token's namespace (`namespaceByID` is
the function `NamespaceByID` is bound to), the policies sanitized, and the ID that carries the
encrypted entry. -/
def create (namespaceByID : String → Go (Option String)) (codec : ProtoCodec) (enc : Encryptor)
    (entry : TokenEntry Addr) : Go (TokenEntry Addr) := do
  let tokenNSID ← someOr "no namespace" (namespaceByID entry.namespaceID)
  let entry := { entry with policies := sanitizePolicies entry.policies false }
  let mEntry ← codec.marshal (batchProtoEntry addr entry)
  let eEntry ← enc.encrypt mEntry
  pure { entry with id := batchID (Base64.encodeToString eEntry) tokenNSID }

/-- `lookupBatchTokenInternal`; its callers pass IDs that start with `b.`. An ID that does not
decrypt is no token. -/
def lookupBatchTokenInternal (codec : ProtoCodec) (enc : Encryptor) (id : String) :
    Go (Option (TokenEntry Addr)) :=
  -- `id[2:]`
  if len id < 2 then .error (.panic "slice bounds out of range")
  else do
    let eEntry ← Base64.decodeString (splitIDFromString (String.ofList (id.toList.drop 2))).1
    match enc.decrypt eEntry with
    | .error _ => pure none
    | .ok mEntry =>
      let pEntry ← codec.unmarshal mEntry
      let te ← protoTokenEntryToLogicalTokenEntry addr pEntry
      pure (some { te with id })

end Model

/-! ## Taking the ID apart -/

section Split

/-- Base64 text followed by nothing or by a `.` starts with no `b.` or `s.`: its second
character is from the alphabet, and no text is one character long. -/
theorem not_prefix_encode_dot {B S : List Char} (hB : ∀ c ∈ B, c ∈ Base64.alphabet)
    (hlen : B.length ≠ 1) (hS : S = [] ∨ ∃ ns, S = '.' :: ns) (p : Char) (hp : p ≠ '.') :
    ¬[p, '.'] <+: B ++ S := by
  intro hpre
  match B, hB, hlen with
  | [], _, _ =>
    rcases hS with rfl | ⟨ns, rfl⟩
    · exact absurd hpre.length_le (by simp)
    · exact hp (List.cons_prefix_cons.mp hpre).1
  | [_], _, hlen => exact hlen rfl
  | _ :: y :: _, hB, _ =>
    have hy : y = '.' := (List.cons_prefix_cons.mp (List.cons_prefix_cons.mp hpre).2).1.symm
    have hdot : '.' ∉ Base64.alphabet := by decide
    exact hdot (hy ▸ hB y (by simp))

/-- The ID of a batch token, without its `b.`, is cut back into the base64 text and the
namespace ID when that one has no `.` or `/` and is not empty. -/
theorem splitIDFromString_batchID {bs : Bytes} {tokenNSID : String}
    (hsplit : tokenNSID = rootNamespaceID ∨
      tokenNSID ≠ "" ∧ '.' ∉ tokenNSID.toList ∧ '/' ∉ tokenNSID.toList) :
    (splitIDFromString (String.ofList
      ((batchID (Base64.encodeToString bs) tokenNSID).toList.drop 2))).1 =
      Base64.encodeToString bs := by
  have hB : ∀ c ∈ Base64.encode bs, c ∈ Base64.alphabet :=
    fun _ hc => Base64.mem_alphabet_of_mem_encode hc
  have hlen := Base64.length_encode_ne_one bs
  have hslash : '/' ∉ Base64.encode bs := fun h => absurd (hB _ h) (by decide)
  have hdot : '.' ∉ Base64.encode bs := fun h => absurd (hB _ h) (by decide)
  -- neither prefix case applies, whatever follows the text
  have hprefix : ∀ S, (S = [] ∨ ∃ ns, S = '.' :: ns) →
      hasPrefix (String.ofList (Base64.encode bs ++ S)) "b." = false ∧
        hasPrefix (String.ofList (Base64.encode bs ++ S)) "s." = false := by
    intro S hS
    simp only [hasPrefix, String.toList_ofList, Bool.eq_false_iff]
    constructor
    · intro h
      exact not_prefix_encode_dot hB hlen hS 'b' (by decide) (by simpa using h)
    · intro h
      exact not_prefix_encode_dot hB hlen hS 's' (by decide) (by simpa using h)
  by_cases hroot : tokenNSID = rootNamespaceID
  · -- in the root namespace the ID is the text alone
    have hid : (batchID (Base64.encodeToString bs) tokenNSID).toList.drop 2 = Base64.encode bs := by
      simp [batchID, hroot, Base64.encodeToString]
    have hS := hprefix [] (.inl rfl)
    simp only [List.append_nil] at hS
    have hnone : ∀ c ∈ ['/', '.'], splitLast (String.ofList (Base64.encode bs)) c = none := by
      simp only [List.mem_cons, List.not_mem_nil, or_false]
      rintro c (rfl | rfl) <;> exact splitLast_eq_none (by simpa using ‹_›)
    rw [hid]
    simp [splitIDFromString, hS, splitNamespaceID, hnone '/' (by simp), hnone '.' (by simp),
      Base64.encodeToString]
  · obtain ⟨hne, hnsdot, hnsslash⟩ := hsplit.resolve_left hroot
    have hid : (batchID (Base64.encodeToString bs) tokenNSID).toList.drop 2 =
        Base64.encode bs ++ '.' :: tokenNSID.toList := by
      simp [batchID, hroot, Base64.encodeToString]
    have hS := hprefix ('.' :: tokenNSID.toList) (.inr ⟨_, rfl⟩)
    have hnoslash : splitLast (String.ofList (Base64.encode bs ++ '.' :: tokenNSID.toList)) '/' =
        none :=
      splitLast_eq_none (by simp [hslash, hnsslash])
    -- the last `.` is the one `create` put before the namespace ID
    have hcut := splitLast_append (a := Base64.encode bs) (c := '.') hnsdot
    rw [hid]
    simp only [splitIDFromString, hS.1, hS.2, Bool.false_eq_true, if_false, hnoslash,
      splitNamespaceID, hcut, String.ofList_toList, if_neg hne, String.empty_append,
      Base64.encodeToString]

/-- A `.` then a namespace ID free of `.` and not empty is cut off at that `.`. -/
theorem splitNamespaceID_append (pfx x : String) {n : String} (hn : n ≠ "")
    (hdot : '.' ∉ n.toList) : splitNamespaceID pfx (x ++ "." ++ n) = (pfx ++ x, n) := by
  have hs : x ++ "." ++ n = String.ofList (x.toList ++ '.' :: n.toList) :=
    String.toList_inj.mp (by simp)
  rw [splitNamespaceID, hs, splitLast_append hdot, String.ofList_toList, String.ofList_toList]
  exact if_neg hn

/-- Text free of `.` has no namespace ID. -/
theorem splitNamespaceID_of_not_mem (pfx x : String) (hdot : '.' ∉ x.toList) :
    splitNamespaceID pfx x = (pfx ++ x, "") := by
  rw [splitNamespaceID, splitLast_eq_none hdot]

/-- Two characters that start `x ++ q :: n` start `x`, unless `x` is `[p]`. -/
theorem pair_prefix_of_append {x n : List Char} {p q : Char} (h : [p, q] <+: x ++ q :: n)
    (hx : x ≠ [p]) (hpq : p ≠ q) : [p, q] <+: x := by
  match x, hx with
  | [], _ => exact absurd (List.cons_prefix_cons.mp h).1 hpq
  | [y], hx =>
    exact absurd (by rw [(List.cons_prefix_cons.mp h).1]) hx
  | y :: z :: w, _ =>
    obtain ⟨hy, h⟩ := List.cons_prefix_cons.mp h
    obtain ⟨hz, -⟩ := List.cons_prefix_cons.mp h
    subst hy hz
    simp


/-- A two-character prefix `p.` of `x ++ "." ++ n` starts `x`, unless `x` is `p` alone. -/
theorem prefix_of_hasPrefix_append {x n pfx : String} {p : Char}
    (h : hasPrefix (x ++ "." ++ n) pfx) (hpfx : pfx.toList = [p, '.']) (hp : p ≠ '.')
    (hx : x ≠ String.ofList [p]) : pfx.toList <+: x.toList := by
  have hlist : (x ++ "." ++ n).toList = x.toList ++ '.' :: n.toList := by simp
  rw [hasPrefix_iff, hlist, hpfx] at h
  have hx' : x.toList ≠ [p] := fun h' => hx (by rw [← h', String.ofList_toList])
  rw [hpfx]
  exact pair_prefix_of_append h hx' hp

/-- With its two-character prefix taken off and put back, `x ++ "." ++ n` is cut at the `.`
before `n`. -/
theorem splitNamespaceID_drop {x n pfx : String} (hpfx : pfx.toList.length = 2)
    (hx : pfx.toList <+: x.toList) (hn : n ≠ "") (hdot : '.' ∉ n.toList) :
    splitNamespaceID pfx (String.ofList ((x ++ "." ++ n).toList.drop 2)) = (x, n) := by
  obtain ⟨x', hx'⟩ := hx
  have hdrop : String.ofList ((x ++ "." ++ n).toList.drop 2) = String.ofList x' ++ "." ++ n := by
    apply String.toList_inj.mp
    simp [← hx', hpfx]
  rw [hdrop, splitNamespaceID_append _ _ hn hdot]
  congr 1
  apply String.toList_inj.mp
  simp [← hx']


/-- A namespace ID, not empty and free of `.` and `/`, put after any identifier but `b` and `s`
with a `.`, is cut back off. -/
theorem splitIDFromString_suffix {x n : String} (hxb : x ≠ "b") (hxs : x ≠ "s") (hn : n ≠ "")
    (hdot : '.' ∉ n.toList) (hslash : '/' ∉ n.toList) :
    splitIDFromString (x ++ "." ++ n) = (x, n) := by
  have hlist : (x ++ "." ++ n).toList = x.toList ++ '.' :: n.toList := by simp
  unfold splitIDFromString
  split_ifs with hb hs
  · -- a `b.` in front of the whole is in front of `x`
    exact splitNamespaceID_drop rfl (prefix_of_hasPrefix_append hb rfl (by decide) hxb) hn hdot
  · exact splitNamespaceID_drop rfl (prefix_of_hasPrefix_append hs rfl (by decide) hxs) hn hdot
  · by_cases hx : '/' ∈ x.toList
    · -- the last `/` is the last one of `x`
      obtain ⟨a, b, hab, hb'⟩ := exists_last_occurrence hx
      have hsplit : splitLast (x ++ "." ++ n) '/' =
          some (String.ofList a, String.ofList b ++ "." ++ n) := by
        have hs' : x ++ "." ++ n = String.ofList (a ++ '/' :: (b ++ '.' :: n.toList)) :=
          String.toList_inj.mp (by simp [hab])
        rw [hs', splitLast_append (by simp [hb', hslash])]
        congr
        exact String.toList_inj.mp (by simp)
      have hafter : String.ofList b ++ "." ++ n ≠ "" := fun h => by
        simpa using congrArg String.length h
      rw [hsplit]
      dsimp only
      split_ifs with ha
      · rw [splitNamespaceID_append _ _ hn hdot, String.empty_append]
      · rw [splitNamespaceID_append _ _ hn hdot]
        congr 1
        exact String.toList_inj.mp (by simp [hab])
    · rw [splitLast_eq_none (by simp [hlist, hx, hslash]), splitNamespaceID_append _ _ hn hdot,
        String.empty_append]


/-- The identifiers Vault hands out, before a namespace ID is put after them: a service token
(`s.` and base62 text), a batch token (`b.` and base64 text), a custom token ID, which may hold
no `.`, and a lease ID, the request path and a base62 text joined by `/`. -/
inductive IDShape : String → Prop
  | service (text : String) : '.' ∉ text.toList → IDShape ("s." ++ text)
  | batch (text : String) : '.' ∉ text.toList → IDShape ("b." ++ text)
  | custom (id : String) : '.' ∉ id.toList → IDShape id
  | lease (path text : String) : path ≠ "" → '.' ∉ text.toList → '/' ∉ text.toList →
      IDShape (path ++ "/" ++ text)

/-- The text after a two-character prefix, put back behind it. -/
theorem append_drop_of_hasPrefix {x pfx : String} (h : hasPrefix x pfx)
    (hpfx : pfx.toList.length = 2) : pfx ++ String.ofList (x.toList.drop 2) = x := by
  obtain ⟨t, ht⟩ := hasPrefix_iff.mp h
  apply String.toList_inj.mp
  simp [← ht, hpfx]

/-- An identifier of the root namespace is left whole, when the text after a `b.` or `s.` in
front of it holds no `.`. -/
theorem splitIDFromString_root {x : String} (hx : IDShape x)
    (hpfx : hasPrefix x "b." ∨ hasPrefix x "s." → '.' ∉ x.toList.drop 2) :
    splitIDFromString x = (x, "") := by
  unfold splitIDFromString
  split_ifs with hb hs
  · rw [splitNamespaceID_of_not_mem _ _ (by simpa using hpfx (.inl hb)),
      append_drop_of_hasPrefix hb rfl]
  · rw [splitNamespaceID_of_not_mem _ _ (by simpa using hpfx (.inr hs)),
      append_drop_of_hasPrefix hs rfl]
  · cases hx with
    | service text _ => exact absurd (hasPrefix_append "s." text) hs
    | batch text _ => exact absurd (hasPrefix_append "b." text) hb
    | custom id hdot =>
      split
      · next before after hsplit =>
        -- the text after the last `/` is part of the ID, so it holds no `.`
        obtain ⟨hid, -⟩ := splitLast_eq_some hsplit
        have hafter : '.' ∉ after.toList := fun h => hdot (by simp [hid, h])
        split_ifs
        · exact splitNamespaceID_of_not_mem _ _ hdot
        · rfl
        · rw [splitNamespaceID_of_not_mem _ _ hafter]
          congr 1
          exact String.toList_inj.mp (by simp [hid])
      · exact splitNamespaceID_of_not_mem _ _ hdot
    | lease path text hpath hdot hslash =>
      have hsplit : splitLast (path ++ "/" ++ text) '/' = some (path, text) := by
        have hs' : path ++ "/" ++ text = String.ofList (path.toList ++ '/' :: text.toList) :=
          String.toList_inj.mp (by simp)
        rw [hs', splitLast_append hslash, String.ofList_toList, String.ofList_toList]
      rw [hsplit]
      dsimp only
      split_ifs with hempty
      · exact absurd hempty hpath
      · rfl
      · exact splitNamespaceID_of_not_mem _ _ hdot


theorem splitIDFromString_inverts :
    (∀ x n : String, x ≠ "b" → x ≠ "s" → n ≠ "" → '.' ∉ n.toList → '/' ∉ n.toList →
      splitIDFromString (x ++ "." ++ n) = (x, n)) ∧
    (∀ x, IDShape x → (hasPrefix x "b." ∨ hasPrefix x "s." → '.' ∉ x.toList.drop 2) →
      splitIDFromString x = (x, "")) :=
  ⟨fun _ _ hxb hxs hn hdot hslash => splitIDFromString_suffix hxb hxs hn hdot hslash,
    fun _ hx hpfx => splitIDFromString_root hx hpfx⟩

theorem splitIDFromString_inverts_service_lease :
    splitIDFromString ("s.Abc" ++ "." ++ "ns1") = ("s.Abc", "ns1") ∧
      splitIDFromString ("kv/creds" ++ "/" ++ "Xyz") = ("kv/creds" ++ "/" ++ "Xyz", "") :=
  ⟨splitIDFromString_inverts.1 _ _ (by decide) (by decide) (by decide) (by decide) (by decide),
    splitIDFromString_inverts.2 _ (.lease "kv/creds" "Xyz" (by decide) (by decide) (by decide))
      (by decide)⟩

/-- The custom token ID `s` in namespace `ns1`, a namespace ID that is empty, and a lease whose
path starts with `b.` and holds a `.`, in the root namespace. -/
theorem splitIDFromString_misreads :
    splitIDFromString ("s" ++ "." ++ "ns1") = ("s.ns1", "") ∧
      splitIDFromString ("s.Abc" ++ "." ++ "") = ("s.Abc.", "") ∧
      splitIDFromString ("b.kv.v2/creds" ++ "/" ++ "Xyz") = ("b.kv", "v2/creds/Xyz") := by
  decide

end Split

/-! ## The round trip -/

section RoundTrip

variable {Addr : Type} {addr : AddrCodec Addr} {codec : ProtoCodec} {enc : Encryptor}

theorem parseAddrs_map_toString {as : List Addr}
    (h : ∀ a ∈ as, addr.newSockAddr (addr.toString a) = .ok a) :
    parseAddrs addr (as.map addr.toString) = .ok as := by
  induction as with
  | nil => rfl
  | cons a as ih =>
    have ha := h a List.mem_cons_self
    have has := ih fun a' ha' => h a' (List.mem_cons_of_mem _ ha')
    simp only [parseAddrs, List.map_cons, List.mapM_cons] at has ⊢
    rw [ha, has]
    rfl

/-- The protobuf form of a batch token reads back as the entry, without the fields it does
not keep. -/
theorem protoTokenEntryToLogicalTokenEntry_batchProtoEntry (entry : TokenEntry Addr)
    (hcidrs : ∀ a ∈ entry.boundCIDRs, addr.newSockAddr (addr.toString a) = .ok a) :
    protoTokenEntryToLogicalTokenEntry addr (batchProtoEntry addr entry) =
      .ok { entry with
        id := "", accessor := "", numUses := 0, explicitMaxTTL := 0, period := 0, cubbyholeID := "" } := by
  simp [protoTokenEntryToLogicalTokenEntry, batchProtoEntry, parseAddrs_map_toString hcidrs,
    Except.map]

/-- What a successful `create` did: found the namespace, marshalled and encrypted the entry
with sanitized policies, and wrote the ciphertext into the ID. -/
theorem create_eq_ok {namespaceByID : String → Go (Option String)} {entry created : TokenEntry Addr}
    (h : create addr namespaceByID codec enc entry = .ok created) :
    ∃ tokenNSID mEntry eEntry, namespaceByID entry.namespaceID = .ok (some tokenNSID) ∧
      codec.marshal (batchProtoEntry addr
        { entry with policies := sanitizePolicies entry.policies false }) = .ok mEntry ∧
      enc.encrypt mEntry = .ok eEntry ∧
      created = { entry with
        policies := sanitizePolicies entry.policies false,
        id := batchID (Base64.encodeToString eEntry) tokenNSID } := by
  obtain ⟨tokenNSID, hns, h⟩ := bind_eq_ok h
  obtain ⟨mEntry, hmarshal, h⟩ := bind_eq_ok h
  obtain ⟨eEntry, hencrypt, h⟩ := bind_eq_ok h
  have hfound : namespaceByID entry.namespaceID = .ok (some tokenNSID) := by
    unfold someOr at hns
    split at hns <;> cases hns
    assumption
  exact ⟨tokenNSID, mEntry, eEntry, hfound, hmarshal, hencrypt, (Except.ok.inj h).symm⟩

end RoundTrip

/-! ## Sample codecs

CIDRs kept as their text, an encryptor that writes the plaintext as it is, and a protobuf
codec that knows one entry, written as the bytes 1, 2, 3 (`AQID` in base64). -/

section Samples

/-- CIDRs kept as their text. -/
def textAddr : AddrCodec String := ⟨id, .ok⟩

/-- An encryptor that writes the plaintext as it is. -/
def plainEncryptor : Encryptor := ⟨.ok, .ok⟩

theorem plainEncryptor_lawful : plainEncryptor.Lawful := fun _ _ h => h.symm

/-- A protobuf codec that knows the entry `p` only. -/
def codecOf (p : ProtoTokenEntry) : ProtoCodec :=
  ⟨fun q => if q = p then .ok [1, 2, 3] else .error (.error "unsupported"),
    fun m => if m = [1, 2, 3] then .ok p else .error (.error "unsupported")⟩

theorem codecOf_lawful (p : ProtoTokenEntry) : (codecOf p).Lawful := by
  intro q m h
  simp only [codecOf] at h
  split_ifs at h with hq
  cases h
  simp [codecOf, hq]

/-- A token entry of type batch in the namespace `nsID`. -/
def sampleEntry (nsID : String) : TokenEntry String :=
  ⟨"", "", "p", ["default"], "auth/token/create", [], "token", 0, 100, 3600, 0, "", 0, "",
    ["10.0.0.0/8"], nsID, "", 2⟩

/-- A namespace store that knows every ID. -/
def everyNamespace (nsID : String) : Go (Option String) := .ok (some nsID)

end Samples

end Vault.Token
