import Vault.Token.Store

/-!
# Tokens with restricted uses

A run of the calls that requests presenting one service token make on the token store:
`Lookup` of the token (`checkToken` of each request), `UseToken` of an entry that an earlier
`Lookup` returned (`handleRequest`, possibly long after that lookup and with other requests in
between, so the entry may be stale), and revocations of the token (the one `handleRequest`
defers after a last use among them). Calls on the token are serialised by its lock, so a run
is a sequence of calls.

A token created with `NumUses = n` is used at most `n` times: the `i`-th use stores `n - i`,
the `n`-th stores `tokenRevocationPending`, and from then on neither `Lookup` nor
`lookupInternal` returns the token (`useToken_at_most_numUses`). The invariant `UsesInv` ties
the stored count to the uses so far; stale entries do no harm because `UseToken` reads the
entry again under the lock, and no entry `Lookup` returns has `NumUses = 0`, the count that
`UseToken` passes without spending.
-/

namespace Vault.Token

open GoRuntime GoStrings StateFrame

variable {Addr : Type}

/-- A call on the token. -/
inductive Event (Addr : Type) where
  /-- `Lookup` of the token. -/
  | lookup (env : Env Addr)
  /-- `UseToken` of the `k`-th entry that `Lookup` returned. -/
  | use (k : ℕ) (env : Env Addr)
  /-- A revocation of the token. -/
  | revoke (result : Go Unit)

/-- The storage, and the entries that `Lookup` and `UseToken` returned, in order. -/
structure World (Addr : Type) where
  store : Store Addr
  seen : List (StoredEntry Addr)
  uses : List (StoredEntry Addr)

/-- The entry a call returned, if it returned one. -/
def returned : EStateM.Result GoError (Store Addr) (Option (StoredEntry Addr)) →
    Option (StoredEntry Addr)
  | .ok te _ => te
  | .error _ _ => none

/-- One call on the token `id`. -/
def World.step (id : String) (w : World Addr) : Event Addr → World Addr
  | .lookup env =>
    let r := (lookup env id).run w.store
    { w with store := Result.state r, seen := w.seen ++ (returned r).toList }
  | .use k env =>
    match w.seen[k]? with
    | none => w
    | some te =>
      let r := (useToken env te).run w.store
      { w with store := Result.state r, uses := w.uses ++ (returned r).toList }
  | .revoke result => { w with store := Result.state ((revokeToken result id).run w.store) }

/-- A run of calls on the token `id`. -/
def World.run (id : String) (w : World Addr) (events : List (Event Addr)) : World Addr :=
  events.foldl (World.step id) w

/-- The `NumUses` stored after `u` uses of a token created with `NumUses = n`. -/
def remainingUses (n u : ℕ) : ℤ := if u < n then (n : ℤ) - u else tokenRevocationPending

/-- A service token as `create` stores it with `NumUses = n`: at least one use, the fields of
the older form unset, not a control group's token, and an ID that is no batch token's. -/
structure Created (n : ℕ) (te : StoredEntry Addr) : Prop where
  pos : 0 < n
  numUses : te.numUses = n
  upgraded : te.Upgraded
  policies : te.policies ≠ [controlGroupPolicyName]
  serviceID : ¬(2 < len te.id ∧ hasPrefix te.id "b." = true)

/-! ## The invariant -/

/-- The invariant of a run on the token `id` created with `n` uses and the policies `P`: the
stored count is what the uses so far left, each use returned the count it stored, and the
entries `Lookup` returned have uses left. -/
structure UsesInv (id : String) (n : ℕ) (P : List String) (w : World Addr) : Prop where
  uses_le : w.uses.length ≤ n
  uses_numUses : ∀ i (h : i < w.uses.length), w.uses[i].numUses = remainingUses n (i + 1)
  stored : StoredUpgraded id w.store
  stored_count : ∀ e, w.store id = some e →
    e.policies = P ∧ e.numUses = remainingUses n w.uses.length
  seen : ∀ te ∈ w.seen, te.id = id ∧ te.policies = P ∧ 0 < te.numUses

section Inv

variable {id : String} {n : ℕ} {P : List String} {w : World Addr}

theorem returned_of_misses {s : Store Addr}
    {r : EStateM.Result GoError (Store Addr) (Option (StoredEntry Addr))} (h : Misses id s r) :
    returned r = none := by
  rcases r with ⟨o, s'⟩ | ⟨e, s'⟩
  · cases o with
    | none => rfl
    | some e => exact absurd rfl (h.1 e s')
  · rfl

/-- A call that kept the storage or deleted the token keeps the invariant. -/
theorem UsesInv.frame (h : UsesInv id n P w) {s' : Store Addr}
    (hs : s' = w.store ∨ s' = Function.update w.store id none) :
    UsesInv id n P { w with store := s' } := by
  rcases hs with rfl | rfl
  · exact h
  · refine ⟨h.uses_le, h.uses_numUses, ?_, ?_, h.seen⟩
    · intro e he
      simp at he
    · intro e he
      simp at he

/-- A stored entry with uses left. -/
theorem UsesInv.count_pos (h : UsesInv id n P w) {e : StoredEntry Addr}
    (hs : w.store id = some e) (hnn : 0 ≤ e.numUses) :
    w.uses.length < n ∧ e.numUses = (n : ℤ) - w.uses.length := by
  have hcount := (h.stored_count e hs).2
  unfold remainingUses tokenRevocationPending at hcount
  split_ifs at hcount with hlt
  · exact ⟨hlt, hcount⟩
  · omega

/-- A `Lookup` that returned the stored entry keeps the invariant. -/
theorem UsesInv.of_lookup (h : UsesInv id n P w) {e : StoredEntry Addr}
    (hs : w.store id = some e) (hnn : 0 ≤ e.numUses) :
    UsesInv id n P { w with seen := w.seen ++ [(upgrade e).1] } := by
  refine ⟨h.uses_le, h.uses_numUses, h.stored, h.stored_count, ?_⟩
  intro te hte
  rcases List.mem_append.mp hte with hte | hte
  · exact h.seen te hte
  · -- the entry handed out is the stored one, with uses left
    obtain rfl := List.mem_singleton.mp hte
    have hup := (h.stored e hs).2
    have hcount := h.count_pos hs hnn
    refine ⟨(h.stored e hs).1, (h.stored_count e hs).1, ?_⟩
    rw [(upgrade_of_upgraded hup).2]
    omega

/-- A `UseToken` that spent the stored entry keeps the invariant. -/
theorem UsesInv.of_use (h : UsesInv id n P w) {e : StoredEntry Addr}
    (hs : w.store id = some e) (hnn : 0 ≤ e.numUses) :
    UsesInv id n P { w with
      store := Function.update w.store id (some (spentEntry e))
      uses := w.uses ++ [spentEntry e] } := by
  obtain ⟨hlt, hcount⟩ := h.count_pos hs hnn
  have hup := (h.stored e hs).2
  -- the spent entry stores the count of one more use
  have hspent : (spentEntry e).numUses = remainingUses n (w.uses.length + 1) := by
    rw [spentEntry_numUses hup, hcount]
    unfold remainingUses tokenRevocationPending
    split_ifs <;> omega
  refine ⟨?_, ?_, ?_, ?_, h.seen⟩
  · simp only [List.length_append, List.length_singleton]
    omega
  · intro i hi
    simp only [List.length_append, List.length_singleton] at hi
    rcases Nat.lt_succ_iff_lt_or_eq.mp hi with hi | rfl
    · rw [List.getElem_append_left hi]
      exact h.uses_numUses i hi
    · simp [hspent]
  · intro e' he'
    simp only [Function.update_self, Option.some.injEq] at he'
    subst he'
    exact ⟨(h.stored e hs).1, upgraded_spentEntry e⟩
  · intro e' he'
    simp only [Function.update_self, Option.some.injEq] at he'
    subst he'
    simp [hspent, (h.stored_count e hs).1]

variable (hid : ¬(2 < len id ∧ hasPrefix id "b." = true)) (hcg : P ≠ [controlGroupPolicyName])
include hid hcg

/-- Every call keeps the invariant. -/
theorem UsesInv.step (h : UsesInv id n P w) (ev : Event Addr) :
    UsesInv id n P (w.step id ev) := by
  cases ev with
  | lookup env =>
    rcases lookup_cases env hid h.stored with hmiss | ⟨e, hs, hnn, hrun⟩
    · have hnone := returned_of_misses hmiss
      simpa [World.step, hnone] using h.frame hmiss.2
    · simpa [World.step, hrun, returned] using h.of_lookup hs hnn
  | use k env =>
    cases hk : w.seen[k]? with
    | none => simpa [World.step, hk] using h
    | some te =>
      -- a stale entry still names the token and has uses left: `UseToken` reads it again
      obtain ⟨hte, hpol, hpos⟩ := h.seen te (List.mem_of_getElem? hk)
      subst hte
      rcases useToken_cases env (by omega) (hpol ▸ hcg) hid h.stored with
        hmiss | ⟨e, hs, hnn, hrun⟩
      · have hnone := returned_of_misses hmiss
        simpa [World.step, hk, hnone] using h.frame hmiss.2
      · simpa [World.step, hk, hrun, returned] using h.of_use hs hnn
  | revoke result => exact h.frame (revokeToken_state result id w.store)

theorem UsesInv.run (h : UsesInv id n P w) (events : List (Event Addr)) :
    UsesInv id n P (w.run id events) := by
  induction events generalizing w with
  | nil => exact h
  | cons ev events ih => exact ih (h.step hid hcg ev)

omit hcg in
/-- Once the last use is spent, the token is not found. -/
theorem UsesInv.not_found (h : UsesInv id n P w) (hn : w.uses.length = n) (env : Env Addr)
    (e : StoredEntry Addr) (s' : Store Addr) :
    (lookup env id).run w.store ≠ .ok (some e) s' ∧
      (lookupInternal env id false).run w.store ≠ .ok (some e) s' := by
  -- a hit finds a stored entry with uses left, of which there are none
  have hspent : ∀ e', w.store id = some e' → ¬0 ≤ e'.numUses := by
    intro e' hs hnn
    have := (h.count_pos hs hnn).1
    omega
  constructor
  · rcases lookup_cases env hid h.stored with hmiss | ⟨e', hs, hnn, -⟩
    · exact hmiss.1 e s'
    · exact absurd hnn (hspent e' hs)
  · rcases lookupInternal_cases env hid h.stored with hmiss | ⟨e', hs, hnn, -⟩
    · exact hmiss.1 e s'
    · exact absurd hnn (hspent e' hs)

end Inv

theorem usesInv_created {n : ℕ} {te : StoredEntry Addr} (hte : Created n te) {s : Store Addr}
    (hs : s te.id = some te) : UsesInv te.id n te.policies (⟨s, [], []⟩ : World Addr) := by
  refine ⟨Nat.zero_le n, fun i hi => absurd hi (Nat.not_lt_zero i), ?_, ?_, ?_⟩
  · intro e he
    change s te.id = some e at he
    rw [hs] at he
    cases he
    exact ⟨rfl, hte.upgraded⟩
  · intro e he
    change s te.id = some e at he
    rw [hs] at he
    cases he
    simp [remainingUses, hte.pos, hte.numUses]
  · intro te' hte'
    cases hte'

/-- A token created with `NumUses = n` is used at most `n` times, however the calls of the
requests presenting it interleave: the `i`-th use stores `n - i`, the `n`-th stores
`tokenRevocationPending`, and after it neither `Lookup` nor `lookupInternal` returns the
token. -/
theorem useToken_at_most_numUses {n : ℕ} {te : StoredEntry Addr} (hte : Created n te)
    {s : Store Addr} (hs : s te.id = some te) (events : List (Event Addr)) :
    let w := World.run te.id ⟨s, [], []⟩ events
    w.uses.length ≤ n ∧
      (∀ i (hi : i < w.uses.length), w.uses[i].numUses =
        if i + 1 < n then (n : ℤ) - (i + 1) else tokenRevocationPending) ∧
      (w.uses.length = n → ∀ (env : Env Addr) (e : StoredEntry Addr) (s' : Store Addr),
        (lookup env te.id).run w.store ≠ .ok (some e) s' ∧
          (lookupInternal env te.id false).run w.store ≠ .ok (some e) s') := by
  intro w
  have hinv : UsesInv te.id n te.policies w :=
    (usesInv_created hte hs).run hte.serviceID hte.policies events
  refine ⟨hinv.uses_le, ?_, hinv.not_found hte.serviceID⟩
  intro i hi
  rw [hinv.uses_numUses i hi, remainingUses]
  push_cast
  rfl

/-- A token with two uses, in the root namespace. -/
def twoUseToken : StoredEntry String :=
  { id := "s.abc", accessor := "acc", parent := "", policies := ["default"],
    path := "auth/token/create", metadata := [], displayName := "token", numUses := 2,
    creationTime := 0, ttl := 3600, explicitMaxTTL := 0, role := "", period := 0, entityID := "",
    boundCIDRs := [], namespaceID := rootNamespaceID, cubbyholeID := "", type := tokenTypeService,
    displayNameDeprecated := "", numUsesDeprecated := 0, creationTimeDeprecated := 0,
    explicitMaxTTLDeprecated := 0 }

/-- Every call outside the storage succeeds, and the lease is live. -/
def liveEnv : Env String := ⟨.ok none, .ok (), .ok .unexpired, .ok (), .ok (), .ok ()⟩

/-- Three requests on one lookup of the two-use token. -/
theorem useToken_at_most_numUses_twice :
    let w := World.run twoUseToken.id
      ⟨fun k => if k = twoUseToken.id then some twoUseToken else none, [], []⟩
      [.lookup liveEnv, .use 0 liveEnv, .use 0 liveEnv, .use 0 liveEnv]
    w.uses.length ≤ 2 ∧
      (∀ i (hi : i < w.uses.length), w.uses[i].numUses =
        if i + 1 < 2 then ((2 : ℕ) : ℤ) - (i + 1) else tokenRevocationPending) ∧
      (w.uses.length = 2 → ∀ (env : Env String) (e : StoredEntry String) (s' : Store String),
        (lookup env twoUseToken.id).run w.store ≠ .ok (some e) s' ∧
          (lookupInternal env twoUseToken.id false).run w.store ≠ .ok (some e) s') :=
  useToken_at_most_numUses ⟨by decide, rfl, ⟨rfl, rfl, rfl, rfl⟩, by decide, by decide⟩
    (by simp) _

end Vault.Token
