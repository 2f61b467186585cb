import Vault.Lib.GoRuntime
import Vault.Lib.GoStrings
import Vault.Lib.Graphs
import Vault.Helper.Strutil

/-!
# Group membership in the identity store

A group lists the groups it is a member of in `ParentGroupIDs`; the membership graph has an
edge `p → c` when `p` is among `c`'s parents. `sanitizeAndUpsertGroup` sets a group's member
groups: members dropped from the list lose the group as a parent, and each new member gains it,
unless it is the group itself or `detectCycleDFS` finds the group among the new member's
descendants. All writes go to one MemDB transaction, committed at the end, while every read,
the search's included, is of the committed table.

The search threads one visited set through the whole recursion, as Go's map is. When it finds
no cycle, every group it added to the visited set that has a record has its member groups there
too (`detectCycleDFS_explored`), so the start, never added, is not reachable
(`not_reach_of_detectCycle`). Its recursion never runs deeper than there are groups
(`detectCycleDFS_isSome`). A request then adds only edges out of the group whose new targets do
not reach it, and removes others (`isParent_of_sanitizeAndUpsertGroup`), which keeps the graph
acyclic (`Graphs.Acyclic.of_le_sup`); deletions only remove edges. So every run of requests
keeps the graph acyclic (`runGroupOps_acyclic`).

Go's `(true, err)` return of a search that found a cycle below the top is an error here: every
caller tests the error first.
-/

namespace Vault.Identity

open GoRuntime GoStrings Graphs Relation Vault.Helper

/-- `identity.Group`: its ID and the IDs of the groups it is a member of. -/
structure Group where
  id : String
  parentGroupIDs : List String
deriving DecidableEq, Repr

/-- MemDB's groups table. -/
abbrev GroupTable := List Group

/-- `MemDBGroupByID`. -/
def memDBGroupByID (groups : GroupTable) (groupID : String) : Go (Option Group) :=
  if groupID = "" then .error (.error "missing group ID")
  else .ok (groups.find? (·.id == groupID))

/-- `MemDBGroupsByParentGroupID`: the groups that have `memberGroupID` among their parents. -/
def memDBGroupsByParentGroupID (groups : GroupTable) (memberGroupID : String) :
    Go (List Group) :=
  if memberGroupID = "" then .error (.error "missing member group ID")
  else .ok (groups.filter fun g => memberGroupID ∈ g.parentGroupIDs)

/-- `UpsertGroupInTxn`, as the table holds it once the transaction is committed. -/
def upsertGroup (groups : GroupTable) (group : Group) : GroupTable :=
  group :: groups.filter (·.id != group.id)

/-- The membership graph: `p → c` when `p` is among the parents of `c`. -/
def IsParent (groups : GroupTable) (p c : String) : Prop :=
  ∃ g ∈ groups, g.id = c ∧ p ∈ g.parentGroupIDs

/-! ## `detectCycleDFS` -/

/-- The loop of `detectCycleDFS` over a group's member groups, each searched with `dfs` and the
visited set threaded through; a search that errs or finds the start ends it. -/
def dfsMembers (dfs : List String → String → Option (Go Bool × List String)) :
    List Group → List String → Option (Go Bool × List String)
  | [], visited => some (.ok false, visited)
  | memberGroup :: rest, visited =>
    match dfs visited memberGroup.id with
    | none => none
    | some (.error _, visited) => some (.error (.error
        ("failed to perform cycle detection at member group ID " ++ goQuote memberGroup.id)),
          visited)
    | some (.ok true, visited) => some (.error (.error
        ("cycle detected at member group ID " ++ goQuote memberGroup.id)), visited)
    | some (.ok false, visited) => dfsMembers dfs rest visited

/-- `detectCycleDFS`: whether the search from `groupID` down the member groups reaches
`startingGroupID`, its depth bounded by `fuel` (`none` when it runs out). -/
def detectCycleDFS (groups : GroupTable) :
    ℕ → List String → String → String → Option (Go Bool × List String)
  | 0, _, _, _ => none
  | fuel + 1, visited, startingGroupID, groupID =>
    if startingGroupID = groupID then some (.ok true, visited)
    else if groupID ∈ visited then some (.ok false, visited)
    else
      let visited := groupID :: visited
      match memDBGroupByID groups groupID with
      | .error err => some (.error err, visited)
      | .ok none => some (.ok false, visited)
      | .ok (some _) =>
        match memDBGroupsByParentGroupID groups groupID with
        | .error err => some (.error err, visited)
        | .ok memberGroups =>
          dfsMembers (fun visited id => detectCycleDFS groups fuel visited startingGroupID id)
            memberGroups visited

/-- The search as `sanitizeAndUpsertGroup` starts it, with a fresh visited set and room for
one level per group and one more (always enough, `detectCycleDFS_isSome`). -/
def detectCycle (groups : GroupTable) (startingGroupID groupID : String) : Go Bool :=
  match detectCycleDFS groups (groups.length + 1) [] startingGroupID groupID with
  | some (r, _) => r
  | none => .error (.panic "goroutine stack exceeds limit")

/-! ## `sanitizeAndUpsertGroup` -/

/-- One turn of the loop over the current member groups that the request drops: the member,
read again, loses the group as a parent (`strutil.StrListDelete` drops the first copy). -/
def removeMemberWrite (groups : GroupTable) (group : Group) (currentMemberGroupID : String) :
    Go Group :=
  match memDBGroupByID groups currentMemberGroupID with
  | .error err => .error err
  | .ok none => .error (.error ("invalid member group ID " ++ goQuote currentMemberGroupID))
  | .ok (some currentMemberGroup) =>
    .ok { currentMemberGroup with
      parentGroupIDs := currentMemberGroup.parentGroupIDs.erase group.id }

/-- One turn of the loop over the requested member groups: read the member group, skip it when
the group already is a parent, refuse the group itself, search for a cycle when the group
exists, and write the member with the group added to its parents. -/
def addMemberWrite (groups : GroupTable) (group : Group) (writes : List Group)
    (memberGroupID : String) : Go (List Group) :=
  match memDBGroupByID groups memberGroupID with
  | .error err => .error err
  | .ok none => .error (.error ("invalid member group ID " ++ goQuote memberGroupID))
  | .ok (some memberGroup) =>
    if group.id ∈ memberGroup.parentGroupIDs then .ok writes
    else if group.id = memberGroupID then
      .error (.error ("member group ID " ++ goQuote group.id ++ " is same as the ID of the group"))
    else
      let written := writes ++
        [{ memberGroup with parentGroupIDs := memberGroup.parentGroupIDs ++ [group.id] }]
      match memDBGroupByID groups group.id with
      | .error err => .error err
      | .ok none => .ok written
      | .ok (some groupByID) =>
        match detectCycle groups groupByID.id memberGroupID with
        | .error _ => .error (.error
            ("failed to perform cyclic relationship detection for member group ID " ++
              goQuote memberGroupID))
        | .ok true => .error (.error
            ("cyclic relationship detected for member group ID " ++ goQuote memberGroupID))
        | .ok false => .ok written

/-- The member group handling of `sanitizeAndUpsertGroup` for a given `member_group_ids`: the
writes of the removal loop, then of the addition loop. -/
def memberGroupWrites (groups : GroupTable) (group : Group) (memberGroupIDs : List String) :
    Go (List Group) := do
  let memberGroupIDs := removeDuplicates memberGroupIDs false
  let currentMemberGroups ← memDBGroupsByParentGroupID groups group.id
  let currentMemberGroupIDs := currentMemberGroups.map (·.id)
  let removed ← (currentMemberGroupIDs.filter (!memberGroupIDs.contains ·)).mapM
    (removeMemberWrite groups group)
  let added ← memberGroupIDs.foldlM (addMemberWrite groups group) []
  pure (removed ++ added)

/-- `sanitizeAndUpsertGroup` for the member groups (`none`: `member_group_ids` not given, the
`goto ALIAS`): the member writes and the group's own, committed in order. -/
def sanitizeAndUpsertGroup (groups : GroupTable) (group : Group)
    (memberGroupIDs : Option (List String)) : Go GroupTable := do
  let writes ← (match memberGroupIDs with
    | none => pure []
    | some memberGroupIDs => memberGroupWrites groups group memberGroupIDs)
  pure ((writes ++ [group]).foldl upsertGroup groups)

/-- The requests on groups: a new group (under the ID `uuid.GenerateUUID` gave it), an update
of a group by ID, and a deletion by ID. -/
inductive GroupOp
  | create (id : String) (memberGroupIDs : Option (List String))
  | update (id : String) (memberGroupIDs : Option (List String))
  | delete (id : String)

/-- What a request does to the table: `handleGroupUpdateCommon` on a new group or on the group
`pathGroupIDUpdate` read, and `handleGroupDeleteCommon`. -/
def GroupOp.exec (groups : GroupTable) : GroupOp → Go GroupTable
  | .create id memberGroupIDs => sanitizeAndUpsertGroup groups ⟨id, []⟩ memberGroupIDs
  | .update id memberGroupIDs =>
    if id = "" then .error (.error "empty group ID")
    else
      match memDBGroupByID groups id with
      | .error err => .error err
      | .ok none => .error (.error "invalid group ID")
      | .ok (some group) => sanitizeAndUpsertGroup groups group memberGroupIDs
  | .delete id =>
    if id = "" then .error (.error "empty group ID")
    else
      match memDBGroupByID groups id with
      | .error err => .error err
      | .ok none => .ok groups
      | .ok (some group) => .ok (groups.filter (·.id != group.id))

/-- Requests one after the other; a failed one aborts its transaction and leaves the table. -/
def runGroupOps (groups : GroupTable) : List GroupOp → GroupTable
  | [] => groups
  | op :: ops =>
    runGroupOps (match op.exec groups with
      | .ok groups' => groups'
      | .error _ => groups) ops

/-! ## Lookups -/

section Lookups

variable {groups : GroupTable}

theorem memDBGroupByID_eq_ok {groupID : String} {r : Option Group}
    (h : memDBGroupByID groups groupID = .ok r) :
    groupID ≠ "" ∧ r = groups.find? (·.id == groupID) := by
  unfold memDBGroupByID at h
  split at h
  · cases h
  · cases h
    exact ⟨‹_›, rfl⟩

theorem mem_of_memDBGroupByID {groupID : String} {g : Group}
    (h : memDBGroupByID groups groupID = .ok (some g)) : g ∈ groups ∧ g.id = groupID := by
  obtain ⟨-, hfind⟩ := memDBGroupByID_eq_ok h
  exact ⟨List.mem_of_find?_eq_some hfind.symm, by simpa using List.find?_some hfind.symm⟩

theorem not_mem_of_memDBGroupByID {groupID : String}
    (h : memDBGroupByID groups groupID = .ok none) : ∀ g ∈ groups, g.id ≠ groupID := by
  obtain ⟨-, hfind⟩ := memDBGroupByID_eq_ok h
  simpa using hfind.symm

theorem isParent_iff_of_memDBGroupsByParentGroupID {p : String} {memberGroups : List Group}
    (h : memDBGroupsByParentGroupID groups p = .ok memberGroups) (c : String) :
    IsParent groups p c ↔ ∃ g ∈ memberGroups, g.id = c := by
  unfold memDBGroupsByParentGroupID at h
  split at h
  · cases h
  · cases h
    simp only [IsParent, List.mem_filter, decide_eq_true_eq]
    constructor
    · rintro ⟨g, hg, rfl, hp⟩
      exact ⟨g, ⟨hg, hp⟩, rfl⟩
    · rintro ⟨g, ⟨hg, hp⟩, rfl⟩
      exact ⟨g, hg, rfl, hp⟩

/-- Only a group with a record has parents. -/
theorem exists_of_isParent {p c : String} (h : IsParent groups p c) : ∃ g ∈ groups, g.id = c := by
  obtain ⟨g, hg, hid, -⟩ := h
  exact ⟨g, hg, hid⟩

/-- A group without a record is reached from no other. -/
theorem not_reach_of_no_record {v groupID : String} (hne : v ≠ groupID)
    (hnone : ∀ g ∈ groups, g.id ≠ groupID) : ¬ReflTransGen (IsParent groups) v groupID := by
  have hno : ∀ b, ¬IsParent groups b groupID := fun b hb => by
    obtain ⟨g, hg, hid⟩ := exists_of_isParent hb
    exact hnone g hg hid
  intro h
  rcases reflTransGen_iff_eq_or_transGen.mp h with heq | htrans
  · exact hne heq.symm
  · cases htrans with
    | single hb => exact hno _ hb
    | tail _ hb => exact hno _ hb

end Lookups

/-! ## The search -/

section Search

variable {groups : GroupTable} {startingGroupID : String}

/-- What a search that found no cycle leaves: the visited set only grew, the start was not
added, and each group added that has a record has its member groups in the set. -/
structure Explored (groups : GroupTable) (startingGroupID : String)
    (visited visited' : List String) : Prop where
  subset : visited ⊆ visited'
  start : startingGroupID ∈ visited' → startingGroupID ∈ visited
  closed : ∀ u ∈ visited', u ∉ visited → (∃ g ∈ groups, g.id = u) →
    ∀ c, IsParent groups u c → c ∈ visited'

theorem Explored.refl (visited : List String) : Explored groups startingGroupID visited visited :=
  ⟨List.Subset.refl _, id, fun _ hu hnu => absurd hu hnu⟩

theorem Explored.trans {v₁ v₂ v₃ : List String} (h₁ : Explored groups startingGroupID v₁ v₂)
    (h₂ : Explored groups startingGroupID v₂ v₃) : Explored groups startingGroupID v₁ v₃ where
  subset := List.Subset.trans h₁.subset h₂.subset
  start hs := h₁.start (h₂.start hs)
  closed u hu hnu hrec c hc := by
    -- a group added by the first part has its members there already
    by_cases hu₂ : u ∈ v₂
    · exact h₂.subset (h₁.closed u hu₂ hnu hrec c hc)
    · exact h₂.closed u hu hu₂ hrec c hc

/-- Marking a group other than the start, then exploring from it with its member groups all
visited in the end. -/
theorem Explored.cons {v : String} {visited visited' : List String} (hs : startingGroupID ≠ v)
    (hv : (∃ g ∈ groups, g.id = v) → ∀ c, IsParent groups v c → c ∈ visited')
    (h : Explored groups startingGroupID (v :: visited) visited') :
    Explored groups startingGroupID visited visited' where
  subset := List.Subset.trans (List.subset_cons_self v visited) h.subset
  start hmem := by
    rcases List.mem_cons.mp (h.start hmem) with heq | hin
    · exact absurd heq hs
    · exact hin
  closed u hu hnu hrec c hc := by
    by_cases huv : u = v
    · subst huv
      exact hv hrec c hc
    · exact h.closed u hu (by simp [huv, hnu]) hrec c hc

/-- The loop over the member groups: each search that found nothing explored its part and
visited its member group. -/
theorem dfsMembers_explored {dfs : List String → String → Option (Go Bool × List String)}
    (hdfs : ∀ visited v visited', dfs visited v = some (.ok false, visited') →
      Explored groups startingGroupID visited visited' ∧ v ∈ visited')
    {memberGroups : List Group} {visited visited' : List String}
    (h : dfsMembers dfs memberGroups visited = some (.ok false, visited')) :
    Explored groups startingGroupID visited visited' ∧ ∀ g ∈ memberGroups, g.id ∈ visited' := by
  induction memberGroups generalizing visited with
  | nil =>
    cases h
    exact ⟨.refl _, by simp⟩
  | cons g rest ih =>
    simp only [dfsMembers] at h
    split at h
    · cases h
    · cases h
    · cases h
    · rename_i visited₁ hg
      obtain ⟨hex₁, hmem₁⟩ := hdfs _ _ _ hg
      obtain ⟨hex₂, hrest⟩ := ih h
      refine ⟨hex₁.trans hex₂, ?_⟩
      intro g' hg'
      rcases List.mem_cons.mp hg' with rfl | hin
      · exact hex₂.subset hmem₁
      · exact hrest g' hin

/-- A search that found no cycle explored its part of the graph and visited its group; by
induction on the depth, one level per call. -/
theorem detectCycleDFS_explored {fuel : ℕ} {visited visited' : List String} {groupID : String}
    (h : detectCycleDFS groups fuel visited startingGroupID groupID = some (.ok false, visited')) :
    Explored groups startingGroupID visited visited' ∧ groupID ∈ visited' := by
  induction fuel generalizing visited visited' groupID with
  | zero => cases h
  | succ fuel ih =>
    simp only [detectCycleDFS] at h
    split_ifs at h with hstart hvisited
    · cases h
    · cases h
      exact ⟨.refl _, hvisited⟩
    · split at h
      · cases h
      · -- no record: nothing below the group to explore
        rename_i hnone
        cases h
        refine ⟨.cons hstart ?_ (.refl _), List.mem_cons_self⟩
        rintro ⟨g, hg, hid⟩
        exact absurd hid (not_mem_of_memDBGroupByID hnone g hg)
      · split at h
        · cases h
        · rename_i memberGroups hmembers
          obtain ⟨hex, hall⟩ := dfsMembers_explored (fun _ _ _ hv => ih hv) h
          refine ⟨.cons hstart (fun _ c hc => ?_) hex, hex.subset List.mem_cons_self⟩
          obtain ⟨g, hg, rfl⟩ := (isParent_iff_of_memDBGroupsByParentGroupID hmembers c).mp hc
          exact hall g hg

/-- A search from a group with a record that found no cycle: the group does not reach the
start. -/
theorem not_reach_of_detectCycleDFS {fuel : ℕ} {visited' : List String} {groupID : String}
    (h : detectCycleDFS groups fuel [] startingGroupID groupID = some (.ok false, visited'))
    (hrec : ∃ g ∈ groups, g.id = groupID) :
    ¬ReflTransGen (IsParent groups) groupID startingGroupID := by
  obtain ⟨hex, hmem⟩ := detectCycleDFS_explored h
  intro hreach
  -- the final visited set is closed under member groups of groups with a record
  have hclosed : ∀ u, u ∈ visited' → (∃ g ∈ groups, g.id = u) →
      ∀ c, IsParent groups u c → c ∈ visited' :=
    fun u hu hrec' => hex.closed u hu List.not_mem_nil hrec'
  have hs : startingGroupID ∈ visited' :=
    mem_of_reflTransGen hclosed (fun _ _ hc => exists_of_isParent hc) hmem hrec hreach
  exact List.not_mem_nil (hex.start hs)

theorem not_reach_of_detectCycle {groupID : String}
    (h : detectCycle groups startingGroupID groupID = .ok false)
    (hrec : ∃ g ∈ groups, g.id = groupID) :
    ¬ReflTransGen (IsParent groups) groupID startingGroupID := by
  unfold detectCycle at h
  split at h
  · rename_i r visited' hdfs
    subst h
    exact not_reach_of_detectCycleDFS hdfs hrec
  · cases h

/-- The groups with a record that a search has not visited: one fewer at each level. -/
def unvisited (groups : GroupTable) (visited : List String) : ℕ :=
  ((groups.map (·.id)).toFinset.filter (· ∉ visited)).card

theorem unvisited_anti {visited visited' : List String} (h : visited ⊆ visited') :
    unvisited groups visited' ≤ unvisited groups visited := by
  apply Finset.card_le_card
  intro x hx
  simp only [Finset.mem_filter] at hx ⊢
  exact ⟨hx.1, fun hin => hx.2 (h hin)⟩

theorem unvisited_cons_lt {v : String} {visited : List String} (hv : v ∉ visited)
    (hrec : ∃ g ∈ groups, g.id = v) :
    unvisited groups (v :: visited) < unvisited groups visited := by
  apply Finset.card_lt_card
  rw [Finset.ssubset_iff_of_subset]
  · obtain ⟨g, hg, rfl⟩ := hrec
    exact ⟨g.id, by simp [hv]; exact ⟨g, hg, rfl⟩, by simp⟩
  · intro x hx
    simp only [Finset.mem_filter, List.mem_cons, not_or] at hx ⊢
    exact ⟨hx.1, hx.2.2⟩

theorem unvisited_le_length (visited : List String) : unvisited groups visited ≤ groups.length :=
  calc unvisited groups visited ≤ (groups.map (·.id)).toFinset.card := Finset.card_filter_le _ _
    _ ≤ (groups.map (·.id)).length := List.toFinset_card_le _
    _ = groups.length := List.length_map _

/-- The loop over the member groups ends when each search from a larger visited set does. -/
theorem dfsMembers_isSome {dfs : List String → String → Option (Go Bool × List String)} {n : ℕ}
    (hdfs : ∀ visited v, unvisited groups visited < n →
      ∃ r visited', dfs visited v = some (r, visited') ∧ visited ⊆ visited')
    (memberGroups : List Group) {visited : List String} (hn : unvisited groups visited < n) :
    ∃ r visited', dfsMembers dfs memberGroups visited = some (r, visited') ∧
      visited ⊆ visited' := by
  induction memberGroups generalizing visited with
  | nil => exact ⟨_, _, rfl, List.Subset.refl _⟩
  | cons g rest ih =>
    obtain ⟨r, visited₁, hg, hsub⟩ := hdfs visited g.id hn
    simp only [dfsMembers, hg]
    rcases r with e | b
    · exact ⟨_, _, rfl, hsub⟩
    · cases b
      · -- the loop goes on, from a visited set no smaller
        obtain ⟨r', visited', hrest, hsub'⟩ := ih (lt_of_le_of_lt (unvisited_anti hsub) hn)
        exact ⟨r', visited', hrest, List.Subset.trans hsub hsub'⟩
      · exact ⟨_, _, rfl, hsub⟩

/-- The search never runs out of depth when it has more than the unvisited groups: each level
visits a group with a record. -/
theorem detectCycleDFS_isSome (fuel : ℕ) :
    ∀ (visited : List String) (groupID : String), unvisited groups visited < fuel →
      ∃ r visited', detectCycleDFS groups fuel visited startingGroupID groupID =
        some (r, visited') ∧ visited ⊆ visited' := by
  induction fuel with
  | zero => intro _ _ hn; omega
  | succ fuel ih =>
    intro visited groupID hn
    simp only [detectCycleDFS]
    split_ifs with hstart hvisited
    · exact ⟨_, _, rfl, List.Subset.refl _⟩
    · exact ⟨_, _, rfl, List.Subset.refl _⟩
    · split
      · exact ⟨_, _, rfl, List.subset_cons_self _ _⟩
      · exact ⟨_, _, rfl, List.subset_cons_self _ _⟩
      · rename_i g hg
        have hrec : ∃ g ∈ groups, g.id = groupID := ⟨g, mem_of_memDBGroupByID hg⟩
        have hn' : unvisited groups (groupID :: visited) < fuel :=
          lt_of_lt_of_le (unvisited_cons_lt hvisited hrec) (Nat.lt_succ_iff.mp hn)
        split
        · exact ⟨_, _, rfl, List.subset_cons_self _ _⟩
        · obtain ⟨r, visited', hdfs, hsub⟩ := dfsMembers_isSome (fun _ _ h => ih _ _ h) _ hn'
          exact ⟨r, visited', hdfs, List.Subset.trans (List.subset_cons_self _ _) hsub⟩

/-- `detectCycle` is the search's own result: its depth bound is never reached. -/
theorem detectCycle_eq_detectCycleDFS (groupID : String) :
    ∃ visited', detectCycleDFS groups (groups.length + 1) [] startingGroupID groupID =
      some (detectCycle groups startingGroupID groupID, visited') := by
  have hfuel : unvisited groups [] < groups.length + 1 :=
    Nat.lt_succ_of_le (unvisited_le_length _)
  obtain ⟨r, visited', h, -⟩ : ∃ r visited', detectCycleDFS groups (groups.length + 1) []
      startingGroupID groupID = some (r, visited') ∧ [] ⊆ visited' :=
    detectCycleDFS_isSome _ [] groupID hfuel
  exact ⟨visited', by simp [detectCycle, h]⟩

end Search

/-! ## What a request writes -/

section Writes

variable {groups : GroupTable} {group : Group}

/-- A write of `sanitizeAndUpsertGroup` for the group `groupID`: each parent it gives a group
is one the group had, or `groupID` where the group does not reach `groupID`. -/
def SafeWrite (groups : GroupTable) (groupID : String) (w : Group) : Prop :=
  ∀ p ∈ w.parentGroupIDs,
    IsParent groups p w.id ∨ (p = groupID ∧ ¬ReflTransGen (IsParent groups) w.id groupID)

theorem safeWrite_of_mem {groupID : String} {g : Group} (hg : g ∈ groups) :
    SafeWrite groups groupID g :=
  fun _ hp => .inl ⟨g, hg, rfl, hp⟩

theorem safeWrite_removeMemberWrite {currentMemberGroupID : String} {w : Group}
    (h : removeMemberWrite groups group currentMemberGroupID = .ok w) :
    SafeWrite groups group.id w := by
  unfold removeMemberWrite at h
  split at h
  · cases h
  · cases h
  · rename_i currentMemberGroup hcur
    cases h
    intro p hp
    exact .inl ⟨currentMemberGroup, (mem_of_memDBGroupByID hcur).1, rfl,
      List.mem_of_mem_erase hp⟩

/-- A member the group is added to: the write is safe when the member does not reach the
group. -/
theorem safeWrite_append {memberGroup : Group} (hmem : memberGroup ∈ groups)
    (hreach : ¬ReflTransGen (IsParent groups) memberGroup.id group.id) :
    SafeWrite groups group.id
      { memberGroup with parentGroupIDs := memberGroup.parentGroupIDs ++ [group.id] } := by
  intro p hp
  rcases List.mem_append.mp hp with hold | hnew
  · exact .inl ⟨memberGroup, hmem, rfl, hold⟩
  · exact .inr ⟨List.mem_singleton.mp hnew, hreach⟩

/-- One turn of the addition loop writes nothing, or one safe write. -/
theorem addMemberWrite_eq_ok {writes writes' : List Group} {memberGroupID : String}
    (h : addMemberWrite groups group writes memberGroupID = .ok writes') :
    writes' = writes ∨ ∃ w, writes' = writes ++ [w] ∧ SafeWrite groups group.id w := by
  unfold addMemberWrite at h
  split at h
  · cases h
  · cases h
  · rename_i memberGroup hmember
    obtain ⟨hmem, hid⟩ := mem_of_memDBGroupByID hmember
    split_ifs at h with hin hself
    · cases h
      exact .inl rfl
    · split at h
      · cases h
      · -- the group has no record yet, so nothing reaches it
        rename_i hnone
        cases h
        refine .inr ⟨_, rfl, safeWrite_append hmem ?_⟩
        exact not_reach_of_no_record (by rw [hid]; exact Ne.symm hself)
          (not_mem_of_memDBGroupByID hnone)
      · rename_i groupByID hgroupByID
        split at h
        · cases h
        · cases h
        · rename_i hcycle
          cases h
          have hreach := not_reach_of_detectCycle hcycle ⟨memberGroup, hmem, hid⟩
          rw [(mem_of_memDBGroupByID hgroupByID).2, ← hid] at hreach
          exact .inr ⟨_, rfl, safeWrite_append hmem hreach⟩

theorem memberGroupWrites_safe {memberGroupIDs : List String} {writes : List Group}
    (h : memberGroupWrites groups group memberGroupIDs = .ok writes) :
    ∀ w ∈ writes, SafeWrite groups group.id w := by
  obtain ⟨currentMemberGroups, -, h⟩ := bind_eq_ok h
  obtain ⟨removed, hremoved, h⟩ := bind_eq_ok h
  obtain ⟨added, hadded, h⟩ := bind_eq_ok h
  cases h
  intro w hw
  rcases List.mem_append.mp hw with hw | hw
  · obtain ⟨_, -, hwrite⟩ := mem_of_mapM_eq_ok hremoved hw
    exact safeWrite_removeMemberWrite hwrite
  · -- the addition loop only appends safe writes
    refine foldlM_inv (fun ws => ∀ w ∈ ws, SafeWrite groups group.id w) ?_ (by simp) hadded w hw
    intro _ _ writes writes' hsafe hstep
    rcases addMemberWrite_eq_ok hstep with rfl | ⟨w', rfl, hw'⟩
    · exact hsafe
    · intro w hw
      rcases List.mem_append.mp hw with hw | hw
      · exact hsafe w hw
      · rw [List.mem_singleton.mp hw]
        exact hw'

theorem isParent_upsertGroup {w : Group} {p c : String} (h : IsParent (upsertGroup groups w) p c) :
    (w.id = c ∧ p ∈ w.parentGroupIDs) ∨ IsParent groups p c := by
  obtain ⟨g, hg, hid, hp⟩ := h
  rcases List.mem_cons.mp hg with rfl | hg
  · exact .inl ⟨hid, hp⟩
  · exact .inr ⟨g, List.mem_of_mem_filter hg, hid, hp⟩

/-- After committed writes, an edge is an old one or one a write gives. -/
theorem isParent_foldl_upsertGroup {writes : List Group} {p c : String}
    (h : IsParent (writes.foldl upsertGroup groups) p c) :
    IsParent groups p c ∨ ∃ w ∈ writes, w.id = c ∧ p ∈ w.parentGroupIDs := by
  induction writes generalizing groups with
  | nil => exact .inl h
  | cons w writes ih =>
    rcases ih h with h | ⟨w', hw', hedge⟩
    · rcases isParent_upsertGroup h with hedge | h
      · exact .inr ⟨w, List.mem_cons_self, hedge⟩
      · exact .inl h
    · exact .inr ⟨w', List.mem_cons_of_mem _ hw', hedge⟩

/-- Every edge after a request is an old one, or one from the group to a member that does not
reach the group. -/
theorem isParent_of_sanitizeAndUpsertGroup {memberGroupIDs : Option (List String)}
    {groups' : GroupTable} (hgroup : SafeWrite groups group.id group)
    (h : sanitizeAndUpsertGroup groups group memberGroupIDs = .ok groups') {p c : String}
    (hpc : IsParent groups' p c) :
    IsParent groups p c ∨ (p = group.id ∧ ¬ReflTransGen (IsParent groups) c group.id) := by
  unfold sanitizeAndUpsertGroup at h
  obtain ⟨writes, hwrites, h⟩ := bind_eq_ok h
  cases h
  have hsafe : ∀ w ∈ writes ++ [group], SafeWrite groups group.id w := by
    intro w hw
    rcases List.mem_append.mp hw with hw | hw
    · cases memberGroupIDs with
      | none =>
        cases hwrites
        cases hw
      | some memberGroupIDs => exact memberGroupWrites_safe hwrites w hw
    · rw [List.mem_singleton.mp hw]
      exact hgroup
  rcases isParent_foldl_upsertGroup hpc with hold | ⟨w, hw, rfl, hp⟩
  · exact .inl hold
  · exact hsafe w hw p hp

end Writes

/-! ## Acyclicity -/

section Acyclicity

variable {groups groups' : GroupTable}

theorem acyclic_sanitizeAndUpsertGroup {group : Group} {memberGroupIDs : Option (List String)}
    (hacyc : Acyclic (IsParent groups)) (hgroup : SafeWrite groups group.id group)
    (h : sanitizeAndUpsertGroup groups group memberGroupIDs = .ok groups') :
    Acyclic (IsParent groups') :=
  hacyc.of_le_sup (fun _ _ hpc => isParent_of_sanitizeAndUpsertGroup hgroup h hpc)
    (fun _ hb => hb)

/-- One request keeps the membership graph acyclic. -/
theorem GroupOp.exec_acyclic {op : GroupOp} (hacyc : Acyclic (IsParent groups))
    (h : op.exec groups = .ok groups') : Acyclic (IsParent groups') := by
  cases op with
  | create id memberGroupIDs =>
    -- a new group has no parents
    exact acyclic_sanitizeAndUpsertGroup hacyc (fun _ hp => absurd hp List.not_mem_nil) h
  | update id memberGroupIDs =>
    simp only [GroupOp.exec] at h
    split_ifs at h
    split at h
    · cases h
    · cases h
    · rename_i group hgroup
      exact acyclic_sanitizeAndUpsertGroup hacyc
        (safeWrite_of_mem (mem_of_memDBGroupByID hgroup).1) h
  | delete id =>
    simp only [GroupOp.exec] at h
    split_ifs at h
    split at h
    · cases h
    · cases h
      exact hacyc
    · -- deleting a group only drops edges
      cases h
      exact hacyc.mono fun p c ⟨g, hg, hid, hp⟩ => ⟨g, List.mem_of_mem_filter hg, hid, hp⟩

example : (GroupOp.update "a" (some ["b"])).exec [⟨"b", []⟩, ⟨"a", ["b"]⟩] =
    .error (.error
      "failed to perform cyclic relationship detection for member group ID \"b\"") := by
  decide

theorem runGroupOps_acyclic (hacyc : Acyclic (IsParent groups)) (ops : List GroupOp) :
    Acyclic (IsParent (runGroupOps groups ops)) ∧
      ∀ groupID, ¬IsParent (runGroupOps groups ops) groupID groupID := by
  have hrun : Acyclic (IsParent (runGroupOps groups ops)) := by
    induction ops generalizing groups with
    | nil => exact hacyc
    | cons op ops ih =>
      apply ih
      split
      · exact GroupOp.exec_acyclic hacyc ‹_›
      · exact hacyc
  exact ⟨hrun, hrun.irrefl⟩

theorem acyclic_isParent_nil : Acyclic (IsParent []) := by
  intro x hx
  have hno : ∀ p c, ¬IsParent [] p c := fun _ _ ⟨_, hg, _⟩ => List.not_mem_nil hg
  cases hx with
  | single h => exact hno _ _ h
  | tail _ h => exact hno _ _ h

/-- From an empty store: a group, a second one with the first as member, and the refused
update that would make the second a member of the first. -/
theorem runGroupOps_acyclic_from_empty :
    Acyclic (IsParent []) ∧
      (Acyclic (IsParent (runGroupOps []
          [.create "a" none, .create "b" (some ["a"]), .update "a" (some ["b"])])) ∧
        ∀ groupID, ¬IsParent (runGroupOps []
          [.create "a" none, .create "b" (some ["a"]), .update "a" (some ["b"])])
            groupID groupID) :=
  ⟨acyclic_isParent_nil, runGroupOps_acyclic acyclic_isParent_nil _⟩

end Acyclicity

end Vault.Identity
