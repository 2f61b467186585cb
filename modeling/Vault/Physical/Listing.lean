import Vault.Raft.Chunking
import Vault.Lib.RadixTree

/-!
# Listing a prefix: the raft FSM and the in-memory backend

`List(p)` returns the names directly under `p`, each file by its name and each folder below
`p` once, by its name and a trailing `/`. The raft FSM scans its bolt bucket from `p` in key
order and drops a folder when it equals the last name appended; the in-memory backend walks
its radix tree under `p`, also in key order, and keeps a set of the folders it has seen.

Both are right, and agree, because of one fact about the key order: the name a key shows
under `p` never decreases along the keys (`firstSegment_lt_or_eq`). The keys below one folder
are contiguous even when a sibling name holds a character below `/`, so comparing with the
last name suffices. Both loops are then one run of `Collections.foldl_sortedDedup`, and give
the strictly increasing list of the names (`list_eq_listInternal`).
-/

namespace Vault.Physical

open GoRuntime GoStrings SortedStore Collections Vault.Raft

/-! ## The in-memory backend -/

/-- `InmemBackend`: its radix tree by its leaves, and the switch that makes listing fail. -/
structure InmemBackend (V : Type) where
  root : Bucket V
  failList : Bool

/-- `ListDisabledError`. -/
def listDisabledError : String := "list operations disabled in inmem backend"

/-- `InmemBackend.ListInternal`: the walk under `pfx`, each name once. -/
def InmemBackend.listInternal {V : Type} (i : InmemBackend V) (pfx : String) :
    Go (List String) :=
  if i.failList then throw (.error listDisabledError)
  else
    let walk := (i.root.walkPrefix pfx).foldl (fun (acc : List String × Finset String) e =>
      let trimmed := trimPrefix e.1 pfx
      if index trimmed '/' = -1 then (acc.1 ++ [trimmed], acc.2)
      else
        let trimmed := folderOf trimmed
        if trimmed ∈ acc.2 then acc else (acc.1 ++ [trimmed], insert trimmed acc.2)) ([], ∅)
    pure walk.1

/-! ## What a listing holds -/

/-- The name a key shows in a listing: itself, or its first folder with the slash. -/
def entryName (key : String) : String :=
  if index key '/' = -1 then key else folderOf key

/-- The names a listing of `p` over the keys `K` holds: a name without `/` whose key is in
`K`, or a folder name `d ++ "/"` with some key of `K` below it. -/
def ListedUnder (K : List String) (p y : String) : Prop :=
  ('/' ∉ y.toList ∧ p ++ y ∈ K) ∨
    ∃ d : String, '/' ∉ d.toList ∧ y = d ++ "/" ∧ ∃ k ∈ K, hasPrefix k (p ++ d ++ "/")

/-- The characters of a key up to its first `/` included, or all of them. -/
def firstSegment (l : List Char) : List Char :=
  if '/' ∈ l then l.takeWhile (· != '/') ++ ['/'] else l

theorem toList_entryName (key : String) : (entryName key).toList = firstSegment key.toList := by
  unfold entryName firstSegment
  by_cases h : '/' ∈ key.toList
  · rw [if_neg (mt index_eq_neg_one_iff.mp (not_not.mpr h)), if_pos h, folderOf,
      String.toList_ofList]
  · rw [if_pos (index_eq_neg_one_iff.mpr h), if_neg h]

@[simp] theorem firstSegment_nil : firstSegment [] = [] := rfl

@[simp] theorem firstSegment_slash (l : List Char) : firstSegment ('/' :: l) = ['/'] := by
  simp [firstSegment]

theorem firstSegment_cons {c : Char} (hc : c ≠ '/') (l : List Char) :
    firstSegment (c :: l) = c :: firstSegment l := by
  by_cases h : '/' ∈ l
  · simp [firstSegment, h, hc]
  · have h' : '/' ∉ c :: l := by simp [h, Ne.symm hc]
    simp [firstSegment, h, h']

theorem exists_firstSegment_cons (c : Char) (l : List Char) :
    ∃ r, firstSegment (c :: l) = c :: r := by
  by_cases hc : c = '/'
  · exact ⟨[], by rw [hc, firstSegment_slash]⟩
  · exact ⟨_, firstSegment_cons hc l⟩

/-- Along the key order the name never decreases, and stays equal only below one folder. -/
theorem firstSegment_lt_or_eq : ∀ {l₁ l₂ : List Char}, l₁ < l₂ →
    firstSegment l₁ < firstSegment l₂ ∨ (firstSegment l₁ = firstSegment l₂ ∧ '/' ∈ l₂)
  | [], c :: l₂, _ => by
    obtain ⟨r, hr⟩ := exists_firstSegment_cons c l₂
    exact .inl (hr ▸ List.nil_lt_cons c r)
  | _, [], h => absurd h (List.not_lt_nil _)
  | c :: l₁, d :: l₂, h => by
    obtain ⟨r₁, hr₁⟩ := exists_firstSegment_cons c l₁
    obtain ⟨r₂, hr₂⟩ := exists_firstSegment_cons d l₂
    rcases List.cons_lt_cons_iff.mp h with hcd | ⟨rfl, hl⟩
    · exact .inl (hr₁ ▸ hr₂ ▸ List.cons_lt_cons_iff.mpr (.inl hcd))
    · by_cases hc : c = '/'
      · -- both keys enter the same folder here
        subst hc
        exact .inr ⟨by simp, List.mem_cons_self⟩
      · rw [firstSegment_cons hc, firstSegment_cons hc]
        rcases firstSegment_lt_or_eq hl with hlt | ⟨heq, hmem⟩
        · exact .inl (List.cons_lt_cons_iff.mpr (.inr ⟨rfl, hlt⟩))
        · exact .inr ⟨heq ▸ rfl, List.mem_cons_of_mem c hmem⟩

theorem append_lt_append_left_iff {t₁ t₂ : List Char} :
    ∀ p : List Char, p ++ t₁ < p ++ t₂ ↔ t₁ < t₂
  | [] => Iff.rfl
  | c :: p => by
    rw [List.cons_append, List.cons_append, List.cons_lt_cons_iff, append_lt_append_left_iff p]
    simp

/-- The names of two keys under `p`, in key order. -/
theorem entryName_trimPrefix_lt_or_eq {p k₁ k₂ : String} (h₁ : hasPrefix k₁ p)
    (h₂ : hasPrefix k₂ p) (hlt : k₁ < k₂) :
    entryName (trimPrefix k₁ p) ≤ entryName (trimPrefix k₂ p) ∧
      ('/' ∉ (trimPrefix k₂ p).toList →
        entryName (trimPrefix k₁ p) < entryName (trimPrefix k₂ p)) := by
  have htrim : (trimPrefix k₁ p).toList < (trimPrefix k₂ p).toList := by
    rw [← append_lt_append_left_iff p.toList, ← String.toList_append, ← String.toList_append,
      append_trimPrefix h₁, append_trimPrefix h₂]
    exact String.lt_iff_toList_lt.mp hlt
  rw [String.lt_iff_toList_lt, String.le_iff_toList_le, toList_entryName, toList_entryName]
  rcases firstSegment_lt_or_eq htrim with hlt' | ⟨heq, hmem⟩
  · exact ⟨le_of_lt hlt', fun _ => hlt'⟩
  · exact ⟨le_of_eq heq, fun hno => absurd hmem hno⟩

theorem firstSegment_of_not_mem {l : List Char} (h : '/' ∉ l) : firstSegment l = l := by
  simp [firstSegment, h]

theorem firstSegment_append_slash {u : List Char} (h : '/' ∉ u) (v : List Char) :
    firstSegment (u ++ '/' :: v) = u ++ ['/'] := by
  induction u with
  | nil => simp
  | cons c u ih =>
    simp only [List.mem_cons, not_or] at h
    rw [List.cons_append, firstSegment_cons (Ne.symm h.1), ih h.2, List.cons_append]

/-- A key holding a `/` splits at its first one. -/
theorem exists_first_slash : ∀ {l : List Char}, '/' ∈ l → ∃ u v, '/' ∉ u ∧ l = u ++ '/' :: v
  | [], h => absurd h List.not_mem_nil
  | c :: l, h => by
    by_cases hc : c = '/'
    · exact ⟨[], l, List.not_mem_nil, by rw [hc]; rfl⟩
    · obtain ⟨u, v, hu, rfl⟩ := exists_first_slash ((List.mem_cons.mp h).resolve_left (Ne.symm hc))
      exact ⟨c :: u, v, by simp [hu, Ne.symm hc], rfl⟩

/-- The names of the keys under `p` are what `ListedUnder` describes. -/
theorem exists_entryName_iff (K : List String) (p y : String) :
    (∃ k ∈ K, hasPrefix k p ∧ entryName (trimPrefix k p) = y) ↔ ListedUnder K p y := by
  constructor
  · rintro ⟨k, hk, hpre, rfl⟩
    have hsplit := append_trimPrefix hpre
    by_cases hslash : '/' ∈ (trimPrefix k p).toList
    · -- the key lies below the folder named by its first segment
      obtain ⟨u, v, hu, huv⟩ := exists_first_slash hslash
      refine .inr ⟨String.ofList u, by simpa using hu, ?_, k, hk, ?_⟩
      · rw [String.ext_iff, toList_entryName, huv, firstSegment_append_slash hu]
        simp
      · rw [hasPrefix_iff, ← hsplit]
        simp [huv]
    · have hname : entryName (trimPrefix k p) = trimPrefix k p := by
        rw [String.ext_iff, toList_entryName, firstSegment_of_not_mem hslash]
      rw [hname]
      refine .inl ⟨hslash, ?_⟩
      rw [hsplit]
      exact hk
  · rintro (⟨hy, hK⟩ | ⟨d, hd, rfl, k, hk, hpre⟩)
    · refine ⟨p ++ y, hK, hasPrefix_append p y, ?_⟩
      rw [trimPrefix_append, String.ext_iff, toList_entryName, firstSegment_of_not_mem hy]
    · obtain ⟨r, hr⟩ := hasPrefix_iff.mp hpre
      have hkp : hasPrefix k p := hasPrefix_iff.mpr ⟨d.toList ++ '/' :: r, by rw [← hr]; simp⟩
      -- what the prefix leaves is the folder's name, its slash and the rest
      have htrim : (trimPrefix k p).toList = d.toList ++ '/' :: r := by
        have hk' := congrArg String.toList (append_trimPrefix hkp)
        rw [← hr, String.toList_append] at hk'
        simpa using hk'
      refine ⟨k, hk, hkp, ?_⟩
      rw [String.ext_iff, toList_entryName, htrim, firstSegment_append_slash hd]
      simp

theorem listedUnder_congr {K K' : List String} (h : ∀ k, k ∈ K ↔ k ∈ K') (p y : String) :
    ListedUnder K p y ↔ ListedUnder K' p y := by
  simp only [ListedUnder, h]

/-! ## Both loops -/

section Loops

variable {β : Type}

theorem exists_scanPrefix_iff (db : Bucket β) (p y : String) :
    (∃ e ∈ db.scanPrefix p, entryName (trimPrefix e.1 p) = y) ↔
      ∃ k ∈ db.entries.map Prod.fst, hasPrefix k p ∧ entryName (trimPrefix k p) = y := by
  rw [db.scanPrefix_eq_filter p]
  simp [and_assoc]

/-- The scan under `p` visits names that never decrease, and grow at every file. -/
theorem scanPrefix_pairwise_entryName (db : Bucket β) (p : String) :
    (db.scanPrefix p).Pairwise fun e e' =>
      entryName (trimPrefix e.1 p) ≤ entryName (trimPrefix e'.1 p) ∧
        ('/' ∉ (trimPrefix e'.1 p).toList →
          entryName (trimPrefix e.1 p) < entryName (trimPrefix e'.1 p)) := by
  have hsorted : (db.scanPrefix p).Pairwise fun a b => a.1 < b.1 := by
    rw [db.scanPrefix_eq_filter p]
    exact db.sorted.sublist List.filter_sublist
  refine hsorted.imp_of_mem fun he he' hlt => entryName_trimPrefix_lt_or_eq ?_ ?_ hlt
  · rw [db.scanPrefix_eq_filter p] at he
    exact (List.mem_filter.mp he).2
  · rw [db.scanPrefix_eq_filter p] at he'
    exact (List.mem_filter.mp he').2

/-- `FSM.List` returns the names under `p` in increasing order. -/
theorem list_spec (db : Bucket β) (p : String) :
    (list db p).Pairwise (· < ·) ∧
      ∀ y, y ∈ list db p ↔ ∃ e ∈ db.scanPrefix p, entryName (trimPrefix e.1 p) = y := by
  have hrun := foldl_sortedDedup id (fun _ => True) (fun e : String × β => entryName (trimPrefix e.1 p))
    (fun e => '/' ∉ (trimPrefix e.1 p).toList) (fun keys e =>
      let key := trimPrefix e.1 p
      if index key '/' = -1 then keys ++ [key]
      else if keys.getLast? = some (folderOf key) then keys
      else keys ++ [folderOf key]) ?_ (db.scanPrefix p) [] trivial List.Pairwise.nil
    (fun _ h => absurd h List.not_mem_nil) (scanPrefix_pairwise_entryName db p)
  · simpa [list] using hrun
  · intro keys e _ hkeys hle hnew
    refine ⟨trivial, ?_⟩
    simp only [id] at hkeys hle hnew ⊢
    by_cases hfile : index (trimPrefix e.1 p) '/' = -1
    · -- a file is new: its name is above everything listed
      have hfresh : entryName (trimPrefix e.1 p) ∉ keys := fun hm =>
        lt_irrefl _ (hnew (index_eq_neg_one_iff.mp hfile) _ hm)
      rw [entryName, if_pos hfile] at hfresh ⊢
      rw [if_pos hfile, if_neg hfresh]
    · -- a folder is present only as the last name
      rw [entryName, if_neg hfile] at hle ⊢
      rw [if_neg hfile]
      simp only [mem_iff_getLast?_eq hkeys hle]

/-- `InmemBackend.ListInternal` returns the names under `p` in increasing order. -/
theorem listInternal_spec {γ : Type} (t : Bucket γ) (p : String) :
    ∃ out, (⟨t, false⟩ : InmemBackend γ).listInternal p = .ok out ∧ out.Pairwise (· < ·) ∧
      ∀ y, y ∈ out ↔ ∃ e ∈ t.scanPrefix p, entryName (trimPrefix e.1 p) = y := by
  -- the seen set holds exactly the folders listed so far
  have hrun := foldl_sortedDedup Prod.fst
    (fun acc : List String × Finset String => ∀ y, y ∈ acc.2 ↔ y ∈ acc.1 ∧ '/' ∈ y.toList)
    (fun e : String × γ => entryName (trimPrefix e.1 p))
    (fun e => '/' ∉ (trimPrefix e.1 p).toList) (fun (acc : List String × Finset String) e =>
      let trimmed := trimPrefix e.1 p
      if index trimmed '/' = -1 then (acc.1 ++ [trimmed], acc.2)
      else
        let trimmed := folderOf trimmed
        if trimmed ∈ acc.2 then acc else (acc.1 ++ [trimmed], insert trimmed acc.2)) ?_
    (t.scanPrefix p) ([], ∅) (by simp) List.Pairwise.nil
    (fun _ h => absurd h List.not_mem_nil) (scanPrefix_pairwise_entryName t p)
  · exact ⟨_, by simp only [InmemBackend.listInternal, t.walkPrefix_eq_scanPrefix]; rfl,
      by simpa using hrun⟩
  · rintro ⟨out, seen⟩ e hseen hout hle hnew
    dsimp only at hseen hout hle hnew ⊢
    by_cases hfile : index (trimPrefix e.1 p) '/' = -1
    · have hno := index_eq_neg_one_iff.mp hfile
      have hfresh : entryName (trimPrefix e.1 p) ∉ out := fun hm => lt_irrefl _ (hnew hno _ hm)
      rw [entryName, if_pos hfile] at hfresh
      rw [if_pos hfile, entryName, if_pos hfile, if_neg hfresh]
      refine ⟨fun y => ?_, rfl⟩
      rw [hseen y, List.mem_append, List.mem_singleton]
      constructor
      · exact fun h => ⟨.inl h.1, h.2⟩
      · rintro ⟨hy | rfl, hslash⟩
        · exact ⟨hy, hslash⟩
        · exact absurd hslash hno
    · have hslash : '/' ∈ (folderOf (trimPrefix e.1 p)).toList := by simp [folderOf]
      rw [if_neg hfile, entryName, if_neg hfile]
      by_cases hmem : folderOf (trimPrefix e.1 p) ∈ seen
      · rw [if_pos hmem, if_pos ((hseen _).mp hmem).1]
        exact ⟨hseen, rfl⟩
      · have hfresh : folderOf (trimPrefix e.1 p) ∉ out := fun h => hmem ((hseen _).mpr ⟨h, hslash⟩)
        rw [if_neg hmem, if_neg hfresh]
        refine ⟨fun y => ?_, rfl⟩
        rw [Finset.mem_insert, hseen y, List.mem_append, List.mem_singleton]
        constructor
        · rintro (rfl | h)
          · exact ⟨.inr rfl, hslash⟩
          · exact ⟨.inl h.1, h.2⟩
        · rintro ⟨hy | rfl, hy'⟩
          · exact .inr ⟨hy, hy'⟩
          · exact .inl rfl

theorem list_eq_listInternal {γ : Type} (db : Bucket β) (t : Bucket γ) (p : String)
    (hkeys : ∀ k, k ∈ db.entries.map Prod.fst ↔ k ∈ t.entries.map Prod.fst) :
    (⟨t, false⟩ : InmemBackend γ).listInternal p = .ok (list db p) ∧
      (list db p).Pairwise (· < ·) ∧
      ∀ y, y ∈ list db p ↔ ListedUnder (db.entries.map Prod.fst) p y := by
  obtain ⟨hsorted, hmem⟩ := list_spec db p
  obtain ⟨out, hout, hsorted', hmem'⟩ := listInternal_spec t p
  have hlisted : ∀ y, y ∈ list db p ↔ ListedUnder (db.entries.map Prod.fst) p y := fun y =>
    (hmem y).trans ((exists_scanPrefix_iff db p y).trans (exists_entryName_iff _ p y))
  have hlisted' : ∀ y, y ∈ out ↔ ListedUnder (db.entries.map Prod.fst) p y := fun y =>
    (hmem' y).trans ((exists_scanPrefix_iff t p y).trans
      ((exists_entryName_iff _ p y).trans (listedUnder_congr (fun k => (hkeys k).symm) p y)))
  -- two strictly increasing lists with the same names are one list
  have heq : out = list db p :=
    hsorted'.eq_of_mem_iff hsorted fun y => (hlisted' y).trans (hlisted y).symm
  exact ⟨heq ▸ hout, hsorted, hlisted⟩

/-- Keys with siblings on both sides of `/` in the order: `-` sorts below it, `0` above. -/
def siblingKeys : Bucket Unit := ⟨[("a-b", ()), ("a/x", ()), ("a/y", ()), ("a0", ())], by decide⟩

theorem list_eq_listInternal_siblings :
    (⟨siblingKeys, false⟩ : InmemBackend Unit).listInternal "" = .ok (list siblingKeys "") ∧
      (list siblingKeys "").Pairwise (· < ·) ∧
      ∀ y, y ∈ list siblingKeys "" ↔ ListedUnder (siblingKeys.entries.map Prod.fst) "" y :=
  list_eq_listInternal siblingKeys siblingKeys "" fun _ => Iff.rfl

example : list siblingKeys "" = ["a-b", "a/", "a0"] := by decide

end Loops

end Vault.Physical
