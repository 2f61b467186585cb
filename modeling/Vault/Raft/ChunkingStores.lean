import Vault.Raft.ChunkingSpec

/-!
# Both chunk storages implement reassembly

`InmemChunkStorage` implements the spec through `pending`, the slots of its slices, on the
maps whose slices have their operation's count of slots (`inmem_implements`).

`FSMChunkStorage` implements it through `fsmPending`, what decodes under each chunk key, on
the buckets whose keys under `raftchunking/` are all keys of fitting chunks stored under their
own key (`fsm_implements`). Three facts about the keys carry it. A chunk key lies in its own
operation's folder and in no other, even when one operation number is a prefix of another
(`1/` against `11/`), because the folder ends with `/` (`hasPrefix_chunkKey_opPrefix`). A scan
of the folder therefore visits exactly the keys of the filled slots (`FsmInv.scan_seqs`), so
the count `StoreChunk` takes is the number of filled slots. And the scan visits them in key
order, where `10` comes before `2`; `chunksForOpNum` places each chunk at its parsed sequence
number, which undoes the order (`FsmInv.chunksForOpNum_eq`).
-/

namespace Vault.Raft

open GoRuntime GoStrings SortedStore Collections

/-! ## Chunk keys -/

/-- The folder of operation `o`. -/
def opPrefix (o : UInt64) : String := chunkingPrefix ++ o.toNat.repr ++ "/"

/-- The key of chunk `s` of operation `o`. -/
def chunkKey (o : UInt64) (s : ℕ) : String := opPrefix o ++ s.repr

theorem chunkPaths_eq (c : ChunkInfo) :
    chunkPaths c = (opPrefix c.opNum, chunkKey c.opNum c.sequenceNum.toNat) := rfl

theorem slash_not_mem_repr (n : ℕ) : '/' ∉ n.repr.toList := fun h => by
  have hdigit := Nat.isDigit_of_mem_toDigits (by decide) (by decide) (Nat.toList_repr ▸ h)
  exact absurd hdigit (by decide)

@[simp] theorem index_repr_slash (n : ℕ) : GoStrings.index n.repr '/' = -1 := by
  rw [GoStrings.index, if_neg (slash_not_mem_repr n)]

@[simp] theorem trimPrefix_chunkKey (o : UInt64) (s : ℕ) :
    trimPrefix (chunkKey o s) (opPrefix o) = s.repr :=
  trimPrefix_append _ _

/-- A chunk key lies in its own operation's folder and no other. -/
theorem hasPrefix_chunkKey_opPrefix {o o' : UInt64} {s : ℕ} :
    hasPrefix (chunkKey o' s) (opPrefix o) = true ↔ o' = o := by
  constructor
  · intro h
    have hp := hasPrefix_iff.mp h
    have hslash : "/".toList = ['/'] := rfl
    simp only [chunkKey, opPrefix, String.toList_append, List.append_assoc, hslash,
      List.singleton_append] at hp
    -- past `raftchunking/`, two decimal numbers each followed by `/`
    have hrepr := eq_of_append_sep_prefix '/' (slash_not_mem_repr _) (slash_not_mem_repr _)
      ((List.prefix_append_right_inj chunkingPrefix.toList).mp hp)
    have hnat : o.toNat = o'.toNat := Nat.repr_inj.mp (String.toList_inj.mp hrepr)
    exact (UInt64.toNat_inj.mp hnat).symm
  · rintro rfl
    exact hasPrefix_append _ _

theorem hasPrefix_chunkKey_chunkingPrefix (o : UInt64) (s : ℕ) :
    hasPrefix (chunkKey o s) chunkingPrefix = true := by
  simp [chunkKey, opPrefix, String.append_assoc]

/-- A key in an operation's folder is under `raftchunking/`. -/
theorem hasPrefix_chunkingPrefix_of_opPrefix {k : String} {o : UInt64}
    (h : hasPrefix k (opPrefix o) = true) : hasPrefix k chunkingPrefix = true := by
  have hp : chunkingPrefix.toList <+: (opPrefix o).toList := by
    simp [opPrefix, String.toList_append, List.append_assoc]
  exact hasPrefix_iff.mpr (hp.trans (hasPrefix_iff.mp h))

theorem chunkKey_inj {o o' : UInt64} {s s' : ℕ} :
    chunkKey o s = chunkKey o' s' ↔ o = o' ∧ s = s' := by
  constructor
  · intro h
    have hpre : hasPrefix (chunkKey o' s') (opPrefix o) = true := by
      rw [← h]
      exact hasPrefix_append _ _
    have ho : o' = o := hasPrefix_chunkKey_opPrefix.mp hpre
    subst ho
    have hs : s.repr.toList = s'.repr.toList := by
      have := congrArg String.toList h
      simp only [chunkKey, String.toList_append] at this
      exact List.append_cancel_left this
    exact ⟨rfl, Nat.repr_inj.mp (String.toList_inj.mp hs)⟩
  · rintro ⟨rfl, rfl⟩
    rfl

/-! ## The in-memory storage -/

namespace InmemChunkStorage

/-- The map seen as pending chunks: the slots of its slices. -/
def pending (i : InmemChunkStorage) : Pending := fun o s => ((i.chunks o).getD []).getD s none

/-- Each operation's slice has its operation's count of slots, and its chunks fit. -/
structure Inv (N : UInt64 → UInt32) (i : InmemChunkStorage) : Prop where
  length_eq : ∀ o l, i.chunks o = some l → l.length = (N o).toNat
  fits : i.pending.Fits N

variable {N : UInt64 → UInt32} {i : InmemChunkStorage}

theorem inv_new : new.Inv N where
  length_eq _ _ h := by cases h
  fits := Pending.fits_empty

theorem pending_new : new.pending = Pending.empty := rfl

/-- The slice `StoreChunk` starts from, the operation's own or a fresh one, has the
operation's count of slots, holding what is pending. -/
theorem slice_length (hi : i.Inv N) (o : UInt64) :
    ((i.chunks o).getD (List.replicate (N o).toNat none)).length = (N o).toNat := by
  cases ho : i.chunks o with
  | none => simp
  | some l => exact hi.length_eq o l ho

theorem slice_getD (o : UInt64) (n s : ℕ) :
    ((i.chunks o).getD (List.replicate n none)).getD s none = i.pending o s := by
  cases ho : i.chunks o with
  | none =>
    simp only [Option.getD_none, pending, ho]
    by_cases hs : s < n
    · simp [hs]
    · simp [List.getD_eq_getElem?_getD, hs]
  | some l => simp [pending, ho]

theorem getD_set_slot (l : List (Option ChunkInfo)) {k : ℕ} (hk : k < l.length) (c : ChunkInfo)
    (s : ℕ) : (l.set k (some c)).getD s none = if s = k then some c else l.getD s none := by
  simp only [List.getD_eq_getElem?_getD, List.getElem?_set]
  by_cases hs : s = k
  · simp [hs, hk]
  · simp [hs, Ne.symm hs]

/-- The `done` of `StoreChunk` on the slots of a slice: a slot counts when it holds a chunk
with data, and pending chunks have data. -/
theorem all_slotFilled_eq_complete {p : Pending} (hp : p.Fits N) {o : UInt64}
    {l : List (Option ChunkInfo)} (hl : ∀ s, l.getD s none = p o s) :
    l.all slotFilled = p.complete o l.length := by
  have hslot : ∀ s, slotFilled (p o s) = (p o s).isSome := by
    intro s
    cases hs : p o s with
    | none => rfl
    | some c => simpa [slotFilled] using (hp o s c hs).2.2.data_ne
  conv_lhs => rw [eq_map_getD_range l]
  simp only [List.all_map, Pending.complete, Function.comp_def, hl, hslot]

theorem storeChunk_eq (hi : i.Inv N) {c : ChunkInfo} (hc : c.Fits N) : ∃ i',
    i.storeChunk c = .ok ((i.pending.deliver c).complete c.opNum c.numChunks.toNat, i') ∧
      i'.Inv N ∧ i'.pending = i.pending.deliver c := by
  have hn : c.numChunks.toNat = (N c.opNum).toNat := by rw [hc.numChunks_eq]
  set slice := (i.chunks c.opNum).getD (List.replicate c.numChunks.toNat none) with hslice
  have hlen : slice.length = c.numChunks.toNat := by rw [hslice, hn]; exact slice_length hi _
  have hseq : c.sequenceNum.toNat < slice.length := hlen ▸ hc.seq_lt
  set i' : InmemChunkStorage :=
    ⟨Function.update i.chunks c.opNum (some (slice.set c.sequenceNum.toNat (some c)))⟩ with hi'
  -- the new slice holds the delivered chunk and what was pending
  have hpend : i'.pending = i.pending.deliver c := by
    funext o s
    by_cases ho : o = c.opNum
    · subst ho
      have hnew : i'.pending c.opNum s = (slice.set c.sequenceNum.toNat (some c)).getD s none := by
        simp only [pending, hi', Function.update_self, Option.getD_some]
      rw [hnew, getD_set_slot slice hseq, Pending.deliver_apply, hslice, slice_getD]
      simp only [true_and]
    · simp [pending, hi', ho]
  have hfits : (i.pending.deliver c).Fits N := hi.fits.deliver hc
  refine ⟨i', ?_, ⟨?_, hpend ▸ hfits⟩, hpend⟩
  · have hslots : ∀ s, (slice.set c.sequenceNum.toNat (some c)).getD s none =
        i.pending.deliver c c.opNum s := fun s => by
      rw [← hpend]
      simp [pending, hi']
    have hdone := all_slotFilled_eq_complete hfits hslots
    rw [List.length_set, hlen] at hdone
    simp only [storeChunk, ← hslice, setIndex_of_lt hseq, ok_bind, hdone]
    rfl
  · intro o l ho
    by_cases hoc : o = c.opNum
    · subst hoc
      simp only [hi', Function.update_self, Option.some.injEq] at ho
      rw [← ho, List.length_set, hlen, hn]
    · simp only [hi', Function.update_of_ne hoc] at ho
      exact hi.length_eq o l ho

theorem finalizeOp_eq (hi : i.Inv N) {o : UInt64}
    (hcomplete : i.pending.complete o (N o).toNat = true) : ∃ i',
      i.finalizeOp o = .ok (i.pending.chunks o (N o).toNat, i') ∧ i'.Inv N ∧
        i'.pending = i.pending.clear o := by
  set i' : InmemChunkStorage := ⟨Function.update i.chunks o none⟩ with hi'
  have hpend : i'.pending = i.pending.clear o := by
    funext o' s
    by_cases ho : o' = o
    · subst ho
      simp [pending, hi']
    · simp [pending, hi', ho]
  have hslice : (i.chunks o).getD [] = i.pending.chunks o (N o).toNat := by
    cases ho : i.chunks o with
    | none =>
      -- nothing pending: a complete operation has no slots
      have hzero : (N o).toNat = 0 := by
        by_contra hpos
        have := Pending.complete_iff.mp hcomplete 0 (Nat.pos_of_ne_zero hpos)
        simp [pending, ho] at this
      simp [hzero, Pending.chunks]
    | some l =>
      rw [Option.getD_some, Pending.chunks, ← hi.length_eq o l ho]
      conv_lhs => rw [eq_map_getD_range l]
      simp [pending, ho]
  refine ⟨i', ?_, ⟨?_, hpend ▸ hi.fits.clear o⟩, hpend⟩
  · simp only [finalizeOp, hslice]
    rfl
  · intro o' l ho'
    by_cases ho : o' = o
    · subst ho
      simp [hi'] at ho'
    · simp only [hi', Function.update_of_ne ho] at ho'
      exact hi.length_eq o' l ho'

end InmemChunkStorage

open InmemChunkStorage in
/-- The vendored in-memory storage implements reassembly. -/
theorem inmem_implements (N : UInt64 → UInt32) :
    inmemStorage.Implements N (InmemChunkStorage.Inv N) InmemChunkStorage.pending where
  fits _ hi := hi.fits
  store _ _ hi hc := storeChunk_eq hi hc
  finalize _ _ hi hcomplete := finalizeOp_eq hi hcomplete
  restore _ _ := ⟨new, rfl, inv_new, pending_new⟩

/-! ## The storage in the FSM's bucket -/

section FSM

variable {β : Type} {codec : ChunkCodec β} {N : UInt64 → UInt32} {db : Bucket β}

/-- The bucket seen as pending chunks: what decodes under each chunk key. -/
def fsmPending (codec : ChunkCodec β) (db : Bucket β) : Pending :=
  fun o s => (db.get (chunkKey o s)).bind codec.decode

/-- Every key under `raftchunking/` is the key of a fitting chunk stored under it. -/
structure FsmInv (codec : ChunkCodec β) (N : UInt64 → UInt32) (db : Bucket β) : Prop where
  keyed : ∀ e ∈ db.entries, hasPrefix e.1 chunkingPrefix = true →
    ∃ c, codec.decode e.2 = some c ∧ e.1 = chunkKey c.opNum c.sequenceNum.toNat ∧ c.Fits N

/-- A bucket with nothing under `raftchunking/`. -/
theorem fsmInv_of_clean (hdb : ∀ e ∈ db.entries, hasPrefix e.1 chunkingPrefix = false) :
    FsmInv codec N db :=
  ⟨fun e he h => absurd h (by simp [hdb e he])⟩

theorem fsmPending_of_clean (hdb : ∀ e ∈ db.entries, hasPrefix e.1 chunkingPrefix = false) :
    fsmPending codec db = Pending.empty := by
  funext o s
  have hget : db.get (chunkKey o s) = none := (db.get_eq_none_iff).mpr fun e he hk => by
    have := hdb e he
    rw [hk, hasPrefix_chunkKey_chunkingPrefix] at this
    cases this
  simp [fsmPending, hget]

namespace FsmInv

/-- A pending chunk of `o` at `s` is a stored entry under its chunk key. -/
theorem fsmPending_eq_some {o : UInt64} {s : ℕ} {c : ChunkInfo} :
    fsmPending codec db o s = some c ↔ ∃ v, (chunkKey o s, v) ∈ db.entries ∧ codec.decode v = some c := by
  simp only [fsmPending, Option.bind_eq_some_iff, db.get_eq_some_iff]

theorem fits (hdb : FsmInv codec N db) : (fsmPending codec db).Fits N := by
  intro o s c h
  obtain ⟨v, hv, hdec⟩ := fsmPending_eq_some.mp h
  obtain ⟨c', hdec', hkey, hfit⟩ := hdb.keyed _ hv (hasPrefix_chunkKey_chunkingPrefix o s)
  rw [hdec] at hdec'
  cases hdec'
  obtain ⟨rfl, rfl⟩ := chunkKey_inj.mp hkey
  exact ⟨rfl, rfl, hfit⟩

/-- An entry the scan of `o`'s folder visits: a chunk key of `o` with a pending chunk. -/
theorem mem_scan (hdb : FsmInv codec N db) {o : UInt64} {e : String × β}
    (he : e ∈ db.scanPrefix (opPrefix o)) :
    ∃ s c, e.1 = chunkKey o s ∧ codec.decode e.2 = some c ∧ fsmPending codec db o s = some c := by
  rw [db.scanPrefix_eq_filter, List.mem_filter] at he
  obtain ⟨hmem, hpre⟩ := he
  obtain ⟨c, hdec, hkey, -⟩ := hdb.keyed e hmem (hasPrefix_chunkingPrefix_of_opPrefix hpre)
  have ho : c.opNum = o := hasPrefix_chunkKey_opPrefix.mp (hkey ▸ hpre)
  subst ho
  refine ⟨c.sequenceNum.toNat, c, hkey, hdec, fsmPending_eq_some.mpr ⟨e.2, ?_, hdec⟩⟩
  rw [← hkey]
  exact hmem

/-- The loops over the scan of `o`'s folder in `StoreChunk` and `FSM.List`: no key there has
a folder below it, so each appends the key relative to the folder. -/
theorem foldl_keys (hdb : FsmInv codec N db) (o : UInt64)
    (g : List String → String × β → List String) :
    (db.scanPrefix (opPrefix o)).foldl (fun keys e =>
      if GoStrings.index (trimPrefix e.1 (opPrefix o)) '/' = -1 then
        keys ++ [trimPrefix e.1 (opPrefix o)]
      else g keys e) [] = (db.scanPrefix (opPrefix o)).map fun e => trimPrefix e.1 (opPrefix o) := by
  have hP : ∀ e ∈ db.scanPrefix (opPrefix o),
      GoStrings.index (trimPrefix e.1 (opPrefix o)) '/' = -1 := by
    intro e he
    obtain ⟨s, c, hkey, -⟩ := hdb.mem_scan he
    simp [hkey]
  simpa using foldl_ite_append_eq_map
    (fun e : String × β => GoStrings.index (trimPrefix e.1 (opPrefix o)) '/' = -1)
    (fun e => trimPrefix e.1 (opPrefix o)) g hP []

/-- The scan of `o`'s folder, relative to the folder: the decimal forms of the sequence
numbers of `o`'s filled slots, each once (in key order). -/
theorem scan_seqs (hdb : FsmInv codec N db) (o : UInt64) : ∃ S : List ℕ,
    (db.scanPrefix (opPrefix o)).map (fun e => trimPrefix e.1 (opPrefix o)) = S.map Nat.repr ∧
      S.Nodup ∧ ∀ s, s ∈ S ↔ (fsmPending codec db o s).isSome := by
  obtain ⟨S, hS⟩ := exists_map_eq_of_forall_mem (chunkKey o)
    (l := (db.scanPrefix (opPrefix o)).map Prod.fst) fun k hk => by
      obtain ⟨e, he, rfl⟩ := List.mem_map.mp hk
      obtain ⟨s, -, hkey, -⟩ := hdb.mem_scan he
      exact ⟨s, hkey.symm⟩
  have hkeys : ((db.scanPrefix (opPrefix o)).map Prod.fst).Nodup := by
    rw [db.scanPrefix_eq_filter]
    exact (List.filter_sublist.map Prod.fst).nodup db.keys_nodup
  refine ⟨S, ?_, List.Nodup.of_map _ (hS ▸ hkeys), fun s => ?_⟩
  · have htrim : (db.scanPrefix (opPrefix o)).map (fun e => trimPrefix e.1 (opPrefix o)) =
        ((db.scanPrefix (opPrefix o)).map Prod.fst).map fun k => trimPrefix k (opPrefix o) := by
      rw [List.map_map]
      rfl
    rw [htrim, ← hS, List.map_map]
    exact List.map_congr_left fun s _ => trimPrefix_chunkKey o s
  · -- a sequence number is listed when its key is scanned, that is, stored
    have hmemS : s ∈ S ↔ chunkKey o s ∈ (db.scanPrefix (opPrefix o)).map Prod.fst := by
      rw [← hS, List.mem_map]
      constructor
      · exact fun hs => ⟨s, hs, rfl⟩
      · rintro ⟨s', hs', hk⟩
        rwa [← (chunkKey_inj.mp hk).2]
    rw [hmemS, db.scanPrefix_eq_filter, Option.isSome_iff_exists]
    constructor
    · rintro hk
      obtain ⟨e, he, hek⟩ := List.mem_map.mp hk
      obtain ⟨hmem, -⟩ := List.mem_filter.mp he
      obtain ⟨c, hdec, hkey, -⟩ :=
        hdb.keyed e hmem (hek ▸ hasPrefix_chunkKey_chunkingPrefix o s)
      exact ⟨c, fsmPending_eq_some.mpr ⟨e.2, hek ▸ hmem, hdec⟩⟩
    · rintro ⟨c, hc⟩
      obtain ⟨v, hv, -⟩ := fsmPending_eq_some.mp hc
      exact List.mem_map.mpr ⟨(chunkKey o s, v), List.mem_filter.mpr
        ⟨hv, hasPrefix_chunkKey_opPrefix.mpr rfl⟩, rfl⟩

/-- Listed sequence numbers are the filled slots, so there are as many as slots exactly when
the operation is complete. -/
theorem length_eq_iff_complete (hdb : FsmInv codec N db) {o : UInt64} {S : List ℕ}
    (hnd : S.Nodup) (hS : ∀ s, s ∈ S ↔ (fsmPending codec db o s).isSome) :
    S.length = (N o).toNat ↔ (fsmPending codec db).complete o (N o).toNat = true := by
  have hsub : S.toFinset ⊆ Finset.range (N o).toNat := fun s hs =>
    Finset.mem_range.mpr (hdb.fits.lt ((hS s).mp (List.mem_toFinset.mp hs)))
  have hcard : S.toFinset.card = S.length := List.toFinset_card_of_nodup hnd
  rw [Pending.complete_iff]
  constructor
  · intro hlen s hs
    have heq : S.toFinset = Finset.range (N o).toNat :=
      Finset.eq_of_subset_of_card_le hsub (by rw [hcard, hlen, Finset.card_range])
    exact (hS s).mp (List.mem_toFinset.mp (heq ▸ Finset.mem_range.mpr hs))
  · intro hall
    have heq : S.toFinset = Finset.range (N o).toNat :=
      Finset.Subset.antisymm hsub fun s hs =>
        List.mem_toFinset.mpr ((hS s).mpr (hall s (Finset.mem_range.mp hs)))
    rw [← hcard, heq, Finset.card_range]

theorem length_le (hdb : FsmInv codec N db) {o : UInt64} {S : List ℕ} (hnd : S.Nodup)
    (hS : ∀ s, s ∈ S ↔ (fsmPending codec db o s).isSome) : S.length ≤ (N o).toNat := by
  have hsub : S.toFinset ⊆ Finset.range (N o).toNat := fun s hs =>
    Finset.mem_range.mpr (hdb.fits.lt ((hS s).mp (List.mem_toFinset.mp hs)))
  rw [← List.toFinset_card_of_nodup hnd, ← Finset.card_range (N o).toNat]
  exact Finset.card_le_card hsub

/-! ### `StoreChunk` -/

theorem put (hdb : FsmInv codec N db) (hcodec : codec.Lawful) {c : ChunkInfo} (hc : c.Fits N) :
    FsmInv codec N (db.put (chunkKey c.opNum c.sequenceNum.toNat) (codec.encode c)) := by
  refine ⟨fun e he hpre => ?_⟩
  rcases db.mem_put.mp he with rfl | ⟨he, -⟩
  · exact ⟨c, hcodec c, rfl, hc⟩
  · exact hdb.keyed e he hpre

theorem fsmPending_put (hcodec : codec.Lawful) (c : ChunkInfo) :
    fsmPending codec (db.put (chunkKey c.opNum c.sequenceNum.toNat) (codec.encode c)) =
      (fsmPending codec db).deliver c := by
  funext o s
  simp only [fsmPending, db.get_put, chunkKey_inj, Pending.deliver_apply]
  split_ifs <;> simp [hcodec c]

/-- `uint32(len(keys)) == chunk.NumChunks`: there are fewer keys than `2^32`, so nothing
wraps, and the count is the operation's count exactly when it is complete. -/
theorem count_eq_complete (hdb : FsmInv codec N db) {o : UInt64} {S : List ℕ} (hnd : S.Nodup)
    (hS : ∀ s, s ∈ S ↔ (fsmPending codec db o s).isSome) :
    (UInt32.ofNat S.length == N o) = (fsmPending codec db).complete o (N o).toNat := by
  have hlt : S.length < 2 ^ 32 := lt_of_le_of_lt (hdb.length_le hnd hS) (UInt32.toNat_lt _)
  have hofNat : (UInt32.ofNat S.length).toNat = S.length := by
    rw [UInt32.toNat_ofNat', Nat.mod_eq_of_lt hlt]
  rw [Bool.eq_iff_iff, beq_iff_eq, ← UInt32.toNat_inj, hofNat]
  exact hdb.length_eq_iff_complete hnd hS

/-- `StoreChunk` with its paths spelled as chunk keys. -/
theorem storeChunk_unfold (c : ChunkInfo) : storeChunk codec db c =
    pure (UInt32.ofNat (((db.put (chunkKey c.opNum c.sequenceNum.toNat)
      (codec.encode c)).scanPrefix (opPrefix c.opNum)).foldl (fun keys e =>
        if GoStrings.index (trimPrefix e.1 (opPrefix c.opNum)) '/' = -1 then
          keys ++ [trimPrefix e.1 (opPrefix c.opNum)]
        else appendIfMissing keys (folderOf (trimPrefix e.1 (opPrefix c.opNum)))) []).length ==
      c.numChunks, db.put (chunkKey c.opNum c.sequenceNum.toNat) (codec.encode c)) := rfl

theorem storeChunk_eq (hdb : FsmInv codec N db) (hcodec : codec.Lawful) {c : ChunkInfo}
    (hc : c.Fits N) : ∃ db', storeChunk codec db c =
      .ok (((fsmPending codec db).deliver c).complete c.opNum c.numChunks.toNat, db') ∧
      FsmInv codec N db' ∧ fsmPending codec db' = (fsmPending codec db).deliver c := by
  set db' := db.put (chunkKey c.opNum c.sequenceNum.toNat) (codec.encode c) with hdb'
  have hinv' : FsmInv codec N db' := hdb.put hcodec hc
  have hpend' : fsmPending codec db' = (fsmPending codec db).deliver c := fsmPending_put hcodec c
  obtain ⟨S, hS, hnd, hmem⟩ := hinv'.scan_seqs c.opNum
  have hcount := hinv'.count_eq_complete hnd hmem
  rw [hpend', ← hc.numChunks_eq] at hcount
  refine ⟨db', ?_, hinv', hpend'⟩
  rw [storeChunk_unfold, ← hdb', hinv'.foldl_keys, hS, List.length_map, hcount]
  rfl

/-! ### `FinalizeOp` -/

/-- One turn of the loop at a listed sequence number: the pending chunk is placed in its
slot. -/
theorem placeChunk_eq (hdb : FsmInv codec N db) {o : UInt64} {s : ℕ} {c : ChunkInfo}
    (hc : fsmPending codec db o s = some c) (r : Option (List (Option ChunkInfo)))
    (hr : (r.getD (List.replicate (N o).toNat none)).length = (N o).toNat) :
    placeChunk codec db (opPrefix o) r s.repr =
      .ok (some ((r.getD (List.replicate (N o).toNat none)).set s (some c))) := by
  obtain ⟨rfl, rfl, hfit⟩ := hdb.fits o s c hc
  obtain ⟨v, hv, hdec⟩ := fsmPending_eq_some.mp hc
  have hget : db.get (opPrefix c.opNum ++ c.sequenceNum.toNat.repr) = some v :=
    db.get_eq_some_iff.mpr hv
  have hs : c.sequenceNum.toNat < (N c.opNum).toNat := hfit.numChunks_eq ▸ hfit.seq_lt
  have hparse : parseInt c.sequenceNum.toNat.repr = some (c.sequenceNum.toNat : ℤ) :=
    parseInt_repr (by have := UInt32.toNat_lt c.sequenceNum; omega)
  simp only [placeChunk, hparse, hget, hdec, hfit.numChunks_eq, Int.toNat_natCast,
    setIndex_of_lt (hr ▸ hs)]
  simp

/-- Listed in key order, placed by sequence number: `chunksForOpNum` of a complete operation
returns its slots in sequence order. -/
theorem chunksForOpNum_eq (hdb : FsmInv codec N db) {o : UInt64}
    (hcomplete : (fsmPending codec db).complete o (N o).toNat = true) :
    chunksForOpNum codec db o = .ok ((fsmPending codec db).chunks o (N o).toNat) := by
  obtain ⟨S, hS, hnd, hmem⟩ := hdb.scan_seqs o
  have hlist : list db (opPrefix o) = S.map Nat.repr := by rw [list, hdb.foldl_keys, hS]
  have hall : ∀ s < (N o).toNat, s ∈ S := fun s hs =>
    (hmem s).mpr (Pending.complete_iff.mp hcomplete s hs)
  by_cases hSnil : S = []
  · -- nothing listed: a complete operation then has no slots
    have hn : (N o).toNat = 0 := by
      by_contra hpos
      have := hall 0 (Nat.pos_of_ne_zero hpos)
      simp [hSnil] at this
    simp [chunksForOpNum, chunkPaths_eq, hlist, hSnil, Pending.chunks, hn]
    rfl
  · -- each listed number is parsed, read and placed; the slice stays of the operation's count
    set x0 : List (Option ChunkInfo) := List.replicate (N o).toNat none with hx0
    have hstep : ∀ s ∈ S, ∀ r : Option (List (Option ChunkInfo)), (r.getD x0).length = (N o).toNat →
        placeChunk codec db (opPrefix o) r s.repr =
          .ok (some ((r.getD x0).set s (fsmPending codec db o s))) ∧
        ((some ((r.getD x0).set s (fsmPending codec db o s))).getD x0).length = (N o).toNat := by
      intro s hs r hr
      obtain ⟨c, hc⟩ := Option.isSome_iff_exists.mp ((hmem s).mp hs)
      rw [hc, hdb.placeChunk_eq hc r hr]
      exact ⟨rfl, by simpa using hr⟩
    have hloop := foldlM_ok_of_inv (fun r => (r.getD x0).length = (N o).toNat)
      (fun r s => placeChunk codec db (opPrefix o) r s.repr)
      (fun r s => some ((r.getD x0).set s (fsmPending codec db o s))) S hstep none (by simp [hx0])
    have hlen : (S.map Nat.repr).length ≠ 0 := by simpa using hSnil
    simp only [chunksForOpNum, chunkPaths_eq, hlist, hlen, if_false, List.foldlM_map, hloop,
      foldl_getD_of_ne_nil (fun r s => r.set s (fsmPending codec db o s)) x0 hSnil, ok_bind]
    rw [foldl_set_eq_map _ (by simpa [hx0] using hall)]
    simp [hx0, Pending.chunks]
    rfl

theorem fsmPending_deletePrefix (o : UInt64) :
    fsmPending codec (db.deletePrefix (opPrefix o)) = (fsmPending codec db).clear o := by
  funext o' s
  simp only [fsmPending, db.get_deletePrefix, hasPrefix_chunkKey_opPrefix, Pending.clear_apply]
  split_ifs <;> rfl

theorem deletePrefix (hdb : FsmInv codec N db) (p : String) :
    FsmInv codec N (db.deletePrefix p) :=
  ⟨fun e he hpre => hdb.keyed e (db.mem_deletePrefix.mp he).1 hpre⟩

theorem finalizeOp_eq (hdb : FsmInv codec N db) {o : UInt64}
    (hcomplete : (fsmPending codec db).complete o (N o).toNat = true) : ∃ db',
      finalizeOp codec db o = .ok ((fsmPending codec db).chunks o (N o).toNat, db') ∧
        FsmInv codec N db' ∧ fsmPending codec db' = (fsmPending codec db).clear o := by
  refine ⟨db.deletePrefix (opPrefix o), ?_, hdb.deletePrefix _, fsmPending_deletePrefix o⟩
  simp only [finalizeOp, hdb.chunksForOpNum_eq hcomplete, wrapError_ok, ok_bind]
  rfl

end FsmInv

/-- `RestoreChunks(nil)` deletes everything under `raftchunking/`. -/
theorem restoreChunks_nil (db : Bucket β) : ∃ db',
    restoreChunks codec db [] = .ok db' ∧ FsmInv codec N db' ∧
      fsmPending codec db' = Pending.empty := by
  have hclean : ∀ e ∈ (db.deletePrefix chunkingPrefix).entries,
      hasPrefix e.1 chunkingPrefix = false := fun e he => (db.mem_deletePrefix.mp he).2
  exact ⟨db.deletePrefix chunkingPrefix, rfl, fsmInv_of_clean hclean, fsmPending_of_clean hclean⟩

/-- Vault's storage in the FSM's bucket implements reassembly, for a codec whose decoding
inverts its encoding. -/
theorem fsm_implements (hcodec : codec.Lawful) (N : UInt64 → UInt32) :
    (fsmStorage codec).Implements N (FsmInv codec N) (fsmPending codec) where
  fits _ hdb := hdb.fits
  store _ _ hdb hc := hdb.storeChunk_eq hcodec hc
  finalize _ _ hdb hcomplete := hdb.finalizeOp_eq hcomplete
  restore db _ := restoreChunks_nil db

/-! ### A restored bucket read back by `GetChunks` -/

/-- The keys under `raftchunking/` are the keys of chunks of `S`. -/
def KeysOf (S : ChunkInfo → Prop) (db : Bucket β) : Prop :=
  ∀ e ∈ db.entries, hasPrefix e.1 chunkingPrefix = true →
    ∃ c, S c ∧ e.1 = chunkKey c.opNum c.sequenceNum.toNat

/-- `db'` holds every key of `db`, and keeps the keys under `raftchunking/` to chunks of `S`. -/
def Extends (S : ChunkInfo → Prop) (db db' : Bucket β) : Prop :=
  (KeysOf S db → KeysOf S db') ∧ ∀ k, (db.get k).isSome → (db'.get k).isSome

instance (S : ChunkInfo → Prop) : Std.Refl (Extends (β := β) S) :=
  ⟨fun _ => ⟨id, fun _ => id⟩⟩

instance (S : ChunkInfo → Prop) : IsTrans (Bucket β) (Extends S) :=
  ⟨fun _ _ _ h₁ h₂ => ⟨h₂.1 ∘ h₁.1, fun k => h₂.2 k ∘ h₁.2 k⟩⟩

/-- The chunks a chunk map holds. -/
def InMap (chunks : List (UInt64 × List (Option ChunkInfo))) (c : ChunkInfo) : Prop :=
  ∃ e ∈ chunks, some c ∈ e.2

theorem keysOf_deletePrefix (S : ChunkInfo → Prop) (db : Bucket β) :
    KeysOf S (db.deletePrefix chunkingPrefix) := fun e he hpre => by
  rw [(db.mem_deletePrefix.mp he).2] at hpre
  cases hpre

/-- Putting a chunk of `S` under its key extends the bucket, and leaves the key present. -/
theorem extends_put {S : ChunkInfo → Prop} {c : ChunkInfo} (hc : S c) (v : β) :
    Extends S db (db.put (chunkKey c.opNum c.sequenceNum.toNat) v) ∧
      ((db.put (chunkKey c.opNum c.sequenceNum.toNat) v).get
        (chunkKey c.opNum c.sequenceNum.toNat)).isSome := by
  refine ⟨⟨fun hkeys e he hpre => ?_, fun k hk => ?_⟩, by simp [Bucket.get_put]⟩
  · rcases db.mem_put.mp he with rfl | ⟨he, -⟩
    · exact ⟨c, hc, rfl⟩
    · exact hkeys e he hpre
  · rw [Bucket.get_put]
    split <;> simp [hk]

/-- A `RestoreChunks` that returns leaves under `raftchunking/` only keys of the map's chunks,
and the key of each of them. -/
theorem restoreChunks_keys {chunks : List (UInt64 × List (Option ChunkInfo))} {db' : Bucket β}
    (h : restoreChunks codec db chunks = .ok db') :
    KeysOf (InMap chunks) db' ∧
      ∀ c, InMap chunks c → (db'.get (chunkKey c.opNum c.sequenceNum.toNat)).isSome := by
  unfold restoreChunks at h
  split at h
  · next hlen =>
    cases h
    obtain rfl : chunks = [] := List.length_eq_zero_iff.mp hlen
    exact ⟨keysOf_deletePrefix _ db, fun _ ⟨_, he, _⟩ => absurd he List.not_mem_nil⟩
  · -- each turn of either loop extends the bucket and leaves its chunks' keys present
    have houter := foldlM_rel (Extends (InMap chunks))
      (fun (e : UInt64 × List (Option ChunkInfo)) (b : Bucket β) =>
        ∀ c, some c ∈ e.2 → (b.get (chunkKey c.opNum c.sequenceNum.toNat)).isSome)
      (fun _ _ _ hR hP c hc => hR.2 _ (hP c hc)) (fun e he b b' hb => ?_) h
    · refine ⟨houter.1.1 (keysOf_deletePrefix _ db), fun c ⟨e, he, hc⟩ => houter.2 e he c hc⟩
    · have hinner := foldlM_rel (Extends (InMap chunks))
        (fun (oc : Option ChunkInfo) (b : Bucket β) =>
          ∀ c, oc = some c → (b.get (chunkKey c.opNum c.sequenceNum.toNat)).isSome)
        (fun _ _ _ hR hP c hc => hR.2 _ (hP c hc)) (fun oc hoc b₁ b₂ hb₂ => ?_) hb
      · exact ⟨hinner.1, fun c hc => hinner.2 (some c) hc c rfl⟩
      · cases oc with
        | none =>
          cases hb₂
          exact ⟨Std.Refl.refl _, fun _ hc => absurd hc (by simp)⟩
        | some c =>
          simp only at hb₂
          split at hb₂
          · cases hb₂
          · rw [FsmInv.storeChunk_unfold] at hb₂
            cases hb₂
            have hc : InMap chunks c := ⟨e, he, hoc⟩
            obtain ⟨hext, hkey⟩ := @extends_put β b₁ _ c hc (codec.encode c)
            exact ⟨hext, fun c' hc' => Option.some_inj.mp hc' ▸ hkey⟩

/-- `FSM.List` starts with the folder of the first key it scans, when that key lies below one. -/
theorem list_eq_folderOf_cons {pfx : String} {e : String × β} {rest : List (String × β)}
    (hscan : db.scanPrefix pfx = e :: rest) (hslash : '/' ∈ (trimPrefix e.1 pfx).toList) :
    ∃ names, list db pfx = folderOf (trimPrefix e.1 pfx) :: names := by
  have hfirst : GoStrings.index (trimPrefix e.1 pfx) '/' ≠ -1 :=
    fun h => index_eq_neg_one_iff.mp h hslash
  rw [list, hscan, List.foldl_cons, if_neg hfirst, if_neg (by simp)]
  -- every later turn appends to the names so far
  refine (Collections.exists_foldl_eq_append ?_ rest _).imp fun names h => h
  intro keys e'
  dsimp only
  split
  · exact ⟨_, rfl⟩
  · split
    · exact ⟨[], (List.append_nil _).symm⟩
    · exact ⟨_, rfl⟩

/-- `GetChunks` on a bucket whose listing starts with a folder: `strconv.ParseInt` rejects the
folder's trailing `/`. -/
theorem getChunks_of_folderOf {key : String} {names : List String}
    (hlist : list db chunkingPrefix = folderOf key :: names) :
    getChunks codec db = .error (.error "error parsing op num during chunk saving") := by
  have hparse : parseInt (folderOf key) = none :=
    parseInt_eq_none (c := '/') (by simp [folderOf]) (by decide) (by decide) (by decide)
  simp [getChunks, hlist, hparse]
  rfl

/-- `GetChunks` fails on a bucket holding a chunk key whose keys under `raftchunking/` are all
chunk keys: the first of them lies below the folder of its operation. -/
theorem getChunks_of_chunkKey {S : ChunkInfo → Prop} (hkeys : KeysOf S db) {o : UInt64} {s : ℕ}
    (hk : (db.get (chunkKey o s)).isSome) :
    getChunks codec db = .error (.error "error parsing op num during chunk saving") := by
  obtain ⟨v, hv⟩ := Option.isSome_iff_exists.mp hk
  have hmem : (chunkKey o s, v) ∈ db.scanPrefix chunkingPrefix := by
    rw [Bucket.scanPrefix_eq_filter, List.mem_filter]
    exact ⟨(db.get_eq_some_iff).mp hv, hasPrefix_chunkKey_chunkingPrefix o s⟩
  obtain ⟨e, rest, hscan⟩ := List.exists_cons_of_ne_nil (List.ne_nil_of_mem hmem)
  have he : e ∈ db.entries ∧ hasPrefix e.1 chunkingPrefix = true := by
    have := hscan ▸ List.mem_cons_self
    rw [Bucket.scanPrefix_eq_filter, List.mem_filter] at this
    exact this
  obtain ⟨c, -, hc⟩ := hkeys e he.1 he.2
  -- past `raftchunking/`, the first key is `<opNum>/<sequenceNum>`
  have htrim : trimPrefix e.1 chunkingPrefix =
      c.opNum.toNat.repr ++ "/" ++ c.sequenceNum.toNat.repr := by
    rw [hc, chunkKey, opPrefix, String.append_assoc, String.append_assoc, trimPrefix_append,
      String.append_assoc]
  obtain ⟨names, hlist⟩ := list_eq_folderOf_cons hscan (by simp [htrim])
  exact getChunks_of_folderOf hlist

/-- `GetChunks` on a bucket with nothing under `raftchunking/` returns no chunks. -/
theorem getChunks_of_keysOf_empty {S : ChunkInfo → Prop} (hkeys : KeysOf S db)
    (hS : ∀ c, ¬S c) : getChunks codec db = .ok [] := by
  have hscan : db.scanPrefix chunkingPrefix = [] := by
    rw [Bucket.scanPrefix_eq_filter, List.filter_eq_nil_iff]
    intro e he hpre
    obtain ⟨c, hc, -⟩ := hkeys e he hpre
    exact hS c hc
  rw [getChunks, list, hscan]
  rfl

/-- `RestoreChunks` then `GetChunks` does not give the map back: it returns no chunks when the
map holds none, and fails as soon as it holds one. -/
theorem getChunks_after_restoreChunks {chunks : List (UInt64 × List (Option ChunkInfo))}
    {db' : Bucket β} (h : restoreChunks codec db chunks = .ok db') :
    getChunks codec db' = if chunks.any (fun e => e.2.any Option.isSome) then
      .error (.error "error parsing op num during chunk saving") else .ok [] := by
  obtain ⟨hkeys, hpresent⟩ := restoreChunks_keys h
  split
  · next hany =>
    obtain ⟨e, he, hsome⟩ := List.any_eq_true.mp hany
    obtain ⟨oc, hoc, hc⟩ := List.any_eq_true.mp hsome
    obtain ⟨c, rfl⟩ := Option.isSome_iff_exists.mp hc
    exact getChunks_of_chunkKey hkeys (hpresent c ⟨e, he, hoc⟩)
  · next hnone =>
    refine getChunks_of_keysOf_empty hkeys fun c ⟨e, he, hc⟩ => hnone ?_
    exact List.any_eq_true.mpr ⟨e, he, List.any_eq_true.mpr ⟨some c, hc, rfl⟩⟩

/-- One operation of one chunk, restored into an empty bucket: reading it back fails. -/
theorem getChunks_after_restoreChunks_one :
    ∃ db', restoreChunks (⟨id, some⟩ : ChunkCodec ChunkInfo) Bucket.empty
        [(1, [some ⟨1, 0, 1, 0, []⟩])] = .ok db' ∧
      getChunks ⟨id, some⟩ db' = .error (.error "error parsing op num during chunk saving") :=
  ⟨_, rfl, (@getChunks_after_restoreChunks ChunkInfo ⟨id, some⟩ Bucket.empty
    [(1, [some ⟨1, 0, 1, 0, []⟩])] _ rfl).trans rfl⟩

end FSM

/-! ## Runs -/

open ChunkStorage.Implements

/-- From a bucket with nothing under `raftchunking/`, every run of logs whose chunks fit `N`
gives, through the FSM's storage and through the in-memory one alike, what reassembly gives:
an operation is applied exactly when every slot below its count has been delivered since it
was last applied (or its term began), as its chunks' data in sequence order. The bucket then
holds under `raftchunking/` exactly the chunks still pending, so nothing of an applied
operation is left. -/
theorem fsm_chunking_refines_inmem {β : Type} {codec : ChunkCodec β} (hcodec : codec.Lawful)
    {N : UInt64 → UInt32} {db : Bucket β}
    (hdb : ∀ e ∈ db.entries, hasPrefix e.1 chunkingPrefix = false) (term : UInt64)
    {ls : List ChunkLog} (hls : ∀ l ∈ ls, l.chunk.Fits N) :
    ∃ (c : ChunkingFSM (Bucket β)) (i : ChunkingFSM InmemChunkStorage),
      runChunking (fsmStorage codec) ⟨db, term⟩ ls =
        .ok ((Reassembly.run ⟨Pending.empty, term⟩ ls).1, c) ∧
      runChunking inmemStorage ⟨InmemChunkStorage.new, term⟩ ls =
        .ok ((Reassembly.run ⟨Pending.empty, term⟩ ls).1, i) ∧
      fsmPending codec c.store = (Reassembly.run ⟨Pending.empty, term⟩ ls).2.pending ∧
      ∀ e ∈ c.store.entries, hasPrefix e.1 chunkingPrefix = true → ∃ ch,
        (Reassembly.run ⟨Pending.empty, term⟩ ls).2.pending ch.opNum ch.sequenceNum.toNat =
          some ch ∧ e.1 = (chunkPaths ch).2 := by
  have hviewF : view (fsmPending codec) ⟨db, term⟩ = ⟨Pending.empty, term⟩ := by
    rw [view, fsmPending_of_clean hdb]
  have hviewI : view InmemChunkStorage.pending ⟨InmemChunkStorage.new, term⟩ =
      ⟨Pending.empty, term⟩ := rfl
  obtain ⟨c, hrunF, hinvF, hendF⟩ :=
    (fsm_implements hcodec N).runChunking (c := ⟨db, term⟩) (fsmInv_of_clean hdb) hls
  obtain ⟨i, hrunI, -, -⟩ :=
    (inmem_implements N).runChunking (c := ⟨InmemChunkStorage.new, term⟩)
      InmemChunkStorage.inv_new hls
  rw [hviewF] at hrunF hendF
  rw [hviewI] at hrunI
  have hpend : fsmPending codec c.store = (Reassembly.run ⟨Pending.empty, term⟩ ls).2.pending :=
    congrArg Reassembly.pending hendF
  refine ⟨c, i, hrunF, hrunI, hpend, fun e he hpre => ?_⟩
  -- a stored chunk key holds a pending chunk
  obtain ⟨ch, hdec, hkey, -⟩ := hinvF.keyed e he hpre
  refine ⟨ch, ?_, by rw [chunkPaths_eq]; exact hkey⟩
  rw [← hpend]
  exact FsmInv.fsmPending_eq_some.mpr ⟨e.2, hkey ▸ he, hdec⟩

/-- Two operations, `1` in two chunks delivered out of order and `11` in one between them:
the folders `1/` and `11/` stay apart. -/
theorem fsm_chunking_refines_inmem_interleaved :
    ∃ (c : ChunkingFSM (Bucket ChunkInfo)) (i : ChunkingFSM InmemChunkStorage),
      runChunking (fsmStorage ⟨id, some⟩) ⟨Bucket.empty, 0⟩
          [⟨0, 1, 1, 2, [2]⟩, ⟨0, 11, 0, 1, [9]⟩, ⟨0, 1, 0, 2, [1]⟩] =
        .ok ((Reassembly.run ⟨Pending.empty, 0⟩
          [⟨0, 1, 1, 2, [2]⟩, ⟨0, 11, 0, 1, [9]⟩, ⟨0, 1, 0, 2, [1]⟩]).1, c) ∧
      runChunking inmemStorage ⟨InmemChunkStorage.new, 0⟩
          [⟨0, 1, 1, 2, [2]⟩, ⟨0, 11, 0, 1, [9]⟩, ⟨0, 1, 0, 2, [1]⟩] =
        .ok ((Reassembly.run ⟨Pending.empty, 0⟩
          [⟨0, 1, 1, 2, [2]⟩, ⟨0, 11, 0, 1, [9]⟩, ⟨0, 1, 0, 2, [1]⟩]).1, i) ∧
      fsmPending ⟨id, some⟩ c.store = (Reassembly.run ⟨Pending.empty, 0⟩
          [⟨0, 1, 1, 2, [2]⟩, ⟨0, 11, 0, 1, [9]⟩, ⟨0, 1, 0, 2, [1]⟩]).2.pending ∧
      ∀ e ∈ c.store.entries, hasPrefix e.1 chunkingPrefix = true → ∃ ch,
        (Reassembly.run ⟨Pending.empty, 0⟩
          [⟨0, 1, 1, 2, [2]⟩, ⟨0, 11, 0, 1, [9]⟩, ⟨0, 1, 0, 2, [1]⟩]).2.pending ch.opNum
            ch.sequenceNum.toNat = some ch ∧ e.1 = (chunkPaths ch).2 :=
  fsm_chunking_refines_inmem (N := fun o => if o = 1 then 2 else 1) (fun _ => rfl)
    (fun _ he => absurd he List.not_mem_nil) 0 (by decide)

/-- A single-chunk operation delivered twice is applied twice, through either storage: the
second `StoreChunk` returns true again, on a delivery that is not the first at which all the
operation's chunks have been stored. -/
theorem duplicate_chunk_completes_twice :
    (∃ c, runChunking (fsmStorage (⟨id, some⟩ : ChunkCodec ChunkInfo)) ⟨Bucket.empty, 0⟩
        [⟨0, 1, 0, 1, [7]⟩, ⟨0, 1, 0, 1, [7]⟩] = .ok ([some [7], some [7]], c)) ∧
    (∃ i, runChunking inmemStorage ⟨InmemChunkStorage.new, 0⟩
        [⟨0, 1, 0, 1, [7]⟩, ⟨0, 1, 0, 1, [7]⟩] = .ok ([some [7], some [7]], i)) :=
  ⟨⟨_, rfl⟩, ⟨_, rfl⟩⟩

end Vault.Raft
