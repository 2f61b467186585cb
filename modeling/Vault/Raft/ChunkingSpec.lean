import Vault.Raft.Chunking
import Vault.Lib.Collections

/-!
# What chunk reassembly is for

Each operation has, for every sequence number, the chunk last delivered since the operation
was last finalized (`Pending`). A chunk is delivered into its slot; once every slot below
the operation's count is filled, the operation is complete, its chunks are concatenated in
sequence order, and its slots are cleared. A chunk of a new term first drops everything
pending. `Reassembly.step` is this, one log at a time.

A storage implements the spec (`ChunkStorage.Implements`) when, through an abstraction of
its states onto `Pending` and on the states of an invariant, `StoreChunk` delivers and reports
completion, `FinalizeOp` of a complete operation returns its slots in order and clears them,
and `RestoreChunks` of the empty map clears everything. For every such storage, `applyChunk`
does what `Reassembly.step` does (`Implements.applyChunk`), and so a whole run of logs gives
what the spec's run gives (`Implements.runChunking`), when every chunk fits the counts `N`
that fix each operation's number of chunks.
-/

namespace Vault.Raft

open GoRuntime

/-- The chunks each operation has pending, by sequence number. -/
abbrev Pending := UInt64 → ℕ → Option ChunkInfo

namespace Pending

/-- Nothing pending. -/
def empty : Pending := fun _ _ => none

/-- A chunk is delivered into its slot, replacing an earlier copy. -/
def deliver (p : Pending) (c : ChunkInfo) : Pending :=
  Function.update p c.opNum (Function.update (p c.opNum) c.sequenceNum.toNat (some c))

/-- Every slot of operation `o` below `n` is filled. -/
def complete (p : Pending) (o : UInt64) (n : ℕ) : Bool :=
  (List.range n).all fun s => (p o s).isSome

/-- The slots of operation `o` below `n`, in sequence order. -/
def chunks (p : Pending) (o : UInt64) (n : ℕ) : List (Option ChunkInfo) :=
  (List.range n).map (p o)

/-- The data of those slots, concatenated. -/
def reassemble (p : Pending) (o : UInt64) (n : ℕ) : Bytes :=
  (p.chunks o n).flatMap fun c => (c.map ChunkInfo.data).getD []

/-- Operation `o` finalized: its slots cleared. -/
def clear (p : Pending) (o : UInt64) : Pending :=
  Function.update p o fun _ => none

@[simp] theorem deliver_apply (p : Pending) (c : ChunkInfo) (o : UInt64) (s : ℕ) :
    p.deliver c o s =
      if o = c.opNum ∧ s = c.sequenceNum.toNat then some c else p o s := by
  by_cases ho : o = c.opNum
  · subst ho
    by_cases hs : s = c.sequenceNum.toNat <;> simp [deliver, hs]
  · simp [deliver, ho]

@[simp] theorem clear_apply (p : Pending) (o o' : UInt64) (s : ℕ) :
    p.clear o o' s = if o' = o then none else p o' s := by
  by_cases h : o' = o <;> simp [clear, h]

@[simp] theorem empty_apply (o : UInt64) (s : ℕ) : empty o s = none := rfl

theorem complete_iff {p : Pending} {o : UInt64} {n : ℕ} :
    p.complete o n = true ↔ ∀ s < n, (p o s).isSome := by
  simp [complete]

/-- A complete operation's slots are its chunks' data in order. -/
theorem concatData_chunks {p : Pending} {o : UInt64} {n : ℕ} (h : p.complete o n = true) :
    concatData (p.chunks o n) = .ok (p.reassemble o n) := by
  rw [concatData, foldlM_ok _ (fun b c => b ++ (c.map ChunkInfo.data).getD []),
    Collections.foldl_append_eq_flatMap, List.nil_append, reassemble]
  intro c hc b
  obtain ⟨s, hs, rfl⟩ := List.mem_map.mp hc
  obtain ⟨x, hx⟩ := Option.isSome_iff_exists.mp (complete_iff.mp h s (List.mem_range.mp hs))
  rw [hx]
  rfl

end Pending

/-- What the chunks must be for reassembly to be defined: `N` fixes each operation's number of
chunks, every sequence number is below it, and no chunk is empty. -/
structure ChunkInfo.Fits (N : UInt64 → UInt32) (c : ChunkInfo) : Prop where
  numChunks_eq : c.numChunks = N c.opNum
  seq_lt : c.sequenceNum.toNat < c.numChunks.toNat
  data_ne : c.data ≠ []

instance (N : UInt64 → UInt32) (c : ChunkInfo) : Decidable (c.Fits N) :=
  decidable_of_iff (c.numChunks = N c.opNum ∧ c.sequenceNum.toNat < c.numChunks.toNat ∧
    c.data ≠ []) ⟨fun ⟨h₁, h₂, h₃⟩ => ⟨h₁, h₂, h₃⟩, fun ⟨h₁, h₂, h₃⟩ => ⟨h₁, h₂, h₃⟩⟩

/-- Every pending chunk sits in its own slot and fits `N`. -/
def Pending.Fits (N : UInt64 → UInt32) (p : Pending) : Prop :=
  ∀ o s c, p o s = some c → c.opNum = o ∧ c.sequenceNum.toNat = s ∧ c.Fits N

namespace Pending

variable {N : UInt64 → UInt32} {p : Pending}

theorem fits_empty : empty.Fits N := fun _ _ _ h => by cases h

theorem Fits.deliver (hp : p.Fits N) {c : ChunkInfo} (hc : c.Fits N) : (p.deliver c).Fits N := by
  intro o s c' h
  rw [deliver_apply] at h
  split at h
  · next hos =>
    cases h
    exact ⟨hos.1.symm, hos.2.symm, hc⟩
  · exact hp o s c' h

theorem Fits.clear (hp : p.Fits N) (o : UInt64) : (p.clear o).Fits N := by
  intro o' s c h
  rw [clear_apply] at h
  split at h
  · cases h
  · exact hp o' s c h

/-- Only slots below the operation's count are filled. -/
theorem Fits.lt (hp : p.Fits N) {o : UInt64} {s : ℕ} (h : (p o s).isSome) : s < (N o).toNat := by
  obtain ⟨c, hc⟩ := Option.isSome_iff_exists.mp h
  obtain ⟨rfl, rfl, hfit⟩ := hp o s c hc
  exact hfit.numChunks_eq ▸ hfit.seq_lt

end Pending

/-! ## The spec, one log at a time -/

/-- The spec's state: what is pending, and the term of the last chunk. -/
structure Reassembly where
  pending : Pending
  lastTerm : UInt64

/-- What is pending when a log of `term` arrives: nothing, if the term is new. -/
def Reassembly.start (r : Reassembly) (term : UInt64) : Pending :=
  if term ≠ r.lastTerm then Pending.empty else r.pending

/-- One log: the chunk is delivered; a complete operation is reassembled and cleared. -/
def Reassembly.step (r : Reassembly) (l : ChunkLog) : Option Bytes × Reassembly :=
  let p := (r.start l.term).deliver l.chunk
  if p.complete l.opNum l.numChunks.toNat then
    (some (p.reassemble l.opNum l.numChunks.toNat), ⟨p.clear l.opNum, l.term⟩)
  else (none, ⟨p, l.term⟩)

/-- Logs one after the other: what each gives to apply. -/
def Reassembly.run (r : Reassembly) (ls : List ChunkLog) : List (Option Bytes) × Reassembly :=
  ls.foldl (fun acc l => ((acc.1 ++ [(acc.2.step l).1]), (acc.2.step l).2)) ([], r)

theorem Reassembly.fits_step {N : UInt64 → UInt32} {r : Reassembly} (hr : r.pending.Fits N)
    {l : ChunkLog} (hl : l.chunk.Fits N) : (r.step l).2.pending.Fits N := by
  have hp : (r.start l.term).Fits N := by
    unfold start
    split
    · exact Pending.fits_empty
    · exact hr
  unfold step
  dsimp only
  split
  · exact (hp.deliver hl).clear _
  · exact hp.deliver hl

/-! ## Storages that implement the spec -/

variable {σ : Type}

/-- `s` implements the spec for the counts `N`, through `abs`, on the states of `inv`. -/
structure ChunkStorage.Implements (s : ChunkStorage σ) (N : UInt64 → UInt32) (inv : σ → Prop)
    (abs : σ → Pending) : Prop where
  fits : ∀ st, inv st → (abs st).Fits N
  store : ∀ st c, inv st → c.Fits N → ∃ st',
    s.storeChunk st c = .ok (((abs st).deliver c).complete c.opNum c.numChunks.toNat, st') ∧
      inv st' ∧ abs st' = (abs st).deliver c
  finalize : ∀ st o, inv st → (abs st).complete o (N o).toNat = true → ∃ st',
    s.finalizeOp st o = .ok ((abs st).chunks o (N o).toNat, st') ∧ inv st' ∧
      abs st' = (abs st).clear o
  restore : ∀ st, inv st → ∃ st', s.restoreChunks st [] = .ok st' ∧ inv st' ∧
    abs st' = Pending.empty

namespace ChunkStorage.Implements

variable {s : ChunkStorage σ} {N : UInt64 → UInt32} {inv : σ → Prop} {abs : σ → Pending}

/-- The storage's state seen as the spec's. -/
def view (abs : σ → Pending) (c : ChunkingFSM σ) : Reassembly := ⟨abs c.store, c.lastTerm⟩

/-- The term check: a new term restores the empty map. -/
theorem checkTerm_eq (h : s.Implements N inv abs) {c : ChunkingFSM σ} (hc : inv c.store)
    (term : UInt64) : ∃ c', checkTerm s c term = .ok c' ∧ inv c'.store ∧
      c'.lastTerm = term ∧ abs c'.store = (view abs c).start term := by
  by_cases ht : term ≠ c.lastTerm
  · obtain ⟨st', hst', hinv, habs⟩ := h.restore c.store hc
    exact ⟨⟨st', term⟩, by simp [checkTerm, ht, hst'], hinv, rfl,
      by simp [Reassembly.start, view, ht, habs]⟩
  · have ht' : term = c.lastTerm := not_not.mp ht
    exact ⟨c, by rw [checkTerm, if_neg ht]; rfl, hc, ht'.symm,
      by simp [Reassembly.start, view, ht]⟩

/-- One log: `applyChunk` gives what the spec's step gives, and its state is the spec's. -/
theorem applyChunk (h : s.Implements N inv abs) {c : ChunkingFSM σ} (hc : inv c.store)
    {l : ChunkLog} (hl : l.chunk.Fits N) : ∃ c',
      Raft.applyChunk s c l = .ok (((view abs c).step l).1, c') ∧ inv c'.store ∧
        view abs c' = ((view abs c).step l).2 := by
  obtain ⟨c₁, hc₁, hinv₁, hterm₁, habs₁⟩ := h.checkTerm_eq hc l.term
  obtain ⟨st₂, hst₂, hinv₂, habs₂⟩ := h.store c₁.store l.chunk hinv₁ hl
  -- the spec's pending chunks after the delivery
  set p := ((view abs c).start l.term).deliver l.chunk with hp
  have hp₂ : abs st₂ = p := by rw [habs₂, habs₁]
  have hstep : (view abs c).step l = if p.complete l.opNum l.numChunks.toNat then
      (some (p.reassemble l.opNum l.numChunks.toNat), ⟨p.clear l.opNum, l.term⟩)
      else (none, ⟨p, l.term⟩) := rfl
  rw [habs₁, ← hp] at hst₂
  by_cases hcomplete : p.complete l.opNum l.numChunks.toNat = true
  · -- complete: finalize and concatenate
    have hN : l.numChunks = N l.opNum := hl.numChunks_eq
    have hc₂ : (abs st₂).complete l.opNum (N l.opNum).toNat = true := by
      rw [hp₂, ← hN]
      exact hcomplete
    obtain ⟨st₃, hst₃, hinv₃, habs₃⟩ := h.finalize st₂ l.opNum hinv₂ hc₂
    rw [hp₂, ← hN] at hst₃
    refine ⟨{ c₁ with store := st₃ }, ?_, hinv₃, ?_⟩
    · simp only [Raft.applyChunk, hc₁, ok_bind, hst₂, ChunkLog.chunk_opNum,
        ChunkLog.chunk_numChunks, hcomplete, Bool.not_true, Bool.false_eq_true, if_false, hst₃,
        Pending.concatData_chunks hcomplete, hstep, if_true]
      rfl
    · rw [hstep, if_pos hcomplete, view, habs₃, hp₂, hterm₁]
  · -- not yet complete: nothing to apply
    have hfalse : p.complete l.opNum l.numChunks.toNat = false := Bool.eq_false_iff.mpr hcomplete
    refine ⟨{ c₁ with store := st₂ }, ?_, hinv₂, ?_⟩
    · simp only [Raft.applyChunk, hc₁, ok_bind, hst₂, ChunkLog.chunk_opNum,
        ChunkLog.chunk_numChunks, hfalse, Bool.not_false, if_true, hstep, Bool.false_eq_true,
        if_false]
      rfl
    · rw [hstep, if_neg hcomplete, view, hp₂, hterm₁]

/-- A run of logs that all fit `N`: `runChunking` gives what the spec's run gives. -/
theorem runChunking (h : s.Implements N inv abs) {c : ChunkingFSM σ} (hc : inv c.store)
    {ls : List ChunkLog} (hls : ∀ l ∈ ls, l.chunk.Fits N) : ∃ c',
      Raft.runChunking s c ls = .ok (((view abs c).run ls).1, c') ∧ inv c'.store ∧
        view abs c' = ((view abs c).run ls).2 := by
  -- the loop invariant: outputs so far agree, and the state is the spec's
  suffices hgen : ∀ (outs : List (Option Bytes)) (c : ChunkingFSM σ), inv c.store → ∃ c',
      ls.foldlM (fun acc l => Raft.applyChunk s acc.2 l >>= fun r =>
        pure (acc.1 ++ [r.1], r.2)) (outs, c) =
        .ok ((ls.foldl (fun acc l => ((acc.1 ++ [(acc.2.step l).1]), (acc.2.step l).2))
          (outs, view abs c)).1, c') ∧ inv c'.store ∧
        view abs c' = (ls.foldl (fun acc l => ((acc.1 ++ [(acc.2.step l).1]), (acc.2.step l).2))
          (outs, view abs c)).2 from hgen [] c hc
  induction ls with
  | nil => exact fun outs c hc => ⟨c, rfl, hc, rfl⟩
  | cons l ls ih =>
    intro outs c hc
    obtain ⟨c₁, happly, hinv₁, hview₁⟩ := h.applyChunk hc (hls l List.mem_cons_self)
    obtain ⟨c', hrun, hinv', hview'⟩ :=
      ih (fun l' hl' => hls l' (List.mem_cons_of_mem l hl')) (outs ++ [((view abs c).step l).1])
        c₁ hinv₁
    refine ⟨c', ?_, hinv', ?_⟩
    · rw [List.foldlM_cons, happly, ok_bind, List.foldl_cons, ← hview₁]
      exact hrun
    · rw [List.foldl_cons, ← hview₁]
      exact hview'

end ChunkStorage.Implements

end Vault.Raft
