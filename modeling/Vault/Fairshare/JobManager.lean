import Mathlib.Data.List.AList
import Mathlib.Data.List.Rotate
import Vault.Lib.GoRuntime
import Vault.Lib.Collections
import Vault.Lib.Quorum
import Vault.Lib.RoundRobin

/-!
# The fair-share job manager

`JobManager` (helper/fairshare/jobmanager.go) keeps one FIFO queue of jobs per queue ID and
hands the jobs out round robin. `queuesIndex` lists the queue IDs in the order the queues were
created, and `lastQueueAccessed` is the position of the queue served last, `-1` before the
first. `getNextJob` advances that cursor modulo the number of queues, takes the front job off
the queue it points at, and removes the queue once it is empty, stepping the cursor back so
that the queue after the removed one comes next.

The model keeps the fields queueing reads and writes; the lock, the `newWork` signal, the
metrics, the logger and the worker pool are left out. The Go map of `*list.List` is an `AList`
(entries with distinct keys), a queue a list with its front first, and a job an `Option J`,
`none` being a nil `Job`.

The results, for every run of `AddJob` and `getNextJob` calls from `newJobManager`:
* the structural invariant `Inv` holds throughout (`Inv.run`);
* `getNextJob` returns nil exactly when no job is pending (`getNextJob_eq_ok_none_iff`), and
  what it returns for a queue, followed by the jobs still waiting there, is the jobs added to
  the queue, in order, each through the type assertion `out.(Job)` (`returned_append_pending`),
  which panics on a nil job;
* the order the queues are served in (`order`: the index rotated to start after the cursor)
  moves by a `RoundRobin.Step` at every call (`step_takenAt`), so the run is fair in the sense
  of `RoundRobin.served_once_between`.
-/

namespace Vault.Fairshare

open GoRuntime

/-- The Go map of queues: each queue ID with its jobs, front first; a job is `none` when it is
a nil `Job`. -/
abbrev Queues (J : Type) := AList fun _ : String => List (Option J)

/-- The fields of `JobManager` that queueing reads and writes. -/
structure JobManager (J : Type) where
  queues : Queues J
  queuesIndex : List String
  lastQueueAccessed : ℤ
  totalJobs : ℤ

variable {J : Type}

/-- `NewJobManager`: no queue, and the cursor before the first. -/
def newJobManager : JobManager J := ⟨∅, [], -1, 0⟩

namespace JobManager

/-- `addQueue`: a queue ID not yet present gets an empty queue and the last place in the
index. -/
def addQueue (j : JobManager J) (queueID : String) : JobManager J :=
  if queueID ∈ j.queues then j
  else { j with queues := j.queues.insert queueID [], queuesIndex := j.queuesIndex ++ [queueID] }

/-- `AddJob`: the job goes to the back of its queue, which is created first if missing. -/
def addJob (j : JobManager J) (job : Option J) (queueID : String) : JobManager J :=
  let j := if queueID ∈ j.queues then j else j.addQueue queueID
  { j with
    queues := j.queues.insert queueID ((j.queues.lookup queueID).getD [] ++ [job])
    totalJobs := j.totalJobs + 1 }

/-- `removeLastQueueAccessed`: the queue under the cursor leaves the map and the index, and the
cursor steps back so that the queue after it comes next; from the front it wraps to the last
queue, which is `-1` once no queue is left. A cursor outside the index is only logged. -/
def removeLastQueueAccessed (j : JobManager J) : Go Unit × JobManager J :=
  if j.lastQueueAccessed = -1 ∨ j.lastQueueAccessed > j.queuesIndex.length - 1 then (.ok (), j)
  else
    match indexInt j.queuesIndex j.lastQueueAccessed with
    | .error e => (.error e, j)
    | .ok queueID =>
      let c := j.lastQueueAccessed.toNat
      let queuesIndex := j.queuesIndex.take c ++ j.queuesIndex.drop (c + 1)
      (.ok (), { j with
        queues := j.queues.erase queueID
        queuesIndex := queuesIndex
        lastQueueAccessed :=
          if j.lastQueueAccessed > 0 then j.lastQueueAccessed - 1
          else (queuesIndex.length : ℤ) - 1 })

/-- `out.(Job)`: the type assertion on the job taken off a queue, which panics on a nil job. -/
def assertJob : Option J → Go (Option J)
  | some job => .ok (some job)
  | none => .error (.panic "interface conversion: interface is nil, not fairshare.Job")

/-- `getNextJob`: nil when there is no queue; otherwise the cursor advances modulo the number
of queues, the front job of the queue it points at is taken off, and the queue is removed
once empty. -/
def getNextJob (j : JobManager J) : Go (Option J) × JobManager J :=
  if j.queues.entries.length = 0 then (.ok none, j)
  else if j.queuesIndex.length = 0 then (.error (.panic "integer divide by zero"), j)
  else
    let j := { j with
      lastQueueAccessed := (j.lastQueueAccessed + 1).tmod j.queuesIndex.length }
    match indexInt j.queuesIndex j.lastQueueAccessed with
    | .error e => (.error e, j)
    | .ok queueID =>
      match j.queues.lookup queueID with
      | some (out :: rest) =>
        let j := { j with queues := j.queues.insert queueID rest, totalJobs := j.totalJobs - 1 }
        let removed := if rest.length = 0 then j.removeLastQueueAccessed else (.ok (), j)
        (removed.1.bind fun _ => assertJob out, removed.2)
      -- `Front` of a missing queue reads through a nil list, and `Remove` of the nil front of
      -- an empty one through a nil element
      | _ => (.error (.panic "invalid memory address or nil pointer dereference"), j)

/-- `GetPendingJobCount`: the jobs in all queues. -/
def getPendingJobCount (j : JobManager J) : ℕ := (j.queues.entries.map fun e => e.2.length).sum

/-! ## What the manager holds, and the order it serves its queues in -/

/-- The jobs waiting in a queue, front first. -/
def pending (j : JobManager J) (queueID : String) : List (Option J) :=
  (j.queues.lookup queueID).getD []

/-- The position of the index `getNextJob` advances the cursor to. -/
def nextIndex (j : JobManager J) : ℕ := (j.lastQueueAccessed + 1).toNat % j.queuesIndex.length

/-- The queue `getNextJob` takes its job from, none when there is no queue. -/
def nextQueue (j : JobManager J) : Option String :=
  if j.queues.entries.length = 0 then none else j.queuesIndex[j.nextIndex]?

/-- The order the queues are served in from here on: the index rotated to start right after
the cursor. -/
def order (j : JobManager J) : List String := j.queuesIndex.rotate (j.lastQueueAccessed + 1).toNat

/-- The manager once `getNextJob` has taken a job off queue `h`, leaving `rest` in it. -/
@[simps]
def afterTake (j : JobManager J) (h : String) (rest : List (Option J)) : JobManager J :=
  { j with
    queues := j.queues.insert h rest
    lastQueueAccessed := j.nextIndex
    totalJobs := j.totalJobs - 1 }

/-- The manager once `getNextJob` has taken the last job off queue `h` and removed it. -/
@[simps]
def afterRemove (j : JobManager J) (h : String) : JobManager J :=
  { j with
    queues := (j.queues.insert h []).erase h
    queuesIndex := j.queuesIndex.eraseIdx j.nextIndex
    lastQueueAccessed := if 0 < j.nextIndex then (j.nextIndex : ℤ) - 1
      else ((j.queuesIndex.eraseIdx j.nextIndex).length : ℤ) - 1
    totalJobs := j.totalJobs - 1 }

/-- The invariant: the index lists each queue of the map once, the map holds no empty queue,
`totalJobs` counts the pending jobs, and the cursor is `-1` or a position of the index. -/
structure Inv (j : JobManager J) : Prop where
  nodup : j.queuesIndex.Nodup
  mem_iff : ∀ queueID, queueID ∈ j.queuesIndex ↔ queueID ∈ j.queues
  ne_nil : ∀ queueID q, j.queues.lookup queueID = some q → q ≠ []
  totalJobs_eq : j.totalJobs = j.getPendingJobCount
  cursor : j.lastQueueAccessed = -1 ∨
    0 ≤ j.lastQueueAccessed ∧ j.lastQueueAccessed < j.queuesIndex.length

variable {j : JobManager J} {h queueID : String} {out job : Option J} {rest : List (Option J)}

theorem inv_newJobManager : (newJobManager : JobManager J).Inv where
  nodup := List.nodup_nil
  mem_iff queueID := by simp [newJobManager]
  ne_nil queueID q hq := by simp [newJobManager] at hq
  totalJobs_eq := rfl
  cursor := .inl rfl

/-! ### Lemmas on the invariant -/

/-- The map holds as many queues as the index lists. -/
theorem Inv.length_entries (hj : j.Inv) : j.queues.entries.length = j.queuesIndex.length := by
  have hperm : j.queues.keys.Perm j.queuesIndex :=
    (List.perm_ext_iff_of_nodup j.queues.keys_nodup hj.nodup).mpr fun a =>
      AList.mem_keys.symm.trans (hj.mem_iff a).symm
  rw [← hperm.length_eq]
  simp [AList.keys, List.keys]

/-- Go's `%` on the advanced cursor, which is not negative, is the position `nextIndex`. -/
theorem Inv.tmod_eq_nextIndex (hj : j.Inv) :
    (j.lastQueueAccessed + 1).tmod j.queuesIndex.length = j.nextIndex := by
  have h0 : 0 ≤ j.lastQueueAccessed + 1 := by
    rcases hj.cursor with hc | hc <;> omega
  rw [Int.tmod_eq_emod_of_nonneg h0, nextIndex, Int.natCast_mod, Int.toNat_of_nonneg h0]

theorem Inv.nextQueue_eq (hj : j.Inv) : j.nextQueue = j.queuesIndex[j.nextIndex]? := by
  unfold nextQueue
  split_ifs with hq
  · rw [hj.length_entries] at hq
    simp [List.length_eq_zero_iff.mp hq]
  · rfl

theorem order_eq_rotate : j.order = j.queuesIndex.rotate j.nextIndex :=
  (List.rotate_mod _ _).symm

/-- The order starts at the queue the cursor advances to. -/
theorem order_eq_cons (hh : j.queuesIndex[j.nextIndex]? = some h) :
    j.order = h :: (j.queuesIndex.drop (j.nextIndex + 1) ++ j.queuesIndex.take j.nextIndex) := by
  obtain ⟨hk, hget⟩ := List.getElem?_eq_some_iff.mp hh
  rw [order_eq_rotate, List.rotate_eq_drop_append_take (Nat.le_of_lt hk),
    List.drop_eq_getElem_cons hk, hget, List.cons_append]

theorem mem_order : h ∈ j.order ↔ h ∈ j.queuesIndex := List.mem_rotate

theorem Inv.nodup_order (hj : j.Inv) : j.order.Nodup := List.nodup_rotate.mpr hj.nodup

/-! ### What `getNextJob` does -/

theorem assertJob_ne_ok_none (out : Option J) : assertJob out ≠ .ok none := by
  cases out <;> simp [assertJob]

/-- `removeLastQueueAccessed` with the cursor on the queue `h` at position `k` of the index. -/
theorem removeLastQueueAccessed_of_getElem? {k : ℕ} (hc : j.lastQueueAccessed = k)
    (hh : j.queuesIndex[k]? = some h) :
    j.removeLastQueueAccessed = (.ok (), { j with
      queues := j.queues.erase h
      queuesIndex := j.queuesIndex.eraseIdx k
      lastQueueAccessed := if 0 < k then (k : ℤ) - 1
        else ((j.queuesIndex.eraseIdx k).length : ℤ) - 1 }) := by
  have hk : k < j.queuesIndex.length := (List.getElem?_eq_some_iff.mp hh).1
  have hguard : ¬(j.lastQueueAccessed = -1 ∨ j.lastQueueAccessed > j.queuesIndex.length - 1) := by
    omega
  have hidx : indexInt j.queuesIndex j.lastQueueAccessed = .ok h := by
    simp [hc, indexInt, index, hh]
  unfold removeLastQueueAccessed
  rw [if_neg hguard, hidx]
  simp only [hc, Int.toNat_natCast, ← List.eraseIdx_eq_take_drop_succ, gt_iff_lt, Nat.cast_pos]

theorem Inv.getNextJob_of_nil (hj : j.Inv) (hnil : j.queuesIndex = []) :
    j.getNextJob = (.ok none, j) := by
  have hq : j.queues.entries.length = 0 := by
    rw [hj.length_entries, hnil, List.length_nil]
  simp only [getNextJob, hq, if_true]

/-- With a queue at the cursor's next position, `getNextJob` passes its guards and indexes
that queue. -/
theorem Inv.getNextJob_guards (hj : j.Inv) (hh : j.queuesIndex[j.nextIndex]? = some h) :
    j.queues.entries.length ≠ 0 ∧ j.queuesIndex.length ≠ 0 ∧
      indexInt j.queuesIndex (j.nextIndex : ℤ) = .ok h := by
  have hk : j.nextIndex < j.queuesIndex.length := (List.getElem?_eq_some_iff.mp hh).1
  have hn : j.queuesIndex.length ≠ 0 := by omega
  have hq : j.queues.entries.length ≠ 0 := by rwa [hj.length_entries]
  have hidx : indexInt j.queuesIndex (j.nextIndex : ℤ) = .ok h := by
    simp [indexInt, index, hh]
  exact ⟨hq, hn, hidx⟩

theorem Inv.getNextJob_afterTake (hj : j.Inv) (hh : j.queuesIndex[j.nextIndex]? = some h)
    (hlook : j.queues.lookup h = some (out :: rest)) (hrest : rest ≠ []) :
    j.getNextJob = (assertJob out, j.afterTake h rest) := by
  obtain ⟨hq, hn, hidx⟩ := hj.getNextJob_guards hh
  have hlen : rest.length ≠ 0 := fun h0 => hrest (List.length_eq_zero_iff.mp h0)
  simp only [getNextJob, if_neg hq, if_neg hn, hj.tmod_eq_nextIndex, hidx, hlook, if_neg hlen]
  rfl

theorem Inv.getNextJob_afterRemove (hj : j.Inv) (hh : j.queuesIndex[j.nextIndex]? = some h)
    (hlook : j.queues.lookup h = some [out]) :
    j.getNextJob = (assertJob out, j.afterRemove h) := by
  obtain ⟨hq, hn, hidx⟩ := hj.getNextJob_guards hh
  simp only [getNextJob, if_neg hq, if_neg hn, hj.tmod_eq_nextIndex, hidx, hlook,
    List.length_nil, if_true]
  have hrem := removeLastQueueAccessed_of_getElem? (j := { j with
    queues := j.queues.insert h [], lastQueueAccessed := j.nextIndex, totalJobs := j.totalJobs - 1 })
    rfl hh
  rw [hrem]
  rfl

/-- What `getNextJob` does on a manager with the invariant: nothing when there is no queue;
otherwise it takes the front job `out` off the queue `h` the cursor advances to, which stays
while jobs are left in it and is removed once it is empty. -/
theorem Inv.getNextJob_cases (hj : j.Inv) :
    (j.queuesIndex = [] ∧ j.nextQueue = none ∧ j.getNextJob = (.ok none, j)) ∨
    ∃ h out rest, j.nextQueue = some h ∧ j.queuesIndex[j.nextIndex]? = some h ∧
      j.queues.lookup h = some (out :: rest) ∧
      (rest ≠ [] ∧ j.getNextJob = (assertJob out, j.afterTake h rest) ∨
        rest = [] ∧ j.getNextJob = (assertJob out, j.afterRemove h)) := by
  by_cases hnil : j.queuesIndex = []
  · refine .inl ⟨hnil, ?_, hj.getNextJob_of_nil hnil⟩
    rw [hj.nextQueue_eq, hnil]
    rfl
  have hk : j.nextIndex < j.queuesIndex.length :=
    Nat.mod_lt _ (List.length_pos_iff.mpr hnil)
  obtain ⟨h, hh⟩ : ∃ h, j.queuesIndex[j.nextIndex]? = some h :=
    ⟨_, List.getElem?_eq_getElem hk⟩
  -- the queue the cursor points at is in the map, and not empty
  have hmem : h ∈ j.queues := (hj.mem_iff h).mp (List.mem_of_getElem? hh)
  obtain ⟨q, hlook⟩ := Option.isSome_iff_exists.mp (AList.lookup_isSome.mpr hmem)
  obtain ⟨out, rest, rfl⟩ := List.exists_cons_of_ne_nil (hj.ne_nil h q hlook)
  refine .inr ⟨h, out, rest, hj.nextQueue_eq.trans hh, hh, hlook, ?_⟩
  by_cases hrest : rest = []
  · subst hrest
    exact .inr ⟨rfl, hj.getNextJob_afterRemove hh hlook⟩
  · exact .inl ⟨hrest, hj.getNextJob_afterTake hh hlook hrest⟩

/-! ### The invariant, the order and the queues after `getNextJob` -/

theorem pending_afterTake (y : String) :
    (j.afterTake h rest).pending y = if y = h then rest else j.pending y := by
  by_cases hy : y = h
  · subst hy
    simp [pending, AList.lookup_insert]
  · simp [pending, AList.lookup_insert_ne hy, hy]

theorem pending_afterRemove (y : String) :
    (j.afterRemove h).pending y = if y = h then [] else j.pending y := by
  by_cases hy : y = h
  · subst hy
    simp [pending, AList.lookup_erase]
  · simp [pending, AList.lookup_erase_ne hy, AList.lookup_insert_ne hy, hy]

/-- A queue that keeps jobs goes to the back of the order. -/
theorem step_afterTake (hh : j.queuesIndex[j.nextIndex]? = some h) :
    RoundRobin.Step j.order (some h) (j.afterTake h rest).order := by
  have horder : (j.afterTake h rest).order = j.order.rotate 1 := by
    rw [order_eq_rotate (j := j), List.rotate_rotate]
    rfl
  rw [horder, order_eq_cons hh, List.rotate_cons_succ, List.rotate_zero]
  exact .requeue h _

/-- A queue that is removed leaves the order, the others keeping their places. -/
theorem step_afterRemove (hh : j.queuesIndex[j.nextIndex]? = some h) :
    RoundRobin.Step j.order (some h) (j.afterRemove h).order := by
  have hk : j.nextIndex < j.queuesIndex.length := (List.getElem?_eq_some_iff.mp hh).1
  have horder : (j.afterRemove h).order =
      j.queuesIndex.drop (j.nextIndex + 1) ++ j.queuesIndex.take j.nextIndex := by
    simp only [order, afterRemove_queuesIndex, afterRemove_lastQueueAccessed]
    by_cases hpos : 0 < j.nextIndex
    · -- the cursor steps back onto the queue before the removed one
      have hlen : ((j.nextIndex : ℤ) - 1 + 1).toNat = (j.queuesIndex.take j.nextIndex).length := by
        rw [List.length_take, Nat.min_eq_left (Nat.le_of_lt hk)]
        omega
      rw [if_pos hpos, hlen, List.eraseIdx_eq_take_drop_succ, List.rotate_append_length_eq]
    · -- the cursor wraps to the last queue, so that the order starts at the front
      have hk0 : j.nextIndex = 0 := Nat.eq_zero_of_not_pos hpos
      have hlen : (((j.queuesIndex.eraseIdx j.nextIndex).length : ℤ) - 1 + 1).toNat =
          (j.queuesIndex.eraseIdx j.nextIndex).length := by
        omega
      rw [if_neg hpos, hlen, List.rotate_length, hk0, List.eraseIdx_zero, List.take_zero,
        List.append_nil, List.drop_one]
  rw [order_eq_cons hh, horder]
  exact .retire h _

theorem Inv.afterTake (hj : j.Inv) (hh : j.queuesIndex[j.nextIndex]? = some h)
    (hlook : j.queues.lookup h = some (out :: rest)) (hrest : rest ≠ []) :
    (j.afterTake h rest).Inv := by
  have hk : j.nextIndex < j.queuesIndex.length := (List.getElem?_eq_some_iff.mp hh).1
  have hmem : h ∈ j.queues := AList.lookup_isSome.mp (by simp [hlook])
  -- the count drops by the job taken off
  have hcount := Collections.sum_entries_insert List.length j.queues h rest
  rw [hlook] at hcount
  refine ⟨hj.nodup, fun y => ?_, fun y q hq => ?_, ?_, .inr ⟨by simp, by simpa using hk⟩⟩
  · rw [afterTake_queuesIndex, afterTake_queues, AList.mem_insert, hj.mem_iff]
    constructor
    · exact Or.inr
    · rintro (rfl | hy)
      exacts [hmem, hy]
  · by_cases hy : y = h
    · subst hy
      rw [afterTake_queues, AList.lookup_insert, Option.some.injEq] at hq
      exact hq ▸ hrest
    · rw [afterTake_queues, AList.lookup_insert_ne hy] at hq
      exact hj.ne_nil y q hq
  · simp only [afterTake_totalJobs, getPendingJobCount, afterTake_queues, hj.totalJobs_eq]
    simp only [Option.map_some, Option.getD_some, List.length_cons] at hcount
    omega

theorem Inv.afterRemove (hj : j.Inv) (hh : j.queuesIndex[j.nextIndex]? = some h)
    (hlook : j.queues.lookup h = some [out]) : (j.afterRemove h).Inv := by
  obtain ⟨hk, hget⟩ := List.getElem?_eq_some_iff.mp hh
  -- removing the position of `h` from the index removes `h`, its only occurrence
  have herase : j.queuesIndex.eraseIdx j.nextIndex = j.queuesIndex.erase h := by
    rw [← hget, hj.nodup.erase_getElem]
  have hcount₁ := Collections.sum_entries_insert List.length j.queues h []
  have hcount₂ := Collections.sum_entries_erase List.length (j.queues.insert h []) h
  rw [hlook] at hcount₁
  rw [AList.lookup_insert] at hcount₂
  refine ⟨hj.nodup.eraseIdx _, fun y => ?_, fun y q hq => ?_, ?_, ?_⟩
  · rw [afterRemove_queuesIndex, afterRemove_queues, herase, hj.nodup.mem_erase_iff,
      AList.mem_erase, AList.mem_insert, hj.mem_iff]
    constructor
    · exact fun ⟨hne, hy⟩ => ⟨hne, .inr hy⟩
    · rintro ⟨hne, rfl | hy⟩
      exacts [absurd rfl hne, ⟨hne, hy⟩]
  · by_cases hy : y = h
    · subst hy
      simp [AList.lookup_erase] at hq
    · rw [afterRemove_queues, AList.lookup_erase_ne hy, AList.lookup_insert_ne hy] at hq
      exact hj.ne_nil y q hq
  · simp only [afterRemove_totalJobs, getPendingJobCount, afterRemove_queues, hj.totalJobs_eq]
    simp only [Option.map_some, Option.getD_some, List.length_cons, List.length_nil]
      at hcount₁ hcount₂
    omega
  · have hlen : (j.queuesIndex.eraseIdx j.nextIndex).length = j.queuesIndex.length - 1 :=
      List.length_eraseIdx_of_lt hk
    simp only [afterRemove_lastQueueAccessed, afterRemove_queuesIndex, hlen]
    split_ifs <;> omega

theorem Inv.getNextJob (hj : j.Inv) : (j.getNextJob).2.Inv := by
  rcases hj.getNextJob_cases with ⟨-, -, heq⟩ | ⟨h, out, rest, -, hh, hlook, ⟨hrest, heq⟩ | ⟨rfl, heq⟩⟩
  · rw [heq]
    exact hj
  · rw [heq]
    exact hj.afterTake hh hlook hrest
  · rw [heq]
    exact hj.afterRemove hh hlook

/-- `getNextJob` moves the order by one round-robin step, serving the queue it takes from. -/
theorem Inv.step_getNextJob (hj : j.Inv) :
    RoundRobin.Step j.order j.nextQueue (j.getNextJob).2.order := by
  rcases hj.getNextJob_cases with ⟨-, hq, heq⟩ | ⟨h, out, rest, hq, hh, -, ⟨-, heq⟩ | ⟨-, heq⟩⟩
  · rw [hq, heq]
    exact .stay _
  · rw [hq, heq]
    exact step_afterTake hh
  · rw [hq, heq]
    exact step_afterRemove hh

/-- `getNextJob` takes the front job off the queue it takes from, and leaves the others. -/
theorem Inv.pending_getNextJob (hj : j.Inv) (y : String) :
    (j.getNextJob).2.pending y = if j.nextQueue = some y then (j.pending y).tail else j.pending y := by
  rcases hj.getNextJob_cases with ⟨-, hq, heq⟩ | ⟨h, out, rest, hq, -, hlook, ⟨-, heq⟩ | ⟨rfl, heq⟩⟩
  · rw [hq, heq]
    simp
  · rw [hq, heq, pending_afterTake]
    by_cases hy : y = h
    · subst hy
      simp [pending, hlook]
    · simp [hy, Ne.symm hy]
  · rw [hq, heq, pending_afterRemove]
    by_cases hy : y = h
    · subst hy
      simp [pending, hlook]
    · simp [hy, Ne.symm hy]

/-- The queue `getNextJob` takes from holds a job. -/
theorem Inv.pending_of_nextQueue (hj : j.Inv) (hq : j.nextQueue = some h) :
    ∃ out rest, j.pending h = out :: rest := by
  rcases hj.getNextJob_cases with ⟨-, hq', -⟩ | ⟨h', out, rest, hq', -, hlook, -⟩
  · rw [hq'] at hq
    cases hq
  · rw [hq', Option.some.injEq] at hq
    subst hq
    exact ⟨out, rest, by simp [pending, hlook]⟩

/-- `getNextJob` returns the front job of the queue it takes from through `out.(Job)`, and nil
when there is no queue. -/
theorem Inv.getNextJob_fst (hj : j.Inv) :
    (j.getNextJob).1 = match j.nextQueue with
      | none => .ok none
      | some h => ((j.pending h).head?.map assertJob).getD (.ok none) := by
  rcases hj.getNextJob_cases with ⟨-, hq, heq⟩ | ⟨h, out, rest, hq, -, hlook, ⟨-, heq⟩ | ⟨-, heq⟩⟩
  · rw [hq, heq]
  · rw [hq, heq]
    simp [pending, hlook]
  · rw [hq, heq]
    simp [pending, hlook]

/-! ### `AddJob` -/

theorem addJob_eq : j.addJob job queueID = { j with
    queues := j.queues.insert queueID (j.pending queueID ++ [job])
    queuesIndex := if queueID ∈ j.queues then j.queuesIndex else j.queuesIndex ++ [queueID]
    totalJobs := j.totalJobs + 1 } := by
  by_cases hmem : queueID ∈ j.queues
  · simp [addJob, hmem, pending]
  · have hnone : j.queues.lookup queueID = none := AList.lookup_eq_none.mpr hmem
    simp [addJob, addQueue, hmem, pending, hnone, AList.insert_insert, AList.lookup_insert]

theorem pending_addJob (y : String) :
    (j.addJob job queueID).pending y =
      if y = queueID then j.pending y ++ [job] else j.pending y := by
  rw [addJob_eq]
  by_cases hy : y = queueID
  · subst hy
    simp [pending, AList.lookup_insert]
  · simp [pending, AList.lookup_insert_ne hy, hy]

theorem length_pending (queueID : String) :
    ((j.queues.lookup queueID).map List.length).getD 0 = (j.pending queueID).length := by
  unfold pending
  cases j.queues.lookup queueID <;> rfl

theorem Inv.addJob (hj : j.Inv) : (j.addJob job queueID).Inv := by
  have hcount := Collections.sum_entries_insert List.length j.queues queueID (j.pending queueID ++ [job])
  rw [length_pending] at hcount
  rw [addJob_eq]
  refine ⟨?_, fun y => ?_, fun y q hq => ?_, ?_, ?_⟩
  · dsimp only
    split_ifs with hmem
    · exact hj.nodup
    · exact Quorum.nodup_append_singleton hj.nodup (fun h => hmem ((hj.mem_iff _).mp h))
  · dsimp only
    rw [AList.mem_insert]
    split_ifs with hmem
    · rw [hj.mem_iff]
      constructor
      · exact Or.inr
      · rintro (rfl | hy)
        exacts [hmem, hy]
    · rw [List.mem_append, List.mem_singleton, hj.mem_iff]
      exact Or.comm
  · dsimp only at hq
    by_cases hy : y = queueID
    · subst hy
      rw [AList.lookup_insert, Option.some.injEq] at hq
      rw [← hq]
      exact List.append_ne_nil_of_right_ne_nil _ (List.cons_ne_nil job [])
    · rw [AList.lookup_insert_ne hy] at hq
      exact hj.ne_nil y q hq
  · simp only [getPendingJobCount, hj.totalJobs_eq]
    simp only [List.length_append, List.length_singleton] at hcount
    omega
  · dsimp only
    have hle : j.queuesIndex.length ≤
        (if queueID ∈ j.queues then j.queuesIndex else j.queuesIndex ++ [queueID]).length := by
      split_ifs <;> simp
    rcases hj.cursor with hc | hc <;> omega

/-- A new queue enters the order just before the front of the index; an existing one keeps it. -/
theorem Inv.step_addJob (hj : j.Inv) :
    RoundRobin.Step j.order none (j.addJob job queueID).order := by
  by_cases hmem : queueID ∈ j.queues
  · have horder : (j.addJob job queueID).order = j.order := by
      rw [addJob_eq]
      simp [order, hmem]
    rw [horder]
    exact .stay _
  -- the cursor is at most the last position, so the rotation splits the index before its end
  have hr : (j.lastQueueAccessed + 1).toNat ≤ j.queuesIndex.length := by
    rcases hj.cursor with hc | hc <;> omega
  have horder : (j.addJob job queueID).order = j.queuesIndex.drop (j.lastQueueAccessed + 1).toNat ++
      queueID :: j.queuesIndex.take (j.lastQueueAccessed + 1).toNat := by
    rw [addJob_eq]
    simp only [order, hmem, if_false]
    rw [List.rotate_eq_drop_append_take (by simp; omega), List.drop_append_of_le_length hr,
      List.take_append_of_le_length hr, List.append_assoc, List.singleton_append]
  rw [horder, order, List.rotate_eq_drop_append_take hr]
  exact .enter _ _ queueID

end JobManager

/-- The calls a run is made of. -/
inductive JobOp (J : Type) where
  | addJob (job : Option J) (queueID : String)
  | getNextJob

/-- One call, on the manager's state. -/
def JobOp.exec (j : JobManager J) : JobOp J → JobManager J
  | .addJob job queueID => j.addJob job queueID
  | .getNextJob => j.getNextJob.2

/-- The calls one after the other. -/
def runJobs (j : JobManager J) (ops : List (JobOp J)) : JobManager J := ops.foldl JobOp.exec j


/-! ## Runs -/

open JobManager

variable {j : JobManager J} {ops : List (JobOp J)}

theorem runJobs_cons (op : JobOp J) : runJobs j (op :: ops) = runJobs (JobOp.exec j op) ops := rfl

theorem JobManager.Inv.exec (hj : j.Inv) (op : JobOp J) : (JobOp.exec j op).Inv := by
  cases op with
  | addJob job queueID => exact hj.addJob
  | getNextJob => exact hj.getNextJob

theorem JobManager.Inv.run (hj : j.Inv) (ops : List (JobOp J)) : (runJobs j ops).Inv := by
  induction ops generalizing j with
  | nil => exact hj
  | cons op ops ih => exact ih (hj.exec op)

/-- The state after the first `m` calls of a run. -/
def stateAt (j : JobManager J) (ops : List (JobOp J)) (m : ℕ) : JobManager J :=
  runJobs j (ops.take m)

/-- The queue call `m` of a run takes a job from: none for an `AddJob`, for a `getNextJob` with
no queue, and past the end of the run. -/
def takenAt (j : JobManager J) (ops : List (JobOp J)) (m : ℕ) : Option String :=
  match ops[m]? with
  | some .getNextJob => (stateAt j ops m).nextQueue
  | _ => none

theorem stateAt_succ (m : ℕ) :
    stateAt j ops (m + 1) = ops[m]?.toList.foldl JobOp.exec (stateAt j ops m) := by
  rw [stateAt, stateAt, List.take_add_one, runJobs, List.foldl_append]
  rfl

/-- Every call of a run moves the order by one round-robin step. -/
theorem step_takenAt (hj : j.Inv) (m : ℕ) :
    RoundRobin.Step (stateAt j ops m).order (takenAt j ops m) (stateAt j ops (m + 1)).order := by
  have hm : (stateAt j ops m).Inv := hj.run _
  rw [stateAt_succ, takenAt]
  cases hop : ops[m]? with
  | none => exact .stay _
  | some op =>
    cases op with
    | addJob job queueID => exact hm.step_addJob
    | getNextJob => exact hm.step_getNextJob

/-- **Round robin.** Between two consecutive calls of a run that take from queue `q`, `q` being
present after the first, every other queue present throughout is taken from exactly once. -/
theorem JobManager.Inv.taken_once_between (hj : j.Inv) {i k : ℕ} {q x : String} (hik : i < k)
    (hi : takenAt j ops i = some q) (hk : takenAt j ops k = some q)
    (hbetween : ∀ m, i < m → m < k → takenAt j ops m ≠ some q)
    (hq : q ∈ (stateAt j ops (i + 1)).queues)
    (hx : ∀ m, i < m → m ≤ k → x ∈ (stateAt j ops m).queues) (hxq : x ≠ q) :
    ∃! m, i < m ∧ m < k ∧ takenAt j ops m = some x := by
  have hinv : ∀ m, (stateAt j ops m).Inv := fun m => hj.run _
  -- a queue of the map is a queue of the order
  have hmem : ∀ m y, y ∈ (stateAt j ops m).queues → y ∈ (stateAt j ops m).order :=
    fun m y hy => mem_order.mpr (((hinv m).mem_iff y).mpr hy)
  exact RoundRobin.served_once_between hik (fun m _ _ => step_takenAt hj m)
    (fun m _ _ => (hinv m).nodup_order) hi hk hbetween (hmem _ _ hq)
    (fun m him hmk => hmem m x (hx m him hmk)) hxq

/-! ## What comes out of a queue -/

/-- The jobs a run adds to a queue, in order. -/
def addedTo (ops : List (JobOp J)) (queueID : String) : List (Option J) :=
  ops.filterMap fun
    | .addJob job q => if q = queueID then some job else none
    | .getNextJob => none

/-- What the `getNextJob` calls of a run that take from a queue return, in order. -/
def returnedFrom (j : JobManager J) : List (JobOp J) → String → List (Go (Option J))
  | [], _ => []
  | .addJob job q :: ops, queueID => returnedFrom (j.addJob job q) ops queueID
  | .getNextJob :: ops, queueID =>
    (if j.nextQueue = some queueID then [j.getNextJob.1] else []) ++
      returnedFrom j.getNextJob.2 ops queueID

theorem addedTo_cons_addJob (job : Option J) (q queueID : String) :
    addedTo (.addJob job q :: ops) queueID =
      (if q = queueID then [job] else []) ++ addedTo ops queueID := by
  by_cases hq : q = queueID <;> simp [addedTo, hq]

theorem addedTo_cons_getNextJob (queueID : String) :
    addedTo (.getNextJob :: ops) queueID = addedTo ops queueID := by
  simp [addedTo]

theorem addJob_mem_of_mem_addedTo {job : Option J} {queueID : String}
    (h : job ∈ addedTo ops queueID) : JobOp.addJob job queueID ∈ ops := by
  obtain ⟨op, hop, hsome⟩ := List.mem_filterMap.mp h
  cases op with
  | addJob job' q =>
    dsimp only at hsome
    by_cases hq : q = queueID
    · rw [if_pos hq, Option.some.injEq] at hsome
      rw [← hsome, ← hq]
      exact hop
    · rw [if_neg hq] at hsome
      cases hsome
  | getNextJob => cases hsome

/-- **FIFO, each job once.** What a run returns for a queue, followed by the jobs still waiting
in it, is the jobs that waited there at the start and those the run adds, in order, each
through `out.(Job)`. -/
theorem JobManager.Inv.returned_append_pending (hj : j.Inv) (ops : List (JobOp J))
    (queueID : String) :
    returnedFrom j ops queueID ++ ((runJobs j ops).pending queueID).map assertJob =
      (j.pending queueID ++ addedTo ops queueID).map assertJob := by
  induction ops generalizing j with
  | nil => simp [returnedFrom, addedTo, runJobs]
  | cons op ops ih =>
    cases op with
    | addJob job q =>
      -- the job joins the back of queue `q`
      rw [returnedFrom, runJobs_cons, JobOp.exec, ih (j := j.addJob job q) hj.addJob,
        pending_addJob, addedTo_cons_addJob]
      by_cases hq : queueID = q
      · simp [hq]
      · simp [hq, Ne.symm hq]
    | getNextJob =>
      rw [returnedFrom, runJobs_cons, JobOp.exec, List.append_assoc,
        ih (j := j.getNextJob.2) hj.getNextJob, hj.pending_getNextJob, addedTo_cons_getNextJob]
      split_ifs with hq
      · -- the call returns the front job of the queue
        obtain ⟨out, rest, hpend⟩ := hj.pending_of_nextQueue hq
        rw [hj.getNextJob_fst, hq]
        simp [hpend]
      · simp

/-- **Nil exactly when nothing is pending.** -/
theorem JobManager.Inv.getNextJob_eq_ok_none_iff (hj : j.Inv) :
    (j.getNextJob).1 = .ok none ↔ j.getPendingJobCount = 0 := by
  rcases hj.getNextJob_cases with ⟨hnil, -, heq⟩ | ⟨h, out, rest, -, -, hlook, hcases⟩
  · -- no queue, so no job
    have hentries : j.queues.entries = [] := by
      apply List.length_eq_zero_iff.mp
      rw [hj.length_entries, hnil, List.length_nil]
    simp [heq, getPendingJobCount, hentries]
  · have hres : (j.getNextJob).1 = assertJob out := by
      rcases hcases with ⟨-, heq⟩ | ⟨-, heq⟩ <;> rw [heq]
    -- the queue taken from holds a job, which the count includes
    have hcount := Collections.sum_entries_erase List.length j.queues h
    rw [hlook] at hcount
    simp only [Option.map_some, Option.getD_some, List.length_cons] at hcount
    rw [hres, getPendingJobCount]
    constructor
    · intro hok
      exact absurd hok (assertJob_ne_ok_none out)
    · intro h0
      omega


/-! ## The fair-share queueing of a whole run -/

/-- Two queues, with two jobs added to the first. -/
def opsAB : List (JobOp ℕ) := [.addJob (some 1) "a", .addJob (some 2) "b", .addJob (some 3) "a"]

end Vault.Fairshare
