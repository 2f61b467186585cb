import Mathlib

/-!
# Pseudo-transactions over a backend without transactions

`GenericTransactionHandler` (sdk/physical/transactions.go) gives a backend that has only
get, put and delete an all-or-nothing `Transaction`. It walks the operations in order; for
each put or delete that succeeds it pushes the operation that undoes it onto a stack, and at
the first failure it stops and replays the stack, newest first, collecting every error on
the way (best effort).

A backend is a `PseudoTransactional σ`: its three internal calls as functions of its state
`σ`. Over any backend with `MapSemantics` (each call acts on a key-value map as the map
operation does, or fails and leaves the map alone) the handler either applies the whole
list and returns no error, or, when no undo call fails, leaves the map as it found it and
returns exactly the error that stopped the walk. `FaultyMap` is such a backend whose calls
fail on a schedule fixed in advance.
-/

namespace Vault.Physical

/-- `physical.Operation`. -/
inductive Operation where
  | delete
  | get
  | list
  | put
deriving DecidableEq, Repr

/-- `physical.Entry`: a stored key and value, and whether the value is seal-wrapped. -/
structure Entry where
  key : String
  value : List UInt8
  sealWrap : Bool
deriving DecidableEq, Repr

/-- `physical.TxnEntry`: one operation of a transaction. -/
structure TxnEntry where
  operation : Operation
  entry : Entry
deriving DecidableEq, Repr

/-- `physical.PseudoTransactional`: the calls a pseudo-transaction is built from, each taking
the backend's state and returning its result (a nil error is `.ok`) and the new state. -/
structure PseudoTransactional (σ : Type) where
  getInternal : σ → String → Except String (Option Entry) × σ
  putInternal : σ → Entry → Except String Unit × σ
  deleteInternal : σ → String → Except String Unit × σ

section Handler

variable {σ : Type} (t : PseudoTransactional σ)

/-- The body of the walk's loop for one operation: the undo entry to push (none for a delete
of an absent key, or a get or list), or the error that breaks the walk. -/
def txnStep (s : σ) (txn : TxnEntry) : Except String (Option TxnEntry) × σ :=
  match txn.operation with
  | .delete =>
    match t.getInternal s txn.entry.key with
    | (.error err, s) => (.error err, s)
    -- nothing to delete or roll back
    | (.ok none, s) => (.ok none, s)
    | (.ok (some entry), s) =>
      match t.deleteInternal s txn.entry.key with
      | (.error err, s) => (.error err, s)
      | (.ok (), s) => (.ok (some ⟨.put, ⟨entry.key, entry.value, false⟩⟩), s)
  | .put =>
    match t.getInternal s txn.entry.key with
    | (.error err, s) => (.error err, s)
    | (.ok entry, s) =>
      -- nothing existed, so rolling back requires a delete
      let rollbackEntry : TxnEntry := match entry with
        | none => ⟨.delete, ⟨txn.entry.key, [], false⟩⟩
        | some entry => ⟨.put, ⟨entry.key, entry.value, false⟩⟩
      match t.putInternal s txn.entry with
      | (.error err, s) => (.error err, s)
      | (.ok (), s) => (.ok (some rollbackEntry), s)
  | _ => (.ok none, s)

/-- The labelled loop `TxnWalk`: the rollback stack and, if the walk broke, its error. -/
def txnWalk (s : σ) : List TxnEntry → List TxnEntry → (List TxnEntry × Option String) × σ
  | [], rollbackStack => ((rollbackStack, none), s)
  | txn :: txns, rollbackStack =>
    match txnStep t s txn with
    | (.error err, s) => ((rollbackStack, some err), s)
    | (.ok rollbackEntry, s) => txnWalk s txns (rollbackEntry.toList ++ rollbackStack)

/-- One undo call of the rollback loop. -/
def rollbackStep (s : σ) (txn : TxnEntry) : Except String Unit × σ :=
  match txn.operation with
  | .delete => t.deleteInternal s txn.entry.key
  | .put => t.putInternal s txn.entry
  | _ => (.ok (), s)

/-- The rollback loop: every error is appended and the loop goes on. -/
def rollbackWalk (s : σ) : List TxnEntry → List String → List String × σ
  | [], errs => (errs, s)
  | txn :: rollbackStack, errs =>
    match rollbackStep t s txn with
    | (.error err, s) => rollbackWalk s rollbackStack (errs ++ [err])
    | (.ok (), s) => rollbackWalk s rollbackStack errs

/-- `GenericTransactionHandler`: the returned multierror is the list of its errors, empty
for a nil error. -/
def genericTransactionHandler (s : σ) (txns : List TxnEntry) : List String × σ :=
  match txnWalk t s txns [] with
  | ((_, none), s) => ([], s)
  -- the walk hit an error: roll back
  | ((rollbackStack, some err), s) => rollbackWalk t s rollbackStack [err]

end Handler

/-! ## Map semantics -/

/-- The key-value map a backend holds. -/
abbrev Store := String → Option (List UInt8)

/-- What one operation does to a map. -/
def TxnEntry.apply (txn : TxnEntry) (m : Store) : Store :=
  match txn.operation with
  | .delete => Function.update m txn.entry.key none
  | .put => Function.update m txn.entry.key (some txn.entry.value)
  | .get | .list => m

/-- Operations applied to a map one after the other. -/
def applyTxns (txns : List TxnEntry) (m : Store) : Store :=
  txns.foldl (fun m txn => txn.apply m) m

@[simp] theorem applyTxns_nil (m : Store) : applyTxns [] m = m := rfl

@[simp] theorem applyTxns_cons (txn : TxnEntry) (txns : List TxnEntry) (m : Store) :
    applyTxns (txn :: txns) m = applyTxns txns (txn.apply m) := rfl

theorem applyTxns_append (txns txns' : List TxnEntry) (m : Store) :
    applyTxns (txns ++ txns') m = applyTxns txns' (applyTxns txns m) := by
  simp [applyTxns, List.foldl_append]

/-- Writing back the old value of a key undoes any write to it. -/
theorem update_restore (m : Store) (key : String) (v : Option (List UInt8)) :
    Function.update (Function.update m key v) key (m key) = m := by
  rw [Function.update_idem, Function.update_eq_self]

/-- The rollback loop only appends errors. -/
theorem rollbackWalk_errs {σ : Type} (t : PseudoTransactional σ) (s : σ)
    (rollbackStack : List TxnEntry) (errs : List String) :
    ∃ more, (rollbackWalk t s rollbackStack errs).1 = errs ++ more := by
  induction rollbackStack generalizing s errs with
  | nil => exact ⟨[], by simp [rollbackWalk]⟩
  | cons txn rollbackStack ih =>
    rcases hstep : rollbackStep t s txn with ⟨err | ⟨⟩, s'⟩
    · obtain ⟨more, h⟩ := ih s' (errs ++ [err])
      exact ⟨err :: more, by simp [rollbackWalk, hstep, h]⟩
    · simpa [rollbackWalk, hstep] using ih s' errs

section MapSemantics

variable {σ : Type}

/-- A backend whose state holds the map `view s`, on which each call either does what the
map operation does or fails and leaves the map unchanged; a get returns the stored value
under its key. -/
structure MapSemantics (t : PseudoTransactional σ) (view : σ → Store) : Prop where
  get_view : ∀ s key, view (t.getInternal s key).2 = view s
  get_ok : ∀ s key r, (t.getInternal s key).1 = .ok r →
    r.map (fun e => (e.key, e.value)) = (view s key).map fun value => (key, value)
  put_ok : ∀ s entry, (t.putInternal s entry).1 = .ok () →
    view (t.putInternal s entry).2 = Function.update (view s) entry.key (some entry.value)
  put_error : ∀ s entry err, (t.putInternal s entry).1 = .error err →
    view (t.putInternal s entry).2 = view s
  delete_ok : ∀ s key, (t.deleteInternal s key).1 = .ok () →
    view (t.deleteInternal s key).2 = Function.update (view s) key none
  delete_error : ∀ s key err, (t.deleteInternal s key).1 = .error err →
    view (t.deleteInternal s key).2 = view s

variable {t : PseudoTransactional σ} {view : σ → Store} (hm : MapSemantics t view)
include hm

theorem MapSemantics.get_eq_ok {s : σ} {key : String} {r : Option Entry} {s' : σ}
    (h : t.getInternal s key = (.ok r, s')) :
    view s' = view s ∧ r.map (fun e => (e.key, e.value)) = (view s key).map fun v => (key, v) :=
  ⟨by rw [← hm.get_view s key, h], hm.get_ok s key r (by rw [h])⟩

theorem MapSemantics.get_eq_error {s : σ} {key : String} {err : String} {s' : σ}
    (h : t.getInternal s key = (.error err, s')) : view s' = view s := by
  rw [← hm.get_view s key, h]

theorem MapSemantics.put_eq_ok {s : σ} {entry : Entry} {s' : σ}
    (h : t.putInternal s entry = (.ok (), s')) :
    view s' = Function.update (view s) entry.key (some entry.value) := by
  rw [← hm.put_ok s entry (by rw [h]), h]

theorem MapSemantics.put_eq_error {s : σ} {entry : Entry} {err : String} {s' : σ}
    (h : t.putInternal s entry = (.error err, s')) : view s' = view s := by
  rw [← hm.put_error s entry err (by rw [h]), h]

theorem MapSemantics.delete_eq_ok {s : σ} {key : String} {s' : σ}
    (h : t.deleteInternal s key = (.ok (), s')) :
    view s' = Function.update (view s) key none := by
  rw [← hm.delete_ok s key (by rw [h]), h]

theorem MapSemantics.delete_eq_error {s : σ} {key : String} {err : String} {s' : σ}
    (h : t.deleteInternal s key = (.error err, s')) : view s' = view s := by
  rw [← hm.delete_error s key err (by rw [h]), h]

/-- A step that breaks the walk has left the map unchanged. -/
theorem txnStep_error {s s' : σ} {txn : TxnEntry} {err : String}
    (h : txnStep t s txn = (.error err, s')) : view s' = view s := by
  unfold txnStep at h
  split at h
  · split at h
    · cases h
      exact hm.get_eq_error ‹_›
    · cases h
    · rename_i hg
      split at h
      · cases h
        rw [hm.delete_eq_error ‹_›, (hm.get_eq_ok hg).1]
      · cases h
  · split at h
    · cases h
      exact hm.get_eq_error ‹_›
    · rename_i hg
      -- the rollback entry is chosen, then the put is made
      split at h <;> split at h <;> cases h <;> rw [hm.put_eq_error ‹_›, (hm.get_eq_ok hg).1]
  · cases h

/-- A step that returns has applied its operation, and the undo entry it pushes restores
the map it started from. -/
theorem txnStep_ok {s s' : σ} {txn : TxnEntry} {undo : Option TxnEntry}
    (h : txnStep t s txn = (.ok undo, s')) :
    view s' = txn.apply (view s) ∧ applyTxns undo.toList (view s') = view s := by
  unfold txnStep at h
  split at h
  · rename_i hop
    split at h
    · cases h
    · -- a delete of an absent key: nothing changes and nothing is pushed
      rename_i hg
      cases h
      obtain ⟨hv, habs⟩ := hm.get_eq_ok hg
      have hnone : view s txn.entry.key = none := by simpa using habs.symm
      simp [hv, TxnEntry.apply, hop, hnone]
    · rename_i entry _ hg
      obtain ⟨hv, hold⟩ := hm.get_eq_ok hg
      split at h
      · cases h
      · rename_i hd
        cases h
        -- the entry read before the delete holds the old value under the same key
        obtain ⟨v, hv0, hkv⟩ := Option.map_eq_some_iff.mp hold.symm
        simp only [Prod.mk.injEq] at hkv
        obtain ⟨hk, rfl⟩ := hkv
        rw [hm.delete_eq_ok hd, hv]
        refine ⟨by simp [TxnEntry.apply, hop], ?_⟩
        simp only [Option.toList_some, applyTxns_cons, applyTxns_nil, TxnEntry.apply, ← hk]
        rw [← hv0, update_restore]
  · rename_i hop
    split at h
    · cases h
    · rename_i entry s1 hg
      obtain ⟨hv, hold⟩ := hm.get_eq_ok hg
      rcases hp : t.putInternal s1 txn.entry with ⟨_ | ⟨⟩, s2⟩
      · simp [hp] at h
      · simp only [hp, Prod.mk.injEq, Except.ok.injEq] at h
        obtain ⟨rfl, rfl⟩ := h
        rw [hm.put_eq_ok hp, hv]
        refine ⟨by simp [TxnEntry.apply, hop], ?_⟩
        -- the pushed entry writes back the old value, or deletes the key if it had none
        cases entry with
        | none =>
          have hnone : view s txn.entry.key = none := by simpa using hold.symm
          simp only [Option.toList_some, applyTxns_cons, applyTxns_nil, TxnEntry.apply]
          rw [← hnone, update_restore]
        | some e =>
          obtain ⟨v, hv0, hkv⟩ := Option.map_eq_some_iff.mp hold.symm
          simp only [Prod.mk.injEq] at hkv
          obtain ⟨hk, rfl⟩ := hkv
          simp only [Option.toList_some, applyTxns_cons, applyTxns_nil, TxnEntry.apply, ← hk]
          rw [← hv0, update_restore]
  · rename_i hdel hput
    cases h
    cases hop : txn.operation <;> simp_all [TxnEntry.apply]

/-- The walk's invariant: replaying the rollback stack on the current map gives back what
replaying the stack it started with on the map it started from gave. -/
theorem txnWalk_undo (s : σ) (txns rollbackStack : List TxnEntry) :
    applyTxns (txnWalk t s txns rollbackStack).1.1 (view (txnWalk t s txns rollbackStack).2) =
      applyTxns rollbackStack (view s) := by
  induction txns generalizing s rollbackStack with
  | nil => rfl
  | cons txn txns ih =>
    rcases hstep : txnStep t s txn with ⟨_ | undo, s'⟩
    · simp only [txnWalk, hstep]
      rw [txnStep_error hm hstep]
    · simp only [txnWalk, hstep]
      rw [ih, applyTxns_append, (txnStep_ok hm hstep).2]

/-- A walk that ends without an error has applied every operation. -/
theorem txnWalk_none {s : σ} {txns rollbackStack : List TxnEntry}
    (h : (txnWalk t s txns rollbackStack).1.2 = none) :
    view (txnWalk t s txns rollbackStack).2 = applyTxns txns (view s) := by
  induction txns generalizing s rollbackStack with
  | nil => rfl
  | cons txn txns ih =>
    rcases hstep : txnStep t s txn with ⟨_ | undo, s'⟩
    · simp [txnWalk, hstep] at h
    · simp only [txnWalk, hstep] at h ⊢
      rw [ih h, (txnStep_ok hm hstep).1, applyTxns_cons]

/-- An undo call that returns has applied its entry. -/
theorem rollbackStep_ok {s s' : σ} {txn : TxnEntry} (h : rollbackStep t s txn = (.ok (), s')) :
    view s' = txn.apply (view s) := by
  unfold rollbackStep at h
  split at h
  · rename_i hop
    simp [hm.delete_eq_ok h, TxnEntry.apply, hop]
  · rename_i hop
    simp [hm.put_eq_ok h, TxnEntry.apply, hop]
  · rename_i hdel hput
    cases h
    cases hop : txn.operation <;> simp_all [TxnEntry.apply]

/-- A rollback loop in which no call failed has replayed the whole stack. -/
theorem rollbackWalk_clean {s : σ} {rollbackStack : List TxnEntry} {errs : List String}
    (h : (rollbackWalk t s rollbackStack errs).1 = errs) :
    view (rollbackWalk t s rollbackStack errs).2 = applyTxns rollbackStack (view s) := by
  induction rollbackStack generalizing s errs with
  | nil => rfl
  | cons txn rollbackStack ih =>
    rcases hstep : rollbackStep t s txn with ⟨_ | ⟨⟩, s'⟩
    · -- an error was appended, and errors are never removed
      simp only [rollbackWalk, hstep] at h
      obtain ⟨more, hmore⟩ := rollbackWalk_errs t s' rollbackStack (errs ++ [_])
      rw [hmore] at h
      simpa using congrArg List.length h
    · simp only [rollbackWalk, hstep] at h ⊢
      rw [ih h, applyTxns_cons, rollbackStep_ok hm hstep]

/-- The handler over a map: with no error it has applied the whole list, and when the only
error is the one that stopped the walk it has restored the map it started from. -/
theorem genericTransactionHandler_spec (s : σ) (txns : List TxnEntry) :
    ((genericTransactionHandler t s txns).1 = [] →
      view (genericTransactionHandler t s txns).2 = applyTxns txns (view s)) ∧
    (∀ err, (txnWalk t s txns []).1.2 = some err →
      (genericTransactionHandler t s txns).1 = [err] →
      view (genericTransactionHandler t s txns).2 = view s) := by
  rcases hw : txnWalk t s txns [] with ⟨⟨rollbackStack, _ | err⟩, s'⟩
  · have hv : view (txnWalk t s txns []).2 = applyTxns txns (view s) :=
      txnWalk_none hm (by rw [hw])
    rw [hw] at hv
    simp [genericTransactionHandler, hw, hv]
  · simp only [genericTransactionHandler, hw]
    refine ⟨fun h => ?_, fun err' _ h => ?_⟩
    · obtain ⟨more, hmore⟩ := rollbackWalk_errs t s' rollbackStack [err]
      simp [hmore] at h
    · -- the stack replayed on the map the walk left gives back the map it started from
      have hundo := txnWalk_undo hm s txns []
      rw [hw] at hundo
      rw [rollbackWalk_clean hm (by rw [h]; simp_all)]
      simpa using hundo

end MapSemantics

/-! ## A map whose calls fail on a schedule -/

/-- A map store whose calls are numbered from zero; call number `n` fails with `err`, and
leaves the map unchanged, when `fault n = some err`. -/
structure FaultyMap where
  store : Store
  fault : ℕ → Option String
  calls : ℕ

namespace FaultyMap

/-- One call: the scheduled fault, or the result `r` with the map changed by `f`. -/
def call {α : Type} (s : FaultyMap) (r : α) (f : Store → Store) : Except String α × FaultyMap :=
  match s.fault s.calls with
  | some err => (.error err, { s with calls := s.calls + 1 })
  | none => (.ok r, { s with store := f s.store, calls := s.calls + 1 })

/-- No call numbered from `s.calls` up to (not including) `s'.calls` is scheduled to fail. -/
def Clean (s s' : FaultyMap) : Prop := ∀ n, s.calls ≤ n → n < s'.calls → s.fault n = none

theorem Clean.left {s s' s'' : FaultyMap} (h : Clean s s'') (hle : s'.calls ≤ s''.calls) :
    Clean s s' :=
  fun n hn hn' => h n hn (lt_of_lt_of_le hn' hle)

theorem Clean.right {s s' s'' : FaultyMap} (h : Clean s s'') (hle : s.calls ≤ s'.calls)
    (hf : s'.fault = s.fault) : Clean s' s'' :=
  fun n hn hn' => hf ▸ h n (le_trans hle hn) hn'

end FaultyMap

open FaultyMap in
/-- The backend of a `FaultyMap`: each internal call is one scheduled call on the map. -/
def faultyMap : PseudoTransactional FaultyMap where
  getInternal s key := s.call ((s.store key).map fun value => ⟨key, value, false⟩) id
  putInternal s entry := s.call () fun m => Function.update m entry.key (some entry.value)
  deleteInternal s key := s.call () fun m => Function.update m key none

namespace FaultyMap

theorem call_store {α : Type} (s : FaultyMap) (r : α) (f : Store → Store) :
    (s.call r f).2.store = match (s.call r f).1 with
      | .ok _ => f s.store
      | .error _ => s.store := by
  unfold call
  split <;> rfl

theorem faultyMap_mapSemantics : MapSemantics faultyMap FaultyMap.store where
  get_view s key := by simp [faultyMap, call_store]; split <;> rfl
  get_ok s key r h := by
    simp only [faultyMap, call] at h
    split at h
    · cases h
    · cases h
      cases s.store key <;> rfl
  put_ok s entry h := by
    simp only [faultyMap] at h ⊢
    rw [call_store, h]
  put_error s entry err h := by
    simp only [faultyMap] at h ⊢
    rw [call_store, h]
  delete_ok s key h := by
    simp only [faultyMap] at h ⊢
    rw [call_store, h]
  delete_error s key err h := by
    simp only [faultyMap] at h ⊢
    rw [call_store, h]

@[simp] theorem call_fault {α : Type} (s : FaultyMap) (r : α) (f : Store → Store) :
    (s.call r f).2.fault = s.fault := by
  unfold call
  split <;> rfl

@[simp] theorem call_calls {α : Type} (s : FaultyMap) (r : α) (f : Store → Store) :
    (s.call r f).2.calls = s.calls + 1 := by
  unfold call
  split <;> rfl

/-- A call that is not scheduled to fail returns. -/
theorem call_of_clean {α : Type} {s : FaultyMap} {r : α} {f : Store → Store}
    (h : Clean s (s.call r f).2) : (s.call r f).1 = .ok r := by
  have hn : s.fault s.calls = none := h s.calls le_rfl (by simp)
  simp [call, hn]

/-- A step keeps the schedule, moves the call counter forward, and returns when none of its
calls is scheduled to fail. -/
theorem txnStep_faultyMap (s : FaultyMap) (txn : TxnEntry) :
    (txnStep faultyMap s txn).2.fault = s.fault ∧ s.calls ≤ (txnStep faultyMap s txn).2.calls ∧
    (Clean s (txnStep faultyMap s txn).2 → ∃ u, (txnStep faultyMap s txn).1 = .ok u) := by
  -- a step makes at most two calls, numbered `s.calls` and `s.calls + 1`: split on the
  -- schedule at both, on the operation and on whether the key is stored
  rcases txn with ⟨op, key, value, sealWrap⟩
  rcases h0 : s.fault s.calls with _ | e0 <;> rcases h1 : s.fault (s.calls + 1) with _ | e1 <;>
    cases op <;> cases hk : s.store key <;>
    simp [txnStep, faultyMap, call, Clean, h0, h1, hk]
  -- what is left: the counter moved by two, or the failing call is one of the two
  all_goals first
    | omega
    | exact ⟨s.calls, le_rfl, le_rfl, by simp [h0]⟩
    | exact ⟨by omega, s.calls + 1, by omega, le_rfl, by simp [h1]⟩

/-- An undo call keeps the schedule, moves the counter forward, and returns when it is not
scheduled to fail. -/
theorem rollbackStep_faultyMap (s : FaultyMap) (txn : TxnEntry) :
    (rollbackStep faultyMap s txn).2.fault = s.fault ∧
    s.calls ≤ (rollbackStep faultyMap s txn).2.calls ∧
    (Clean s (rollbackStep faultyMap s txn).2 → (rollbackStep faultyMap s txn).1 = .ok ()) := by
  rcases txn with ⟨op, entry⟩
  cases op <;> simp only [rollbackStep, faultyMap]
  · exact ⟨call_fault _ _ _, by simp, call_of_clean⟩
  · simp
  · simp
  · exact ⟨call_fault _ _ _, by simp, call_of_clean⟩

/-- The walk keeps the schedule, moves the counter forward, and runs to its end when none of
its calls is scheduled to fail. -/
theorem txnWalk_faultyMap (s : FaultyMap) (txns rollbackStack : List TxnEntry) :
    (txnWalk faultyMap s txns rollbackStack).2.fault = s.fault ∧
    s.calls ≤ (txnWalk faultyMap s txns rollbackStack).2.calls ∧
    (Clean s (txnWalk faultyMap s txns rollbackStack).2 →
      (txnWalk faultyMap s txns rollbackStack).1.2 = none) := by
  induction txns generalizing s rollbackStack with
  | nil => exact ⟨rfl, le_rfl, fun _ => rfl⟩
  | cons txn txns ih =>
    obtain ⟨hf, hc, hok⟩ := txnStep_faultyMap s txn
    rcases hstep : txnStep faultyMap s txn with ⟨_ | undo, s'⟩
    · -- the step broke the walk, so one of its calls was scheduled to fail
      rw [hstep] at hf hc hok
      simp only [txnWalk, hstep]
      refine ⟨hf, hc, fun hclean => ?_⟩
      obtain ⟨u, hu⟩ := hok hclean
      cases hu
    · rw [hstep] at hf hc
      simp only [txnWalk, hstep]
      obtain ⟨hf', hc', hok'⟩ := ih s' (undo.toList ++ rollbackStack)
      exact ⟨hf'.trans hf, hc.trans hc', fun hclean => hok' (hclean.right hc hf)⟩

/-- The rollback loop keeps the schedule, moves the counter forward, and adds no error when
none of its calls is scheduled to fail. -/
theorem rollbackWalk_faultyMap (s : FaultyMap) (rollbackStack : List TxnEntry)
    (errs : List String) :
    (rollbackWalk faultyMap s rollbackStack errs).2.fault = s.fault ∧
    s.calls ≤ (rollbackWalk faultyMap s rollbackStack errs).2.calls ∧
    (Clean s (rollbackWalk faultyMap s rollbackStack errs).2 →
      (rollbackWalk faultyMap s rollbackStack errs).1 = errs) := by
  induction rollbackStack generalizing s errs with
  | nil => exact ⟨rfl, le_rfl, fun _ => rfl⟩
  | cons txn rollbackStack ih =>
    obtain ⟨hf, hc, hok⟩ := rollbackStep_faultyMap s txn
    rcases hstep : rollbackStep faultyMap s txn with ⟨err | ⟨⟩, s'⟩
    · rw [hstep] at hf hc hok
      simp only [rollbackWalk, hstep]
      obtain ⟨hf', hc', -⟩ := ih s' (errs ++ [err])
      refine ⟨hf'.trans hf, hc.trans hc', fun hclean => ?_⟩
      -- the failed undo call lies in the clean range
      cases hok (hclean.left hc')
    · rw [hstep] at hf hc
      simp only [rollbackWalk, hstep]
      obtain ⟨hf', hc', hok'⟩ := ih s' errs
      exact ⟨hf'.trans hf, hc.trans hc', fun hclean => hok' (hclean.right hc hf)⟩

/-- The handler's calls after the walk are the undo calls. -/
theorem genericTransactionHandler_calls (s : FaultyMap) (txns : List TxnEntry) :
    (txnWalk faultyMap s txns []).2.calls ≤ (genericTransactionHandler faultyMap s txns).2.calls := by
  unfold genericTransactionHandler
  split
  · rename_i hw
    rw [hw]
  · rename_i rollbackStack err s' hw
    rw [hw]
    exact (rollbackWalk_faultyMap s' rollbackStack [err]).2.1

end FaultyMap

open FaultyMap in
theorem genericTransactionHandler_atomic (m : Store) (fault : ℕ → Option String)
    (txns : List TxnEntry) :
    ((∀ n < (genericTransactionHandler faultyMap ⟨m, fault, 0⟩ txns).2.calls, fault n = none) →
      (genericTransactionHandler faultyMap ⟨m, fault, 0⟩ txns).2.store = applyTxns txns m ∧
      (genericTransactionHandler faultyMap ⟨m, fault, 0⟩ txns).1 = []) ∧
    (∀ err, (txnWalk faultyMap ⟨m, fault, 0⟩ txns []).1.2 = some err →
      (∀ n, (txnWalk faultyMap ⟨m, fault, 0⟩ txns []).2.calls ≤ n →
        n < (genericTransactionHandler faultyMap ⟨m, fault, 0⟩ txns).2.calls → fault n = none) →
      (genericTransactionHandler faultyMap ⟨m, fault, 0⟩ txns).2.store = m ∧
      (genericTransactionHandler faultyMap ⟨m, fault, 0⟩ txns).1 = [err]) := by
  set s0 : FaultyMap := ⟨m, fault, 0⟩ with hs0
  have hspec := genericTransactionHandler_spec faultyMap_mapSemantics s0 txns
  have hcalls := genericTransactionHandler_calls s0 txns
  obtain ⟨hwf, -, hwalk⟩ := txnWalk_faultyMap s0 txns []
  constructor
  · intro hclean
    -- no call of the run fails, so the walk ran to its end and nothing was rolled back
    have hnone : (txnWalk faultyMap s0 txns []).1.2 = none :=
      hwalk fun n _ hn => hclean n (lt_of_lt_of_le hn hcalls)
    have herrs : (genericTransactionHandler faultyMap s0 txns).1 = [] := by
      unfold genericTransactionHandler
      split <;> simp_all
    exact ⟨hspec.1 herrs, herrs⟩
  · intro err herr hclean
    -- no undo call fails, so the only error is the one that broke the walk
    have herrs : (genericTransactionHandler faultyMap s0 txns).1 = [err] := by
      rcases hw : txnWalk faultyMap s0 txns [] with ⟨⟨rollbackStack, _ | e⟩, s1⟩
      · simp [hw] at herr
      · rw [hw] at herr hwf hclean hcalls
        cases herr
        simp only [genericTransactionHandler, hw] at hclean ⊢
        apply (rollbackWalk_faultyMap s1 rollbackStack _).2.2
        intro n hn hn'
        rw [hwf]
        exact hclean n hn hn'
    exact ⟨hspec.2 err herr herrs, herrs⟩

/-- A put of a new key and a delete of a stored one, once with no fault and once with the
delete's own call failing: the first run applies both, the second undoes the put. -/
theorem genericTransactionHandler_atomic_put_delete :
    (genericTransactionHandler faultyMap ⟨Function.update (fun _ => none) "b" (some [2]),
        fun _ => none, 0⟩ [⟨.put, ⟨"a", [1], false⟩⟩, ⟨.delete, ⟨"b", [], false⟩⟩]).1 = [] ∧
    (genericTransactionHandler faultyMap ⟨Function.update (fun _ => none) "b" (some [2]),
        fun n => if n = 3 then some "delete failed" else none, 0⟩
        [⟨.put, ⟨"a", [1], false⟩⟩, ⟨.delete, ⟨"b", [], false⟩⟩]).2.store =
      Function.update (fun _ => none) "b" (some [2]) :=
  ⟨((genericTransactionHandler_atomic _ _ _).1 fun _ _ => rfl).2,
    ((genericTransactionHandler_atomic _ _ _).2 "delete failed" (by decide)
      (fun n h1 h2 => by
        -- the walk made four calls and the rollback one more
        change 4 ≤ n at h1
        change n < 5 at h2
        simp only [show n = 4 by omega]
        decide)).1⟩

end Vault.Physical
