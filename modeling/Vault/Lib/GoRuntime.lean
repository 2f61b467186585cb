import Mathlib

/-!
# How a Go call ends

A Go function either returns, with its results and possibly a non-nil `error`, or it
panics: an index out of range, a division by zero, an explicit `panic`. The models keep
both outcomes apart in `Go α`: `GoError.error` is an error value handed back to the
caller, `GoError.panic` an aborted call.

Loops of the source are written as `List.foldlM` and `List.mapM` in this monad; the
lemmas below say when such a loop runs to its end, and what it then computes.
-/

namespace GoRuntime

/-- Why a call did not return normally. -/
inductive GoError where
  | error (msg : String)
  | panic (msg : String)
deriving DecidableEq, Repr

/-- The outcome of a Go call with result type `α`. -/
abbrev Go (α : Type) := Except GoError α

/-- Whether an outcome is a panic. -/
def GoError.isPanic : GoError → Bool
  | .error _ => false
  | .panic _ => true

/-- Whether a call ended in a panic. -/
def panicked {α : Type} : Go α → Bool
  | .error e => e.isPanic
  | .ok _ => false

/-- `xs[i]`: the slice access, which panics outside the slice. -/
def index {α : Type} (xs : List α) (i : ℕ) : Go α :=
  match xs[i]? with
  | some a => .ok a
  | none => .error (.panic "index out of range")

/-- `xs[i] = a`: the slice store, which panics outside the slice. -/
def setIndex {α : Type} (xs : List α) (i : ℕ) (a : α) : Go (List α) :=
  if i < xs.length then .ok (xs.set i a) else .error (.panic "index out of range")

/-- `xs[i]` for an `int` index: a negative index panics as well. -/
def indexInt {α : Type} (xs : List α) (i : ℤ) : Go α :=
  if 0 ≤ i then index xs i.toNat else .error (.panic "index out of range")

/-- `xs[i] = a` for an `int` index. -/
def setIndexInt {α : Type} (xs : List α) (i : ℤ) (a : α) : Go (List α) :=
  if 0 ≤ i then setIndex xs i.toNat a else .error (.panic "index out of range")

/-- `xs[lo:]`, which panics when `lo` is past the end. -/
def sliceFrom {α : Type} (xs : List α) (lo : ℤ) : Go (List α) :=
  if 0 ≤ lo ∧ lo ≤ xs.length then .ok (xs.drop lo.toNat)
  else .error (.panic "slice bounds out of range")

/-- `xs[:hi]`, which panics when `hi` is past the end. Go allows up to the capacity; every
such slice modelled here is cut within the length. -/
def sliceTo {α : Type} (xs : List α) (hi : ℤ) : Go (List α) :=
  if 0 ≤ hi ∧ hi ≤ xs.length then .ok (xs.take hi.toNat)
  else .error (.panic "slice bounds out of range")

/-- An error wrapped with a prefix, as `errwrap.Wrapf` and `fmt.Errorf` do; a panic passes. -/
def wrapError {α : Type} (pre : String) : Go α → Go α
  | .error (.error msg) => .error (.error (pre ++ msg))
  | r => r

/-- An error the caller answers with a message of its own; a panic passes. -/
def replaceError {α : Type} (msg : String) : Go α → Go α
  | .error (.error _) => .error (.error msg)
  | r => r

/-- A lookup whose nil result the caller answers with the error `msg`. -/
def someOr {α : Type} (msg : String) : Go (Option α) → Go α
  | .error e => .error e
  | .ok none => .error (.error msg)
  | .ok (some a) => .ok a

variable {α β γ : Type}

@[simp] theorem setIndex_of_lt {xs : List α} {i : ℕ} (h : i < xs.length) (a : α) :
    setIndex xs i a = .ok (xs.set i a) := by
  simp [setIndex, h]

@[simp] theorem wrapError_ok (pre : String) (a : α) : wrapError pre (.ok a : Go α) = .ok a := rfl

/-- Wrapping changes only the message of an error. -/
@[simp] theorem wrapError_eq_ok {pre : String} {x : Go α} {a : α} :
    wrapError pre x = .ok a ↔ x = .ok a := by
  rcases x with (msg | msg) | b <;> simp [wrapError]

@[simp] theorem replaceError_eq_ok {msg : String} {x : Go α} {a : α} :
    replaceError msg x = .ok a ↔ x = .ok a := by
  rcases x with (e | e) | b <;> simp [replaceError]

@[simp] theorem sliceTo_of_le {xs : List α} {n : ℕ} (h : n ≤ xs.length) :
    sliceTo xs n = .ok (xs.take n) := by
  simp [sliceTo, h]

@[simp] theorem sliceFrom_of_le {xs : List α} {n : ℕ} (h : n ≤ xs.length) :
    sliceFrom xs n = .ok (xs.drop n) := by
  simp [sliceFrom, h]

theorem sliceTo_eq_ok {xs ys : List α} {n : ℕ} (h : sliceTo xs n = .ok ys) :
    n ≤ xs.length ∧ ys = xs.take n := by
  by_cases hn : n ≤ xs.length
  · rw [sliceTo_of_le hn] at h
    exact ⟨hn, (Except.ok.inj h).symm⟩
  · simp [sliceTo, hn] at h

theorem sliceFrom_eq_ok {xs ys : List α} {n : ℕ} (h : sliceFrom xs n = .ok ys) :
    n ≤ xs.length ∧ ys = xs.drop n := by
  by_cases hn : n ≤ xs.length
  · rw [sliceFrom_of_le hn] at h
    exact ⟨hn, (Except.ok.inj h).symm⟩
  · simp [sliceFrom, hn] at h

@[simp] theorem index_of_lt {xs : List α} {i : ℕ} (h : i < xs.length) :
    index xs i = .ok (xs.get ⟨i, h⟩) := by
  simp [index, List.getElem?_eq_getElem h]

theorem index_of_le {xs : List α} {i : ℕ} (h : xs.length ≤ i) :
    index xs i = .error (.panic "index out of range") := by
  simp [index, List.getElem?_eq_none h]

@[simp] theorem ok_bind (a : α) (f : α → Go β) : (Except.ok a : Go α) >>= f = f a := rfl

@[simp] theorem error_bind (e : GoError) (f : α → Go β) :
    (Except.error e : Go α) >>= f = .error e := rfl

/-- A computation whose result, mapped, fails, fails the same way. -/
theorem eq_error_of_map_eq_error {f : α → β} {x : Go α} {e : GoError}
    (h : x.map f = .error e) : x = .error e := by
  cases x with
  | error e' => simpa [Except.map] using h
  | ok a => simp [Except.map] at h

/-- A guard that returns an error was passed. -/
theorem ite_error_eq_ok {c : Prop} [Decidable c] {e : GoError} {x : Go α} {a : α}
    (h : (if c then .error e else x) = .ok a) : ¬ c ∧ x = .ok a := by
  split_ifs at h with hc
  exact ⟨hc, h⟩

/-- A bind that returns: both computations returned. -/
theorem bind_eq_ok {x : Go α} {f : α → Go β} {b : β} (h : x >>= f = .ok b) :
    ∃ a, x = .ok a ∧ f a = .ok b := by
  cases x with
  | error e => cases h
  | ok a => exact ⟨a, rfl, h⟩

/-- A loop whose every step returns computes the pure fold. -/
theorem foldlM_ok (f : β → α → Go β) (g : β → α → β) (l : List α) (b : β)
    (h : ∀ a ∈ l, ∀ b, f b a = .ok (g b a)) : l.foldlM f b = .ok (l.foldl g b) := by
  induction l generalizing b with
  | nil => rfl
  | cons a l ih =>
    simp only [List.foldlM_cons, List.foldl_cons, h a List.mem_cons_self]
    exact ih (g b a) (fun a' ha' => h a' (List.mem_cons_of_mem a ha'))

/-- A loop whose every step returns from the states of an invariant, and keeps it, computes the
pure fold. -/
theorem foldlM_ok_of_inv (I : β → Prop) (f : β → α → Go β) (g : β → α → β) (l : List α)
    (h : ∀ a ∈ l, ∀ b, I b → f b a = .ok (g b a) ∧ I (g b a)) (b : β) (hb : I b) :
    l.foldlM f b = .ok (l.foldl g b) := by
  induction l generalizing b with
  | nil => rfl
  | cons a l ih =>
    obtain ⟨hstep, hI⟩ := h a List.mem_cons_self b hb
    simp only [List.foldlM_cons, List.foldl_cons, hstep]
    exact ih (fun a' ha' => h a' (List.mem_cons_of_mem a ha')) (g b a) hI

/-- A `mapM` whose every call returns computes the pure map. -/
theorem mapM_ok (f : α → Go β) (g : α → β) (l : List α)
    (h : ∀ a ∈ l, f a = .ok (g a)) : l.mapM f = .ok (l.map g) := by
  induction l with
  | nil => rfl
  | cons a l ih =>
    rw [List.mapM_cons, h a List.mem_cons_self,
      ih (fun a' ha' => h a' (List.mem_cons_of_mem a ha'))]
    rfl

/-- A `forM` whose every call returns runs to its end. -/
theorem forM_ok (f : α → Go PUnit) (l : List α) (h : ∀ a ∈ l, f a = .ok ⟨⟩) :
    l.forM f = .ok ⟨⟩ := by
  induction l with
  | nil => rfl
  | cons a l ih =>
    simp only [List.forM, h a List.mem_cons_self]
    exact ih (fun a' ha' => h a' (List.mem_cons_of_mem a ha'))

/-- A `forM` fails with `e` when one call does and every other call returns or fails so. -/
theorem forM_eq_error (f : α → Go PUnit) (l : List α) (e : GoError)
    (hf : ∀ a ∈ l, f a = .ok ⟨⟩ ∨ f a = .error e) (h : ∃ a ∈ l, f a = .error e) :
    l.forM f = .error e := by
  induction l with
  | nil =>
    obtain ⟨a, ha, -⟩ := h
    cases ha
  | cons a l ih =>
    simp only [List.forM]
    rcases hf a List.mem_cons_self with ha | ha
    · rw [ha, ok_bind]
      refine ih (fun b hb => hf b (List.mem_cons_of_mem a hb)) ?_
      obtain ⟨b, hb, hfb⟩ := h
      rcases List.mem_cons.mp hb with rfl | hb
      · rw [ha] at hfb
        cases hfb
      · exact ⟨b, hb, hfb⟩
    · rw [ha, error_bind]

/-- A `mapM` returns only when every call does, and then with their results. -/
theorem mapM_eq_ok {f : α → Go β} {l : List α} {bs : List β} (h : l.mapM f = .ok bs) :
    bs.length = l.length ∧ ∀ i (hi : i < l.length) (hb : i < bs.length),
      f (l.get ⟨i, hi⟩) = .ok (bs.get ⟨i, hb⟩) := by
  induction l generalizing bs with
  | nil =>
    cases h
    simp
  | cons a l ih =>
    rw [List.mapM_cons] at h
    obtain ⟨b, hb, h⟩ := bind_eq_ok h
    obtain ⟨bs', hbs', h⟩ := bind_eq_ok h
    cases h
    obtain ⟨hlen, hget⟩ := ih hbs'
    refine ⟨by simp [hlen], fun i hi hib => ?_⟩
    cases i with
    | zero => exact hb
    | succ i => exact hget i (by simpa using hi) (by simpa using hib)

/-- Every result of a `mapM` that returns is the result of a call on some item. -/
theorem mem_of_mapM_eq_ok {f : α → Go β} {l : List α} {bs : List β} (h : l.mapM f = .ok bs)
    {b : β} (hb : b ∈ bs) : ∃ a ∈ l, f a = .ok b := by
  induction l generalizing bs with
  | nil =>
    cases h
    cases hb
  | cons a l ih =>
    rw [List.mapM_cons] at h
    obtain ⟨b', hb', h⟩ := bind_eq_ok h
    obtain ⟨bs', hbs', h⟩ := bind_eq_ok h
    cases h
    rcases List.mem_cons.mp hb with rfl | hb
    · exact ⟨a, List.mem_cons_self, hb'⟩
    · obtain ⟨a', ha', hfa'⟩ := ih hbs' hb
      exact ⟨a', List.mem_cons_of_mem a ha', hfa'⟩

/-- A loop that returns keeps what each returning step keeps. -/
theorem foldlM_inv (I : β → Prop) {f : β → α → Go β} {l : List α}
    (hstep : ∀ a ∈ l, ∀ b b', I b → f b a = .ok b' → I b') {b₀ b : β} (h₀ : I b₀)
    (h : l.foldlM f b₀ = .ok b) : I b := by
  induction l generalizing b₀ with
  | nil =>
    cases h
    exact h₀
  | cons a l ih =>
    rw [List.foldlM_cons] at h
    obtain ⟨b₁, hb₁, h⟩ := bind_eq_ok h
    exact ih (fun a' ha' => hstep a' (List.mem_cons_of_mem a ha'))
      (hstep a List.mem_cons_self b₀ b₁ h₀ hb₁) h

/-- A loop that returns relates its start to its end by any reflexive, transitive `R` that
relates each returning step; and what a step establishes about its element and `R` carries
on holds at the end. -/
theorem foldlM_rel (R : β → β → Prop) [Std.Refl R] [IsTrans β R] (P : α → β → Prop)
    {f : β → α → Go β} {l : List α} (hmono : ∀ a b b', R b b' → P a b → P a b')
    (hstep : ∀ a ∈ l, ∀ b b', f b a = .ok b' → R b b' ∧ P a b') {b₀ b : β}
    (h : l.foldlM f b₀ = .ok b) : R b₀ b ∧ ∀ a ∈ l, P a b := by
  induction l generalizing b₀ with
  | nil =>
    cases h
    exact ⟨Std.Refl.refl _, fun _ ha => absurd ha List.not_mem_nil⟩
  | cons a l ih =>
    rw [List.foldlM_cons] at h
    obtain ⟨b₁, hb₁, h⟩ := bind_eq_ok h
    obtain ⟨hR₁, hP₁⟩ := hstep a List.mem_cons_self b₀ b₁ hb₁
    obtain ⟨hR, hP⟩ := ih (fun a' ha' => hstep a' (List.mem_cons_of_mem a ha')) h
    refine ⟨trans_of R hR₁ hR, fun a' ha' => ?_⟩
    rcases List.mem_cons.mp ha' with rfl | ha'
    · exact hmono a' b₁ b hR hP₁
    · exact hP a' ha'

/-- A loop whose step returns or not on its item alone, whatever the state, returns exactly when
the step of every item does. -/
theorem foldlM_ok_iff (P : α → Prop) {f : β → α → Go β}
    (hf : ∀ b a, (∃ b', f b a = .ok b') ↔ P a) (l : List α) (b : β) :
    (∃ r, l.foldlM f b = .ok r) ↔ ∀ a ∈ l, P a := by
  induction l generalizing b with
  | nil => simpa using ⟨b, rfl⟩
  | cons a l ih =>
    rw [List.foldlM_cons]
    constructor
    · rintro ⟨r, h⟩ x hx
      obtain ⟨b₁, hb₁, h⟩ := bind_eq_ok h
      rcases List.mem_cons.mp hx with rfl | hx
      · exact (hf b x).mp ⟨b₁, hb₁⟩
      · exact (ih b₁).mp ⟨r, h⟩ x hx
    · intro hall
      obtain ⟨b₁, hb₁⟩ := (hf b a).mpr (hall a List.mem_cons_self)
      rw [hb₁, ok_bind]
      exact (ih b₁).mpr fun x hx => hall x (List.mem_cons_of_mem a hx)

end GoRuntime
