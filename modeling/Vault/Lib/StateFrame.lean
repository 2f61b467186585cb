import Mathlib

/-!
# Relations that a failing state-passing program keeps

A computation `x : EStateM ε σ α` ends in a value or an error, and in a state either way: a
function that writes to storage and then fails has still written. `Preserves R x` says that
from every start `s` the state `x` ends in is related to `s` by `R`. For a reflexive and
transitive `R` the property is assembled from the parts of a program: `pure`, `throw`, reads,
`bind`, branches, and the state updates that move along `R`. `PreservesOnError R x` asks it
of the runs that fail only: a program whose last step writes keeps `R` when it fails.

The `run_*` lemmas compute one step of a run, and `run_bind_ok` and `run_bind_error` take a
run of a bound program apart.
-/

namespace StateFrame

variable {ε σ α β : Type}

/-- The state a run ends in, whether it returned or failed. -/
def Result.state : EStateM.Result ε σ α → σ
  | .ok _ s => s
  | .error _ s => s

@[simp] theorem Result.state_ok (a : α) (s : σ) :
    Result.state (EStateM.Result.ok a s : EStateM.Result ε σ α) = s := rfl

@[simp] theorem Result.state_error (e : ε) (s : σ) :
    Result.state (EStateM.Result.error e s : EStateM.Result ε σ α) = s := rfl

/-! ## Runs, one step at a time -/

@[simp] theorem run_pure (a : α) (s : σ) :
    (Pure.pure a : EStateM ε σ α).run s = .ok a s := rfl

@[simp] theorem run_throw (e : ε) (s : σ) :
    (MonadExcept.throw e : EStateM ε σ α).run s = .error e s := rfl

@[simp] theorem run_get (s : σ) : (MonadState.get : EStateM ε σ σ).run s = .ok s s := rfl

@[simp] theorem run_modify (f : σ → σ) (s : σ) :
    (modify f : EStateM ε σ PUnit).run s = .ok ⟨⟩ (f s) := rfl

@[simp] theorem run_modifyGet (f : σ → α × σ) (s : σ) :
    (MonadState.modifyGet f : EStateM ε σ α).run s = .ok (f s).1 (f s).2 := rfl

theorem run_bind (x : EStateM ε σ α) (f : α → EStateM ε σ β) (s : σ) :
    (x >>= f).run s = match x.run s with
      | .ok a s' => (f a).run s'
      | .error e s' => .error e s' := rfl

theorem run_map (f : α → β) (x : EStateM ε σ α) (s : σ) :
    (f <$> x).run s = match x.run s with
      | .ok a s' => .ok (f a) s'
      | .error e s' => .error e s' := rfl

theorem run_bind_ok {x : EStateM ε σ α} {f : α → EStateM ε σ β} {s s' : σ} {b : β} :
    (x >>= f).run s = .ok b s' ↔ ∃ a s₁, x.run s = .ok a s₁ ∧ (f a).run s₁ = .ok b s' := by
  rw [run_bind]
  rcases x.run s with ⟨a, s₁⟩ | ⟨e, s₁⟩ <;> simp

theorem run_bind_error {x : EStateM ε σ α} {f : α → EStateM ε σ β} {s s' : σ} {e : ε} :
    (x >>= f).run s = .error e s' ↔
      x.run s = .error e s' ∨ ∃ a s₁, x.run s = .ok a s₁ ∧ (f a).run s₁ = .error e s' := by
  rw [run_bind]
  rcases x.run s with ⟨a, s₁⟩ | ⟨e', s₁⟩ <;> simp

/-- A call outside the state: its outcome, in the state it found. -/
def lift (x : Except ε α) : EStateM ε σ α := fun s =>
  match x with
  | .ok a => .ok a s
  | .error e => .error e s

@[simp] theorem run_lift_ok (a : α) (s : σ) : (lift (.ok a) : EStateM ε σ α).run s = .ok a s := rfl

@[simp] theorem run_lift_error (e : ε) (s : σ) :
    (lift (.error e) : EStateM ε σ α).run s = .error e s := rfl

/-- `x`, with the state it fails in updated by `handler` for the error. -/
def onErrorModify (x : EStateM ε σ α) (handler : ε → σ → σ) : EStateM ε σ α := fun s =>
  match x.run s with
  | .ok a s' => .ok a s'
  | .error e s' => .error e (handler e s')

theorem run_onErrorModify_error {x : EStateM ε σ α} {handler : ε → σ → σ} {s s' : σ} {e : ε} :
    (onErrorModify x handler).run s = .error e s' ↔
      ∃ s₁, x.run s = .error e s₁ ∧ s' = handler e s₁ := by
  show (match x.run s with
    | .ok a s' => EStateM.Result.ok a s'
    | .error e s' => .error e (handler e s')) = _ ↔ _
  rcases x.run s with ⟨a, s₁⟩ | ⟨e', s₁⟩
  · simp
  · constructor
    · rintro ⟨⟩
      exact ⟨s₁, rfl, rfl⟩
    · rintro ⟨s₂, ⟨⟩, rfl⟩
      rfl

/-! ## Relations kept by every run -/

/-- From any start, `x` ends in a state related to the start by `R`. -/
def Preserves (R : σ → σ → Prop) (x : EStateM ε σ α) : Prop :=
  ∀ s, R s (Result.state (x.run s))

section Rules

variable {R : σ → σ → Prop}

theorem Preserves.of_run_ok {x : EStateM ε σ α} (hx : Preserves R x) {s s' : σ} {a : α}
    (h : x.run s = .ok a s') : R s s' := by
  simpa [h] using hx s

theorem Preserves.of_run_error {x : EStateM ε σ α} (hx : Preserves R x) {s s' : σ} {e : ε}
    (h : x.run s = .error e s') : R s s' := by
  simpa [h] using hx s

theorem Preserves.mono {R' : σ → σ → Prop} (hR : ∀ s s', R s s' → R' s s') {x : EStateM ε σ α}
    (hx : Preserves R x) : Preserves R' x :=
  fun s => hR _ _ (hx s)

theorem Preserves.modifyGet {f : σ → α × σ} (h : ∀ s, R s (f s).2) :
    Preserves R (MonadState.modifyGet f : EStateM ε σ α) := h

theorem Preserves.modify {f : σ → σ} (h : ∀ s, R s (f s)) :
    Preserves R (modify f : EStateM ε σ PUnit) := h

theorem Preserves.ite {c : Prop} [Decidable c] {x y : EStateM ε σ α} (hx : Preserves R x)
    (hy : Preserves R y) : Preserves R (if c then x else y) := by
  split
  · exact hx
  · exact hy

theorem Preserves.option {o : Option β} {x : EStateM ε σ α} {f : β → EStateM ε σ α}
    (hx : Preserves R x) (hf : ∀ b, Preserves R (f b)) :
    Preserves R (match o with | none => x | some b => f b) := by
  cases o with
  | none => exact hx
  | some b => exact hf b

variable [Std.Refl R]

theorem Preserves.pure (a : α) : Preserves R (Pure.pure a : EStateM ε σ α) :=
  fun s => Std.Refl.refl s

theorem Preserves.throw (e : ε) : Preserves R (MonadExcept.throw e : EStateM ε σ α) :=
  fun s => Std.Refl.refl s

theorem Preserves.get : Preserves R (MonadState.get : EStateM ε σ σ) :=
  fun s => Std.Refl.refl s

theorem Preserves.lift (x : Except ε α) : Preserves R (lift x : EStateM ε σ α) := by
  intro s
  cases x <;> exact Std.Refl.refl s

variable [IsTrans σ R]

omit [Std.Refl R] in
/-- A bound program keeps `R` when its first part does and so does every continuation. -/
theorem Preserves.bind {x : EStateM ε σ α} {f : α → EStateM ε σ β} (hx : Preserves R x)
    (hf : ∀ a, Preserves R (f a)) : Preserves R (x >>= f) := by
  intro s
  have h1 := hx s
  show R s (Result.state (EStateM.bind x f s))
  unfold EStateM.bind
  rcases hxs : x s with ⟨a, s'⟩ | ⟨e, s'⟩
  · -- the first part returned in `s'`: the continuation goes on from there
    rw [EStateM.run, hxs] at h1
    exact trans_of R h1 (hf a s')
  · rw [EStateM.run, hxs] at h1
    exact h1

/-- A loop keeps `R` when each of its turns does. -/
theorem Preserves.foldlM {f : β → α → EStateM ε σ β} (hf : ∀ b a, Preserves R (f b a))
    (l : List α) (b : β) : Preserves R (l.foldlM f b) := by
  induction l generalizing b with
  | nil => exact Preserves.pure b
  | cons a l ih => exact Preserves.bind (hf b a) ih

theorem Preserves.forM {f : α → EStateM ε σ PUnit} (hf : ∀ a, Preserves R (f a)) (l : List α) :
    Preserves R (l.forM f) := by
  induction l with
  | nil => exact Preserves.pure _
  | cons a l ih => exact Preserves.bind (hf a) fun _ => ih

/-- A program that reads the state and then runs one of a family of programs. -/
theorem Preserves.of_get {f : σ → EStateM ε σ α} (hf : ∀ s, Preserves R (f s)) :
    Preserves R (MonadState.get >>= f) :=
  Preserves.bind Preserves.get hf

end Rules

/-! ## Relations kept by every failing run -/

/-- Every run of `x` that fails ends in a state related to its start by `R`. -/
def PreservesOnError (R : σ → σ → Prop) (x : EStateM ε σ α) : Prop :=
  ∀ s e s', x.run s = .error e s' → R s s'

section ErrorRules

variable {R : σ → σ → Prop}

theorem Preserves.onError {x : EStateM ε σ α} (hx : Preserves R x) : PreservesOnError R x :=
  fun _ _ _ h => hx.of_run_error h

/-- A state update never fails. -/
theorem PreservesOnError.modify (f : σ → σ) : PreservesOnError R (modify f : EStateM ε σ PUnit) :=
  fun _ _ _ h => by cases h

theorem PreservesOnError.ite {c : Prop} [Decidable c] {x y : EStateM ε σ α}
    (hx : PreservesOnError R x) (hy : PreservesOnError R y) :
    PreservesOnError R (if c then x else y) := by
  split
  · exact hx
  · exact hy

/-- A program that never fails. -/
def NeverFails (x : EStateM ε σ α) : Prop := ∀ s e s', x.run s ≠ .error e s'

theorem NeverFails.modify (f : σ → σ) : NeverFails (modify f : EStateM ε σ PUnit) :=
  fun _ _ _ h => by cases h

/-- A program whose continuations never fail fails only in its first part. -/
theorem PreservesOnError.bind_neverFails {x : EStateM ε σ α} {f : α → EStateM ε σ β}
    (hx : PreservesOnError R x) (hf : ∀ a, NeverFails (f a)) : PreservesOnError R (x >>= f) := by
  intro s e s' h
  rcases run_bind_error.mp h with hxs | ⟨a, s₁, -, hfs⟩
  · exact hx s e s' hxs
  · exact absurd hfs (hf a s₁ e s')

variable [IsTrans σ R]

/-- A bound program fails keeping `R` when its first part keeps `R` on every run and every
continuation keeps it when it fails. -/
theorem PreservesOnError.bind {x : EStateM ε σ α} {f : α → EStateM ε σ β} (hx : Preserves R x)
    (hf : ∀ a, PreservesOnError R (f a)) : PreservesOnError R (x >>= f) := by
  intro s e s' h
  rcases run_bind_error.mp h with hxs | ⟨a, s₁, hxs, hfs⟩
  · exact hx.of_run_error hxs
  · -- the first part returned in `s₁`, and the continuation failed from there
    exact trans_of R (hx.of_run_ok hxs) (hf a s₁ e s' hfs)

end ErrorRules

end StateFrame
