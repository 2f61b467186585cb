import Mathlib

/-!
# Runs of calls: frames and unwinding

A system that answers calls one at a time, `step : σ → C → R × σ`, runs a list of calls from a
state and gives its replies in order and the state it leaves (`run`). Two rules lift a fact
about one call to whole runs.

* A relation between the state before and the state after that every call keeps, and that is
  reflexive and transitive, holds between the first and the last state of every run
  (`run_frame`). Taken as "holds the same values outside a region", it says that no run writes
  outside the region.
* A relation between two states under which every call gives the same reply and which every
  call keeps gives the same replies along every run (`run_unwinding`). Taken as "holds the same
  values inside a region", it says that what a run sees depends on the region alone: the
  unwinding condition of noninterference.
-/

namespace Unwinding

variable {σ C R : Type} (step : σ → C → R × σ)

/-- The replies of a run of calls, in order, and the state it leaves. -/
def run : σ → List C → List R × σ
  | s, [] => ([], s)
  | s, c :: cs => ((step s c).1 :: (run (step s c).2 cs).1, (run (step s c).2 cs).2)

@[simp] theorem run_nil (s : σ) : run step s [] = ([], s) := rfl

@[simp] theorem run_cons (s : σ) (c : C) (cs : List C) :
    run step s (c :: cs) =
      ((step s c).1 :: (run step (step s c).2 cs).1, (run step (step s c).2 cs).2) := rfl

/-- A reflexive, transitive relation every call keeps from its state to the next holds from the
first state of a run to its last. -/
theorem run_frame (F : σ → σ → Prop) (hrefl : ∀ s, F s s)
    (htrans : ∀ s₁ s₂ s₃, F s₁ s₂ → F s₂ s₃ → F s₁ s₃) (hstep : ∀ s c, F s (step s c).2) :
    ∀ s cs, F s (run step s cs).2
  | s, [] => hrefl s
  | s, c :: cs => htrans _ _ _ (hstep s c) (run_frame F hrefl htrans hstep (step s c).2 cs)

/-- Two states related by a relation under which every call gives one reply, and which every
call keeps, give the same replies along any run and stay related. -/
theorem run_unwinding (A : σ → σ → Prop)
    (hstep : ∀ s₁ s₂ c, A s₁ s₂ → (step s₁ c).1 = (step s₂ c).1 ∧ A (step s₁ c).2 (step s₂ c).2) :
    ∀ s₁ s₂ cs, A s₁ s₂ →
      (run step s₁ cs).1 = (run step s₂ cs).1 ∧ A (run step s₁ cs).2 (run step s₂ cs).2
  | _, _, [], h => ⟨rfl, h⟩
  | s₁, s₂, c :: cs, h => by
    obtain ⟨hreply, hnext⟩ := hstep s₁ s₂ c h
    obtain ⟨hreplies, hlast⟩ := run_unwinding A hstep _ _ cs hnext
    exact ⟨by rw [run_cons, run_cons, hreply, hreplies], hlast⟩

end Unwinding
