import Mathlib

/-!
# Worklists, and loops on fuel

A walk over a forest keeps a stack of nodes. Each turn pops the top node, emits some leaves
and pushes some nodes. Say every node's leaves are, up to order, the ones it emits and the
ones below the nodes it pushes. Then the leaves emitted so far and the leaves still below the
stack are together a permutation of the leaves below the start (`perm_pop_push`). A walk that
empties its stack has therefore emitted each of those leaves exactly once.

A loop that runs on fuel ends, with a result its invariant gives, when its fuel exceeds a
measure that every turn lowers (`run_of_variant`). For a stack the measure is the sum of its
nodes' sizes (`weight`). A turn lowers it when the popped node outweighs what it pushes
(`weight_lt_of_perm`), for instance when each node's size bounds the sum of a cost over its
leaves.
-/

namespace Worklist

section Leaves

variable {N L : Type} (below : N → List L)

/-- The leaves below the nodes of a stack, bottom first. -/
def pending (stack : List N) : List L := stack.flatMap below

@[simp] theorem pending_nil : pending below [] = [] := rfl

@[simp] theorem pending_append (s t : List N) :
    pending below (s ++ t) = pending below s ++ pending below t :=
  List.flatMap_append

@[simp] theorem pending_singleton (n : N) : pending below [n] = below n := by
  simp [pending]

/-- Popping `n`, emitting its own leaves and pushing the nodes that hold the rest keeps what was
emitted and what is pending together a permutation of what it was. -/
theorem perm_pop_push {visited emitted : List L} {stack pushed : List N} {n : N}
    (hn : (below n).Perm (emitted ++ pending below pushed)) :
    (visited ++ pending below (stack ++ [n])).Perm
      ((visited ++ emitted) ++ pending below (stack ++ pushed)) := by
  rw [pending_append, pending_append, pending_singleton, List.append_assoc]
  apply List.Perm.append_left visited
  refine (hn.append_left _).trans ?_
  -- what is pending under the rest of the stack trades places with what `n` emits
  rw [← List.append_assoc, ← List.append_assoc]
  exact List.perm_append_comm.append_right _

/-- The sum of a cost over the pending leaves is the sum, over the stack, of each node's. -/
theorem sum_pending (g : L → ℕ) (stack : List N) :
    ((pending below stack).map g).sum = (stack.map fun n => ((below n).map g).sum).sum := by
  induction stack with
  | nil => rfl
  | cons n stack ih =>
    simp only [pending, List.flatMap_cons, List.map_append, List.sum_append] at ih ⊢
    rw [ih, List.map_cons, List.sum_cons]

end Leaves

section Weight

variable {N L : Type} (size : N → ℕ)

/-- A stack's weight: the sum of its nodes' sizes. -/
def weight (stack : List N) : ℕ := (stack.map size).sum

@[simp] theorem weight_append (s t : List N) :
    weight size (s ++ t) = weight size s + weight size t := by
  simp [weight]

@[simp] theorem weight_singleton (n : N) : weight size [n] = size n := by
  simp [weight]

/-- A node outweighs the nodes it pushes when its size exceeds a cost summed over its leaves,
and each pushed node's size is at most that cost summed over its own. -/
theorem weight_lt_of_perm {below : N → List L} (g : L → ℕ) {n : N} {emitted : List L}
    {pushed : List N} (hn : (below n).Perm (emitted ++ pending below pushed))
    (hpushed : ∀ m ∈ pushed, size m ≤ ((below m).map g).sum)
    (hsize : ((below n).map g).sum < size n) :
    weight size pushed < size n := by
  have hle : weight size pushed ≤ ((pending below pushed).map g).sum := by
    rw [sum_pending, weight]
    exact List.sum_le_sum hpushed
  have hsplit : ((below n).map g).sum = (emitted.map g).sum + ((pending below pushed).map g).sum := by
    rw [(hn.map g).sum_eq, List.map_append, List.sum_append]
  omega

/-- A turn that pops `n` and pushes less weight lowers the stack's weight. -/
theorem weight_pop_push {stack pushed : List N} {n : N} (h : weight size pushed < size n) :
    weight size (stack ++ pushed) < weight size (stack ++ [n]) := by
  simp only [weight_append, weight_singleton]
  omega

end Weight

section Fuel

variable {S R : Type}

/-- A loop on fuel ends with a result of `Q` when its fuel exceeds its measure, if from every
state of its invariant it either ends with such a result or takes one turn, whatever its fuel,
to a state of the invariant with a lower measure. -/
theorem run_of_variant (loop : ℕ → S → Option R) (I : S → Prop) (μ : S → ℕ) (Q : R → Prop)
    (hstep : ∀ fuel s, I s → (∃ r, loop (fuel + 1) s = some r ∧ Q r) ∨
      ∃ s', I s' ∧ μ s' < μ s ∧ loop (fuel + 1) s = loop fuel s') :
    ∀ fuel s, I s → μ s < fuel → ∃ r, loop fuel s = some r ∧ Q r := by
  intro fuel
  induction fuel with
  | zero => intro s _ hμ; omega
  | succ fuel ih =>
    intro s hs hμ
    rcases hstep fuel s hs with hdone | ⟨s', hs', hlt, hturn⟩
    · exact hdone
    · rw [hturn]
      exact ih s' hs' (by omega)

end Fuel

end Worklist
