import Mathlib.Logic.Relation

/-!
# Reachability and cycles of a relation

Two facts a depth-first cycle check rests on. A set of nodes that holds every successor of
its members holds everything reachable from them (`mem_of_reflTransGen`); a search that stops
with such a set and without the target has shown the target unreachable. And adding edges out
of one node `a` keeps a relation acyclic when none of the new targets reaches `a`
(`Acyclic.of_le_sup`): a new cycle would have to leave `a` by a new edge and come back.
-/

namespace Graphs

open Relation

variable {α : Type*} {r r' : α → α → Prop}

/-- No node reaches itself in one step or more. -/
def Acyclic (r : α → α → Prop) : Prop := ∀ x, ¬TransGen r x x

theorem Acyclic.mono (hr : Acyclic r) (h : ∀ x y, r' x y → r x y) : Acyclic r' :=
  fun x hx => hr x (TransGen.mono h x x hx)

theorem Acyclic.irrefl (hr : Acyclic r) (x : α) : ¬r x x := fun h => hr x (.single h)

/-- A set holding the successors of its members that satisfy `P`, where every successor
satisfies `P`, holds what its `P`-members reach. -/
theorem mem_of_reflTransGen {S P : α → Prop} (hclosed : ∀ u, S u → P u → ∀ c, r u c → S c)
    (hP : ∀ u c, r u c → P c) {x y : α} (hx : S x) (hPx : P x) (h : ReflTransGen r x y) :
    S y := by
  -- the induction carries `P` along the path with membership
  have hboth : S y ∧ P y := by
    induction h with
    | refl => exact ⟨hx, hPx⟩
    | tail _ hbc ih => exact ⟨hclosed _ ih.1 ih.2 _ hbc, hP _ _ hbc⟩
  exact hboth.1

section AddEdges

variable {a : α} {B : α → Prop}

/-- A path of `r'`, where `r'` is `r` with edges from `a` to `B` added: a path of `r`, or one
that reaches `a` and, after its last new edge, follows `r`. -/
theorem transGen_of_le_sup (hle : ∀ x y, r' x y → r x y ∨ (x = a ∧ B y)) {y z : α}
    (h : TransGen r' y z) :
    TransGen r y z ∨ ∃ b, B b ∧ ReflTransGen r b z ∧ ReflTransGen r' y a := by
  induction h with
  | single hyz =>
    rcases hle _ _ hyz with hr | ⟨rfl, hb⟩
    · exact .inl (.single hr)
    · exact .inr ⟨_, hb, .refl, .refl⟩
  | tail hyw hwz ih =>
    rcases hle _ _ hwz with hr | ⟨rfl, hb⟩
    · rcases ih with ih | ⟨b, hb, hbw, hya⟩
      · exact .inl (ih.tail hr)
      · exact .inr ⟨b, hb, hbw.tail hr, hya⟩
    · exact .inr ⟨_, hb, .refl, hyw.to_reflTransGen⟩

/-- Edges added out of `a` keep a relation acyclic when no new target reaches `a`. -/
theorem Acyclic.of_le_sup (hr : Acyclic r) (hle : ∀ x y, r' x y → r x y ∨ (x = a ∧ B y))
    (hB : ∀ b, B b → ¬ReflTransGen r b a) : Acyclic r' := by
  intro x hx
  rcases transGen_of_le_sup hle hx with hcyc | ⟨b, hb, hbx, hxa⟩
  · exact hr x hcyc
  · -- the path from `x` back to `a` either stays in `r`, or its last new edge leads to `a`
    rcases reflTransGen_iff_eq_or_transGen.mp hxa with rfl | hxa'
    · exact hB b hb hbx
    · rcases transGen_of_le_sup hle hxa' with hxa'' | ⟨b', hb', hb'a, -⟩
      · exact hB b hb (hbx.trans hxa''.to_reflTransGen)
      · exact hB b' hb' hb'a

end AddEdges

end Graphs
