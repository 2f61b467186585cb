import Mathlib.Data.List.Nodup
import Mathlib.Data.Nat.Init

/-!
# Round-robin service order

A round-robin scheduler serves its queues in a cyclic order. Seen from the queue it serves
next, that order is a list. Serving takes the head, which goes to the back while it still has
work and leaves the order once it has none; a new queue enters the order at some position;
every other step leaves the order alone (`Step`).

From that alone: between two consecutive services of a queue `q` that is still in the order
after the first of them, every other queue that stays in the order throughout is served
exactly once (`served_once_between`). The argument follows where `x` stands against `q`:
right after `q` is served, `q` is last and `x` ahead of it; no step but the service of `x`
changes which of the two comes first, and that service puts `x` behind `q`, where it stays
until `q` is served again.
-/

namespace RoundRobin

open scoped List

variable {α : Type}

/-- One step of a round-robin order, with the queue it serves if it serves one. -/
inductive Step : List α → Option α → List α → Prop
  /-- The head is served and still has work: it goes to the back. -/
  | requeue (h : α) (t : List α) : Step (h :: t) (some h) (t ++ [h])
  /-- The head is served and has no more work: it leaves the order. -/
  | retire (h : α) (t : List α) : Step (h :: t) (some h) t
  /-- A new queue enters the order. -/
  | enter (l₁ l₂ : List α) (y : α) : Step (l₁ ++ l₂) none (l₁ ++ y :: l₂)
  /-- Nothing is served and the order stays. -/
  | stay (l : List α) : Step l none l

variable {l l' t : List α} {e : Option α} {a b h q x : α}

/-- A step that serves `q` serves the head of the order, which then goes to the back or
leaves. -/
theorem Step.cases_some (hs : Step l (some q) l') :
    ∃ t, l = q :: t ∧ (l' = t ++ [q] ∨ l' = t) := by
  cases hs with
  | requeue _ t => exact ⟨t, rfl, .inl rfl⟩
  | retire => exact ⟨_, rfl, .inr rfl⟩

theorem pair_sublist_of_ne_head (hne : a ≠ h) (hs : [a, b] <+ h :: t) : [a, b] <+ t := by
  rcases List.sublist_cons_iff.mp hs with hs | ⟨r, hr, -⟩
  · exact hs
  · exact absurd (List.cons.inj hr).1 hne

/-- The head of a duplicate-free order stands ahead of everything else in it. -/
theorem not_pair_sublist_head (hnd : (h :: t).Nodup) (hne : a ≠ h) : ¬ [a, h] <+ h :: t := by
  intro hs
  have hmem : h ∈ t := (pair_sublist_of_ne_head hne hs).subset (by simp)
  exact (List.nodup_cons.mp hnd).1 hmem

/-- A step that serves neither `a` nor `b` keeps `a` ahead of `b`. -/
theorem Step.pair (hs : Step l e l') (ha : e ≠ some a) (hb : e ≠ some b) (hab : [a, b] <+ l) :
    [a, b] <+ l' := by
  cases hs with
  | requeue h t =>
    have hah : a ≠ h := fun hah => ha (hah ▸ rfl)
    exact (pair_sublist_of_ne_head hah hab).trans (List.sublist_append_left t [h])
  | retire h t =>
    have hah : a ≠ h := fun hah => ha (hah ▸ rfl)
    exact pair_sublist_of_ne_head hah hab
  | enter l₁ l₂ y => exact hab.trans ((List.sublist_cons_self y l₂).append_left l₁)
  | stay => exact hab

/-- A step that does not serve `q`, from an order with `x` ahead of `q` and to one that still
holds `x`: either it does not serve `x` and `x` stays ahead, or it serves `x` and puts it
behind `q`. -/
theorem Step.ahead (hs : Step l e l') (hnd : l.Nodup) (hq : e ≠ some q) (hx : x ∈ l')
    (hahead : [x, q] <+ l) :
    (e ≠ some x ∧ [x, q] <+ l') ∨ (e = some x ∧ [q, x] <+ l') := by
  by_cases hex : e = some x
  · subst hex
    refine .inr ⟨rfl, ?_⟩
    obtain ⟨t, rfl, hnext⟩ := hs.cases_some
    have hqt : q ∈ t := List.singleton_sublist.mp (List.cons_sublist_cons.mp hahead)
    rcases hnext with rfl | rfl
    · exact List.Sublist.append (List.singleton_sublist.mpr hqt) (List.Sublist.refl [x])
    -- the served `x` left the order, yet the order after still holds it
    · exact absurd hx (List.nodup_cons.mp hnd).1
  · exact .inl ⟨hex, hs.pair hex hq hahead⟩

/-- A step that does not serve `q`, from an order with `q` ahead of `x`: it cannot serve `x`,
and `q` stays ahead. -/
theorem Step.behind (hs : Step l e l') (hnd : l.Nodup) (hq : e ≠ some q) (hbehind : [q, x] <+ l) :
    e ≠ some x ∧ [q, x] <+ l' := by
  have hex : e ≠ some x := by
    rintro rfl
    obtain ⟨t, rfl, -⟩ := hs.cases_some
    have hqx : q ≠ x := fun hqx => hq (hqx ▸ rfl)
    exact not_pair_sublist_head hnd hqx hbehind
  exact ⟨hex, hs.pair hq hex hbehind⟩

section Run

variable (ls : ℕ → List α) (es : ℕ → Option α) (i : ℕ) (q x : α)

/-- Where `x` stands against `q` at step `m`, `q` having been served at step `i`: `x` has not
been served since and stands ahead of `q`, or it has been served at exactly one step since
and stands behind `q`. -/
def Standing (m : ℕ) : Prop :=
  ((∀ m', i < m' → m' < m → es m' ≠ some x) ∧ [x, q] <+ ls m) ∨
    ((∃ m₀, i < m₀ ∧ m₀ < m ∧ es m₀ = some x ∧
        ∀ m', i < m' → m' < m → es m' = some x → m' = m₀) ∧ [q, x] <+ ls m)

variable {ls es i q x}

/-- One step that does not serve `q` and keeps `x` in the order keeps `Standing`. -/
theorem standing_succ {m : ℕ} (him : i < m) (hs : Step (ls m) (es m) (ls (m + 1)))
    (hnd : (ls m).Nodup) (hq : es m ≠ some q) (hx : x ∈ ls (m + 1))
    (hst : Standing ls es i q x m) :
    Standing ls es i q x (m + 1) := by
  rcases hst with ⟨hnone, hahead⟩ | ⟨⟨m₀, him₀, hm₀, hx₀, huniq⟩, hbehind⟩
  · rcases hs.ahead hnd hq hx hahead with ⟨hex, hahead'⟩ | ⟨hex, hbehind'⟩
    · -- `x` is still waiting
      refine .inl ⟨fun m' him' hm' => ?_, hahead'⟩
      rcases Nat.lt_succ_iff_lt_or_eq.mp hm' with hm' | rfl
      · exact hnone m' him' hm'
      · exact hex
    · -- this is the one service of `x`
      refine .inr ⟨⟨m, him, Nat.lt_succ_self m, hex, fun m' him' hm' hxm' => ?_⟩, hbehind'⟩
      rcases Nat.lt_succ_iff_lt_or_eq.mp hm' with hm' | rfl
      · exact absurd hxm' (hnone m' him' hm')
      · rfl
  · obtain ⟨hex, hbehind'⟩ := hs.behind hnd hq hbehind
    refine .inr ⟨⟨m₀, him₀, Nat.lt_succ_of_lt hm₀, hx₀, fun m' him' hm' hxm' => ?_⟩, hbehind'⟩
    rcases Nat.lt_succ_iff_lt_or_eq.mp hm' with hm' | rfl
    · exact huniq m' him' hm' hxm'
    · exact absurd hxm' hex

/-- Right after `q` is served, while it is still in the order, every other queue in the order
stands ahead of it. -/
theorem standing_start (hs : Step (ls i) (es i) (ls (i + 1))) (hnd : (ls i).Nodup)
    (hi : es i = some q) (hq : q ∈ ls (i + 1)) (hx : x ∈ ls (i + 1)) (hxq : x ≠ q) :
    Standing ls es i q x (i + 1) := by
  rw [hi] at hs
  obtain ⟨t, hl, hnext⟩ := hs.cases_some
  rw [hl] at hnd
  rcases hnext with hnext | hnext
  · refine .inl ⟨fun m' him' hm' => absurd hm' (by omega), ?_⟩
    rw [hnext] at hx ⊢
    have hxt : x ∈ t := by simpa [hxq] using hx
    exact List.Sublist.append (List.singleton_sublist.mpr hxt) (List.Sublist.refl [q])
  -- `q` left the order, yet the order after still holds it
  · rw [hnext] at hq
    exact absurd hq (List.nodup_cons.mp hnd).1

/-- **Fairness of a round robin.** Let `q` be served at steps `i < k` and not in between, and
be in the order right after step `i`. Then every other queue that is in the order throughout
is served at exactly one step in between. -/
theorem served_once_between {k : ℕ} (hik : i < k)
    (hstep : ∀ m, i ≤ m → m ≤ k → Step (ls m) (es m) (ls (m + 1)))
    (hnd : ∀ m, i ≤ m → m ≤ k → (ls m).Nodup)
    (hi : es i = some q) (hk : es k = some q) (hbetween : ∀ m, i < m → m < k → es m ≠ some q)
    (hq : q ∈ ls (i + 1)) (hx : ∀ m, i < m → m ≤ k → x ∈ ls m) (hxq : x ≠ q) :
    ∃! m, i < m ∧ m < k ∧ es m = some x := by
  -- induction on the steps after `i`, carrying `Standing`
  have hrun : ∀ m, i + 1 ≤ m → m ≤ k → Standing ls es i q x m := by
    intro m hm
    induction m, hm using Nat.le_induction with
    | base =>
      exact fun _ => standing_start (hstep i (Nat.le_refl _) (Nat.le_of_lt hik)) (hnd i (Nat.le_refl _) (Nat.le_of_lt hik)) hi hq
        (hx (i + 1) (Nat.lt_succ_self i) hik) hxq
    | succ m him ih =>
      intro hmk
      exact standing_succ (by omega) (hstep m (by omega) (by omega)) (hnd m (by omega) (by omega))
        (hbetween m (by omega) (by omega)) (hx (m + 1) (by omega) hmk) (ih (by omega))
  -- at step `k` the order starts with `q`, so `x` cannot still stand ahead of it
  have hsk := hstep k (Nat.le_of_lt hik) (Nat.le_refl _)
  rw [hk] at hsk
  obtain ⟨t, hl, -⟩ := hsk.cases_some
  rcases hrun k hik (Nat.le_refl _) with ⟨-, hahead⟩ | ⟨⟨m₀, him₀, hm₀, hx₀, huniq⟩, -⟩
  · have hndk := hnd k (Nat.le_of_lt hik) (Nat.le_refl _)
    rw [hl] at hahead hndk
    exact absurd hahead (not_pair_sublist_head hndk hxq)
  · exact ⟨m₀, ⟨him₀, hm₀, hx₀⟩, fun m' ⟨him', hm', hxm'⟩ => huniq m' him' hm' hxm'⟩

end Run

end RoundRobin
