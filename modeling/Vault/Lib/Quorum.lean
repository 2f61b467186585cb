import Mathlib.Data.List.Nodup

/-!
# Collecting a quorum of distinct values

A collector gathers values until it holds `t` distinct ones. A value it already holds is not
counted; the value that brings it to `t` hands the whole batch over, and the collection
starts again from nothing. Between submissions a collector with `0 < t` holds fewer than
`t` pairwise distinct values (`Collecting`), and every batch is `t` distinct values.
-/

namespace Quorum

variable {α : Type} {t : ℕ} {acc b : List α} {x : α}

/-- The collection between submissions: distinct values, fewer than the threshold. -/
def Collecting (t : ℕ) (acc : List α) : Prop := acc.Nodup ∧ acc.length < t

theorem collecting_nil (ht : 0 < t) : Collecting t ([] : List α) := ⟨List.nodup_nil, ht⟩

theorem nodup_append_singleton (hacc : acc.Nodup) (h : x ∉ acc) : (acc ++ [x]).Nodup :=
  List.nodup_append.mpr ⟨hacc, List.nodup_singleton x, fun _ ha _ hb => by
    rw [List.mem_singleton.mp hb]
    exact ne_of_mem_of_not_mem ha h⟩

variable [DecidableEq α]

instance : DecidablePred (Collecting t : List α → Prop) := fun acc =>
  inferInstanceAs (Decidable (acc.Nodup ∧ acc.length < t))

/-- One submission: the collection afterwards, and the batch handed over if there is one. -/
def submit (t : ℕ) (acc : List α) (x : α) : List α × Option (List α) :=
  if x ∈ acc then (acc, none)
  else if (acc ++ [x]).length < t then (acc ++ [x], none)
  else ([], some (acc ++ [x]))

theorem submit_of_mem (h : x ∈ acc) : submit t acc x = (acc, none) := if_pos h

theorem submit_of_lt (h : x ∉ acc) (hlt : acc.length + 1 < t) :
    submit t acc x = (acc ++ [x], none) := by
  unfold submit
  rw [if_neg h, if_pos (by simpa using hlt)]

theorem submit_of_le (h : x ∉ acc) (hle : t ≤ acc.length + 1) :
    submit t acc x = ([], some (acc ++ [x])) := by
  unfold submit
  rw [if_neg h, if_neg (by simpa using hle)]

theorem submit_collecting (ht : 0 < t) (h : Collecting t acc) :
    Collecting t (submit t acc x).1 := by
  by_cases hmem : x ∈ acc
  · rw [submit_of_mem hmem]
    exact h
  by_cases hlt : acc.length + 1 < t
  · rw [submit_of_lt hmem hlt]
    exact ⟨nodup_append_singleton h.1 hmem, by simpa using hlt⟩
  · rw [submit_of_le hmem (Nat.not_lt.mp hlt)]
    exact collecting_nil ht

/-- A batch is handed over exactly when a new value brings the collection to the threshold;
it is the collection followed by the new value. -/
theorem submit_snd_eq_some_iff (h : Collecting t acc) :
    (submit t acc x).2 = some b ↔ x ∉ acc ∧ acc.length + 1 = t ∧ b = acc ++ [x] := by
  by_cases hmem : x ∈ acc
  · rw [submit_of_mem hmem]
    simp [hmem]
  by_cases hlt : acc.length + 1 < t
  · rw [submit_of_lt hmem hlt]
    simp only [reduceCtorEq, false_iff]
    omega
  · have heq : acc.length + 1 = t := by
      have := h.2
      omega
    rw [submit_of_le hmem (Nat.not_lt.mp hlt)]
    simp [hmem, heq, eq_comm]

/-- The collection empties exactly when a batch is handed over. -/
theorem submit_fst_of_snd_eq_some (hb : (submit t acc x).2 = some b) :
    (submit t acc x).1 = [] := by
  unfold submit at hb ⊢
  split_ifs at hb ⊢
  rfl

/-- A batch is `t` distinct values. -/
theorem batch_spec (h : Collecting t acc) (hb : (submit t acc x).2 = some b) :
    b.Nodup ∧ b.length = t := by
  obtain ⟨hmem, hlen, rfl⟩ := (submit_snd_eq_some_iff h).mp hb
  exact ⟨nodup_append_singleton h.1 hmem, by simpa using hlen⟩

/-- A machine whose every step keeps its collection or submits one value to it keeps
`Collecting` along every run. -/
theorem foldl_collecting {σ β : Type} (ht : 0 < t) (coll : σ → List α) (step : σ → β → σ)
    (hstep : ∀ s r, Collecting t (coll s) →
      coll (step s r) = coll s ∨ ∃ x, coll (step s r) = (submit t (coll s) x).1) :
    ∀ (rs : List β) (s : σ), Collecting t (coll s) → Collecting t (coll (rs.foldl step s))
  | [], _, hs => hs
  | r :: rs, s, hs => by
    refine foldl_collecting ht coll step hstep rs (step s r) ?_
    rcases hstep s r hs with hsame | ⟨x, hsub⟩
    · rw [hsame]
      exact hs
    · rw [hsub]
      exact submit_collecting ht hs

end Quorum
