import Mathlib

/-!
# Authenticated encryption with associated data, by its laws

An AEAD seals a plaintext under a key, a nonce and additional data. Two laws are all that
storage built on it needs: opening with the key, nonce and additional data it was sealed
with gives the plaintext back, and opening with another key or other additional data fails.
So an opening that succeeds names the key and data the text was sealed with, and returns
its plaintext (`Cipher.Lawful.open_seal_eq`).

`tagged` meets both laws and has no secrecy at all: the sealed text carries the key and the
additional data, each in a prefix-free encoding, in front of the plaintext. It shows that
the two laws can hold together.
-/

namespace AEAD

/-- The two operations of an AEAD on byte strings: `sealText key nonce plaintext data` and
`openText key nonce ciphertext data`. -/
structure Cipher where
  sealText : List UInt8 → List UInt8 → List UInt8 → List UInt8 → List UInt8
  openText : List UInt8 → List UInt8 → List UInt8 → List UInt8 → Option (List UInt8)

/-- The laws of an AEAD. -/
structure Cipher.Lawful (c : Cipher) : Prop where
  open_seal : ∀ k n p a, c.openText k n (c.sealText k n p a) a = some p
  open_seal_ne : ∀ k k' n p a a', k' ≠ k ∨ a' ≠ a → c.openText k' n (c.sealText k n p a) a' = none

variable {c : Cipher}

/-- An opening of a sealed text that succeeds used its key and data, and gave its plaintext. -/
theorem Cipher.Lawful.open_seal_eq (h : c.Lawful) {k k' n p a a' q : List UInt8}
    (hq : c.openText k' n (c.sealText k n p a) a' = some q) : k' = k ∧ a' = a ∧ q = p := by
  by_cases hka : k' = k ∧ a' = a
  · obtain ⟨rfl, rfl⟩ := hka
    rw [h.open_seal] at hq
    exact ⟨rfl, rfl, (Option.some.inj hq).symm⟩
  · rw [h.open_seal_ne k k' n p a a' (by tauto)] at hq
    cases hq

/-! ## An AEAD that meets the laws -/

/-- Each byte escaped behind a `1`, the end marked by a `0`. -/
def escape : List UInt8 → List UInt8
  | [] => [0]
  | b :: bs => 1 :: b :: escape bs

theorem escape_length (x : List UInt8) : (escape x).length = 2 * x.length + 1 := by
  induction x with
  | nil => rfl
  | cons b bs ih =>
    simp only [escape, List.length_cons, ih]
    omega

/-- The escaping is prefix-free: an escaped string and what follows it can be read back. -/
theorem escape_append_inj {x y r r' : List UInt8} (h : escape x ++ r = escape y ++ r') :
    x = y ∧ r = r' := by
  induction x generalizing y with
  | nil =>
    cases y with
    | nil => exact ⟨rfl, by simpa [escape] using h⟩
    | cons b bs => simp [escape] at h
  | cons b bs ih =>
    cases y with
    | nil => simp [escape] at h
    | cons b' bs' =>
      simp only [escape, List.cons_append, List.cons.injEq, true_and] at h
      obtain ⟨rfl, h⟩ := h
      obtain ⟨rfl, hr⟩ := ih h
      exact ⟨rfl, hr⟩

/-- Seals by writing the escaped key and data in front of the plaintext; opens by checking
them. -/
def tagged : Cipher where
  sealText k _ p a := escape k ++ escape a ++ p
  openText k _ t a :=
    if (escape k ++ escape a).isPrefixOf t then some (t.drop (escape k ++ escape a).length)
    else none

theorem tagged_sealText_length (k n p a : List UInt8) :
    (tagged.sealText k n p a).length = 2 * k.length + 2 * a.length + 2 + p.length := by
  simp only [tagged, List.length_append, escape_length]
  omega

theorem tagged_lawful : tagged.Lawful where
  open_seal k n p a := by
    simp [tagged, List.isPrefixOf_iff_prefix]
  open_seal_ne k k' n p a a' hne := by
    simp only [tagged, ite_eq_right_iff, reduceCtorEq, imp_false, Bool.not_eq_true]
    by_contra hpre
    -- a matching tag is the sealing tag: both escapings can be read back
    obtain ⟨r, hr⟩ : escape k' ++ escape a' <+: escape k ++ escape a ++ p := by
      simpa [List.isPrefixOf_iff_prefix] using hpre
    simp only [List.append_assoc] at hr
    obtain ⟨rfl, hrest⟩ := escape_append_inj hr
    obtain ⟨rfl, -⟩ := escape_append_inj hrest
    simp at hne

end AEAD
