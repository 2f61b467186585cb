import Mathlib.Data.List.Basic
import Vault.Lib.GoRuntime

/-!
# Base64 with the URL alphabet and no padding

The encoding of RFC 4648 §5 without padding, as Go's `base64.RawURLEncoding` writes and reads
it. `Encode` turns each three bytes into four characters of six bits each, and a last group of
one or two bytes into two or three characters. `DecodeString` skips line breaks, stops at the
first other character outside the alphabet and at a lone last character, reporting the offset,
and does not check the unused bits of a last group.

Decoding inverts encoding (`decode_encode`), and encoded text uses only the alphabet
(`mem_alphabet_of_mem_encode`), so it never holds a `.` or a `/`.
-/

namespace Base64

/-- The URL alphabet: the character of each six-bit value. -/
def alphabet : List Char :=
  "ABCDEFGHIJKLMNOPQRSTUVWXYZabcdefghijklmnopqrstuvwxyz0123456789-_".toList

/-- The character of a six-bit value. -/
def encodeChar (v : ℕ) : Char := alphabet.getD v 'A'

/-- The value of a character of the alphabet. -/
def decodeChar (c : Char) : Option ℕ := alphabet.idxOf? c

/-- The four six-bit values of a 24-bit group, high bits first (`val>>18&0x3F`, ...). -/
def sextets (n : ℕ) : List ℕ := [n / 262144 % 64, n / 4096 % 64, n / 64 % 64, n % 64]

/-- The values `Encode` writes: a full group for each three bytes, and two or three values of
the last, partial group. -/
def sextetsOf : List UInt8 → List ℕ
  | b0 :: b1 :: b2 :: rest =>
    sextets (b0.toNat * 65536 + b1.toNat * 256 + b2.toNat) ++ sextetsOf rest
  | [b0, b1] => (sextets (b0.toNat * 65536 + b1.toNat * 256)).take 3
  | [b0] => (sextets (b0.toNat * 65536)).take 2
  | [] => []

/-- `EncodeToString`. -/
def encode (bs : List UInt8) : List Char := (sextetsOf bs).map encodeChar

/-- The values of the characters from offset `pos` on, line breaks skipped; the offset of the
first character outside the alphabet. -/
def values : ℕ → List Char → Except ℕ (List ℕ)
  | _, [] => .ok []
  | pos, c :: cs =>
    if c = '\n' ∨ c = '\r' then values (pos + 1) cs
    else
      match decodeChar c with
      | some v => (values (pos + 1) cs).map (v :: ·)
      | none => .error pos

/-- The three bytes of a 24-bit group (`byte(val>>16)`, `byte(val>>8)`, `byte(val)`). -/
def triple (n : ℕ) : List UInt8 :=
  [UInt8.ofNat (n / 65536), UInt8.ofNat (n / 256), UInt8.ofNat n]

/-- The bytes of the values, four to three; a lone last value is corrupt. -/
def bytes : List ℕ → Option (List UInt8)
  | v0 :: v1 :: v2 :: v3 :: rest =>
    (triple (v0 * 262144 + v1 * 4096 + v2 * 64 + v3) ++ ·) <$> bytes rest
  | [v0, v1, v2] => some ((triple (v0 * 262144 + v1 * 4096 + v2 * 64)).take 2)
  | [v0, v1] => some ((triple (v0 * 262144 + v1 * 4096)).take 1)
  | [_] => none
  | [] => some []

/-- `DecodeString`: the bytes, or the offset of the corrupt input (a lone last character is
reported at the last offset). -/
def decode (s : List Char) : Except ℕ (List UInt8) :=
  match values 0 s with
  | .error pos => .error pos
  | .ok vs =>
    match bytes vs with
    | some bs => .ok bs
    | none => .error (s.length - 1)

/-- `RawURLEncoding.EncodeToString`. -/
def encodeToString (bs : List UInt8) : String := String.ofList (encode bs)

/-- `RawURLEncoding.DecodeString`, with Go's `CorruptInputError`. -/
def decodeString (s : String) : GoRuntime.Go (List UInt8) :=
  match decode s.toList with
  | .ok bs => .ok bs
  | .error pos => .error (.error ("illegal base64 data at input byte " ++ toString pos))

/-! ## Round trip -/

set_option maxRecDepth 4000 in
theorem decodeChar_encodeChar : ∀ v < 64, decodeChar (encodeChar v) = some v := by
  decide

set_option maxRecDepth 4000 in
theorem encodeChar_mem_alphabet : ∀ v < 64, encodeChar v ∈ alphabet := by
  decide

set_option maxRecDepth 4000 in
theorem encodeChar_not_newline : ∀ v < 64, ¬(encodeChar v = '\n' ∨ encodeChar v = '\r') := by
  decide

theorem sextets_lt (n : ℕ) : ∀ v ∈ sextets n, v < 64 := by
  simp only [sextets, List.mem_cons, List.not_mem_nil, or_false]
  rintro v (rfl | rfl | rfl | rfl) <;> omega

theorem sextetsOf_lt (bs : List UInt8) : ∀ v ∈ sextetsOf bs, v < 64 := by
  induction bs using sextetsOf.induct with
  | case1 b0 b1 b2 rest ih =>
    intro v hv
    rcases List.mem_append.mp hv with hv | hv
    · exact sextets_lt _ v hv
    · exact ih v hv
  | case2 b0 b1 => exact fun v hv => sextets_lt _ v (List.mem_of_mem_take hv)
  | case3 b0 => exact fun v hv => sextets_lt _ v (List.mem_of_mem_take hv)
  | case4 => simp [sextetsOf]

/-- Characters of the alphabet read back as their values. -/
theorem values_map_encodeChar {vs : List ℕ} (h : ∀ v ∈ vs, v < 64) (pos : ℕ) :
    values pos (vs.map encodeChar) = .ok vs := by
  induction vs generalizing pos with
  | nil => rfl
  | cons v vs ih =>
    have hv : v < 64 := h v List.mem_cons_self
    have hrest := ih (fun w hw => h w (List.mem_cons_of_mem _ hw)) (pos + 1)
    simp only [List.map_cons, values, if_neg (encodeChar_not_newline v hv),
      decodeChar_encodeChar v hv, hrest]
    rfl

/-- A 24-bit group is the sum of its six-bit values, shifted back. -/
theorem sextets_sum {n : ℕ} (hn : n < 16777216) :
    n / 262144 % 64 * 262144 + n / 4096 % 64 * 4096 + n / 64 % 64 * 64 + n % 64 = n := by
  omega

theorem triple_bytes (b0 b1 b2 : UInt8) :
    triple (b0.toNat * 65536 + b1.toNat * 256 + b2.toNat) = [b0, b1, b2] := by
  have h0 := b0.toNat_lt
  have h1 := b1.toNat_lt
  have h2 := b2.toNat_lt
  simp only [triple, List.cons.injEq, and_true]
  refine ⟨?_, ?_, ?_⟩ <;> apply UInt8.toNat_inj.mp <;> simp only [UInt8.toNat_ofNat'] <;> omega

theorem bytes_sextetsOf (bs : List UInt8) : bytes (sextetsOf bs) = some bs := by
  induction bs using sextetsOf.induct with
  | case1 b0 b1 b2 rest ih =>
    have hn : b0.toNat * 65536 + b1.toNat * 256 + b2.toNat < 16777216 := by
      have h0 := b0.toNat_lt
      have h1 := b1.toNat_lt
      have h2 := b2.toNat_lt
      omega
    simp only [sextetsOf, sextets, List.cons_append, List.nil_append, bytes, ih,
      sextets_sum hn, triple_bytes]
    rfl
  | case2 b0 b1 =>
    -- the last two bytes leave the low six bits zero
    have h0 := b0.toNat_lt
    have h1 := b1.toNat_lt
    have hsum : (b0.toNat * 65536 + b1.toNat * 256) / 262144 % 64 * 262144 +
        (b0.toNat * 65536 + b1.toNat * 256) / 4096 % 64 * 4096 +
        (b0.toNat * 65536 + b1.toNat * 256) / 64 % 64 * 64 =
        b0.toNat * 65536 + b1.toNat * 256 + (0 : UInt8).toNat := by
      simp only [UInt8.toNat_zero]
      omega
    simp only [sextetsOf, sextets, List.take, bytes, hsum, triple_bytes]
  | case3 b0 =>
    have h0 := b0.toNat_lt
    have hsum : b0.toNat * 65536 / 262144 % 64 * 262144 + b0.toNat * 65536 / 4096 % 64 * 4096 =
        b0.toNat * 65536 + (0 : UInt8).toNat * 256 + (0 : UInt8).toNat := by
      simp only [UInt8.toNat_zero]
      omega
    simp only [sextetsOf, sextets, List.take, bytes, hsum, triple_bytes]
  | case4 => rfl

/-- Decoding inverts encoding. -/
theorem decode_encode (bs : List UInt8) : decode (encode bs) = .ok bs := by
  simp only [decode, encode, values_map_encodeChar (sextetsOf_lt bs), bytes_sextetsOf]

theorem decodeString_encodeToString (bs : List UInt8) :
    decodeString (encodeToString bs) = .ok bs := by
  simp [decodeString, encodeToString, decode_encode]

theorem mem_alphabet_of_mem_encode {bs : List UInt8} {c : Char} (h : c ∈ encode bs) :
    c ∈ alphabet := by
  obtain ⟨v, hv, rfl⟩ := List.mem_map.mp h
  exact encodeChar_mem_alphabet v (sextetsOf_lt bs v hv)

/-- No encoding is one character long: a last group gives two or three. -/
theorem length_encode_ne_one (bs : List UInt8) : (encode bs).length ≠ 1 := by
  rw [encode, List.length_map]
  induction bs using sextetsOf.induct with
  | case1 b0 b1 b2 rest ih => simp [sextetsOf, sextets]
  | case2 b0 b1 => simp [sextetsOf, sextets]
  | case3 b0 => simp [sextetsOf, sextets]
  | case4 => simp [sextetsOf]

end Base64
