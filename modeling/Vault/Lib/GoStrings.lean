import Mathlib

/-!
# Go strings, and patterns of path segments

The functions of Go's `strings` package that the models call. A Go string is a sequence of
bytes; the models read it as the characters of its UTF-8 decoding. For valid UTF-8 this changes
nothing that the models use: a byte prefix is a character prefix, bytewise order is code point
order, and a search for an ASCII byte finds the ASCII character. Only `len` counts bytes.

The second half is about splitting at a separator (`strings.Split` and `strings.Join`) and
about segment patterns. A pattern is a list of segments, each a literal or a hole; a hole
stands for any word free of the separator. A word matches when some filling of the holes,
joined, is the word (or, for a prefix pattern, a prefix of it). `segmentsAgree` decides this
one segment at a time against the word's own segments, and `segmentsAgree_iff_exact` and
`segmentsAgree_iff_prefix` say that it decides exactly the pattern's meaning.
-/

namespace GoStrings

/-- `len(s)`: the number of bytes of `s` in UTF-8. -/
def len (s : String) : ℕ := (s.toList.map Char.utf8Size).sum

/-- `strings.HasPrefix(s, pre)`. -/
def hasPrefix (s pre : String) : Bool := pre.toList.isPrefixOf s.toList

/-- `strings.HasSuffix(s, suf)`. -/
def hasSuffix (s suf : String) : Bool := suf.toList.isSuffixOf s.toList

/-- `strings.TrimSuffix(s, suf)`. -/
def trimSuffix (s suf : String) : String :=
  if hasSuffix s suf then String.ofList (s.toList.take (s.toList.length - suf.toList.length))
  else s

/-- `strings.TrimPrefix(s, pre)`. -/
def trimPrefix (s pre : String) : String :=
  if hasPrefix s pre then String.ofList (s.toList.drop pre.toList.length) else s

/-- `unicode.IsSpace`: the characters of Unicode's White_Space property. -/
def isSpace (c : Char) : Bool :=
  c = '\t' || c = '\n' || c = '\x0b' || c = '\x0c' || c = '\r' || c = ' ' ||
    c.val = 0x85 || c.val = 0xA0 || c.val = 0x1680 || (0x2000 ≤ c.val && c.val ≤ 0x200A) ||
    c.val = 0x2028 || c.val = 0x2029 || c.val = 0x202F || c.val = 0x205F || c.val = 0x3000

/-- `strings.TrimSpace(s)`. -/
def trimSpace (s : String) : String :=
  String.ofList ((s.toList.dropWhile isSpace).reverse.dropWhile isSpace).reverse

/-- `strings.Contains(s, sub)`. -/
def contains (s sub : String) : Bool := decide (sub.toList <:+: s.toList)

theorem contains_eq_false_iff {s sub : String} : contains s sub = false ↔ ¬ sub.toList <:+: s.toList := by
  simp [contains]

/-- `strings.Index(s, string(c))`: the byte offset of the first `c` in `s`, or -1. -/
def index (s : String) (c : Char) : ℤ :=
  if c ∈ s.toList then len (String.ofList (s.toList.takeWhile (· != c))) else -1

/-- `s[:i]` and `s[i+1:]` for `i = strings.LastIndex(s, string(c))`, or `none` for -1. -/
def splitLast (s : String) (c : Char) : Option (String × String) :=
  if c ∈ s.toList then
    some (String.ofList ((s.toList.reverse.dropWhile (· != c)).reverse.dropLast),
      String.ofList (s.toList.reverse.takeWhile (· != c)).reverse)
  else none

/-- `strings.Split(s, string(sep))`. -/
def split (s : String) (sep : Char) : List String := (s.toList.splitOn sep).map String.ofList

/-- `strings.SplitN(s, string(sep), n)` for `n > 0`: the pieces of `Split`, the last `n`-th
holding the rest of `s` unsplit. -/
def splitN (s : String) (sep : Char) (n : ℕ) : List String :=
  if (split s sep).length ≤ n then split s sep
  else (split s sep).take (n - 1) ++
    [String.ofList ([sep].intercalate (((split s sep).drop (n - 1)).map String.toList))]

/-- `strings.Join(parts, string(sep))`. -/
def join (parts : List String) (sep : Char) : String :=
  String.ofList ([sep].intercalate (parts.map String.toList))

/-- One segment of `path.Clean`'s scan, on the segments kept so far, last first: an empty
segment or `.` is dropped, `..` removes the last kept segment (or is kept at the start of a
relative path), and any other segment is kept. -/
def cleanSegment (rooted : Bool) (kept : List String) (seg : String) : List String :=
  if seg = "" ∨ seg = "." then kept
  else if seg = ".." then
    match kept with
    | last :: rest => if last = ".." then seg :: kept else rest
    | [] => if rooted then [] else [seg]
  else seg :: kept

/-- `path.Clean`: the shortest path with the same segments once `.` and `..` are resolved. -/
def pathClean (p : String) : String :=
  if p = "" then "."
  else
    let rooted := p.toList.head? == some '/'
    let body := join ((split p '/').foldl (cleanSegment rooted) []).reverse '/'
    if rooted then "/" ++ body else if body = "" then "." else body

example : pathClean "a/./b/../c/" = "a/c" ∧ pathClean "/../a//b" = "/a/b" ∧
    pathClean "../x/.." = ".." := by
  decide

/-- `path.Join`: the elements from the first non-empty one, joined by `/` and cleaned. -/
def pathJoin (elems : List String) : String :=
  match elems.dropWhile (· = "") with
  | [] => ""
  | rest => pathClean (join rest '/')

/-- `fmt`'s `%q` of a string without characters that need escaping. -/
def goQuote (s : String) : String := "\"" ++ s ++ "\""

/-- `strings.EqualFold(s, t)`, with ASCII letters folded (Go folds all of Unicode). -/
def equalFold (s t : String) : Bool := s.toList.map Char.toLower == t.toList.map Char.toLower

/-- `strings.ToLower(s)`, on ASCII letters as `equalFold`. -/
def toLower (s : String) : String := String.ofList (s.toList.map Char.toLower)

theorem equalFold_of_toLower_eq {s t : String} (h : toLower s = toLower t) :
    equalFold s t = true := by
  have hl : s.toList.map Char.toLower = t.toList.map Char.toLower := by
    simpa [toLower] using congrArg String.toList h
  simp [equalFold, hl]

/-- `goQuote` of each string, between brackets and apart by blanks: `fmt`'s `%q` of a
`[]string`. -/
def goQuoteList (l : List String) : String := "[" ++ " ".intercalate (l.map goQuote) ++ "]"

@[simp] theorem toLower_toLower (s : String) : toLower (toLower s) = toLower s := by
  simp [toLower, Function.comp_def, Char.toLower_toLower_eq_toLower]

theorem toNat_toLower (c : Char) :
    c.toLower.toNat = if 65 ≤ c.toNat ∧ c.toNat ≤ 90 then c.toNat + 32 else c.toNat := by
  unfold Char.toLower
  split
  · next h =>
    simp only [ge_iff_le, UInt32.le_iff_toNat_le] at h
    simp at h
    rw [if_pos h]
    show (c.val + ('a'.val - 'A'.val)).toNat = c.toNat + 32
    rw [UInt32.toNat_add]
    simp
    omega
  · next h =>
    simp only [ge_iff_le, UInt32.le_iff_toNat_le] at h
    simp at h
    rw [if_neg (by omega)]

/-- No ASCII letter is white space. -/
theorem isSpace_eq_false {c : Char} (h : 65 ≤ c.toNat ∧ c.toNat ≤ 122) : isSpace c = false := by
  simp only [isSpace, Char.ext_iff, Bool.or_eq_false_iff, decide_eq_false_iff_not,
    Bool.and_eq_false_iff, UInt32.ext_iff, UInt32.le_iff_toNat_le]
  simp
  omega

theorem isSpace_toLower (c : Char) : isSpace c.toLower = isSpace c := by
  by_cases hc : 65 ≤ c.toNat ∧ c.toNat ≤ 90
  · have hl := toNat_toLower c
    rw [if_pos hc] at hl
    rw [isSpace_eq_false (by omega), isSpace_eq_false (by omega)]
  · have hsame : c.toLower = c := Char.toNat_inj.mp (by rw [toNat_toLower, if_neg hc])
    rw [hsame]

theorem trimSpace_toLower (s : String) : trimSpace (toLower s) = toLower (trimSpace s) := by
  have hp : isSpace ∘ Char.toLower = isSpace := funext isSpace_toLower
  simp only [trimSpace, toLower, String.toList_ofList, List.dropWhile_map, hp,
    ← List.map_reverse]

/-- A prefix of what is left after dropping leading elements starts with a kept element. -/
theorem dropWhile_of_prefix_dropWhile {α : Type*} {p : α → Bool} {t l : List α}
    (ht : t <+: l.dropWhile p) : t.dropWhile p = t := by
  refine List.dropWhile_eq_self_iff.mpr fun hl => ?_
  have hne : t ≠ [] := List.ne_nil_of_length_pos hl
  have hhead := ht.head hne
  rw [List.head_eq_getElem] at hhead
  rw [hhead]
  simp [List.head_dropWhile_not p]

@[simp] theorem trimSpace_trimSpace (s : String) : trimSpace (trimSpace s) = trimSpace s := by
  unfold trimSpace
  simp only [String.toList_ofList]
  -- the text trimmed once is a prefix of the text with its leading blanks dropped
  have hpre : ((s.toList.dropWhile isSpace).reverse.dropWhile isSpace).reverse <+:
      s.toList.dropWhile isSpace := by
    have hsuf := List.dropWhile_suffix (l := (s.toList.dropWhile isSpace).reverse) isSpace
    simpa using List.reverse_prefix.mpr hsuf
  rw [dropWhile_of_prefix_dropWhile hpre, List.reverse_reverse, List.dropWhile_idempotent]

/-- Trimming and lowercasing twice is trimming and lowercasing once. -/
@[simp] theorem toLower_trimSpace_idem (s : String) :
    toLower (trimSpace (toLower (trimSpace s))) = toLower (trimSpace s) := by
  rw [trimSpace_toLower, trimSpace_trimSpace, toLower_toLower]

/-- `strings.Index(s, sub)` as a character position, `none` for -1. A match starts and ends on
character boundaries, so cutting there in bytes or in characters gives the same string. -/
def indexSub (s sub : List Char) : Option ℕ :=
  (List.range (s.length + 1)).find? fun i => sub.isPrefixOf (s.drop i)

theorem hasPrefix_iff {s pre : String} : hasPrefix s pre ↔ pre.toList <+: s.toList :=
  List.isPrefixOf_iff_prefix

@[simp] theorem hasPrefix_append (pre s : String) : hasPrefix (pre ++ s) pre = true :=
  hasPrefix_iff.mpr (by simp)

@[simp] theorem trimPrefix_append (pre s : String) : trimPrefix (pre ++ s) pre = s := by
  simp [trimPrefix]

/-- A string with a prefix is the prefix followed by what `TrimPrefix` leaves. -/
theorem append_trimPrefix {s pre : String} (h : hasPrefix s pre) : pre ++ trimPrefix s pre = s := by
  rw [String.ext_iff, String.toList_append]
  simp only [trimPrefix, h, if_true, String.toList_ofList]
  exact List.prefix_iff_eq_append.mp (hasPrefix_iff.mp h)

/-- A string with a suffix is what `TrimSuffix` leaves followed by the suffix. -/
theorem trimSuffix_append {s suf : String} (h : hasSuffix s suf = true) :
    trimSuffix s suf ++ suf = s := by
  obtain ⟨t, ht⟩ := List.isSuffixOf_iff_suffix.mp h
  rw [String.ext_iff, String.toList_append]
  simp only [trimSuffix, h, if_true, String.toList_ofList, ← ht, List.length_append,
    Nat.add_sub_cancel, List.take_left']

theorem hasPrefix_of_append {s t pre : String} (h : hasPrefix (s ++ t) pre = false) :
    hasPrefix s pre = false := by
  cases hs : hasPrefix s pre with
  | false => rfl
  | true =>
    have hst : pre.toList <+: (s ++ t).toList := by
      simpa using (hasPrefix_iff.mp hs).trans (List.prefix_append _ t.toList)
    simp [hasPrefix_iff.mpr hst] at h

/-- A prefix no longer than `s` is a prefix of `s ++ t` exactly when it is one of `s`. -/
theorem hasPrefix_append_of_length_le {s t q : String} (h : q.length ≤ s.length) :
    hasPrefix (s ++ t) q = hasPrefix s q := by
  apply Bool.eq_iff_iff.mpr
  rw [hasPrefix_iff, hasPrefix_iff, String.toList_append]
  constructor
  · intro hq
    exact List.prefix_of_prefix_length_le hq (List.prefix_append _ _)
      (by simpa [String.length_toList] using h)
  · intro hq
    exact hq.trans (List.prefix_append _ _)

/-- A string has no prefix that disagrees with one of its prefixes. -/
theorem hasPrefix_eq_false_of_hasPrefix {s p q : String} (hp : hasPrefix s p)
    (hpq : ¬ p.toList <+: q.toList) (hqp : ¬ q.toList <+: p.toList) : hasPrefix s q = false := by
  cases hq : hasPrefix s q with
  | false => rfl
  | true =>
    rcases List.prefix_or_prefix_of_prefix (hasPrefix_iff.mp hp) (hasPrefix_iff.mp hq) with h | h
    · exact absurd h hpq
    · exact absurd h hqp

theorem length_trimPrefix {s pre : String} (h : hasPrefix s pre) :
    (trimPrefix s pre).length + pre.length = s.length := by
  have hle := (hasPrefix_iff.mp h).length_le
  simp only [trimPrefix, h, if_true, String.length_ofList, List.length_drop]
  simp only [String.length_toList] at hle ⊢
  omega

@[simp] theorem len_append (s t : String) : len (s ++ t) = len s + len t := by
  simp [len]

@[simp] theorem len_ofList (l : List Char) : len (String.ofList l) = (l.map Char.utf8Size).sum := by
  simp [len]

/-- The first `c` stands before the end of the string. -/
theorem index_lt_len {s : String} {c : Char} (h : c ∈ s.toList) : index s c < len s := by
  have hsplit : s.toList = s.toList.takeWhile (· != c) ++ s.toList.dropWhile (· != c) :=
    List.takeWhile_append_dropWhile.symm
  have hdrop : s.toList.dropWhile (· != c) ≠ [] := by
    intro hnil
    have hall : (s.toList.takeWhile (· != c)).all (· != c) = true := List.all_takeWhile
    rw [← List.append_nil (s.toList.takeWhile _), ← hnil, List.takeWhile_append_dropWhile] at hall
    simp only [List.all_eq_true, bne_iff_ne, ne_eq] at hall
    exact hall c h rfl
  obtain ⟨d, ds, hd⟩ := List.exists_cons_of_ne_nil hdrop
  have hlen : len s = len (String.ofList (s.toList.takeWhile (· != c))) + d.utf8Size +
      (ds.map Char.utf8Size).sum := by
    conv_lhs => rw [len, hsplit, hd]
    simp [add_assoc]
  simp only [index, h, if_true, hlen]
  have := Char.utf8Size_pos d
  omega

/-- `-1` or an offset: `index` never goes below `-1`. -/
theorem neg_one_le_index (s : String) (c : Char) : -1 ≤ index s c := by
  unfold index
  split <;> omega

theorem index_eq_neg_one_iff {s : String} {c : Char} : index s c = -1 ↔ c ∉ s.toList := by
  unfold index
  split
  · next h =>
    simp only [h, not_true_eq_false, iff_false]
    omega
  · next h => simp [h]

/-- Text after a string that holds `c` does not move its first `c`. -/
theorem index_append_of_mem {s : String} {c : Char} (h : c ∈ s.toList) (t : String) :
    index (s ++ t) c = index s c := by
  -- the scan stops inside `s`, at its first `c`
  have hshort : (s.toList.takeWhile (· != c)).length ≠ s.toList.length := by
    intro hlen
    have heq : s.toList.takeWhile (· != c) = s.toList := (List.takeWhile_prefix _).eq_of_length hlen
    have hall : (s.toList.takeWhile (· != c)).all (· != c) = true := List.all_takeWhile
    rw [heq] at hall
    simp only [List.all_eq_true, bne_iff_ne, ne_eq] at hall
    exact hall c h rfl
  simp only [index, h, if_true, String.toList_append, List.mem_append, true_or,
    List.takeWhile_append, hshort, if_false]

/-- A first `c` that is not in `t` is not found at the end of `s` in `s ++ t`. -/
theorem index_append_ne_len {s t : String} {c : Char} (ht : c ∉ t.toList) :
    index (s ++ t) c ≠ len s := by
  by_cases hs : c ∈ s.toList
  · rw [index_append_of_mem hs]
    exact ne_of_lt (index_lt_len hs)
  · have hnot : c ∉ (s ++ t).toList := by simp [hs, ht]
    rw [index_eq_neg_one_iff.mpr hnot]
    omega

/-! ## `strconv.ParseInt(s, 10, 64)` -/

theorem splitLast_eq_none {s : String} {c : Char} (h : c ∉ s.toList) : splitLast s c = none := by
  simp [splitLast, h]

/-- The last `c` of `a ++ c :: b`, for `b` free of `c`, is the one between them. -/
theorem splitLast_append {a b : List Char} {c : Char} (hb : c ∉ b) :
    splitLast (String.ofList (a ++ c :: b)) c = some (String.ofList a, String.ofList b) := by
  have hne : ∀ x ∈ b.reverse, (x != c) = true := by
    intro x hx
    have : x ≠ c := fun h => hb (h ▸ List.mem_reverse.mp hx)
    simpa using this
  -- reversed, `b` comes first and has no `c`
  have htake : (b.reverse ++ c :: a.reverse).takeWhile (· != c) = b.reverse := by
    rw [List.takeWhile_append_of_pos hne]
    simp
  have hdrop : (b.reverse ++ c :: a.reverse).dropWhile (· != c) = c :: a.reverse := by
    rw [List.dropWhile_append_of_pos hne]
    simp
  simp [splitLast, List.reverse_append, htake, hdrop]

/-- A list holding `c` has a last `c`. -/
theorem exists_last_occurrence {l : List Char} {c : Char} (h : c ∈ l) :
    ∃ a b, l = a ++ c :: b ∧ c ∉ b := by
  induction l using List.reverseRecOn with
  | nil => exact absurd h List.not_mem_nil
  | append_singleton l x ih =>
    by_cases hx : x = c
    · exact ⟨l, [], by rw [hx], List.not_mem_nil⟩
    · -- the last `c` is in `l`, and `x` after it is no `c`
      have hl : c ∈ l := by
        rcases List.mem_append.mp h with hl | hl
        · exact hl
        · exact absurd (List.mem_singleton.mp hl).symm hx
      obtain ⟨a, b, rfl, hb⟩ := ih hl
      refine ⟨a, b ++ [x], by simp, ?_⟩
      simp only [List.mem_append, List.mem_singleton, not_or]
      exact ⟨hb, fun h => hx h.symm⟩

/-- What `splitLast` returns: the text around the last `c`. -/
theorem splitLast_eq_some {s before after : String} {c : Char}
    (h : splitLast s c = some (before, after)) :
    s.toList = before.toList ++ c :: after.toList ∧ c ∉ after.toList := by
  have hc : c ∈ s.toList := by
    by_contra hc
    simp [splitLast_eq_none hc] at h
  obtain ⟨a, b, hab, hb⟩ := exists_last_occurrence hc
  have hs : s = String.ofList (a ++ c :: b) := by rw [← hab, String.ofList_toList]
  rw [hs, splitLast_append hb, Option.some.injEq, Prod.mk.injEq] at h
  obtain ⟨rfl, rfl⟩ := h
  simpa using ⟨hab, hb⟩

section ParseInt

/-- The digits `strconv.ParseUint(s, 10, 64)` accepts, and their value: a non-empty run of
decimal digits (no underscores in base 10). Its range check is subsumed by `parseInt`'s. -/
def decimalValue (s : List Char) : Option ℕ :=
  if s ≠ [] ∧ s.all Char.isDigit then some (Nat.ofDigitChars 10 s 0) else none

/-- `strconv.ParseInt(s, 10, 64)`: an optional sign, then decimal digits, within `int64`;
`none` for its syntax and range errors. -/
def parseInt (s : String) : Option ℤ :=
  match s.toList with
  | '+' :: r => (decimalValue r).bind fun un => if un < 2 ^ 63 then some un else none
  | '-' :: r => (decimalValue r).bind fun un => if un ≤ 2 ^ 63 then some (-(un : ℤ)) else none
  | r => (decimalValue r).bind fun un => if un < 2 ^ 63 then some un else none

/-- `fmt`'s `%d` read back: the decimal form of a number within `int64` parses to it. -/
theorem parseInt_repr {n : ℕ} (h : n < 2 ^ 63) : parseInt n.repr = some n := by
  have hne : Nat.toDigits 10 n ≠ [] := Nat.toDigits_ne_nil
  have hval : decimalValue (Nat.toDigits 10 n) = some n := by
    have hall : (Nat.toDigits 10 n).all Char.isDigit = true :=
      List.all_eq_true.mpr fun _ hc => Nat.isDigit_of_mem_toDigits (by decide) (by decide) hc
    rw [decimalValue, if_pos ⟨hne, hall⟩, Nat.ofDigitChars_ten_toDigits]
  -- a decimal form starts with a digit, never with a sign
  obtain ⟨c, r, hcr⟩ := List.exists_cons_of_ne_nil hne
  have hc : c.isDigit = true :=
    Nat.isDigit_of_mem_toDigits (by decide) (by decide) (hcr ▸ List.mem_cons_self)
  unfold parseInt
  rw [Nat.toList_repr]
  split
  · next r' heq => exact absurd hc (by rw [hcr] at heq; cases heq; decide)
  · next r' heq => exact absurd hc (by rw [hcr] at heq; cases heq; decide)
  · simpa [hval] using h

theorem decimalValue_eq_none {s : List Char} {c : Char} (hc : c ∈ s) (hd : c.isDigit = false) :
    decimalValue s = none := by
  rw [decimalValue, if_neg]
  rintro ⟨-, hall⟩
  have hdigit := List.all_eq_true.mp hall c hc
  rw [hd] at hdigit
  cases hdigit

/-- A string holding a character that is neither a digit nor a sign does not parse. -/
theorem parseInt_eq_none {s : String} {c : Char} (hc : c ∈ s.toList) (hd : c.isDigit = false)
    (hplus : c ≠ '+') (hminus : c ≠ '-') : parseInt s = none := by
  unfold parseInt
  split
  · next r heq =>
    rw [heq] at hc
    simp [decimalValue_eq_none ((List.mem_cons.mp hc).resolve_left hplus) hd]
  · next r heq =>
    rw [heq] at hc
    simp [decimalValue_eq_none ((List.mem_cons.mp hc).resolve_left hminus) hd]
  · simp [decimalValue_eq_none hc hd]

/-- The text of `strconv.ParseInt(s, 10, 64)`'s error, a `*NumError`: digits that do not fit
are out of range, anything else is a syntax error. -/
def parseIntError (s : String) : String :=
  let digits := match s.toList with
    | '+' :: r => r
    | '-' :: r => r
    | r => r
  "strconv.ParseInt: parsing " ++ goQuote s ++ ": " ++
    if (decimalValue digits).isSome then "value out of range" else "invalid syntax"

theorem getLast_of_decimalValue {r : List Char} {v : ℕ} (h : decimalValue r = some v) :
    ∃ c, r.getLast? = some c ∧ c.isDigit = true := by
  unfold decimalValue at h
  split_ifs at h with hr
  obtain ⟨hne, hall⟩ := hr
  exact ⟨r.getLast hne, List.getLast?_eq_some_getLast hne,
    List.all_eq_true.mp hall _ (List.getLast_mem hne)⟩

/-- A string `ParseInt` accepts ends with a digit. -/
theorem parseInt_getLast {s : String} {n : ℤ} (h : parseInt s = some n) :
    ∃ c, s.toList.getLast? = some c ∧ c.isDigit = true := by
  -- after the sign, the digits are all of the string's end
  have hsigned : ∀ (sign : Char) (r : List Char) (v : ℕ), decimalValue r = some v →
      ∃ c, (sign :: r).getLast? = some c ∧ c.isDigit = true := by
    intro sign r v hv
    obtain ⟨c, hc, hd⟩ := getLast_of_decimalValue hv
    exact ⟨c, by simp [List.getLast?_cons, hc], hd⟩
  unfold parseInt at h
  split at h
  · next r heq =>
    obtain ⟨v, hv, -⟩ := Option.bind_eq_some_iff.mp h
    rw [heq]
    exact hsigned '+' r v hv
  · next r heq =>
    obtain ⟨v, hv, -⟩ := Option.bind_eq_some_iff.mp h
    rw [heq]
    exact hsigned '-' r v hv
  · obtain ⟨v, hv, -⟩ := Option.bind_eq_some_iff.mp h
    exact getLast_of_decimalValue hv

/-- A suffix ends with the string's last character. -/
theorem hasSuffix_eq_false_of_getLast {s suf : String} {c d : Char}
    (hs : s.toList.getLast? = some c) (hsuf : suf.toList.getLast? = some d) (hcd : c ≠ d) :
    hasSuffix s suf = false := by
  unfold hasSuffix
  rw [Bool.eq_false_iff]
  intro h
  obtain ⟨t, ht⟩ := List.isSuffixOf_iff_suffix.mp h
  have hlast : s.toList.getLast? = some d := by
    rw [← ht, List.getLast?_append, hsuf]
    rfl
  exact hcd (Option.some.inj (hs.symm.trans hlast))

end ParseInt

/-! ## Splitting at a separator -/

section Split

variable {α : Type*} (sep : α)

/-- Two words free of the separator, each followed by it: one is a prefix of the other's
continuation only when they are the same word. -/
theorem eq_of_append_sep_prefix {a b t : List α} (ha : sep ∉ a) (hb : sep ∉ b)
    (h : a ++ [sep] <+: b ++ sep :: t) : a = b := by
  induction a generalizing b with
  | nil =>
    cases b with
    | nil => rfl
    | cons y b =>
      have hy : sep = y := (List.cons_prefix_cons.mp h).1
      exact absurd (hy ▸ List.mem_cons_self) hb
  | cons x a ih =>
    cases b with
    | nil =>
      have hx : x = sep := (List.cons_prefix_cons.mp h).1
      exact absurd (hx ▸ List.mem_cons_self) ha
    | cons y b =>
      obtain ⟨rfl, h'⟩ := List.cons_prefix_cons.mp h
      rw [ih (fun hs => ha (List.mem_cons_of_mem x hs)) (fun hs => hb (List.mem_cons_of_mem x hs)) h']

theorem intercalate_ne_nil_cons {w : List α} {ws : List (List α)} (hws : ws ≠ []) :
    [sep].intercalate (w :: ws) = w ++ sep :: [sep].intercalate ws := by
  obtain ⟨w', ws', rfl⟩ := List.exists_cons_of_ne_nil hws
  simp [List.intercalate_cons_cons]

theorem prefix_intercalate_cons (w : List α) (ws : List (List α)) :
    w <+: [sep].intercalate (w :: ws) := by
  cases ws with
  | nil => simp
  | cons w' ws => exact ⟨sep :: [sep].intercalate (w' :: ws), by simp [List.intercalate_cons_cons]⟩

variable [DecidableEq α]

theorem not_mem_of_mem_splitOn {xs w : List α} (h : w ∈ xs.splitOn sep) : sep ∉ w := by
  induction xs generalizing w with
  | nil => simp_all
  | cons x xs ih =>
    simp only [List.splitOn, List.splitOnP_cons_eq_if_modifyHead] at h
    split at h
    · rcases List.mem_cons.mp h with rfl | h
      · simp
      · exact ih h
    · rename_i hx
      obtain ⟨v, vs, hvs⟩ := List.exists_cons_of_ne_nil (List.splitOn_ne_nil sep xs)
      simp only [List.splitOn] at hvs ih
      rw [hvs, List.modifyHead_cons] at h
      rcases List.mem_cons.mp h with rfl | h
      · have hv := ih (hvs ▸ List.mem_cons_self)
        simp only [beq_iff_eq] at hx
        simp [hv, Ne.symm hx]
      · exact ih (hvs ▸ List.mem_cons_of_mem v h)

/-- Splitting a word that starts with a separator-free piece: the piece joins the first segment. -/
theorem splitOn_append_of_not_mem {r : List α} (hr : sep ∉ r) (t : List α) :
    (r ++ t).splitOn sep = (t.splitOn sep).modifyHead (r ++ ·) := by
  induction r with
  | nil =>
    simp only [List.nil_append]
    cases t.splitOn sep <;> rfl
  | cons a r ih =>
    have ha : (a == sep) = false := by
      simp only [beq_eq_false_iff_ne]
      rintro rfl
      exact hr List.mem_cons_self
    have ih := ih (fun h => hr (List.mem_cons_of_mem a h))
    simp only [List.splitOn] at ih ⊢
    rw [List.cons_append, List.splitOnP_cons_eq_if_modifyHead, ha, if_neg (by simp), ih,
      List.modifyHead_modifyHead]
    rfl

/-- Splitting a separator-free piece followed by the separator. -/
theorem splitOn_append_sep {r : List α} (hr : sep ∉ r) (t : List α) :
    (r ++ sep :: t).splitOn sep = r :: t.splitOn sep := by
  simp only [List.splitOn]
  refine List.splitOnP_append_cons_of_forall_mem (fun x hx => ?_) sep (by simp) t
  simp only [beq_eq_false_iff_ne]
  rintro rfl
  exact hr hx

/-- Joining separator-free words and splitting again gives them back. -/
theorem splitOn_intercalate {ws : List (List α)} (hws : ∀ w ∈ ws, sep ∉ w) (hne : ws ≠ []) :
    ([sep].intercalate ws).splitOn sep = ws :=
  List.splitOn_intercalate sep hws hne

/-- A join of separator-free words followed by anything splits into the words, the last of them
continued by the first segment of what follows. -/
theorem splitOn_intercalate_append {ws : List (List α)} (hws : ∀ w ∈ ws, sep ∉ w)
    (hne : ws ≠ []) (t : List α) :
    ([sep].intercalate ws ++ t).splitOn sep =
      ws.dropLast ++ (t.splitOn sep).modifyHead (ws.getLast hne ++ ·) := by
  induction ws with
  | nil => exact absurd rfl hne
  | cons w ws ih =>
    have hw : sep ∉ w := hws w List.mem_cons_self
    cases ws with
    | nil => simpa using splitOn_append_of_not_mem sep hw t
    | cons w' ws =>
      rw [List.intercalate_cons_cons, List.append_assoc, List.append_assoc, List.singleton_append,
        splitOn_append_sep sep hw, ih (fun v hv => hws v (List.mem_cons_of_mem w hv)) (by simp)]
      simp

end Split

section SplitString

/-! `strings.Split` on a separator of several characters. It cuts at the leftmost occurrence of
the separator and goes on after it, so the occurrences it cuts at do not overlap: `"}}}"` splits
on `"}}"` into `""` and `"}"`. A piece other than the last is followed by the separator and
holds no occurrence of it that starts inside the piece (`¬ sep <:+: a ++ sep.dropLast`); the
last holds none at all. -/

variable {α : Type*} [DecidableEq α] {sep : List α}

/-- The scan of `strings.Split(s, sep)` for a non-empty `sep`: `skip` more characters of a
separator just found are passed over, and `acc` is the current piece, reversed. -/
def splitSubAux (sep : List α) : ℕ → List α → List α → List (List α)
  | _, acc, [] => [acc.reverse]
  | skip + 1, acc, _ :: cs => splitSubAux sep skip acc cs
  | 0, acc, c :: cs =>
    if sep.isPrefixOf (c :: cs) then acc.reverse :: splitSubAux sep (sep.length - 1) [] cs
    else splitSubAux sep 0 (c :: acc) cs

theorem splitSubAux_ne_nil (k : ℕ) (acc l : List α) : splitSubAux sep k acc l ≠ [] := by
  induction l generalizing k acc with
  | nil => simp [splitSubAux]
  | cons c cs ih =>
    cases k with
    | succ k => simpa [splitSubAux] using ih k acc
    | zero =>
      simp only [splitSubAux]
      split_ifs
      · simp
      · exact ih 0 (c :: acc)

theorem splitSubAux_skip (xs l acc : List α) :
    splitSubAux sep xs.length acc (xs ++ l) = splitSubAux sep 0 acc l := by
  induction xs with
  | nil => rfl
  | cons x xs ih => simpa [splitSubAux] using ih

/-- A word free of the separator is one piece. -/
theorem splitSubAux_of_not_contains {l : List α} (h : ¬ sep <:+: l) (acc : List α) :
    splitSubAux sep 0 acc l = [acc.reverse ++ l] := by
  induction l generalizing acc with
  | nil => simp [splitSubAux]
  | cons c cs ih =>
    have hpre : sep.isPrefixOf (c :: cs) = false := by
      rw [Bool.eq_false_iff, ne_eq, List.isPrefixOf_iff_prefix]
      exact fun hp => h hp.isInfix
    have hcs : ¬ sep <:+: cs := fun hi => h (hi.trans (List.suffix_cons c cs).isInfix)
    simp [splitSubAux, hpre, ih hcs]

/-- At the leftmost occurrence of the separator the piece ends, and the scan starts again
after it. -/
theorem splitSubAux_append_sep (hne : sep ≠ []) {a : List α} (h : ¬ sep <:+: a ++ sep.dropLast)
    (b acc : List α) :
    splitSubAux sep 0 acc (a ++ sep ++ b) = (acc.reverse ++ a) :: splitSubAux sep 0 [] b := by
  induction a generalizing acc with
  | nil =>
    obtain ⟨s₀, ss, rfl⟩ := List.exists_cons_of_ne_nil hne
    have hpre : (s₀ :: ss).isPrefixOf (s₀ :: (ss ++ b)) = true :=
      List.isPrefixOf_iff_prefix.mpr (List.prefix_append (s₀ :: ss) b)
    simp only [List.nil_append, List.cons_append, splitSubAux, hpre, if_true, List.append_nil,
      List.length_cons, Nat.add_sub_cancel]
    rw [splitSubAux_skip]
  | cons c a ih =>
    -- no occurrence starts at `c`: it would lie inside `c :: a ++ sep.dropLast`
    have hpre : sep.isPrefixOf (c :: a ++ sep ++ b) = false := by
      rw [Bool.eq_false_iff, ne_eq, List.isPrefixOf_iff_prefix]
      intro hp
      have hlong : (c :: a ++ sep.dropLast) <+: (c :: a ++ sep ++ b) := by
        conv_rhs => rw [← List.dropLast_append_getLast hne]
        simp
      have hlen : sep.length ≤ (c :: a ++ sep.dropLast).length := by
        simp only [List.cons_append, List.length_cons, List.length_append, List.length_dropLast]
        omega
      exact h (List.prefix_of_prefix_length_le hp hlong hlen).isInfix
    have ha : ¬ sep <:+: a ++ sep.dropLast := fun hi => h (List.infix_cons_iff.mpr (.inr hi))
    rw [List.cons_append, List.cons_append, splitSubAux, ← List.cons_append, ← List.cons_append,
      hpre, if_neg (by simp)]
    simpa using ih ha (c :: acc)

/-- A word holding the separator has a leftmost occurrence of it. -/
theorem exists_leftmost (hne : sep ≠ []) {l : List α} (h : sep <:+: l) :
    ∃ a b, l = a ++ sep ++ b ∧ ¬ sep <:+: a ++ sep.dropLast := by
  have hshort : ¬ sep <:+: sep.dropLast := fun hi => by
    have := hi.length_le
    simp only [List.length_dropLast] at this
    have : sep.length ≠ 0 := by simpa using hne
    omega
  induction l with
  | nil => exact absurd (List.eq_nil_of_infix_nil h) hne
  | cons c cs ih =>
    by_cases hp : sep <+: c :: cs
    · obtain ⟨b, hb⟩ := hp
      exact ⟨[], b, by simp [hb], by simpa using hshort⟩
    · obtain ⟨a, b, rfl, ha⟩ := ih ((List.infix_cons_iff.mp h).resolve_left hp)
      refine ⟨c :: a, b, by simp, fun hi => ?_⟩
      rcases List.infix_cons_iff.mp hi with hi | hi
      · -- an occurrence at `c` would be a prefix of the whole word
        refine hp (hi.trans ?_)
        conv_rhs => rw [← List.dropLast_append_getLast hne]
        simp
      · exact ha hi

/-- `Split` gives two pieces exactly at a leftmost occurrence with none after it. -/
theorem splitSubAux_eq_pair_iff (hne : sep ≠ []) {l a b : List α} :
    splitSubAux sep 0 [] l = [a, b] ↔
      l = a ++ sep ++ b ∧ ¬ sep <:+: a ++ sep.dropLast ∧ ¬ sep <:+: b := by
  constructor
  · intro h
    by_cases hl : sep <:+: l
    · obtain ⟨a', b', rfl, ha'⟩ := exists_leftmost hne hl
      rw [splitSubAux_append_sep hne ha'] at h
      obtain ⟨rfl, hb⟩ := List.cons.inj h
      -- what follows the occurrence is one piece, so it holds no separator
      have hb' : ¬ sep <:+: b' := by
        intro hi
        obtain ⟨a'', b'', rfl, ha''⟩ := exists_leftmost hne hi
        rw [splitSubAux_append_sep hne ha''] at hb
        exact splitSubAux_ne_nil 0 [] b'' (List.cons.inj hb).2
      rw [splitSubAux_of_not_contains hb'] at hb
      simp only [List.reverse_nil, List.nil_append, List.cons.injEq, and_true] at hb
      exact ⟨by simp [hb], ha', hb ▸ hb'⟩
    · rw [splitSubAux_of_not_contains hl] at h
      simp at h
  · rintro ⟨rfl, ha, hb⟩
    rw [splitSubAux_append_sep hne ha, splitSubAux_of_not_contains hb]
    simp

end SplitString

/-- `strings.Split(s, sep)` for a non-empty `sep`. -/
def splitSub (s sep : String) : List String :=
  (splitSubAux sep.toList 0 [] s.toList).map String.ofList

theorem splitSub_ne_nil (s sep : String) : splitSub s sep ≠ [] := by
  simpa [splitSub] using splitSubAux_ne_nil 0 [] s.toList

/-- `Split` gives one piece exactly on a word free of the separator. -/
theorem splitSub_eq_singleton_iff {s sep w : String} (hne : sep ≠ "") :
    splitSub s sep = [w] ↔ s = w ∧ ¬ sep.toList <:+: s.toList := by
  have hne' : sep.toList ≠ [] := by
    intro h
    apply hne
    rw [String.ext_iff, h]
    simp
  by_cases hs : sep.toList <:+: s.toList
  · -- a separator gives a second piece
    obtain ⟨a, b, hab, ha⟩ := exists_leftmost hne' hs
    have hsplit : splitSub s sep = String.ofList a :: splitSub (String.ofList b) sep := by
      rw [splitSub, hab, splitSubAux_append_sep hne' ha]
      simp [splitSub]
    rw [hsplit]
    simp [splitSub_ne_nil, hs]
  · have hsplit : splitSub s sep = [s] := by
      simp [splitSub, splitSubAux_of_not_contains hs]
    rw [hsplit]
    simp [hs]

/-- `Split` gives two pieces exactly when the first occurrence of the separator is its only
one, as `strings.Count` counts. -/
theorem splitSub_eq_pair_iff {s sep a b : String} (hne : sep ≠ "") :
    splitSub s sep = [a, b] ↔ s = a ++ sep ++ b ∧
      ¬ sep.toList <:+: a.toList ++ sep.toList.dropLast ∧ ¬ sep.toList <:+: b.toList := by
  have hne' : sep.toList ≠ [] := by
    intro h
    apply hne
    rw [String.ext_iff, h]
    simp
  have hmap : splitSub s sep = [a, b] ↔ splitSubAux sep.toList 0 [] s.toList = [a.toList, b.toList] := by
    constructor
    · intro h
      simpa [splitSub, List.map_map] using congrArg (List.map String.toList) h
    · intro h
      simp [splitSub, h]
  rw [hmap, splitSubAux_eq_pair_iff hne', String.ext_iff]
  simp

/-! ## `SplitN` and `Replace` on a string separator -/

/-- `Index` finds the separator at the end of a word in which no occurrence of it starts. -/
theorem indexSub_append_sep {a sep b : List Char} (hne : sep ≠ [])
    (ha : ¬ sep <:+: a ++ sep.dropLast) : indexSub (a ++ sep ++ b) sep = some a.length := by
  have hlong : a ++ sep.dropLast <+: a ++ sep ++ b := by
    conv_rhs => rw [← List.dropLast_append_getLast hne]
    simp
  have hsep : sep.length ≠ 0 := by simpa using hne
  rw [indexSub, List.find?_range_eq_some]
  refine ⟨by simp [List.isPrefixOf_iff_prefix], by simp [List.mem_range], fun j hj => ?_⟩
  simp only [Bool.not_eq_true', Bool.eq_false_iff, ne_eq, List.isPrefixOf_iff_prefix]
  -- an occurrence starting inside `a` would end inside `a ++ sep.dropLast`
  intro hp
  have hlen : sep.length ≤ ((a ++ sep.dropLast).drop j).length := by
    simp only [List.length_drop, List.length_append, List.length_dropLast]
    omega
  exact ha ((List.prefix_of_prefix_length_le hp (hlong.drop j) hlen).isInfix.trans
    (List.drop_suffix j _).isInfix)

/-- A separator whose first element lies outside a class does not occur in a word of that class
followed by all of the separator but its last element: it would have to start inside the
word. This is how a decimal number is read back in front of a separator that does not begin
with a digit. -/
theorem not_infix_append_dropLast {α : Type*} {P : α → Prop} {ds sep rest : List α} {d : α}
    (hsep : sep = d :: rest) (hd : ¬ P d) (hds : ∀ x ∈ ds, P x) : ¬ sep <:+: ds ++ sep.dropLast := by
  rintro ⟨s, t, h⟩
  subst hsep
  have hlen := congrArg List.length h
  simp only [List.length_append, List.length_cons, List.length_dropLast] at hlen
  have hs : s.length < ds.length := by omega
  -- the occurrence starts at `s.length`, inside `ds`
  have hget := congrArg (·[s.length]?) h
  simp only [List.append_assoc, List.getElem?_append_right (le_refl _), Nat.sub_self,
    List.cons_append, List.getElem?_cons_zero, List.getElem?_append_left hs] at hget
  exact hd (hds d (List.mem_of_getElem? hget.symm))

/-- `strings.SplitN(s, sep, n)` for a non-empty `sep` and `n ≥ 0`: `s` cut at the first `n - 1`
occurrences of `sep`, the last piece holding the rest. -/
def splitNSub (s sep : String) : ℕ → List String
  | 0 => []
  | 1 => [s]
  | n + 2 =>
    match indexSub s.toList sep.toList with
    | none => [s]
    | some m => String.ofList (s.toList.take m) ::
        splitNSub (String.ofList (s.toList.drop (m + sep.toList.length))) sep (n + 1)

/-- `SplitN(s, sep, 2)` cuts at the first occurrence. -/
theorem splitNSub_two_append_sep {a sep b : String} (hne : sep.toList ≠ [])
    (ha : ¬ sep.toList <:+: a.toList ++ sep.toList.dropLast) :
    splitNSub (a ++ sep ++ b) sep 2 = [a, b] := by
  have hidx := indexSub_append_sep (b := b.toList) hne ha
  simp only [splitNSub, String.toList_append, hidx]
  simp

/-- `strings.Replace(s, old, new, -1)` for a non-empty `old`: the occurrences it replaces, left
to right and without overlap, are those `Split` cuts at, so it joins `Split`'s pieces by `new`. -/
def replaceAll (s old new : String) : String := String.intercalate new (splitSub s old)

theorem replaceAll_of_splitSub {s old new a b : String} (h : splitSub s old = [a, b]) :
    replaceAll s old new = a ++ new ++ b := by
  simp [replaceAll, h]

/-! ## Segment patterns -/

section Patterns

variable {α : Type*} [DecidableEq α] (sep : α) (hole : List α)

/-- `fill` fills the pattern `pat`: a hole with a word free of `sep`, a literal with itself. -/
def Fills (pat fill : List (List α)) : Prop :=
  List.Forall₂ (fun seg w => if seg = hole then sep ∉ w else w = seg) pat fill

/-- The pattern's segments checked against a word's segments, one at a time: a hole takes any
segment, a literal must equal its segment, and in a prefix pattern the last literal need only
begin it. Running out of word segments fails; word segments left over are not looked at. -/
def segmentsAgree (isPrefix : Bool) : List (List α) → List (List α) → Bool
  | [], _ => true
  | _ :: _, [] => false
  | seg :: segs, part :: parts =>
    (seg == hole || seg == part || isPrefix && segs.isEmpty && seg.isPrefixOf part) &&
      segmentsAgree isPrefix segs parts

variable {sep hole}

theorem Fills.length_eq {pat fill : List (List α)} (h : Fills sep hole pat fill) :
    fill.length = pat.length :=
  (List.Forall₂.length_eq h).symm

/-- The words of a filling are free of the separator when the literals are. -/
theorem Fills.not_mem {pat fill : List (List α)} (h : Fills sep hole pat fill)
    (hlit : ∀ seg ∈ pat, sep ∉ seg) : ∀ w ∈ fill, sep ∉ w := by
  induction h with
  | nil => simp
  | @cons seg w segs ws hw _ ih =>
    intro v hv
    rcases List.mem_cons.mp hv with rfl | hv
    · split at hw
      · exact hw
      · exact hw ▸ hlit seg List.mem_cons_self
    · exact ih (fun s hs => hlit s (List.mem_cons_of_mem seg hs)) v hv

/-- A word's own segments fill any pattern that agrees with them exactly. -/
theorem fills_of_segmentsAgree {pat parts : List (List α)} (hparts : ∀ w ∈ parts, sep ∉ w)
    (hlen : parts.length = pat.length) (h : segmentsAgree hole false pat parts) :
    Fills sep hole pat parts := by
  induction pat generalizing parts with
  | nil => simp_all [Fills, List.length_eq_zero_iff]
  | cons seg segs ih =>
    cases parts with
    | nil => simp at hlen
    | cons part parts' =>
    simp only [segmentsAgree, Bool.false_and, Bool.or_false, Bool.and_eq_true, Bool.or_eq_true,
      beq_iff_eq] at h
    refine List.Forall₂.cons ?_ (ih (fun w hw => hparts w (List.mem_cons_of_mem _ hw))
      (by simpa using hlen) h.2)
    split
    · exact hparts part List.mem_cons_self
    · exact (h.1.resolve_left ‹_›).symm

/-- A filling agrees exactly with the pattern it fills. -/
theorem segmentsAgree_of_fills {pat fill : List (List α)} (h : Fills sep hole pat fill)
    (isPrefix : Bool) : segmentsAgree hole isPrefix pat fill := by
  induction h with
  | nil => rfl
  | @cons seg w segs ws hw _ ih =>
    simp only [segmentsAgree, ih, Bool.and_true, Bool.or_eq_true, beq_iff_eq]
    split at hw
    · exact .inl (.inl ‹_›)
    · exact .inl (.inr hw.symm)

/-- The exact meaning: the segment check, at equal length, holds of a word's segments exactly
when some filling of the pattern joins to the word. -/
theorem segmentsAgree_iff_exact {pat : List (List α)} (hlit : ∀ seg ∈ pat, sep ∉ seg)
    (hne : pat ≠ []) (xs : List α) :
    ((xs.splitOn sep).length = pat.length ∧ segmentsAgree hole false pat (xs.splitOn sep)) ↔
      ∃ fill, Fills sep hole pat fill ∧ [sep].intercalate fill = xs := by
  constructor
  · rintro ⟨hlen, h⟩
    exact ⟨_, fills_of_segmentsAgree (fun w hw => not_mem_of_mem_splitOn sep hw) hlen h,
      List.intercalate_splitOn sep⟩
  · rintro ⟨fill, hfill, rfl⟩
    have hfne : fill ≠ [] := fun h => hne (List.length_eq_zero_iff.mp (by
      rw [← hfill.length_eq, h, List.length_nil]))
    rw [splitOn_intercalate sep (hfill.not_mem hlit) hfne]
    exact ⟨hfill.length_eq, segmentsAgree_of_fills hfill false⟩

/-- A prefix pattern that agrees with the segments of a word is filled by a word that begins it. -/
theorem exists_fills_of_segmentsAgree {pat parts : List (List α)} (hparts : ∀ w ∈ parts, sep ∉ w)
    (hne : pat ≠ []) (h : segmentsAgree hole true pat parts) :
    ∃ fill, Fills sep hole pat fill ∧ [sep].intercalate fill <+: [sep].intercalate parts := by
  induction pat generalizing parts with
  | nil => exact absurd rfl hne
  | cons seg segs ih =>
    cases parts with
    | nil => simp [segmentsAgree] at h
    | cons part parts =>
      simp only [segmentsAgree, Bool.and_eq_true, Bool.or_eq_true, beq_iff_eq,
        List.isEmpty_iff] at h
      obtain ⟨hseg, hsegs⟩ := h
      have hpart : sep ∉ part := hparts part List.mem_cons_self
      cases segs with
      | nil =>
        -- the last segment: a hole takes the whole part, a literal only begins it
        refine ⟨[if seg = hole then part else seg], .cons ?_ .nil, ?_⟩
        · split <;> simp_all
        · have hpre := prefix_intercalate_cons sep part parts
          have hseg : seg = hole ∨ seg = part ∨ seg <+: part := by
            simpa [← List.isPrefixOf_iff_prefix, or_assoc] using hseg
          rw [List.intercalate_singleton]
          split
          · exact hpre
          · rcases hseg with h | rfl | hp
            · contradiction
            · exact hpre
            · exact hp.trans hpre
      | cons seg' segs =>
        have hparts' : parts ≠ [] := by rintro rfl; simp [segmentsAgree] at hsegs
        obtain ⟨fill, hfill, hpre⟩ :=
          ih (fun w hw => hparts w (List.mem_cons_of_mem part hw)) (by simp) hsegs
        have hseg : seg = hole ∨ seg = part := by simpa using hseg
        have hfne : fill ≠ [] := by
          rintro rfl; simpa using hfill.length_eq
        refine ⟨part :: fill, .cons ?_ hfill, ?_⟩
        · split
          · exact hpart
          · exact (hseg.resolve_left ‹_›).symm
        · rw [intercalate_ne_nil_cons sep hfne, intercalate_ne_nil_cons sep hparts']
          exact (List.prefix_append_right_inj _).mpr (List.prefix_cons_inj _ |>.mpr hpre)

/-- A filling followed by anything agrees, as a prefix pattern, with the segments of the word. -/
theorem segmentsAgree_of_fills_append {pat fill : List (List α)} (h : Fills sep hole pat fill)
    (hlit : ∀ seg ∈ pat, sep ∉ seg) (hne : pat ≠ []) (t : List α) :
    pat.length ≤ (([sep].intercalate fill ++ t).splitOn sep).length ∧
      segmentsAgree hole true pat (([sep].intercalate fill ++ t).splitOn sep) := by
  induction h generalizing t with
  | nil => exact absurd rfl hne
  | @cons seg w segs ws hw hws ih =>
    have hwsep : sep ∉ w := by
      split at hw
      · exact hw
      · exact hw ▸ hlit seg List.mem_cons_self
    rcases segs with _ | ⟨seg', segs'⟩
    · -- the last word, continued by the first segment of `t`
      obtain rfl : ws = [] := List.forall₂_nil_left_iff.mp hws
      obtain ⟨t₀, ts, ht⟩ := List.exists_cons_of_ne_nil (List.splitOn_ne_nil sep t)
      rw [List.intercalate_singleton, splitOn_append_of_not_mem sep hwsep, ht,
        List.modifyHead_cons]
      refine ⟨by simp, ?_⟩
      simp only [segmentsAgree, List.isEmpty_nil, Bool.and_true, Bool.true_and, Bool.or_eq_true,
        beq_iff_eq]
      split at hw
      · exact .inl (.inl ‹_›)
      · subst hw
        exact .inr ( List.isPrefixOf_iff_prefix.mpr (List.prefix_append _ _))
    · have hws_ne : ws ≠ [] := by
        rintro rfl
        cases hws
      have hrest := ih (fun s hs => hlit s (List.mem_cons_of_mem seg hs)) (by simp) t
      rw [intercalate_ne_nil_cons sep hws_ne, List.append_assoc, List.cons_append,
        splitOn_append_sep sep hwsep]
      refine ⟨by simpa using hrest.1, ?_⟩
      simp only [segmentsAgree, hrest.2, Bool.and_true, Bool.or_eq_true, beq_iff_eq]
      split at hw
      · exact .inl (.inl ‹_›)
      · exact .inl (.inr hw.symm)

/-- The prefix meaning: the segment check holds of a word's segments, none missing, exactly when
some filling of the pattern, joined, begins the word. -/
theorem segmentsAgree_iff_prefix {pat : List (List α)} (hlit : ∀ seg ∈ pat, sep ∉ seg)
    (hne : pat ≠ []) (xs : List α) :
    (pat.length ≤ (xs.splitOn sep).length ∧ segmentsAgree hole true pat (xs.splitOn sep)) ↔
      ∃ fill, Fills sep hole pat fill ∧ [sep].intercalate fill <+: xs := by
  constructor
  · rintro ⟨-, h⟩
    have := exists_fills_of_segmentsAgree (fun w hw => not_mem_of_mem_splitOn sep hw) hne h
    rwa [List.intercalate_splitOn] at this
  · rintro ⟨fill, hfill, t, rfl⟩
    exact segmentsAgree_of_fills_append hfill hlit hne t

end Patterns

section Glob

/-! ## `glob.Glob` (github.com/ryanuber/go-glob)

A pattern is cut at its stars; the parts before the last are found one after the other in the
subject (the first at its start, unless the pattern opens with a star), and the last ends it,
unless the pattern closes with a star. -/

/-- The loop of `glob.Glob` over the parts before the last, from part `i`: what is left of
the subject after them. With a leading star the first part is empty and is found at 0, so the
case of a first part not found under a leading star, where Go would slice at -1, never arises;
it is refused here like every other part not found. -/
def globLeading (leadingGlob : Bool) : ℕ → List (List Char) → List Char → Option (List Char)
  | _, [], subj => some subj
  | i, part :: parts, subj =>
    match indexSub subj part with
    | none => none
    | some idx =>
      if i = 0 ∧ leadingGlob = false ∧ idx ≠ 0 then none
      else globLeading leadingGlob (i + 1) parts (subj.drop (idx + part.length))

/-- `glob.Glob(pattern, subj)`. -/
def glob (pattern subj : String) : Bool :=
  if pattern = "" then subj = pattern
  else if pattern = "*" then true
  else
    let parts := (split pattern '*').map String.toList
    if parts.length = 1 then subj = pattern
    else
      let leadingGlob := hasPrefix pattern "*"
      let trailingGlob := hasSuffix pattern "*"
      match globLeading leadingGlob 0 (parts.take (parts.length - 1)) subj.toList with
      | none => false
      | some rest => trailingGlob || (parts.getD (parts.length - 1) []).isSuffixOf rest

example : glob "ftp*.example.com" "ftp1.example.com" = true := by decide
example : glob "ftp*.example.com" "www.example.com" = false := by decide

end Glob

end GoStrings
