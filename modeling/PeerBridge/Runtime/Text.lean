import Mathlib

/-!
# Python text

A Python `str` is a sequence of code points, lone surrogates included: the JSON decoder accepts
`"\ud800"`, and such a text fails only when it is encoded. `Text` is therefore a list of numbers
below `0x110000` and not a Lean `String`.

* `utf8Len` is `len(text.encode())` where the encoding exists; `encodable` says where it does.
* `strip`, `isSpace` are `str.strip()` and `str.isspace()` on one character.
* `pyInt` is `int(text)`: surrounding white space, one sign, Unicode decimal digits, single
  underscores between digits, and the interpreter's limit on the number of digits.
* `decimal` is `str(n)` on an integer, `decimalLen` its width, with the two width facts used
  later: widths grow with the number, and a number below `10 ^ k` has at most `k` digits.
-/

namespace Py

/-- One Python character. -/
abbrev CodePoint := Fin 0x110000

instance neZero_codePoints : NeZero 0x110000 := ⟨by decide⟩

/-- A Python `str`. -/
abbrev Text := List CodePoint

/-- A literal of the program text. -/
def lit (s : String) : Text := s.toList.map fun c => Fin.ofNat _ c.toNat

/-- A literal is the list of its characters. The kernel reads them off the literal; through `lit` it
would have to decode the bytes of the string. -/
theorem lit_ofList (l : List Char) :
    lit (String.ofList l) = l.map fun c => Fin.ofNat _ c.toNat := by
  rw [lit, String.toList_ofList]

/-! ## Encoding -/

/-- A lone surrogate, which no UTF-8 text contains. -/
def isSurrogate (c : CodePoint) : Bool := 0xd800 ≤ c.val && c.val < 0xe000

/-- `text.encode()` succeeds. -/
def encodable (t : Text) : Bool := t.all fun c => !isSurrogate c

/-- Bytes one code point takes in UTF-8. -/
def utf8Width (c : CodePoint) : ℕ :=
  if c.val < 0x80 then 1 else if c.val < 0x800 then 2 else if c.val < 0x10000 then 3 else 4

/-- `len(text.encode())`. -/
def utf8Len (t : Text) : ℕ := (t.map utf8Width).sum

/-- An empty text has no bytes. -/
@[simp] theorem utf8Len_nil : utf8Len [] = 0 := rfl

/-- The bytes of two texts are those of both. -/
@[simp] theorem utf8Len_append (s t : Text) : utf8Len (s ++ t) = utf8Len s + utf8Len t := by
  simp [utf8Len]

/-! ## White space and integers -/

/-- `str.isspace()` on one character. -/
def isSpace (c : CodePoint) : Bool :=
  (0x9 ≤ c.val && c.val ≤ 0xd) || (0x1c ≤ c.val && c.val ≤ 0x20) || c.val == 0x85
    || c.val == 0xa0 || c.val == 0x1680 || (0x2000 ≤ c.val && c.val ≤ 0x200a)
    || c.val == 0x2028 || c.val == 0x2029 || c.val == 0x202f || c.val == 0x205f || c.val == 0x3000

/-- `str.strip()`. -/
def strip (t : Text) : Text := ((t.dropWhile isSpace).reverse.dropWhile isSpace).reverse

/-- Stripping leaves every character that is no blank. -/
theorem mem_dropWhile_isSpace {t : Text} {c : CodePoint} (hc : c ∈ t) (hs : isSpace c = false) :
    c ∈ t.dropWhile isSpace := by
  rw [← List.takeWhile_append_dropWhile (p := isSpace) (l := t), List.mem_append] at hc
  rcases hc with hc | hc
  · simp [List.all_eq_true.mp List.all_takeWhile c hc] at hs
  · exact hc

/-- A text with a visible character is not blank. -/
theorem strip_ne_nil {t : Text} {c : CodePoint} (hc : c ∈ t) (hs : isSpace c = false) :
    strip t ≠ [] := by
  have h1 := mem_dropWhile_isSpace hc hs
  have h2 := mem_dropWhile_isSpace (List.mem_reverse.mpr h1) hs
  exact List.ne_nil_of_mem (List.mem_reverse.mpr h2)

/-- The code points of value zero among the Unicode decimal digits; the other nine digits of each
block follow it. -/
def digitZeros : List ℕ :=
  [0x30, 0x660, 0x6f0, 0x7c0, 0x966, 0x9e6, 0xa66, 0xae6, 0xb66, 0xbe6, 0xc66, 0xce6, 0xd66,
   0xde6, 0xe50, 0xed0, 0xf20, 0x1040, 0x1090, 0x17e0, 0x1810, 0x1946, 0x19d0, 0x1a80, 0x1a90,
   0x1b50, 0x1bb0, 0x1c40, 0x1c50, 0xa620, 0xa8d0, 0xa900, 0xa9d0, 0xa9f0, 0xaa50, 0xabf0,
   0xff10, 0x104a0, 0x10d30, 0x11066, 0x110f0, 0x11136, 0x111d0, 0x112f0, 0x11450, 0x114d0,
   0x11650, 0x116c0, 0x11730, 0x118e0, 0x11950, 0x11c50, 0x11d50, 0x11da0, 0x16a60, 0x16ac0,
   0x16b50, 0x1d7ce, 0x1d7d8, 0x1d7e2, 0x1d7ec, 0x1d7f6, 0x1e140, 0x1e2f0, 0x1e950, 0x1fbf0]

/-- The value of a Unicode decimal digit. -/
def digitValue (c : CodePoint) : Option ℕ :=
  (digitZeros.find? fun z => z ≤ c.val && c.val < z + 10).map fun z => c.val - z

/-- The digits of an integer literal. `afterDigit` records that the previous character was a digit,
so that an underscore stands only between two digits. Returns the value and the digit count. -/
def digitRun : Text → Bool → ℕ → ℕ → Option (ℕ × ℕ)
  | [], afterDigit, value, count => if afterDigit then some (value, count) else none
  | c :: rest, afterDigit, value, count =>
      if c.val == 0x5f then
        if afterDigit then digitRun rest false value count else none
      else
        match digitValue c with
        | some d => digitRun rest true (10 * value + d) (count + 1)
        | none => none

/-- The interpreter's default limit on the digits `int` converts. -/
def maxStrDigits : ℕ := 4300

/-- `int(text)`, `none` where Python raises `ValueError`. -/
def pyInt (t : Text) : Option ℤ :=
  let unsigned (s : Text) : Option ℤ :=
    match digitRun s false 0 0 with
    | some (value, count) => if count ≤ maxStrDigits then some value else none
    | none => none
  match strip t with
  | [] => none
  | c :: rest =>
      if c.val == 0x2d then (unsigned rest).map (- ·)
      else if c.val == 0x2b then unsigned rest
      else unsigned (c :: rest)

/-! ## Decimal rendering -/

/-- `str(n)` for a natural number. -/
def decimal (n : ℕ) : Text := (Nat.toDigits 10 n).map fun c => Fin.ofNat _ c.toNat

/-- `str(n)` for an integer. -/
def decimalInt (n : ℤ) : Text :=
  if n < 0 then lit "-" ++ decimal n.natAbs else decimal n.natAbs

/-- The number of decimal digits of `n`. -/
def decimalLen (n : ℕ) : ℕ := (Nat.toDigits 10 n).length

/-- A natural number is written in its count of digits. -/
@[simp] theorem length_decimal (n : ℕ) : (decimal n).length = decimalLen n := by
  simp [decimal, decimalLen]

/-- The same of a natural number among the integers. -/
@[simp] theorem length_decimalInt_natCast (n : ℕ) :
    (decimalInt (n : ℤ)).length = decimalLen n := by
  have hn : ¬ ((n : ℤ) < 0) := by omega
  simp [decimalInt, hn]

/-- Every number has a digit. -/
theorem decimalLen_pos (n : ℕ) : 0 < decimalLen n := Nat.length_toDigits_pos

/-- A number below `10 ^ k` has at most `k` digits. -/
theorem decimalLen_le_iff {n k : ℕ} (hk : 0 < k) : decimalLen n ≤ k ↔ n < 10 ^ k :=
  Nat.length_toDigits_le_iff (by omega) hk

/-- `int` accepts surrounding space, a sign and separated digits, and nothing else. -/
example : pyInt (lit " +1_0 ") = some 10 ∧ pyInt (lit "1__0") = none ∧ pyInt (lit "") = none := by
  decide

end Py
