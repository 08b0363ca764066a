import PeerBridge.Runtime.Json

/-!
# `json.loads`

The decoder of the standard library in its strict mode, as the accelerated scanner does it: a string
with its escapes and surrogate pairs, a number with the interpreter's limit on integer digits, the
six named constants, arrays, and objects whose members go to `object_pairs_hook`. Every function
returns the value and the text behind it; `none` stands for the `ValueError` it would raise.

The recursion is on a bound that `loads` takes from the length of the text. The interpreter's own
limit on nesting depends on its build and its stack, and is not part of the model.
-/

namespace Py

/-! ## Strings -/

/-- The value of one hexadecimal digit. -/
def hexVal (c : CodePoint) : Option ℕ :=
  if 0x30 ≤ c.val ∧ c.val ≤ 0x39 then some (c.val - 0x30)
  else if 0x41 ≤ c.val ∧ c.val ≤ 0x46 then some (c.val - 0x41 + 10)
  else if 0x61 ≤ c.val ∧ c.val ≤ 0x66 then some (c.val - 0x61 + 10)
  else none

/-- Four hexadecimal digits. -/
def hex4 : Text → Option (ℕ × Text)
  | a :: b :: c :: d :: rest =>
      match hexVal a, hexVal b, hexVal c, hexVal d with
      | some a, some b, some c, some d => some (((a * 16 + b) * 16 + c) * 16 + d, rest)
      | _, _, _, _ => none
  | _ => none

/-- The text behind a leading `\u`. -/
def afterU : Text → Option Text
  | a :: b :: rest => if a.val = 0x5c ∧ b.val = 0x75 then some rest else none
  | _ => none

/-- A character is the one of its own number. -/
theorem ofNat_val (c : CodePoint) : (Fin.ofNat 0x110000 c.val : CodePoint) = c := by
  apply Fin.ext
  simp [Fin.ofNat, Nat.mod_eq_of_lt c.isLt]

/-- The character two surrogates stand for. -/
def joinSurrogates (high low : ℕ) : CodePoint :=
  Fin.ofNat _ (0x10000 + (high - 0xd800) * 0x400 + (low - 0xdc00))

/-- The character behind `\u`: four digits, and four more where they complete a surrogate pair. -/
def scanUnicode (t : Text) : Option (CodePoint × Text) :=
  match hex4 t with
  | none => none
  | some (u, rest) =>
      if 0xd800 ≤ u ∧ u < 0xdc00 then
        match afterU rest with
        | none => some (Fin.ofNat _ u, rest)
        | some second =>
            match hex4 second with
            | none => none
            | some (v, after) =>
                if 0xdc00 ≤ v ∧ v < 0xe000 then some (joinSurrogates u v, after)
                else some (Fin.ofNat _ u, rest)
      else some (Fin.ofNat _ u, rest)

/-- The escapes of one letter. -/
def shortEscape (c : CodePoint) : Option CodePoint :=
  if c.val = 0x22 ∨ c.val = 0x5c ∨ c.val = 0x2f then some c
  else if c.val = 0x62 then some 0x8
  else if c.val = 0x66 then some 0xc
  else if c.val = 0x6e then some 0xa
  else if c.val = 0x72 then some 0xd
  else if c.val = 0x74 then some 0x9
  else none

/-- The character behind a backslash. -/
def scanEscape : Text → Option (CodePoint × Text)
  | [] => none
  | c :: rest => if c.val = 0x75 then scanUnicode rest else (shortEscape c).map fun d => (d, rest)

/-- What comes next inside a string: a character, or the closing quote. Control characters are
refused. -/
def scanChar : Text → Option (Option CodePoint × Text)
  | [] => none
  | c :: rest =>
      if c.val = 0x22 then some (none, rest)
      else if c.val = 0x5c then (scanEscape rest).map fun p => (some p.1, p.2)
      else if c.val ≤ 0x1f then none
      else some (some c, rest)

/-- A string from behind its opening quote. Source: `json.decoder.scanstring` -/
def scanString : ℕ → Text → Option (Text × Text)
  | 0, _ => none
  | fuel + 1, t =>
      match scanChar t with
      | none => none
      | some (none, rest) => some ([], rest)
      | some (some c, rest) => (scanString fuel rest).map fun p => (c :: p.1, p.2)

/-! ## Numbers and constants -/

/-- An ASCII digit, the only kind a JSON number has. -/
def isDigit (c : CodePoint) : Bool := 0x30 ≤ c.val && c.val ≤ 0x39

/-- The number a row of digits stands for. -/
def digitsValue (ds : Text) : ℕ := ds.foldl (fun n c => 10 * n + (c.val - 0x30)) 0

/-- The digits before the point: a zero alone, or a row without leading zero. -/
def wholePart : Text → Option (Text × Text)
  | [] => none
  | c :: rest =>
      if c.val = 0x30 then some ([c], rest)
      else if isDigit c then some ((c :: rest).takeWhile isDigit, (c :: rest).dropWhile isDigit)
      else none

/-- The digits behind a point, if there is a point with a digit behind it. -/
def fractionPart : Text → Text × Text
  | [] => ([], [])
  | c :: rest =>
      if c.val = 0x2e ∧ rest.head?.any isDigit then (rest.takeWhile isDigit, rest.dropWhile isDigit)
      else ([], c :: rest)

/-- A sign, `true` for minus. -/
def signPart : Text → Bool × Text
  | [] => (false, [])
  | c :: rest =>
      if c.val = 0x2d then (true, rest) else if c.val = 0x2b then (false, rest)
        else (false, c :: rest)

/-- The exponent, if there is one with a digit. -/
def exponentPart : Text → Option ℤ × Text
  | [] => (none, [])
  | c :: rest =>
      if c.val = 0x65 ∨ c.val = 0x45 then
        let (negative, ds) := signPart rest
        if ds.head?.any isDigit then
          let n : ℤ := digitsValue (ds.takeWhile isDigit)
          (some (if negative then -n else n), ds.dropWhile isDigit)
        else (none, c :: rest)
      else (none, c :: rest)

/-- The binary64 number nearest to a decimal. -/
def nearestFloat (negative : Bool) (m : ℚ) : Float :=
  let d := if m = 0 then 0 else doublePos m
  if d = 0 then (if negative then .negZero else .fin 0)
  else if 2 ^ 1024 ≤ d then (if negative then .negInf else .inf)
  else .fin (if negative then -d else d)

/-- The value of a number from its parts: an integer without fraction and exponent, a `float`
otherwise. -/
def numberValue (negative : Bool) (whole fraction : Text) (exponent : Option ℤ) : Option Json :=
  if fraction = [] ∧ exponent = none then
    if whole.length ≤ maxStrDigits then
      some (.int (if negative then -(digitsValue whole : ℤ) else digitsValue whole))
    else none
  else
    let m : ℚ := digitsValue (whole ++ fraction) * pow10 (exponent.getD 0 - fraction.length)
    some (.float (nearestFloat negative m))

/-- The text behind a minus sign, and whether there was one. -/
def minusPart : Text → Bool × Text
  | [] => (false, [])
  | c :: rest => if c.val = 0x2d then (true, rest) else (false, c :: rest)

/-- A number. Source: `json.scanner`, `match_number` -/
def scanNumber (t : Text) : Option (Json × Text) :=
  let (negative, unsigned) := minusPart t
  match wholePart unsigned with
  | none => none
  | some (whole, rest) =>
      let (fraction, rest) := fractionPart rest
      let (exponent, rest) := exponentPart rest
      (numberValue negative whole fraction exponent).map fun v => (v, rest)

/-- The constants. -/
def constants : List (Text × Json) :=
  [(lit "null", .null), (lit "true", .bool true), (lit "false", .bool false),
    (lit "NaN", .float .nan),
    (lit "Infinity", .float .inf), (lit "-Infinity", .float .negInf)]

/-- A constant at the front of the text. -/
def scanConstant (t : Text) : Option (Json × Text) :=
  constants.findSome? fun p => if p.1.isPrefixOf t then some (p.2, t.drop p.1.length) else none

/-! ## Values -/

/-- The white space between tokens. -/
def isJsonSpace (c : CodePoint) : Bool :=
  c.val == 0x20 || c.val == 0x9 || c.val == 0xa || c.val == 0xd

/-- The text behind leading white space. -/
def skipSpace (t : Text) : Text := t.dropWhile isJsonSpace

/-- The text behind one expected character. -/
def expect (mark : ℕ) : Text → Option Text
  | [] => none
  | c :: rest => if c.val = mark then some rest else none

section values

variable (hook : Object → Option Json)

mutual

/-- One value. Source: `json.scanner`, `scan_once` -/
def scanValue : ℕ → Text → Option (Json × Text)
  | 0, _ => none
  | _ + 1, [] => none
  | fuel + 1, c :: rest =>
      if c.val = 0x22 then (scanString (rest.length + 1) rest).map fun p => (.str p.1, p.2)
      else if c.val = 0x7b then
        match expect 0x7d (skipSpace rest) with
        | some after => (hook []).map fun v => (v, after)
        | none => (scanMembers fuel (skipSpace rest)).bind fun p => (hook p.1).map fun v => (v, p.2)
      else if c.val = 0x5b then
        match expect 0x5d (skipSpace rest) with
        | some after => some (.arr [], after)
        | none => (scanItems fuel (skipSpace rest)).map fun p => (.arr p.1, p.2)
      else
        match scanConstant (c :: rest) with
        | some p => some p
        | none => scanNumber (c :: rest)

/-- The items of an array, through its closing bracket. -/
def scanItems : ℕ → Text → Option (List Json × Text)
  | 0, _ => none
  | fuel + 1, t =>
      match scanValue fuel t with
      | none => none
      | some (v, after) =>
          match expect 0x5d (skipSpace after) with
          | some rest => some ([v], rest)
          | none =>
              match expect 0x2c (skipSpace after) with
              | some rest => (scanItems fuel (skipSpace rest)).map fun p => (v :: p.1, p.2)
              | none => none

/-- The members of an object, through its closing brace. -/
def scanMembers : ℕ → Text → Option (Object × Text)
  | 0, _ => none
  | fuel + 1, t =>
      match expect 0x22 t with
      | none => none
      | some opened =>
          match scanString (opened.length + 1) opened with
          | none => none
          | some (key, named) =>
              match expect 0x3a (skipSpace named) with
              | none => none
              | some colon =>
                  match scanValue fuel (skipSpace colon) with
                  | none => none
                  | some (v, after) =>
                      match expect 0x7d (skipSpace after) with
                      | some rest => some ([(key, v)], rest)
                      | none =>
                          match expect 0x2c (skipSpace after) with
                          | some rest => (scanMembers fuel (skipSpace rest)).map fun p =>
                            ((key, v) :: p.1, p.2)
                          | none => none

end

/-- The value at the front of the text and what is behind it. Source: `JSONDecoder.raw_decode` -/
def rawDecode (t : Text) : Option (Json × Text) := scanValue hook (2 * t.length + 1) t

/-- The value of a whole text. Source: `json.loads`, for a `str` -/
def loads (t : Text) : Option Json :=
  match rawDecode hook (skipSpace t) with
  | some (v, rest) => if skipSpace rest = [] then some v else none
  | none => none

end values

/-- `dict(pairs)`: a repeated key keeps its first place and its last value. -/
def dictOf (members : Object) : Object :=
  members.foldl (fun d p =>
    if Object.has d p.1 then d.map fun q => if q.1 = p.1 then p else q else d ++ [p]) []

/-- A surrogate pair, a repeated key, and a refused trailing comma. -/
example :
    (loads (fun m => some (.obj (dictOf m)))
      (lit " \x7b\"a\" : [-0], \"a\": \"\\ud83d\\ude00\"\x7d ")).map dumps
      = some (lit "\x7b\"a\": \"\\ud83d\\ude00\"\x7d")
    ∧ ((loads (fun m => some (.obj m)) (lit "[1,]")).map dumps) = none := by
  decide +kernel

end Py
