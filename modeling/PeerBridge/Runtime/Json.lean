import PeerBridge.Runtime.Number

/-!
# JSON values and `json.dumps`

`Json` is a value as `json.loads` returns it. An object is an association list with distinct keys;
`get` is `dict.get` without a default. `dumps` is `json.dumps(value, ensure_ascii=True)` with the
default separators, and `dumpsLen` its length, computed field by field: the length of an object is
the sum of the lengths of its members plus a constant that only its key list determines
(`dumpsLen_obj`).

`dumps` never fails: every text is escaped to ASCII, surrogates included, and an integer that came
out of `json.loads` is short enough to be written again.
-/

namespace Py

/-- A decoded JSON value. -/
inductive Json where
  | null
  | bool (b : Bool)
  | int (n : ℤ)
  | float (f : Float)
  | str (t : Text)
  | arr (items : List Json)
  | obj (members : List (Text × Json))

namespace Json

/-- `bool(value)`. -/
def truthy : Json → Bool
  | null => false
  | bool b => b
  | int n => n ≠ 0
  | float (.fin q) => q ≠ 0
  | float .negZero => false
  | float _ => true
  | str t => !t.isEmpty
  | arr items => !items.isEmpty
  | obj members => !members.isEmpty

/-- `value == text` for a text on the right. -/
def isText : Json → Text → Bool
  | str s, t => s == t
  | _, _ => false

/-- `value is None`. -/
def isNull : Json → Bool
  | null => true
  | _ => false

/-- The one value that is a given text. -/
theorem isText_iff {v : Json} {t : Text} : v.isText t = true ↔ v = str t := by
  cases v <;> simp [isText]

end Json

/-- The fields of a JSON object, as a request arrives. -/
abbrev Object := List (Text × Json)

namespace Object

/-- `key in request`. -/
def has (r : Object) (key : Text) : Bool := r.any fun m => m.1 == key

/-- `request.get(key, default)`. -/
def getD (r : Object) (key : Text) (default : Json) : Json :=
  match r.find? fun m => m.1 == key with
  | some m => m.2
  | none => default

/-- `request.get(key)`. -/
def get (r : Object) (key : Text) : Json := getD r key .null

end Object

/-! ## Rendering -/

/-- One lower-case hexadecimal digit. -/
def hexDigit (n : ℕ) : CodePoint := Fin.ofNat _ (if n < 10 then 0x30 + n else 0x61 + (n - 10))

/-- `\uXXXX`. -/
def hexEscape (n : ℕ) : Text :=
  lit "\\u" ++ [hexDigit (n / 0x1000 % 0x10), hexDigit (n / 0x100 % 0x10),
    hexDigit (n / 0x10 % 0x10),
    hexDigit (n % 0x10)]

/-- One character of a JSON string under `ensure_ascii`: the short escapes, printable ASCII as
itself, and everything else as one `\u` escape or a surrogate pair. -/
def escape (c : CodePoint) : Text :=
  if c.val == 0x22 then lit "\\\""
  else if c.val == 0x5c then lit "\\\\"
  else if 0x20 ≤ c.val && c.val ≤ 0x7e then [c]
  else if c.val == 0x0a then lit "\\n"
  else if c.val == 0x0d then lit "\\r"
  else if c.val == 0x09 then lit "\\t"
  else if c.val == 0x0c then lit "\\f"
  else if c.val == 0x08 then lit "\\b"
  else if c.val < 0x10000 then hexEscape c.val
  else hexEscape (0xd800 + (c.val - 0x10000) / 0x400)
    ++ hexEscape (0xdc00 + (c.val - 0x10000) % 0x400)

/-- A JSON string literal. -/
def quote (t : Text) : Text := lit "\"" ++ t.flatMap escape ++ lit "\""

mutual

/-- `json.dumps(value, ensure_ascii=True)`. -/
def dumps : Json → Text
  | .null => lit "null"
  | .bool true => lit "true"
  | .bool false => lit "false"
  | .int n => decimalInt n
  | .float f => floatRepr f
  | .str t => quote t
  | .arr items => lit "[" ++ dumpsItems items ++ lit "]"
  | .obj members => lit "\x7b" ++ dumpsMembers members ++ lit "\x7d"

/-- The items of an array, separated by `", "`. -/
def dumpsItems : List Json → Text
  | [] => []
  | [v] => dumps v
  | v :: rest => dumps v ++ lit ", " ++ dumpsItems rest

/-- The members of an object, separated by `", "`. -/
def dumpsMembers : List (Text × Json) → Text
  | [] => []
  | [(k, v)] => quote k ++ lit ": " ++ dumps v
  | (k, v) :: rest => quote k ++ lit ": " ++ dumps v ++ lit ", " ++ dumpsMembers rest

end

/-! ## Lengths -/

/-- `len(json.dumps(value))`. -/
def dumpsLen (v : Json) : ℕ := (dumps v).length

/-- Characters one code point takes inside a JSON string. -/
def escapeWidth (c : CodePoint) : ℕ := (escape c).length

/-- The inner width of a text inside a JSON string. -/
def escapedLen (t : Text) : ℕ := (t.map escapeWidth).sum

/-- A quoted text is its escaped characters and two quotes. -/
@[simp] theorem length_quote (t : Text) : (quote t).length = escapedLen t + 2 := by
  have hq : (lit "\"").length = 1 := by decide
  have he : (fun c => (escape c).length) = escapeWidth := rfl
  simp only [quote, List.length_append, hq, List.length_flatMap, escapedLen, he]
  omega

/-- An empty text has no escaped characters. -/
@[simp] theorem escapedLen_nil : escapedLen [] = 0 := rfl

/-- A repeated character is escaped as often. -/
@[simp] theorem escapedLen_replicate (n : ℕ) (c : CodePoint) :
    escapedLen (List.replicate n c) = n * escapeWidth c := by
  simp [escapedLen]

/-- Null takes four characters. -/
@[simp] theorem dumpsLen_null : dumpsLen .null = 4 := by decide

/-- A text takes its escaped length and two quotes. -/
@[simp] theorem dumpsLen_str (t : Text) : dumpsLen (.str t) = escapedLen t + 2 := by
  simp [dumpsLen, dumps]

/-- A natural number takes its digits. -/
@[simp] theorem dumpsLen_natCast (n : ℕ) : dumpsLen (.int n) = decimalLen n := by
  simp [dumpsLen, dumps]

/-- What one member adds beyond its value: its key, the colon and, unless it is the last, the
comma. -/
def membersOverhead : List (Text × Json) → ℕ
  | [] => 0
  | [(k, _)] => escapedLen k + 4
  | (k, _) :: rest => escapedLen k + 6 + membersOverhead rest

/-- The members take their keys and marks and their values. -/
theorem length_dumpsMembers :
    (m : List (Text × Json)) →
      (dumpsMembers m).length = membersOverhead m + (m.map fun p => dumpsLen p.2).sum
  | [] => by simp [dumpsMembers, membersOverhead]
  | [(k, v)] => by
      have hc : (lit ": ").length = 2 := by decide
      simp [dumpsMembers, membersOverhead, dumpsLen, hc]
      omega
  | (k, v) :: p :: rest => by
      have hc : (lit ": ").length = 2 := by decide
      have hs : (lit ", ").length = 2 := by decide
      have ih := length_dumpsMembers (p :: rest)
      simp only [dumpsMembers, List.length_append, length_quote, hc, hs, ih, membersOverhead,
        List.map_cons, List.sum_cons, dumpsLen]
      omega

/-- The length of an object: braces, member overhead, and the lengths of its values. -/
theorem dumpsLen_obj (m : List (Text × Json)) :
    dumpsLen (.obj m) = 2 + membersOverhead m + (m.map fun p => dumpsLen p.2).sum := by
  have ho : (lit "\x7b").length = 1 := by decide
  have hc : (lit "\x7d").length = 1 := by decide
  simp only [dumpsLen, dumps, List.length_append, ho, hc, length_dumpsMembers]
  omega

/-- The overhead depends on the keys only. -/
theorem membersOverhead_congr : (m n : List (Text × Json)) → m.map Prod.fst = n.map Prod.fst →
    membersOverhead m = membersOverhead n
  | [], [], _ => rfl
  | [(_, _)], [(_, _)], h => by
      simp only [List.map_cons, List.map_nil, List.cons.injEq] at h
      simp [membersOverhead, h.1]
  | (_, _) :: p :: m, (_, _) :: q :: n, h => by
      simp only [List.map_cons, List.cons.injEq] at h
      have ih := membersOverhead_congr (p :: m) (q :: n) (by simp [h.2])
      simp [membersOverhead, h.1, ih]
  | [], _ :: _, h => by simp at h
  | _ :: _, [], h => by simp at h
  | [(_, _)], _ :: _ :: _, h => by simp at h
  | _ :: _ :: _, [(_, _)], h => by simp at h

example : dumps (.obj [(lit "op", .str (lit "a\n")), (lit "n", .arr [.int (-3), .null])])
    = lit "\x7b\"op\": \"a\\n\", \"n\": [-3, null]\x7d" := by
  decide

end Py
