import PeerBridge.Runtime.Text

/-!
# Python floating-point numbers and their rendering

A `Float` value is a rational number or one of the four special values; arithmetic on it is exact
rational arithmetic, and `double` is the rounding to binary64 the interpreter would have applied.
`floatRepr` is `float.__repr__`: the shortest decimal that rounds back to the same binary64
number, written positionally for decimal exponents between `-4` and `15` and in scientific notation
elsewhere.

Everything is computable on natural numbers, so a concrete time stamp renders by evaluation.
-/

namespace Py

/-- A Python `float`. -/
inductive Float where
  /-- A finite value other than negative zero. -/
  | fin (q : ℚ)
  | negZero
  | inf
  | negInf
  | nan
  deriving DecidableEq

/-! ## Rounding to binary64 -/

/-- `2 ^ e` for a signed exponent. -/
def pow2 (e : ℤ) : ℚ := if 0 ≤ e then (2 ^ e.toNat : ℕ) else 1 / (2 ^ (-e).toNat : ℕ)

/-- `10 ^ e` for a signed exponent. -/
def pow10 (e : ℤ) : ℚ := if 0 ≤ e then (10 ^ e.toNat : ℕ) else 1 / (10 ^ (-e).toNat : ℕ)

/-- The nearest integer, ties to even. -/
def roundHalfEven (q : ℚ) : ℤ :=
  let f := ⌊q⌋
  let r := q - f
  if r < 1 / 2 then f else if 1 / 2 < r then f + 1 else if f % 2 = 0 then f else f + 1

/-- The exponent `e` with `2 ^ e ≤ q < 2 ^ (e + 1)`, for a positive `q`. -/
def binaryExponent (q : ℚ) : ℤ :=
  let e : ℤ := (Nat.log2 q.num.natAbs : ℤ) - Nat.log2 q.den
  if pow2 e ≤ q then e else e - 1

/-- The binary64 number nearest to a positive `q`. -/
def doublePos (q : ℚ) : ℚ :=
  let ulp := pow2 (max (binaryExponent q - 52) (-1074))
  roundHalfEven (q / ulp) * ulp

/-- The binary64 number nearest to `q`, ties to even. -/
def double (q : ℚ) : ℚ := if q = 0 then 0 else if 0 < q then doublePos q else - doublePos (-q)

/-! ## The shortest decimal -/

/-- The exponent `e` with `10 ^ e ≤ q < 10 ^ (e + 1)`, for a positive `q`. -/
def decimalExponent (q : ℚ) : ℤ :=
  let e : ℤ := (decimalLen q.num.natAbs : ℤ) - decimalLen q.den
  if pow10 e ≤ q then e else e - 1

/-- The decimal of `n` significant digits nearest to the binary64 number `q`, among the two that
enclose it, if it rounds back to `q`. -/
def candidate (q : ℚ) (n : ℕ) : Option ℕ :=
  let scale := pow10 ((n : ℤ) - 1 - decimalExponent q)
  let low := ⌊q * scale⌋.toNat
  let back (d : ℕ) : Bool := doublePos (d / scale) == q
  let nearest := (roundHalfEven (q * scale)).toNat
  if back nearest then some nearest
  else if back low then some low
  else if back (low + 1) then some (low + 1)
  else none

/-- The first precision among those listed at which a decimal rounds back to `q`. -/
def shortest (q : ℚ) : List ℕ → ℕ × ℕ
  | [] => (0, 1)
  | n :: rest =>
      match candidate q n with
      | some d => (d, n)
      | none => shortest q rest

/-- The digit text of `d`, its trailing zeros dropped. -/
def significant (d : ℕ) : Text :=
  match ((decimal d).reverse.dropWhile fun c => c.val == 0x30).reverse with
  | [] => lit "0"
  | digits => digits

/-- `repr` of a positive binary64 number: digits `ds` with the decimal point after position
`point`. -/
def layout (ds : Text) (point : ℤ) : Text :=
  if -4 < point ∧ point ≤ 16 then
    if point ≤ 0 then lit "0." ++ List.replicate (-point).toNat 0x30 ++ ds
    else if ds.length ≤ point.toNat then
      ds ++ List.replicate (point.toNat - ds.length) 0x30 ++ lit ".0"
    else ds.take point.toNat ++ lit "." ++ ds.drop point.toNat
  else
    let e := point - 1
    let mantissa := match ds with
      | [] => []
      | [d] => [d]
      | d :: rest => d :: lit "." ++ rest
    let digits := decimal e.natAbs
    mantissa ++ lit "e" ++ (if e < 0 then lit "-" else lit "+")
      ++ (if digits.length < 2 then lit "0" ++ digits else digits)

/-- `repr` of a positive number. -/
def reprPos (q : ℚ) : Text :=
  let (d, n) := shortest (doublePos q) ((List.range 17).map (· + 1))
  -- A candidate that rounded up to the next power of ten has one digit more than asked for.
  let point := decimalExponent (doublePos q) + 1 + ((decimalLen d : ℤ) - n)
  layout (significant d) point

/-- `float.__repr__` on a rational. -/
def ratRepr (q : ℚ) : Text :=
  if q = 0 then lit "0.0" else if 0 < q then reprPos q else lit "-" ++ reprPos (-q)

/-- `float.__repr__`, with the names the JSON encoder uses for the special values. -/
def floatRepr : Float → Text
  | .fin q => ratRepr q
  | .negZero => lit "-0.0"
  | .inf => lit "Infinity"
  | .negInf => lit "-Infinity"
  | .nan => lit "NaN"

/-- Renderings of a whole time stamp, of a fraction that needs all seventeen digits, and of a power
of two below `1e-4`. -/
example : ratRepr 1700000000 = lit "1700000000.0" ∧ ratRepr (1 / 10) = lit "0.1"
    ∧ ratRepr (1 / 2 ^ 44) = lit "5.684341886080802e-14" := by
  decide +kernel

/-- An integer beyond this magnitude does not convert to a finite `float`. -/
def floatOverflow : ℕ := 2 ^ 1024 - 2 ^ 970

end Py
