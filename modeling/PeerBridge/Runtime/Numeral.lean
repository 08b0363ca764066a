import PeerBridge.Runtime.Decoder
import PeerBridge.Runtime.Shortest

/-!
# Numbers read back

The number scanner on what the encoder writes: the decimal of an integer, and the shortest decimal
of a binary64 number in each of the layouts that `repr` has.

* `scanNumber_parts`: a number is read part by part; `scanNumber_decimalInt`: integers;
* `scanNumber_layout`: a layout stands for its digits times a power of ten, one lemma for each kind;
* `scanNumber_ratRepr`: binary64 numbers, by what the search for the shortest decimal guarantees.
-/

namespace Py

/-! ## Numerals -/

/-- One decimal digit. -/
def digit (d : ℕ) : CodePoint := Fin.ofNat _ (0x30 + d)

/-- The ten digits, as characters and as values. -/
theorem digit_spec : ∀ d < 10, (Fin.ofNat _ (Nat.digitChar d).toNat : CodePoint) = digit d
    ∧ isDigit (digit d) = true ∧ (digit d).val = 0x30 + d := by decide

/-- A decimal is the decimal of the tenth part and one more digit. -/
theorem decimal_eq (n : ℕ) :
    decimal n = if n < 10 then [digit n] else decimal (n / 10) ++ [digit (n % 10)] := by
  unfold decimal
  rw [Nat.toDigits_eq_if (by omega)]
  split
  · next h => rw [List.map_singleton, (digit_spec n h).1]
  · have h := (digit_spec (n % 10) (Nat.mod_lt _ (by omega))).1
    rw [List.map_append, List.map_singleton, h]

/-- A natural number is written in digits. -/
theorem isDigit_of_mem_decimal (n : ℕ) : ∀ c ∈ decimal n, isDigit c = true := by
  induction n using Nat.strongRecOn with
  | ind n ih =>
    rw [decimal_eq]
    split
    · next h => simpa using (digit_spec n h).2.1
    · next h =>
      intro c hc
      rcases List.mem_append.mp hc with hc | hc
      · exact ih (n / 10) (by omega) c hc
      · rw [List.mem_singleton.mp hc]
        exact (digit_spec (n % 10) (Nat.mod_lt _ (by omega))).2.1

/-- The value of two groups of digits. -/
theorem digitsValue_append (s t : Text) :
    digitsValue (s ++ t) = digitsValue s * 10 ^ t.length + digitsValue t := by
  induction t using List.reverseRecOn with
  | nil => simp [digitsValue]
  | append_singleton t c ih =>
    have hone : ∀ u : Text, digitsValue (u ++ [c]) = 10 * digitsValue u + (c.val - 0x30) := by
      intro u
      simp [digitsValue]
    rw [← List.append_assoc, hone, hone, ih, List.length_append, List.length_singleton, pow_succ]
    ring

/-- A natural number is the value of its digits. -/
theorem digitsValue_decimal (n : ℕ) : digitsValue (decimal n) = n := by
  induction n using Nat.strongRecOn with
  | ind n ih =>
    rw [decimal_eq]
    split
    · next h =>
      have hd := (digit_spec n h).2.2
      simp [digitsValue, hd]
    · next h =>
      have hd := (digit_spec (n % 10) (Nat.mod_lt _ (by omega))).2.2
      rw [digitsValue_append, ih (n / 10) (by omega)]
      simp only [digitsValue, List.length_singleton, List.foldl_cons, List.foldl_nil, hd]
      omega

/-- Zeros have the value zero. -/
@[simp] theorem digitsValue_zeros (n : ℕ) : digitsValue (List.replicate n 0x30) = 0 := by
  induction n with
  | zero => rfl
  | succ n ih =>
    have h0 : digitsValue [0x30] = 0 := by decide
    rw [List.replicate_succ', digitsValue_append, ih, h0]
    simp

/-- The digits before a point: one zero, or digits the first of which is not zero. -/
def Whole (ds : Text) : Prop :=
  ds = [0x30] ∨ ∃ c rest, ds = c :: rest ∧ c.val ≠ 0x30 ∧ ∀ d ∈ ds, isDigit d = true

/-- The digits of a natural number are a whole part. -/
theorem whole_decimal (n : ℕ) : Whole (decimal n) := by
  induction n using Nat.strongRecOn with
  | ind n ih =>
    have hall := isDigit_of_mem_decimal n
    rw [decimal_eq] at hall ⊢
    split
    · next h =>
      rcases Nat.eq_zero_or_pos n with rfl | hpos
      · exact .inl rfl
      · rw [if_pos h] at hall
        refine .inr ⟨digit n, [], rfl, ?_, hall⟩
        rw [(digit_spec n h).2.2]
        omega
    · next h =>
      rw [if_neg h] at hall
      rcases ih (n / 10) (by omega) with hzero | ⟨c, rest, hrest, hc, -⟩
      · have hv := digitsValue_decimal (n / 10)
        rw [hzero] at hv
        have h0 : digitsValue [0x30] = 0 := by decide
        omega
      · refine .inr ⟨c, rest ++ [digit (n % 10)], ?_, hc, hall⟩
        rw [hrest]
        rfl

/-- No character at the front continues a number. -/
def Stops (rest : Text) : Prop :=
  ∀ c ∈ rest.head?, isDigit c = false ∧ c.val ≠ 0x2e ∧ c.val ≠ 0x65 ∧ c.val ≠ 0x45

/-- No digit is at the front. -/
def NoDigit (rest : Text) : Prop := ∀ c ∈ rest.head?, isDigit c = false

/-- What ends a number begins with no digit. -/
theorem Stops.noDigit {rest : Text} (h : Stops rest) : NoDigit rest := fun c hc => (h c hc).1

/-- The digits in front are taken, the rest is left. -/
theorem split_digits {ds rest : Text} (hds : ∀ d ∈ ds, isDigit d = true) (hrest : NoDigit rest) :
    (ds ++ rest).takeWhile isDigit = ds ∧ (ds ++ rest).dropWhile isDigit = rest := by
  have hnone : rest.takeWhile isDigit = [] ∧ rest.dropWhile isDigit = rest := by
    rcases rest with _ | ⟨c, rest⟩
    · exact ⟨rfl, rfl⟩
    · have hc := hrest c rfl
      simp [hc]
  rw [List.takeWhile_append_of_pos hds, List.dropWhile_append_of_pos hds, hnone.1, hnone.2,
    List.append_nil]
  exact ⟨rfl, rfl⟩

/-- A whole part is read in front of what is no digit. -/
theorem wholePart_append {ds rest : Text} (hds : Whole ds) (hrest : NoDigit rest) :
    wholePart (ds ++ rest) = some (ds, rest) := by
  rcases hds with rfl | ⟨c, cs, rfl, hc, hall⟩
  · rfl
  · have hsplit := split_digits hall hrest
    have hdigit := hall c (by simp)
    rw [List.cons_append] at hsplit ⊢
    rw [wholePart, if_neg hc, if_pos hdigit, hsplit.1, hsplit.2]

/-- What follows an absent part is left alone. -/
theorem fractionPart_absent {rest : Text} (h : ∀ c ∈ rest.head?, c.val ≠ 0x2e) :
    fractionPart rest = ([], rest) := by
  rcases rest with _ | ⟨c, rest⟩
  · rfl
  · have hc := h c rfl
    rw [fractionPart, if_neg (fun hp => hc hp.1)]

/-- A fraction is read behind its point. -/
theorem fractionPart_point {ds rest : Text} (hne : ds ≠ []) (hds : ∀ d ∈ ds, isDigit d = true)
    (hrest : NoDigit rest) : fractionPart (0x2e :: (ds ++ rest)) = (ds, rest) := by
  have hsplit := split_digits hds hrest
  obtain ⟨c, cs, rfl⟩ := List.exists_cons_of_ne_nil hne
  have hc := hds c (by simp)
  have hfirst : ((0x2e : CodePoint).val = 0x2e ∧ ((c :: cs) ++ rest).head?.any isDigit = true) := by
    simp [hc]
  rw [fractionPart, if_pos hfirst, hsplit.1, hsplit.2]

/-- No exponent is read where a number ends. -/
theorem exponentPart_absent {rest : Text} (h : Stops rest) : exponentPart rest = (none, rest) := by
  rcases rest with _ | ⟨c, rest⟩
  · rfl
  · have hc := h c rfl
    rw [exponentPart, if_neg (fun hp => hp.elim hc.2.2.1 hc.2.2.2)]

/-- The sign of an exponent, as it is rendered. -/
def signText (negative : Bool) : Text := if negative then lit "-" else lit "+"

/-- An exponent is read behind its sign. -/
theorem exponentPart_sign (negative : Bool) {ds rest : Text} (hne : ds ≠ [])
    (hds : ∀ d ∈ ds, isDigit d = true) (hrest : NoDigit rest) :
    exponentPart (0x65 :: (signText negative ++ (ds ++ rest)))
      = (some (if negative then -(digitsValue ds : ℤ) else digitsValue ds), rest) := by
  have hsplit := split_digits hds hrest
  have hsign : signPart (signText negative ++ (ds ++ rest)) = (negative, ds ++ rest) := by
    cases negative
    · rfl
    · rfl
  have hfirst : (ds ++ rest).head?.any isDigit = true := by
    obtain ⟨c, cs, rfl⟩ := List.exists_cons_of_ne_nil hne
    simpa using hds c (by simp)
  rw [exponentPart, if_pos (.inl rfl), hsign]
  simp only
  rw [if_pos hfirst, hsplit.1, hsplit.2]

/-! ## Numbers -/

/-- The sign of a number, as it is rendered. -/
def minusText (negative : Bool) : Text := if negative then lit "-" else []

/-- The sign in front of a whole part is read. -/
theorem minusPart_whole (negative : Bool) {ds rest : Text} (hds : Whole ds) :
    minusPart (minusText negative ++ (ds ++ rest)) = (negative, ds ++ rest) := by
  have hhead : ∀ c ∈ ds.head?, c.val ≠ 0x2d := by
    rcases hds with rfl | ⟨c, cs, rfl, -, hall⟩
    · simp
    · have hc := hall c (by simp)
      intro d hd h
      obtain rfl := Option.some.inj hd
      rw [isDigit, h] at hc
      cases hc
  have hne : ds ≠ [] := by
    rcases hds with rfl | ⟨c, cs, rfl, -, -⟩
    · simp
    · simp
  obtain ⟨c, cs, rfl⟩ := List.exists_cons_of_ne_nil hne
  cases negative
  · have hc := hhead c rfl
    simp only [minusText, Bool.false_eq_true, if_false, List.nil_append, List.cons_append]
    rw [minusPart, if_neg hc]
  · rfl

/-- A number is read part by part. -/
theorem scanNumber_parts (negative : Bool) {whole fraction front mid rest : Text}
    {exponent : Option ℤ}
    (hwhole : Whole whole) (hfront : NoDigit front)
    (hfraction : fractionPart front = (fraction, mid))
    (hexponent : exponentPart mid = (exponent, rest)) :
    scanNumber (minusText negative ++ (whole ++ front))
      = (numberValue negative whole fraction exponent).map fun v => (v, rest) := by
  unfold scanNumber
  rw [minusPart_whole negative hwhole]
  simp only
  rw [wholePart_append hwhole hfront]
  simp only
  rw [hfraction, hexponent]

/-- An integer is written as its sign and its digits. -/
theorem decimalInt_eq (n : ℤ) : decimalInt n = minusText (decide (n < 0)) ++ decimal n.natAbs := by
  unfold decimalInt minusText
  by_cases h : n < 0
  · simp [h]
  · simp [h]

/-- An integer reads back. -/
theorem scanNumber_decimalInt {n : ℤ} (hn : decimalLen n.natAbs ≤ maxStrDigits) {rest : Text}
    (h : Stops rest) :
    scanNumber (decimalInt n ++ rest) = some (.int n, rest) := by
  have hvalue : numberValue (decide (n < 0)) (decimal n.natAbs) [] none = some (.int n) := by
    unfold numberValue
    rw [if_pos ⟨rfl, rfl⟩, length_decimal, if_pos hn, digitsValue_decimal]
    by_cases hneg : n < 0
    · simp only [hneg, decide_true, if_true, Option.some.injEq, Json.int.injEq]
      omega
    · simp only [hneg, decide_false, Bool.false_eq_true, if_false, Option.some.injEq,
        Json.int.injEq]
      omega
  rw [decimalInt_eq, List.append_assoc, scanNumber_parts (decide (n < 0))
    (whole_decimal _) h.noDigit
    (fractionPart_absent fun c hc => (h c hc).2.1) (exponentPart_absent h), hvalue]
  rfl

/-! ## Floats -/

/-- A number with a fraction or an exponent is read as the float nearest to its value. -/
theorem numberValue_float {negative : Bool} {whole fraction : Text} {exponent : Option ℤ} {m : ℚ}
    (hfloat : ¬ (fraction = [] ∧ exponent = none))
    (hm : (digitsValue (whole ++ fraction) : ℚ) * 10 ^ (exponent.getD 0 - fraction.length) = m) :
    numberValue negative whole fraction exponent = some (.float (nearestFloat negative m)) := by
  rw [numberValue, if_neg hfloat, pow10_eq, hm]

/-- A point is no digit. -/
theorem noDigit_point (t : Text) : NoDigit (0x2e :: t) := by
  intro d hd
  obtain rfl := Option.some.inj hd
  rfl

/-- The digit zero has the value zero. -/
theorem digitsValue_zero : digitsValue [0x30] = 0 := by decide

/-- Zeros are digits. -/
theorem isDigit_zeros (k : ℕ) : ∀ d ∈ List.replicate k (0x30 : CodePoint), isDigit d = true := by
  intro d hd
  rw [(List.mem_replicate.mp hd).2]
  rfl

/-- A number with digits behind its point. -/
theorem scanNumber_point (negative : Bool) {whole fraction rest : Text} (hwhole : Whole whole)
    (hne : fraction ≠ []) (hall : ∀ d ∈ fraction, isDigit d = true) (hrest : Stops rest) {m : ℚ}
    (hm : (digitsValue (whole ++ fraction) : ℚ) * 10 ^ (-(fraction.length : ℤ)) = m) :
    scanNumber (minusText negative ++ (whole ++ (0x2e :: (fraction ++ rest))))
      = some (.float (nearestFloat negative m), rest) := by
  rw [scanNumber_parts negative hwhole (noDigit_point _) (fractionPart_point hne hall hrest.noDigit)
    (exponentPart_absent hrest), numberValue_float (m := m) (fun h => hne h.1)]
  · rfl
  · rw [Option.getD_none, zero_sub, hm]

/-- The digits of an exponent, two of them at least. -/
theorem exponentDigits (n : ℕ) : ∃ es, (if (decimal n).length < 2 then lit "0" ++ decimal n
    else decimal n) = es
    ∧ es ≠ [] ∧ (∀ d ∈ es, isDigit d = true) ∧ digitsValue es = n := by
  have hzero : lit "0" = [0x30] := by decide
  have hdigits := isDigit_of_mem_decimal n
  refine ⟨_, rfl, ?_⟩
  split
  · refine ⟨by simp [hzero], fun d hd => ?_, ?_⟩
    · rcases List.mem_append.mp hd with hd | hd
      · rw [hzero] at hd
        exact isDigit_zeros 1 d hd
      · exact hdigits d hd
    · rw [digitsValue_append, hzero, digitsValue_zero, digitsValue_decimal, zero_mul, zero_add]
  · next hlong =>
    refine ⟨fun h => ?_, hdigits, digitsValue_decimal n⟩
    rw [h] at hlong
    exact hlong (by simp)

/-- The digits of a rendered number: the first is not zero. -/
structure Digits (ds : Text) : Prop where
  first : ∃ c cs, ds = c :: cs ∧ c.val ≠ 0x30
  all : ∀ d ∈ ds, isDigit d = true

section layout

variable (negative : Bool) {ds : Text} (hds : Digits ds) (point : ℤ) {rest : Text}
  (hrest : Stops rest)

include hds hrest

omit hrest in
/-- Significant digits in front of digits are a whole part. -/
theorem Digits.whole_append {t : Text} (ht : ∀ d ∈ t, isDigit d = true) : Whole (ds ++ t) := by
  obtain ⟨c, cs, rfl, hc⟩ := hds.first
  refine .inr ⟨c, cs ++ t, rfl, hc, fun d hd => ?_⟩
  rcases List.mem_append.mp hd with hd | hd
  · exact hds.all d hd
  · exact ht d hd

omit hrest in
/-- There is a significant digit. -/
theorem Digits.ne_nil : ds ≠ [] := by
  obtain ⟨c, cs, rfl, -⟩ := hds.first
  simp

/-- Leading zeros: a whole part of one zero, and the digits behind the point. -/
theorem scanNumber_leadingZeros (k : ℕ) :
    scanNumber (minusText negative ++ (lit "0." ++ List.replicate k 0x30 ++ ds ++ rest))
      = some (.float (nearestFloat negative (digitsValue ds * 10 ^ (-(k : ℤ) - ds.length))),
        rest) := by
  have hlit : lit "0." = [0x30] ++ [0x2e] := by decide
  have hall : ∀ d ∈ List.replicate k 0x30 ++ ds, isDigit d = true := by
    intro d hd
    rcases List.mem_append.mp hd with hd | hd
    · exact isDigit_zeros k d hd
    · exact hds.all d hd
  have hne : List.replicate k (0x30 : CodePoint) ++ ds ≠ [] := by simp [hds.ne_nil]
  have htext : lit "0." ++ List.replicate k 0x30 ++ ds ++ rest
      = [0x30] ++ (0x2e :: ((List.replicate k 0x30 ++ ds) ++ rest)) := by
    rw [hlit]
    simp
  rw [htext, scanNumber_point negative (.inl rfl) hne hall hrest]
  have hexp : -(((List.replicate k (0x30 : CodePoint) ++ ds).length : ℕ) : ℤ) = -(k : ℤ)
      - ds.length := by
    rw [List.length_append, List.length_replicate]
    push_cast
    ring
  rw [digitsValue_append, digitsValue_append, digitsValue_zero, digitsValue_zeros, hexp]
  simp

/-- Trailing zeros: all digits before the point, and one zero behind it. -/
theorem scanNumber_trailingZeros (k : ℕ) :
    scanNumber (minusText negative ++ (ds ++ List.replicate k 0x30 ++ lit ".0" ++ rest))
      = some (.float (nearestFloat negative (digitsValue ds * 10 ^ (k : ℤ))), rest) := by
  have hlit : lit ".0" = [0x2e, 0x30] := by decide
  have htext : ds ++ List.replicate k 0x30 ++ lit ".0" ++ rest
      = (ds ++ List.replicate k 0x30) ++ (0x2e :: ([0x30] ++ rest)) := by
    rw [hlit]
    simp
  have hzero : ∀ d ∈ ([0x30] : Text), isDigit d = true := isDigit_zeros 1
  rw [htext, scanNumber_point negative (hds.whole_append (isDigit_zeros k)) (List.cons_ne_nil _ _)
    hzero hrest]
  rw [digitsValue_append, digitsValue_append, digitsValue_zeros, digitsValue_zero, zpow_neg,
    zpow_natCast,
    zpow_natCast, List.length_replicate, List.length_singleton]
  push_cast
  field_simp
  ring

/-- The point among the digits. -/
theorem scanNumber_inside {k : ℕ} (hk : k + 1 < ds.length) :
    scanNumber (minusText negative ++ (ds.take (k + 1) ++ lit "." ++ ds.drop (k + 1) ++ rest))
      = some (.float (nearestFloat negative (digitsValue ds * 10 ^ ((k : ℤ) + 1 - ds.length))),
        rest) := by
  have hlit : lit "." = [0x2e] := by decide
  have hdrop : ds.drop (k + 1) ≠ [] := by
    rw [Ne, List.drop_eq_nil_iff]
    omega
  have hwhole : Whole (ds.take (k + 1)) := by
    obtain ⟨c, cs, rfl, hc⟩ := hds.first
    exact .inr ⟨c, cs.take k, rfl, hc, fun d hd => hds.all d (List.mem_of_mem_take hd)⟩
  have htext : ds.take (k + 1) ++ lit "." ++ ds.drop (k + 1) ++ rest
      = ds.take (k + 1) ++ (0x2e :: (ds.drop (k + 1) ++ rest)) := by
    rw [hlit]
    simp
  rw [htext, scanNumber_point negative hwhole hdrop (fun d hd =>
    hds.all d (List.mem_of_mem_drop hd)) hrest]
  have hexp : -(((ds.drop (k + 1)).length : ℕ) : ℤ) = (k : ℤ) + 1 - ds.length := by
    rw [List.length_drop]
    omega
  rw [List.take_append_drop, hexp]

/-- Scientific notation. -/
theorem scanNumber_scientific {c : CodePoint} {cs mantissa : Text} (hcs : ds = c :: cs)
    (hmantissa : cs = [] ∧ mantissa = [c] ∨ cs ≠ [] ∧ mantissa = c :: lit "." ++ cs) (minus : Bool)
    {es : Text}
    (hes : es ≠ []) (hall : ∀ d ∈ es, isDigit d = true) {e : ℤ}
    (he : (if minus then -(digitsValue es : ℤ) else digitsValue es) = e) :
    scanNumber (minusText negative ++ (mantissa ++ lit "e" ++ signText minus ++ es ++ rest))
      = some (.float (nearestFloat negative (digitsValue ds * 10 ^ (e + 1 - ds.length))),
        rest) := by
  have hlit : lit "e" = [0x65] := by decide
  have hpoint : lit "." = [0x2e] := by decide
  have hone : Whole [c] := by
    obtain ⟨c', cs', hc', hne⟩ := hds.first
    obtain ⟨rfl, rfl⟩ := List.cons.inj (hcs.symm.trans hc')
    refine .inr ⟨c, [], rfl, hne, fun d hd => hds.all d ?_⟩
    rw [hcs, List.mem_singleton.mp hd]
    exact List.mem_cons_self
  have hexponent := exponentPart_sign minus hes hall hrest.noDigit
  rw [he] at hexponent
  have hnoDigit : ∀ t : Text, NoDigit (0x65 :: t) := by
    intro t d hd
    obtain rfl := Option.some.inj hd
    rfl
  have hfloat : ∀ fraction : Text, ¬ (fraction = [] ∧ some e = none) := fun _ h => by cases h.2
  rcases hmantissa with ⟨rfl, rfl⟩ | ⟨hne, rfl⟩
  · have htext : [c] ++ lit "e" ++ signText minus ++ es ++ rest
        = [c] ++ (0x65 :: (signText minus ++ (es ++ rest))) := by
      rw [hlit]
      simp
    have habsent : fractionPart (0x65 :: (signText minus ++ (es ++ rest)))
        = ([], 0x65 :: (signText minus ++ (es ++ rest))) := rfl
    rw [htext, scanNumber_parts negative hone (hnoDigit _) habsent hexponent,
      numberValue_float (hfloat _) rfl,
      hcs]
    simp
  · have htext : c :: lit "." ++ cs ++ lit "e" ++ signText minus ++ es ++ rest
        = [c] ++ (0x2e :: (cs ++ (0x65 :: (signText minus ++ (es ++ rest))))) := by
      rw [hlit, hpoint]
      simp
    have hfraction :=
      fractionPart_point hne (fun x hx => hds.all x (by rw [hcs]; exact List.mem_cons_of_mem _ hx))
      (hnoDigit (signText minus ++ (es ++ rest)))
    have hexp : (some e).getD 0 - (cs.length : ℤ) = e + 1 - (c :: cs).length := by
      rw [Option.getD_some, List.length_cons]
      push_cast
      ring
    rw [htext, scanNumber_parts negative hone (noDigit_point _) hfraction hexponent,
      numberValue_float (hfloat _) rfl, hcs, hexp]
    rfl

/-- **A layout stands for its digits times a power of ten.** -/
theorem scanNumber_layout : scanNumber (minusText negative ++ (layout ds point ++ rest))
    = some (.float (nearestFloat negative (digitsValue ds * 10 ^ (point - ds.length))), rest) := by
  unfold layout
  split
  · next hrange =>
    split
    · next hneg =>
      have h := scanNumber_leadingZeros negative hds hrest (-point).toNat
      have hexp : -(((-point).toNat : ℕ) : ℤ) - ds.length = point - ds.length := by omega
      rwa [hexp] at h
    · next hpos =>
      split
      · next hlong =>
        have h := scanNumber_trailingZeros negative hds hrest (point.toNat - ds.length)
        have hexp : ((point.toNat - ds.length : ℕ) : ℤ) = point - ds.length := by omega
        rwa [hexp] at h
      · next hshort =>
        obtain ⟨k, hk⟩ : ∃ k : ℕ, point.toNat = k + 1 := ⟨point.toNat - 1, by omega⟩
        have h := scanNumber_inside negative hds hrest (k := k) (by omega)
        have hexp : (k : ℤ) + 1 - ds.length = point - ds.length := by omega
        rw [hexp] at h
        rwa [hk]
  · next hrange =>
    obtain ⟨c, cs, hcs, -⟩ := hds.first
    obtain ⟨es, hes, hne, hall, hval⟩ := exponentDigits (point - 1).natAbs
    have he : (if decide (point - 1 < 0) then -(digitsValue es : ℤ) else digitsValue es)
        = point - 1 := by
      rw [hval]
      by_cases hneg : point - 1 < 0
      · rw [decide_eq_true hneg, if_pos rfl]
        omega
      · rw [decide_eq_false hneg, if_neg (by simp)]
        omega
    have hsign : (if point - 1 < 0 then lit "-" else lit "+")
        = signText (decide (point - 1 < 0)) := by
      by_cases hneg : point - 1 < 0
      · simp [signText, hneg]
      · simp [signText, hneg]
    have hexp : point - 1 + 1 - ds.length = point - ds.length := by ring
    simp only
    rw [hes, hsign]
    rcases cs with _ | ⟨d, cs⟩
    · have h := scanNumber_scientific negative hds hrest hcs (.inl ⟨rfl, rfl⟩)
        (decide (point - 1 < 0)) hne hall he
      rw [hexp] at h
      rw [hcs] at h ⊢
      exact h
    · have h := scanNumber_scientific negative hds hrest hcs (.inr ⟨List.cons_ne_nil _ _, rfl⟩)
        (decide (point - 1 < 0)) hne hall he
      rw [hexp] at h
      rw [hcs] at h ⊢
      exact h

end layout

/-- Dropping trailing zeros leaves the digits of a smaller number. -/
theorem significant_spec {d : ℕ} (hd : d ≠ 0) :
    ∃ z, decimal d = significant d ++ List.replicate z 0x30 ∧ Digits (significant d) := by
  have hsplit := List.takeWhile_append_dropWhile (p := fun c : CodePoint => c.val == 0x30)
      (l := (decimal d).reverse)
  obtain ⟨tail, htail⟩ : ∃ tail, (decimal d).reverse.takeWhile (fun c => c.val == 0x30) = tail :=
    ⟨_, rfl⟩
  obtain ⟨front, hfront⟩ : ∃ front, (decimal d).reverse.dropWhile (fun c => c.val == 0x30)
      = front := ⟨_, rfl⟩
  have hzeros : tail.reverse = List.replicate tail.length 0x30 := by
    rw [List.eq_replicate_iff, List.length_reverse]
    refine ⟨rfl, fun c hc => ?_⟩
    rw [← htail, List.mem_reverse] at hc
    have hval := List.all_eq_true.mp List.all_takeWhile c hc
    exact Fin.ext (eq_of_beq hval)
  rw [htail, hfront] at hsplit
  have hdec : decimal d = front.reverse ++ List.replicate tail.length 0x30 := by
    rw [← hzeros, ← List.reverse_append, hsplit, List.reverse_reverse]
  obtain ⟨c, cs, hcs, hc⟩ : ∃ c cs, decimal d = c :: cs ∧ c.val ≠ 0x30 := by
    rcases whole_decimal d with hzero | ⟨c, cs, hcs, hc, -⟩
    · have hv := digitsValue_decimal d
      rw [hzero, digitsValue_zero] at hv
      exact absurd hv.symm hd
    · exact ⟨c, cs, hcs, hc⟩
  have hsig : significant d = front.reverse := by
    unfold significant
    rw [hfront]
    split
    · next hnil =>
      rw [hdec, hnil, List.nil_append] at hcs
      have hmem : c ∈ List.replicate tail.length (0x30 : CodePoint) := by
        rw [hcs]; exact List.mem_cons_self
      rw [(List.mem_replicate.mp hmem).2] at hc
      exact absurd rfl hc
    · rfl
  refine ⟨tail.length, by rw [hsig]; exact hdec, ?_, ?_⟩
  · rw [hsig]
    rcases hrev : front.reverse with _ | ⟨b, bs⟩
    · rw [hdec, hrev, List.nil_append] at hcs
      have hmem : c ∈ List.replicate tail.length (0x30 : CodePoint) := by
        rw [hcs]; exact List.mem_cons_self
      rw [(List.mem_replicate.mp hmem).2] at hc
      exact absurd rfl hc
    · rw [hdec, hrev] at hcs
      obtain ⟨rfl, -⟩ := List.cons.inj hcs
      exact ⟨b, bs, rfl, hc⟩
  · rw [hsig]
    intro b hb
    exact isDigit_of_mem_decimal d b (by rw [hdec]; exact List.mem_append_left _ hb)

/-- A positive binary64 number reads back. -/
theorem scanNumber_reprPos (negative : Bool) {q : ℚ} (hq : 0 < q) (hd : doublePos q = q)
    (hmax : q < 2 ^ 1024)
    {rest : Text} (hrest : Stops rest) : scanNumber (minusText negative ++ (reprPos q ++ rest))
      = some (.float (.fin (if negative then -q else q)), rest) := by
  have hback := shortest_double hq hd
  unfold reprPos
  rw [hd]
  rcases hpair : shortest q ((List.range 17).map (· + 1)) with ⟨d, n⟩
  rw [hpair] at hback
  simp only at hback ⊢
  have hx := ne_zero_of_doublePos hq hback
  have hd0 : d ≠ 0 := by
    rintro rfl
    simp at hx
  obtain ⟨z, hdec, hds⟩ := significant_spec hd0
  have hvalue : (d : ℚ) = digitsValue (significant d) * 10 ^ z := by
    have hv := digitsValue_decimal d
    rw [hdec, digitsValue_append, digitsValue_zeros, List.length_replicate, add_zero] at hv
    exact_mod_cast hv.symm
  have hlen : decimalLen d = (significant d).length + z := by
    rw [← length_decimal, hdec, List.length_append, List.length_replicate]
  have hm : (digitsValue (significant d) : ℚ)
      * 10 ^ (decimalExponent q + 1 + ((decimalLen d : ℤ) - n) - (significant d).length)
        = d / 10 ^ ((n : ℤ) - 1 - decimalExponent q) := by
    have hexp : decimalExponent q + 1 + ((decimalLen d : ℤ) - n) - (significant d).length
        = (z : ℤ) - ((n : ℤ) - 1 - decimalExponent q) := by
      rw [hlen]
      push_cast
      ring
    rw [hexp, zpow_sub₀ (by norm_num), zpow_natCast, hvalue, mul_div_assoc]
  rw [scanNumber_layout negative hds _ hrest, hm]
  have hnear : nearestFloat negative (d / 10 ^ ((n : ℤ) - 1 - decimalExponent q))
      = .fin (if negative then -q else q) := by
    unfold nearestFloat
    simp only
    rw [if_neg hx, hback, if_neg hq.ne', if_neg (not_le.mpr hmax)]
  rw [hnear]

/-- A binary64 number, or one of the special values. -/
def Float.Binary64 : Float → Prop
  | .fin q => double q = q ∧ |q| < 2 ^ 1024
  | _ => True

/-- A finite number reads back. -/
theorem scanNumber_ratRepr {q : ℚ} (hq : (Float.fin q).Binary64) {rest : Text}
    (hrest : Stops rest) :
    scanNumber (ratRepr q ++ rest) = some (.float (.fin q), rest) := by
  obtain ⟨hd, hmax⟩ := hq
  obtain ⟨hlow, hhigh⟩ := abs_lt.mp hmax
  unfold double at hd
  unfold ratRepr
  split
  · next h0 =>
    have hlit : lit "0.0" = [0x30] ++ [0x2e] ++ [0x30] := by decide
    have hall : ∀ d ∈ ([0x30] : Text), isDigit d = true := isDigit_zeros 1
    have h := scanNumber_point false (.inl rfl) (List.cons_ne_nil _ _) hall hrest rfl
    rw [h0, hlit]
    refine h.trans ?_
    have hzero : digitsValue ([0x30] ++ [0x30]) = 0 := by decide
    rw [hzero]
    simp [nearestFloat]
  · next h0 =>
    rw [if_neg h0] at hd
    split
    · next hpos =>
      rw [if_pos hpos] at hd
      exact scanNumber_reprPos false hpos hd hhigh hrest
    · next hneg =>
      rw [if_neg hneg] at hd
      have hpos : 0 < -q := by
        rcases lt_or_gt_of_ne h0 with h | h
        · linarith
        · exact absurd h hneg
      have h := scanNumber_reprPos true hpos (by linarith) (by linarith) hrest
      rw [if_pos rfl, neg_neg] at h
      rw [List.append_assoc]
      exact h

/-- Negative zero reads back. -/
theorem scanNumber_negZero {rest : Text} (hrest : Stops rest) :
    scanNumber (lit "-0.0" ++ rest) = some (.float .negZero, rest) := by
  have hlit : lit "-0.0" = minusText true ++ ([0x30] ++ [0x2e] ++ [0x30]) := by decide
  have hall : ∀ d ∈ ([0x30] : Text), isDigit d = true := isDigit_zeros 1
  have h := scanNumber_point true (.inl rfl) (List.cons_ne_nil _ _) hall hrest rfl
  rw [hlit]
  refine h.trans ?_
  have hzero : digitsValue ([0x30] ++ [0x30]) = 0 := by decide
  rw [hzero]
  simp [nearestFloat]

end Py
