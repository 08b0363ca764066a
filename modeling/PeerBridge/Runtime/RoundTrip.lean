import PeerBridge.Runtime.Numeral

/-!
# What is dumped loads again

`dumpsWith gap` is `json.dumps` with a gap behind commas and colons; the two gaps in use are a space
and nothing. `loads` inverts it on the values that a JSON text denotes (`Denotable`): the keys of an
object are distinct, a `float` is a binary64 number, an integer has at most the digits the
interpreter converts, and no text has a high surrogate directly before a low one, which in a JSON
text are one character.

* `scanString_escape`: strings, with `scanChar_escape` for one character;
* `scanValue_dumpsWith`: values, by one induction over values, items and members;
* `loads_dumpsWith`: whole texts.
-/

namespace Py

/-! ## Strings -/

/-- A hexadecimal digit is read as the value it was written for. -/
theorem hexVal_hexDigit : ∀ n < 16, hexVal (hexDigit n) = some n := by decide

/-- The four digits of a number below `0x10000`. -/
def hexDigits (n : ℕ) : Text :=
  [hexDigit (n / 0x1000 % 0x10), hexDigit (n / 0x100 % 0x10), hexDigit (n / 0x10 % 0x10),
    hexDigit (n % 0x10)]

/-- An escape is a backslash, a `u` and four hexadecimal digits. -/
theorem hexEscape_eq (n : ℕ) : hexEscape n = 0x5c :: 0x75 :: hexDigits n := rfl

/-- Four hexadecimal digits are read back as the number they were written for. -/
theorem hex4_hexDigits {n : ℕ} (hn : n < 0x10000) (rest : Text) :
    hex4 (hexDigits n ++ rest) = some (n, rest) := by
  have hdigit : ∀ k, hexVal (hexDigit (k % 0x10)) = some (k % 0x10) := by
    intro k
    exact hexVal_hexDigit _ (Nat.mod_lt _ (by omega))
  simp only [hexDigits, List.cons_append, List.nil_append, hex4, hdigit, Option.some.injEq,
    Prod.mk.injEq,
    and_true]
  omega

/-- The scanner does not take `rest` for the second half of a surrogate pair. -/
def Unpaired (rest : Text) : Prop :=
  ∀ second, afterU rest = some second →
    ∃ v after, hex4 second = some (v, after) ∧ ¬ (0xdc00 ≤ v ∧ v < 0xe000)

/-- A high surrogate, the first half of a pair. -/
def isHigh (c : CodePoint) : Bool := 0xd800 ≤ c.val && c.val < 0xdc00

/-- A low surrogate, the second half of a pair. -/
def isLow (c : CodePoint) : Bool := 0xdc00 ≤ c.val && c.val < 0xe000

/-- The digits of a code point are read back, unless a low surrogate follows a high one. -/
theorem scanUnicode_hexDigits {c : CodePoint} (hc : c.val < 0x10000) {rest : Text}
    (hrest : isHigh c = true → Unpaired rest) :
    scanUnicode (hexDigits c.val ++ rest) = some (c, rest) := by
  unfold scanUnicode
  rw [hex4_hexDigits hc]
  simp only [ofNat_val]
  split
  · next hhigh =>
    have hun := hrest (by simpa [isHigh] using hhigh)
    split
    · rfl
    · next second hsecond =>
      obtain ⟨v, after, hv, hlow⟩ := hun second hsecond
      rw [hv]
      simp only
      rw [if_neg hlow]
  · rfl

/-- The two halves of a character join to it. -/
theorem joinSurrogates_split {c : CodePoint} (hc : 0x10000 ≤ c.val) :
    joinSurrogates (0xd800 + (c.val - 0x10000) / 0x400) (0xdc00 + (c.val - 0x10000) % 0x400)
    = c := by
  have hval : 0x10000 + (0xd800 + (c.val - 0x10000) / 0x400 - 0xd800) * 0x400
      + (0xdc00 + (c.val - 0x10000) % 0x400 - 0xdc00) = c.val := by omega
  rw [joinSurrogates, hval, ofNat_val]

/-- Two escapes of a surrogate pair are read as the one character they stand for. -/
theorem scanUnicode_pair {u v : ℕ} (hu : 0xd800 ≤ u ∧ u < 0xdc00) (hv : 0xdc00 ≤ v ∧ v < 0xe000)
    (rest : Text) :
    scanUnicode (hexDigits u ++ hexEscape v ++ rest) = some (joinSurrogates u v, rest) := by
  unfold scanUnicode
  rw [List.append_assoc, hex4_hexDigits (by omega)]
  simp only
  rw [if_pos hu, hexEscape_eq]
  have hafter : afterU (0x5c :: 0x75 :: hexDigits v ++ rest) = some (hexDigits v ++ rest) := rfl
  rw [hafter]
  simp only
  rw [hex4_hexDigits (by omega)]
  simp only
  rw [if_pos hv]

/-- Behind a backslash and a `u` the digits are read. -/
theorem scanChar_unicode (t : Text) :
    scanChar (0x5c :: 0x75 :: t) = (scanUnicode t).map fun p => (some p.1, p.2) := rfl

/-- The scanner reads an escaped character back. -/
theorem scanChar_escape (c : CodePoint) {rest : Text} (hrest : isHigh c = true → Unpaired rest) :
    scanChar (escape c ++ rest) = some (some c, rest) := by
  have hval : ∀ n : CodePoint, c.val = n.val → c = n := fun n h => Fin.ext h
  unfold escape
  simp only [beq_iff_eq, Bool.and_eq_true, decide_eq_true_eq]
  split
  · next h => rw [hval 0x22 h]; rfl
  · split
    · next h => rw [hval 0x5c h]; rfl
    · split
      · next h1 h2 h3 =>
        have h4 : ¬ c.val ≤ 0x1f := by omega
        simp only [List.cons_append, List.nil_append, scanChar]
        rw [if_neg h1, if_neg h2, if_neg h4]
      · split
        · next h => rw [hval 0xa h]; rfl
        · split
          · next h => rw [hval 0xd h]; rfl
          · split
            · next h => rw [hval 0x9 h]; rfl
            · split
              · next h => rw [hval 0xc h]; rfl
              · split
                · next h => rw [hval 0x8 h]; rfl
                · split
                  · next h =>
                    rw [hexEscape_eq, List.cons_append, List.cons_append, scanChar_unicode,
                      scanUnicode_hexDigits h hrest]
                    rfl
                  · next h =>
                    rw [hexEscape_eq, List.cons_append, List.cons_append, List.cons_append,
                      List.cons_append,
                      scanChar_unicode, scanUnicode_pair (by omega) (by omega),
                      joinSurrogates_split (by omega)]
                    rfl

/-- The closing quote is no second half of a pair. -/
theorem unpaired_quote (rest : Text) : Unpaired (0x22 :: rest) := by
  rintro second hsecond
  rcases rest with _ | ⟨a, rest⟩
  · cases hsecond
  · cases hsecond

/-- Neither is an escaped character other than a low surrogate. -/
theorem unpaired_escape {d : CodePoint} (hd : isLow d = false) (rest : Text) :
    Unpaired (escape d ++ rest) := by
  have hhex : ∀ n < 0x10000, ¬ (0xdc00 ≤ n ∧ n < 0xe000) → Unpaired (hexEscape n ++ rest) := by
    rintro n hn hlow second hsecond
    obtain rfl := Option.some.inj hsecond
    exact ⟨n, rest, hex4_hexDigits hn rest, hlow⟩
  have hpair : ∀ u v, u < 0xdc00 → Unpaired (hexEscape u ++ hexEscape v ++ rest) := by
    rintro u v hu second hsecond
    rw [List.append_assoc] at hsecond
    obtain rfl := Option.some.inj hsecond
    exact ⟨u, _, hex4_hexDigits (by omega) _, by omega⟩
  have hshort : ∀ a b : CodePoint, b.val ≠ 0x75 → Unpaired ([a, b] ++ rest) := by
    rintro a b hb second hsecond
    simp [afterU, hb] at hsecond
  have hplain : d.val ≠ 0x5c → Unpaired ([d] ++ rest) := by
    rintro hne second hsecond
    rcases rest with _ | ⟨a, rest⟩
    · cases hsecond
    · simp [afterU, hne] at hsecond
  unfold escape
  simp only [beq_iff_eq, Bool.and_eq_true, decide_eq_true_eq]
  split
  · exact hshort 0x5c 0x22 (by decide)
  · split
    · exact hshort 0x5c 0x5c (by decide)
    · split
      · next h _ => exact hplain h
      · split
        · exact hshort 0x5c 0x6e (by decide)
        · split
          · exact hshort 0x5c 0x72 (by decide)
          · split
            · exact hshort 0x5c 0x74 (by decide)
            · split
              · exact hshort 0x5c 0x66 (by decide)
              · split
                · exact hshort 0x5c 0x62 (by decide)
                · split
                  · next h => exact hhex d.val h (by simpa [isLow] using hd)
                  · have hlt := d.isLt
                    exact hpair _ _ (by omega)

/-- A text that a JSON string denotes: no high surrogate directly before a low one. -/
def Joined (t : Text) : Prop := t.IsChain fun c d => isHigh c = true → isLow d = false

/-- An escaped text reads back, given that each of its characters does in its place. -/
theorem scanString_flatMap (esc : CodePoint → Text) (rest : Text) : {t : Text} → {fuel : ℕ} →
    t.length < fuel →
    (∀ front c back, t = front ++ c :: back → scanChar (esc c ++ (back.flatMap esc ++ 0x22 :: rest))
      = some (some c, back.flatMap esc ++ 0x22 :: rest)) →
    scanString fuel (t.flatMap esc ++ 0x22 :: rest) = some (t, rest)
  | [], fuel + 1, _, _ => rfl
  | c :: t, fuel + 1, hfuel, hstep => by
      have hc := hstep [] c t rfl
      have ih := @scanString_flatMap esc rest t fuel (by simpa using hfuel)
        (fun front d back h => hstep (c :: front) d back (by rw [h]; rfl))
      rw [List.flatMap_cons, List.append_assoc, scanString, hc]
      simp only
      rw [ih]
      rfl

/-- What follows a high surrogate of a joined text does not begin with the escape of a low one. -/
theorem Joined.tail_unpaired {front : Text} {c : CodePoint} {back : Text}
    (h : Joined (front ++ c :: back))
    (rest : Text) (hc : isHigh c = true) : Unpaired (back.flatMap escape ++ 0x22 :: rest) := by
  rcases back with _ | ⟨d, back⟩
  · exact unpaired_quote rest
  · have hchain := (List.isChain_append.mp h).2.1
    have hd := (List.isChain_cons_cons.mp hchain).1 hc
    rw [List.flatMap_cons, List.append_assoc]
    exact unpaired_escape hd _

/-- Every character is written as something. -/
theorem escape_ne_nil (c : CodePoint) : escape c ≠ [] := by
  intro h
  have hq : scanChar (escape c ++ [0x22]) = some (some c, [0x22]) :=
    scanChar_escape c fun _ => unpaired_quote []
  rw [h] at hq
  cases hq

/-- Escaping does not shorten a text. -/
theorem length_le_flatMap_escape (t : Text) : t.length ≤ (t.flatMap escape).length := by
  induction t with
  | nil => simp
  | cons c t ih =>
    have hc := List.length_pos_iff.mpr (escape_ne_nil c)
    rw [List.flatMap_cons, List.length_append, List.length_cons]
    omega

/-- A quoted text reads back. -/
theorem scanString_escape {t : Text} (ht : Joined t) (rest : Text) {fuel : ℕ}
    (hfuel : t.length < fuel) :
    scanString fuel (t.flatMap escape ++ 0x22 :: rest) = some (t, rest) := by
  refine scanString_flatMap escape rest hfuel fun front c back h => ?_
  rw [h] at ht
  exact scanChar_escape c fun hc => ht.tail_unpaired rest hc

/-! ## Rendering with a gap -/

section rendering

variable (gap : Text)

mutual

/-- `json.dumps(value, separators=("," + gap, ":" + gap))`. -/
def dumpsWith : Json → Text
  | .null => lit "null"
  | .bool true => lit "true"
  | .bool false => lit "false"
  | .int n => decimalInt n
  | .float f => floatRepr f
  | .str t => quote t
  | .arr items => lit "[" ++ dumpsItemsWith items ++ lit "]"
  | .obj members => lit "\x7b" ++ dumpsMembersWith members ++ lit "\x7d"

/-- The items of an array. -/
def dumpsItemsWith : List Json → Text
  | [] => []
  | [v] => dumpsWith v
  | v :: rest => dumpsWith v ++ lit "," ++ gap ++ dumpsItemsWith rest

/-- The members of an object. -/
def dumpsMembersWith : List (Text × Json) → Text
  | [] => []
  | [(k, v)] => quote k ++ lit ":" ++ gap ++ dumpsWith v
  | (k, v) :: rest => quote k ++ lit ":" ++ gap ++ dumpsWith v ++ lit "," ++ gap
    ++ dumpsMembersWith rest

end

end rendering

mutual

/-- With a space for the gap it is the encoder of the default separators. -/
theorem dumpsWith_space : (v : Json) → dumpsWith (lit " ") v = dumps v
  | .null => rfl
  | .bool true => rfl
  | .bool false => rfl
  | .int _ => rfl
  | .float _ => rfl
  | .str _ => rfl
  | .arr items => by rw [dumpsWith, dumps, dumpsItemsWith_space items]
  | .obj members => by rw [dumpsWith, dumps, dumpsMembersWith_space members]

/-- With a blank as the gap the items are those `dumps` writes. -/
theorem dumpsItemsWith_space : (items : List Json) → dumpsItemsWith (lit " ") items
    = dumpsItems items
  | [] => rfl
  | [v] => by rw [dumpsItemsWith, dumpsItems, dumpsWith_space v]
  | v :: w :: rest => by
      have hsep : lit ", " = lit "," ++ lit " " := by decide
      rw [dumpsItemsWith, dumpsItems, dumpsWith_space v, dumpsItemsWith_space (w :: rest), hsep]
      · simp
      · simp
      · simp

/-- With a blank as the gap the members are those `dumps` writes. -/
theorem dumpsMembersWith_space : (members : List (Text × Json)) →
    dumpsMembersWith (lit " ") members = dumpsMembers members
  | [] => rfl
  | [(k, v)] => by
      have hsep : lit ": " = lit ":" ++ lit " " := by decide
      rw [dumpsMembersWith, dumpsMembers, dumpsWith_space v, hsep]
      simp
  | (k, v) :: p :: rest => by
      have hsep : lit ", " = lit "," ++ lit " " := by decide
      have hcolon : lit ": " = lit ":" ++ lit " " := by decide
      rw [dumpsMembersWith, dumpsMembers, dumpsWith_space v, dumpsMembersWith_space (p :: rest),
        hsep, hcolon]
      · simp
      · simp
      · simp

end

/-! ## Values -/

mutual

/-- A value that a JSON text denotes. -/
def Denotable : Json → Prop
  | .int n => decimalLen n.natAbs ≤ maxStrDigits
  | .float f => f.Binary64
  | .str t => Joined t
  | .arr items => DenotableItems items
  | .obj members => (members.map Prod.fst).Nodup ∧ DenotableMembers members
  | _ => True

def DenotableItems : List Json → Prop
  | [] => True
  | v :: rest => Denotable v ∧ DenotableItems rest

def DenotableMembers : List (Text × Json) → Prop
  | [] => True
  | (k, v) :: rest => Joined k ∧ Denotable v ∧ DenotableMembers rest

end

section scanning

variable {hook : Object → Option Json}

/-- How the constants begin. -/
theorem constants_heads : ∀ p ∈ constants, (∃ a rest, p.1 = a :: rest ∧ a ∈ lit "ntfNI")
    ∨ ∃ rest, p.1 = 0x2d :: 0x49 :: rest := by
  simp only [constants, List.forall_mem_cons]
  refine ⟨.inl ⟨0x6e, lit "ull", ?_⟩, .inl ⟨0x74, lit "rue", ?_⟩, .inl ⟨0x66, lit "alse", ?_⟩,
    .inl ⟨0x4e, lit "aN", ?_⟩, .inl ⟨0x49, lit "nfinity", ?_⟩, .inr ⟨lit "nfinity", ?_⟩, ?_⟩
  · decide
  · decide
  · decide
  · decide
  · decide
  · decide
  · simp

/-- No constant is at the front of a text that begins otherwise. -/
theorem scanConstant_eq_none {c : CodePoint} {t : Text} (hc : c ∉ lit "ntfNI")
    (hminus : c = 0x2d → ∀ d ∈ t.head?, d ≠ 0x49) : scanConstant (c :: t) = none := by
  refine List.findSome?_eq_none_iff.mpr fun p hp => if_neg ?_
  rw [List.isPrefixOf_iff_prefix]
  rintro ⟨back, hback⟩
  rcases constants_heads p hp with ⟨a, rest, ha, hmem⟩ | ⟨rest, ha⟩
  · rw [ha, List.cons_append] at hback
    obtain ⟨rfl, -⟩ := List.cons.inj hback
    exact hc hmem
  · rw [ha, List.cons_append, List.cons_append] at hback
    obtain ⟨rfl, rfl⟩ := List.cons.inj hback
    exact hminus rfl 0x49 rfl rfl

/-- A whole part begins with a digit. -/
theorem wholePart_head {t : Text} {p : Text × Text} (h : wholePart t = some p) :
    ∃ d rest, t = d :: rest ∧ isDigit d = true := by
  rcases t with _ | ⟨d, rest⟩
  · cases h
  · refine ⟨d, rest, rfl, ?_⟩
    rw [wholePart] at h
    by_cases h0 : d.val = 0x30
    · rw [isDigit, h0]
      rfl
    · rw [if_neg h0] at h
      by_contra hd
      rw [if_neg hd] at h
      cases h

/-- How a number begins. -/
theorem scanNumber_head {t : Text} {p : Json × Text} (h : scanNumber t = some p) :
    ∃ c rest, t = c :: rest ∧ (isDigit c = true ∨ c = 0x2d ∧ ∃ d more, rest = d :: more
      ∧ isDigit d = true) := by
  rcases t with _ | ⟨c, t⟩
  · cases h
  · refine ⟨c, t, rfl, ?_⟩
    unfold scanNumber at h
    by_cases hc : c.val = 0x2d
    · right
      rw [minusPart, if_pos hc] at h
      simp only at h
      split at h
      · cases h
      · next hw =>
        exact ⟨Fin.ext hc, wholePart_head hw⟩
    · left
      rw [minusPart, if_neg hc] at h
      simp only at h
      split at h
      · cases h
      · next hw =>
        obtain ⟨d, rest, hd, hdigit⟩ := wholePart_head hw
        obtain ⟨rfl, -⟩ := List.cons.inj hd
        exact hdigit

/-- A number is a value. -/
theorem scanValue_of_scanNumber {t : Text} {p : Json × Text} (h : scanNumber t = some p)
    (fuel : ℕ) :
    scanValue hook (fuel + 1) t = some p := by
  have hdigit : ∀ d : CodePoint, isDigit d = true → (0x30 ≤ d.val ∧ d.val ≤ 0x39) := by
    intro d hd
    simpa [isDigit] using hd
  have hfar : (lit "ntfNI").all (fun d => !isDigit d) = true := by decide
  obtain ⟨c, rest, rfl, hc⟩ := scanNumber_head h
  have hnone : scanConstant (c :: rest) = none := by
    rcases hc with hc | ⟨rfl, d, more, rfl, hd⟩
    · refine scanConstant_eq_none (fun hmem => ?_) ?_
      · have := List.all_eq_true.mp hfar c hmem
        rw [hc] at this
        cases this
      · rintro rfl
        cases hc
    · refine scanConstant_eq_none (by decide) fun _ e he => ?_
      obtain rfl := Option.some.inj he
      rintro rfl
      cases hd
  have hmarks : c.val ≠ 0x22 ∧ c.val ≠ 0x7b ∧ c.val ≠ 0x5b := by
    rcases hc with hc | ⟨rfl, -⟩
    · have := hdigit c hc
      omega
    · decide
  rw [scanValue, if_neg hmarks.1, if_neg hmarks.2.1, if_neg hmarks.2.2, hnone]
  exact h

/-- A value begins neither with white space nor with a closing bracket. -/
theorem scanValue_head {t : Text} {p : Json × Text} {fuel : ℕ}
    (h : scanValue hook fuel t = some p) :
    ∃ c rest, t = c :: rest ∧ isJsonSpace c = false ∧ c.val ≠ 0x5d := by
  rcases fuel with _ | fuel
  · cases h
  · rcases t with _ | ⟨c, t⟩
    · cases h
    · have hbad : ∀ e ∈ ([0x20, 0x9, 0xa, 0xd, 0x5d] : Text), c ≠ e := by
        rintro e he rfl
        have hmarks : ([0x20, 0x9, 0xa, 0xd, 0x5d] : Text).all (fun e =>
          decide (e.val ≠ 0x22 ∧ e.val ≠ 0x7b
            ∧ e.val ≠ 0x5b ∧ e ∉ lit "ntfNI" ∧ e ≠ 0x2d ∧ isDigit e = false)) = true := by decide
        obtain ⟨h1, h2, h3, h4, h5, h6⟩ := of_decide_eq_true (List.all_eq_true.mp hmarks c he)
        rw [scanValue, if_neg h1, if_neg h2, if_neg h3, scanConstant_eq_none h4 (fun h =>
          absurd h h5)] at h
        obtain ⟨d, rest, hd, hhead⟩ := scanNumber_head h
        obtain ⟨rfl, rfl⟩ := List.cons.inj hd
        rcases hhead with hdig | ⟨hm, -⟩
        · rw [h6] at hdig
          cases hdig
        · exact h5 hm
      refine ⟨c, t, rfl, ?_, fun hc => hbad 0x5d (by simp) (Fin.ext hc)⟩
      by_contra hs
      simp only [isJsonSpace, Bool.not_eq_false, Bool.or_eq_true, beq_iff_eq] at hs
      rcases hs with ((hs | hs) | hs) | hs
      · exact hbad 0x20 (by simp) (Fin.ext hs)
      · exact hbad 0x9 (by simp) (Fin.ext hs)
      · exact hbad 0xa (by simp) (Fin.ext hs)
      · exact hbad 0xd (by simp) (Fin.ext hs)

/-- White space before a value is skipped, and none is lost. -/
theorem skipSpace_append {gap : Text} (hgap : gap.all isJsonSpace = true) {t : Text}
    (ht : ∀ c ∈ t.head?, isJsonSpace c = false) : skipSpace (gap ++ t) = t := by
  unfold skipSpace
  rw [List.dropWhile_append_of_pos (List.all_eq_true.mp hgap)]
  rcases t with _ | ⟨c, t⟩
  · rfl
  · rw [List.dropWhile_cons_of_neg (by simp [ht c rfl])]

end scanning

section roundTrip

/-- What reading back rests on: the hook keeps the members when no key is repeated, and the gap is
white space. -/
structure ReadsBack (hook : Object → Option Json) (gap : Text) : Prop where
  hook : ∀ m : Object, (m.map Prod.fst).Nodup → hook m = some (.obj m)
  gap : gap.all isJsonSpace = true

variable {hook : Object → Option Json} {gap : Text} (hread : ReadsBack hook gap)

/-- A character that continues no number ends one. -/
theorem stops_mark {c : CodePoint} (rest : Text) (hc : isDigit c = false ∧ c.val ≠ 0x2e
    ∧ c.val ≠ 0x65 ∧ c.val ≠ 0x45) :
    Stops (c :: rest) := by
  intro d hd
  obtain rfl := Option.some.inj hd
  exact hc

/-- A constant reads back. -/
theorem scanValue_constant {p : Text × Json} (hp : p ∈ constants) (rest : Text) {fuel : ℕ}
    (hfuel : 0 < fuel) :
    scanValue hook fuel (p.1 ++ rest) = some (p.2, rest) := by
  obtain ⟨fuel, rfl⟩ : ∃ f, fuel = f + 1 := ⟨fuel - 1, by omega⟩
  simp only [constants, List.mem_cons, List.not_mem_nil, or_false] at hp
  rcases hp with rfl | rfl | rfl | rfl | rfl | rfl
  · rfl
  · rfl
  · rfl
  · rfl
  · rfl
  · rfl

/-- A number reads back as a value. -/
theorem scanValue_number {t rest : Text} {v : Json} (h : scanNumber (t ++ rest) = some (v, rest))
    {fuel : ℕ} (hfuel : 0 < fuel) : scanValue hook fuel (t ++ rest) = some (v, rest) := by
  obtain ⟨fuel, rfl⟩ : ∃ f, fuel = f + 1 := ⟨fuel - 1, by omega⟩
  exact scanValue_of_scanNumber h fuel

/-- A float reads back. -/
theorem scanValue_floatRepr {f : Float} (hf : f.Binary64) {rest : Text} (hrest : Stops rest)
    {fuel : ℕ} (hfuel : 0 < fuel) :
    scanValue hook fuel (floatRepr f ++ rest) = some (.float f, rest) := by
  cases f with
  | fin q => exact scanValue_number (scanNumber_ratRepr hf hrest) hfuel
  | negZero => exact scanValue_number (scanNumber_negZero hrest) hfuel
  | inf =>
    exact scanValue_constant (p := (lit "Infinity", .float .inf)) (by simp [constants]) rest hfuel
  | negInf =>
    exact scanValue_constant (p := (lit "-Infinity", .float .negInf)) (by simp [constants]) rest
      hfuel
  | nan => exact scanValue_constant (p := (lit "NaN", .float .nan)) (by simp [constants]) rest hfuel

/-- A quoted text in front of another text, from its opening quote on. -/
theorem quote_append (t rest : Text) :
    quote t ++ rest = 0x22 :: (t.flatMap escape ++ 0x22 :: rest) := by
  have hq : lit "\"" = [0x22] := by decide
  rw [quote, hq]
  simp

/-- A quoted text reads back behind its opening quote. -/
theorem scanString_quoted {t : Text} (ht : Joined t) (rest : Text) :
    scanString ((t.flatMap escape ++ 0x22 :: rest).length + 1) (t.flatMap escape ++ 0x22 :: rest)
    = some (t, rest) := by
  refine scanString_escape ht rest ?_
  have h := length_le_flatMap_escape t
  rw [List.length_append]
  omega

/-- The separator of items and members. -/
theorem lit_comma : lit "," = [0x2c] := by decide

/-- The separator of a key from its value. -/
theorem lit_colon : lit ":" = [0x3a] := by decide

/-- The items of an array, from the first separator on. -/
theorem dumpsItemsWith_cons (v w : Json) (rest : List Json) : dumpsItemsWith gap (v :: w :: rest)
    = dumpsWith gap v ++ 0x2c :: (gap ++ dumpsItemsWith gap (w :: rest)) := by
  rw [dumpsItemsWith, lit_comma]
  · simp
  · simp

/-- The members of an object, from the first separator on. -/
theorem dumpsMembersWith_cons (k : Text) (v : Json) (p : Text × Json) (rest : Object) :
    dumpsMembersWith gap ((k, v) :: p :: rest)
      = quote k ++ 0x3a
      :: (gap ++ (dumpsWith gap v ++ 0x2c :: (gap ++ dumpsMembersWith gap (p :: rest)))) := by
  rw [dumpsMembersWith, lit_comma, lit_colon]
  · simp
  · simp

/-- The last member of an object has no separator behind it. -/
theorem dumpsMembersWith_single (k : Text) (v : Json) :
    dumpsMembersWith gap [(k, v)] = quote k ++ 0x3a :: (gap ++ dumpsWith gap v) := by
  rw [dumpsMembersWith, lit_colon]
  simp

/-- A character that is no blank is not skipped. -/
theorem skipSpace_mark {c : CodePoint} (hc : isJsonSpace c = false) (rest : Text) :
    skipSpace (c :: rest) = c :: rest := by
  rw [skipSpace, List.dropWhile_cons_of_neg (by simp [hc])]

/-- A text that begins with a value begins with no blank. -/
theorem skipSpace_of_scanValue {t : Text} {p : Json × Text} {fuel : ℕ}
    (h : scanValue hook fuel t = some p) :
    skipSpace t = t := by
  obtain ⟨c, rest, rfl, hc, -⟩ := scanValue_head h
  exact skipSpace_mark hc rest

/-! What the scanner does behind each opening mark. -/

/-- Behind a quote a string is read. -/
theorem scanValue_quote (fuel : ℕ) (rest : Text) : scanValue hook (fuel + 1) (0x22 :: rest)
    = (scanString (rest.length + 1) rest).map fun p => (.str p.1, p.2) := rfl

/-- Two brackets are the empty array. -/
theorem scanValue_brackets (fuel : ℕ) (rest : Text) :
    scanValue hook (fuel + 1) (0x5b :: 0x5d :: rest) = some (.arr [], rest) := rfl

/-- Items begin with neither a blank nor a closing bracket. -/
theorem scanItems_head {fuel : ℕ} {t : Text} {p : List Json × Text}
    (h : scanItems hook fuel t = some p) :
    ∃ c rest, t = c :: rest ∧ isJsonSpace c = false ∧ c.val ≠ 0x5d := by
  rcases fuel with _ | fuel
  · cases h
  · rw [scanItems] at h
    split at h
    · cases h
    · next hv => exact scanValue_head hv

/-- A bracket in front of items begins an array of them. -/
theorem scanValue_items {fuel : ℕ} {t : Text} {p : List Json × Text}
    (h : scanItems hook fuel t = some p) :
    scanValue hook (fuel + 1) (0x5b :: t) = some (.arr p.1, p.2) := by
  obtain ⟨c, rest, rfl, hspace, hc⟩ := scanItems_head h
  have hskip := skipSpace_mark hspace rest
  have hmark : ¬ (0x5b : CodePoint).val = 0x22 ∧ ¬ (0x5b : CodePoint).val = 0x7b
      ∧ (0x5b : CodePoint).val = 0x5b := by
    decide
  rw [scanValue, if_neg hmark.1, if_neg hmark.2.1, if_pos hmark.2.2, hskip, expect, if_neg hc]
  simp only
  rw [h]
  rfl

/-- Two braces are the object without members. -/
theorem scanValue_braces (fuel : ℕ) (rest : Text) :
    scanValue hook (fuel + 1) (0x7b :: 0x7d :: rest) = (hook []).map fun v => (v, rest) := rfl

/-- Members begin with the quote of a key. -/
theorem scanMembers_head {fuel : ℕ} {t : Text} {p : Object × Text}
    (h : scanMembers hook fuel t = some p) :
    ∃ rest, t = 0x22 :: rest := by
  rcases fuel with _ | fuel
  · cases h
  · rcases t with _ | ⟨c, t⟩
    · cases h
    · refine ⟨t, ?_⟩
      rw [scanMembers, expect] at h
      by_cases hc : c.val = 0x22
      · have hq : c = 0x22 := Fin.ext hc
        rw [hq]
      · rw [if_neg hc] at h
        cases h

/-- A brace in front of members begins an object of them. -/
theorem scanValue_members {fuel : ℕ} {t : Text} {p : Object × Text}
    (h : scanMembers hook fuel t = some p) :
    scanValue hook (fuel + 1) (0x7b :: t) = (hook p.1).map fun v => (v, p.2) := by
  obtain ⟨rest, rfl⟩ := scanMembers_head h
  have hskip : skipSpace (0x22 :: rest) = 0x22 :: rest := skipSpace_mark (by decide) rest
  have hmark : ¬ (0x7b : CodePoint).val = 0x22 ∧ (0x7b : CodePoint).val = 0x7b
      ∧ ¬ (0x22 : CodePoint).val = 0x7d := by
    decide
  rw [scanValue, if_neg hmark.1, if_pos hmark.2.1, hskip, expect, if_neg hmark.2.2]
  simp only
  rw [h]
  rfl

/-- An item before the closing bracket, and one before a comma. -/
theorem scanItems_last {fuel : ℕ} {t rest : Text} {v : Json}
    (h : scanValue hook fuel t = some (v, 0x5d :: rest)) :
    scanItems hook (fuel + 1) t = some ([v], rest) := by
  rw [scanItems, h]
  rfl

/-- A value and a comma in front of items begin a longer list of items. -/
theorem scanItems_comma {fuel : ℕ} {t more rest : Text} {v : Json} {items : List Json}
    (h : scanValue hook fuel t = some (v, 0x2c :: more))
    (hmore : scanItems hook fuel (skipSpace more) = some (items, rest)) :
    scanItems hook (fuel + 1) t = some (v :: items, rest) := by
  rw [scanItems, h]
  have hclose : expect 0x5d (skipSpace (0x2c :: more)) = none := rfl
  have hcomma : expect 0x2c (skipSpace (0x2c :: more)) = some more := rfl
  simp only
  rw [hclose, hcomma]
  simp only
  rw [hmore]
  rfl

/-- A key and its value in front of the closing brace are the last member. -/
theorem scanMembers_last {fuel : ℕ} {k t named rest : Text} {v : Json}
    (hk : scanString (t.length + 1) t = some (k, 0x3a :: named))
    (h : scanValue hook fuel (skipSpace named) = some (v, 0x7d :: rest)) :
    scanMembers hook (fuel + 1) (0x22 :: t) = some ([(k, v)], rest) := by
  have hquote : expect 0x22 (0x22 :: t) = some t := rfl
  have hcolon : expect 0x3a (skipSpace (0x3a :: named)) = some named := rfl
  rw [scanMembers, hquote]
  simp only
  rw [hk]
  simp only
  rw [hcolon]
  simp only
  rw [h]
  rfl

/-- A key, its value and a comma in front of members begin a longer list of members. -/
theorem scanMembers_comma {fuel : ℕ} {k t named more rest : Text} {v : Json} {members : Object}
    (hk : scanString (t.length + 1) t = some (k, 0x3a :: named))
    (h : scanValue hook fuel (skipSpace named) = some (v, 0x2c :: more))
    (hmore : scanMembers hook fuel (skipSpace more) = some (members, rest)) :
    scanMembers hook (fuel + 1) (0x22 :: t) = some ((k, v) :: members, rest) := by
  have hquote : expect 0x22 (0x22 :: t) = some t := rfl
  have hcolon : expect 0x3a (skipSpace (0x3a :: named)) = some named := rfl
  have hclose : expect 0x7d (skipSpace (0x2c :: more)) = none := rfl
  have hcomma : expect 0x2c (skipSpace (0x2c :: more)) = some more := rfl
  rw [scanMembers, hquote]
  simp only
  rw [hk]
  simp only
  rw [hcolon]
  simp only
  rw [h]
  simp only
  rw [hclose, hcomma]
  simp only
  rw [hmore]
  rfl

include hread

/-- The gap in front of a value is skipped, and nothing more. -/
theorem skipSpace_gap_value {t : Text} {p : Json × Text} {fuel : ℕ}
    (h : scanValue hook fuel t = some p) :
    skipSpace (gap ++ t) = t := by
  obtain ⟨c, rest, rfl, hc, -⟩ := scanValue_head h
  refine skipSpace_append hread.gap fun d hd => ?_
  obtain rfl := Option.some.inj hd
  exact hc

/-- The gap in front of items is skipped, and nothing more. -/
theorem skipSpace_gap_items {t : Text} {p : List Json × Text} {fuel : ℕ}
    (h : scanItems hook fuel t = some p) :
    skipSpace (gap ++ t) = t := by
  obtain ⟨c, rest, rfl, hc, -⟩ := scanItems_head h
  refine skipSpace_append hread.gap fun d hd => ?_
  obtain rfl := Option.some.inj hd
  exact hc

/-- The gap in front of members is skipped, and nothing more. -/
theorem skipSpace_gap_members {t : Text} {p : Object × Text} {fuel : ℕ}
    (h : scanMembers hook fuel t = some p) :
    skipSpace (gap ++ t) = t := by
  obtain ⟨rest, rfl⟩ := scanMembers_head h
  refine skipSpace_append hread.gap fun d hd => ?_
  obtain rfl := Option.some.inj hd
  rfl

mutual

/-- **A value reads back.** The bound is on the length of its text: one step for every token and one
for every item. -/
theorem scanValue_dumpsWith : (v : Json) → Denotable v → ∀ (rest : Text), Stops rest →
    ∀ fuel, 2 * (dumpsWith gap v).length + 1 ≤ fuel →
      scanValue hook fuel (dumpsWith gap v ++ rest) = some (v, rest)
  | .null, _, rest, _, fuel, hfuel =>
      scanValue_constant (p := (lit "null", .null)) (by simp [constants]) rest (by omega)
  | .bool true, _, rest, _, fuel, hfuel =>
      scanValue_constant (p := (lit "true", .bool true)) (by simp [constants]) rest (by omega)
  | .bool false, _, rest, _, fuel, hfuel =>
      scanValue_constant (p := (lit "false", .bool false)) (by simp [constants]) rest (by omega)
  | .int n, hv, rest, hrest, fuel, hfuel => scanValue_number (scanNumber_decimalInt hv hrest)
    (by omega)
  | .float f, hv, rest, hrest, fuel, hfuel => scanValue_floatRepr hv hrest (by omega)
  | .str t, hv, rest, _, fuel, hfuel => by
      obtain ⟨fuel, rfl⟩ : ∃ f, fuel = f + 1 := ⟨fuel - 1, by omega⟩
      rw [dumpsWith, quote_append, scanValue_quote, scanString_quoted hv rest]
      rfl
  | .arr items, hv, rest, _, fuel, hfuel => by
      have hopen : lit "[" = [0x5b] := by decide
      have hclose : lit "]" = [0x5d] := by decide
      obtain ⟨fuel, rfl⟩ : ∃ f, fuel = f + 1 := ⟨fuel - 1, by omega⟩
      rw [dumpsWith, hopen, hclose] at hfuel ⊢
      simp only [List.length_append, List.length_singleton] at hfuel
      have htext : [0x5b] ++ dumpsItemsWith gap items ++ [0x5d] ++ rest
          = 0x5b :: (dumpsItemsWith gap items ++ 0x5d :: rest) := by simp
      rw [htext]
      rcases hitems : items with _ | ⟨w, more⟩
      · exact scanValue_brackets fuel rest
      · rw [← hitems]
        have h := scanItems_dumpsWith items (by rw [hitems]; exact List.cons_ne_nil _ _) hv rest
          fuel (by omega)
        exact scanValue_items h
  | .obj members, hv, rest, _, fuel, hfuel => by
      have hopen : lit "\x7b" = [0x7b] := by decide
      have hclose : lit "\x7d" = [0x7d] := by decide
      obtain ⟨fuel, rfl⟩ : ∃ f, fuel = f + 1 := ⟨fuel - 1, by omega⟩
      rw [dumpsWith, hopen, hclose] at hfuel ⊢
      simp only [List.length_append, List.length_singleton] at hfuel
      have htext : [0x7b] ++ dumpsMembersWith gap members ++ [0x7d] ++ rest
          = 0x7b :: (dumpsMembersWith gap members ++ 0x7d :: rest) := by simp
      rw [htext]
      rcases hmembers : members with _ | ⟨w, more⟩
      · refine (scanValue_braces fuel rest).trans ?_
        rw [hread.hook [] List.nodup_nil]
        rfl
      · rw [← hmembers]
        have h :=
          scanMembers_dumpsWith members (by rw [hmembers]; exact List.cons_ne_nil _ _)
          hv.2 rest fuel
          (by omega)
        rw [scanValue_members h, hread.hook members hv.1]
        rfl

/-- The items that were written are read back. -/
theorem scanItems_dumpsWith : (items : List Json) → items ≠ [] → DenotableItems items →
    ∀ (rest : Text)
    (fuel : ℕ), 2 * (dumpsItemsWith gap items).length + 2 ≤ fuel →
      scanItems hook fuel (dumpsItemsWith gap items ++ 0x5d :: rest) = some (items, rest)
  | [], hne, _, _, _, _ => absurd rfl hne
  | [v], _, hv, rest, fuel, hfuel => by
      obtain ⟨fuel, rfl⟩ : ∃ f, fuel = f + 1 := ⟨fuel - 1, by omega⟩
      rw [dumpsItemsWith] at hfuel ⊢
      exact scanItems_last (scanValue_dumpsWith v hv.1 _ (stops_mark (c := 0x5d) rest (by decide))
        fuel (by omega))
  | v :: w :: more, _, hv, rest, fuel, hfuel => by
      obtain ⟨fuel, rfl⟩ : ∃ f, fuel = f + 1 := ⟨fuel - 1, by omega⟩
      rw [dumpsItemsWith_cons] at hfuel ⊢
      simp only [List.length_append, List.length_cons] at hfuel
      have hmore := scanItems_dumpsWith (w :: more) (List.cons_ne_nil _ _) hv.2 rest fuel (by omega)
      have h :=
        scanValue_dumpsWith v hv.1
        (0x2c :: (gap ++ (dumpsItemsWith gap (w :: more) ++ 0x5d :: rest)))
        (stops_mark _ (by decide)) fuel (by omega)
      have htext : dumpsWith gap v ++ 0x2c :: (gap ++ dumpsItemsWith gap (w :: more))
        ++ 0x5d :: rest
          = dumpsWith gap v ++ 0x2c
          :: (gap ++ (dumpsItemsWith gap (w :: more) ++ 0x5d :: rest)) := by simp
      rw [htext]
      refine scanItems_comma h ?_
      rw [skipSpace_gap_items hread hmore]
      exact hmore

/-- The members that were written are read back. -/
theorem scanMembers_dumpsWith : (members : List (Text × Json)) → members ≠ [] →
    DenotableMembers members →
    ∀ (rest : Text) (fuel : ℕ), 2 * (dumpsMembersWith gap members).length + 2 ≤ fuel →
      scanMembers hook fuel (dumpsMembersWith gap members ++ 0x7d :: rest) = some (members, rest)
  | [], hne, _, _, _, _ => absurd rfl hne
  | [(k, v)], _, hv, rest, fuel, hfuel => by
      obtain ⟨fuel, rfl⟩ : ∃ f, fuel = f + 1 := ⟨fuel - 1, by omega⟩
      rw [dumpsMembersWith_single] at hfuel ⊢
      simp only [List.length_append, List.length_cons] at hfuel
      have h :=
        scanValue_dumpsWith v hv.2.1 _ (stops_mark (c := 0x7d) rest (by decide)) fuel (by omega)
      have htext : quote k ++ 0x3a :: (gap ++ dumpsWith gap v) ++ 0x7d :: rest
          = quote k ++ 0x3a :: (gap ++ (dumpsWith gap v ++ 0x7d :: rest)) := by simp
      rw [htext, quote_append]
      refine scanMembers_last (scanString_quoted hv.1 _) ?_
      rw [skipSpace_gap_value hread h]
      exact h
  | (k, v) :: p :: more, _, hv, rest, fuel, hfuel => by
      obtain ⟨fuel, rfl⟩ : ∃ f, fuel = f + 1 := ⟨fuel - 1, by omega⟩
      rw [dumpsMembersWith_cons] at hfuel ⊢
      simp only [List.length_append, List.length_cons] at hfuel
      have hmore :=
        scanMembers_dumpsWith (p :: more) (List.cons_ne_nil _ _) hv.2.2 rest fuel (by omega)
      have h :=
        scanValue_dumpsWith v hv.2.1
        (0x2c :: (gap ++ (dumpsMembersWith gap (p :: more) ++ 0x7d :: rest)))
        (stops_mark _ (by decide)) fuel (by omega)
      have htext :
        quote k ++ 0x3a
        :: (gap ++ (dumpsWith gap v ++ 0x2c :: (gap ++ dumpsMembersWith gap (p :: more))))
            ++ 0x7d :: rest
          = quote k ++ 0x3a :: (gap ++ (dumpsWith gap v
            ++ 0x2c :: (gap ++ (dumpsMembersWith gap (p :: more) ++ 0x7d :: rest)))) := by simp
      rw [htext, quote_append]
      have hvalue : scanValue hook fuel (skipSpace (gap ++ (dumpsWith gap v
          ++ 0x2c :: (gap ++ (dumpsMembersWith gap (p :: more) ++ 0x7d :: rest)))))
          = some (v, 0x2c :: (gap ++ (dumpsMembersWith gap (p :: more) ++ 0x7d :: rest))) := by
        rw [skipSpace_gap_value hread h]
        exact h
      refine scanMembers_comma (scanString_quoted hv.1 _) hvalue ?_
      rw [skipSpace_gap_members hread hmore]
      exact hmore

end

/-- **A whole text reads back.** -/
theorem loads_dumpsWith {v : Json} (hv : Denotable v) : loads hook (dumpsWith gap v) = some v := by
  have h := scanValue_dumpsWith hread v hv [] (fun c hc => by cases hc)
    (2 * (dumpsWith gap v).length + 1) le_rfl
  rw [List.append_nil] at h
  unfold loads rawDecode
  rw [skipSpace_of_scanValue h, h]
  rfl

end roundTrip

end Py
