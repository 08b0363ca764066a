import Mathlib

/-!
# Base64 over an arbitrary alphabet

RFC 4648 groups three bytes into four values below 64. The encoder works on whole groups and writes
the values of a last short group followed by padding; the decoder is the one of the standard library
in its lenient mode: it walks over the symbols with the position in the group and the bits left
over, skips what is neither padding nor in the alphabet, and stops at the padding that completes a
group.

* `decode_encode`: decoding what was encoded gives the bytes back, with the padding in place;
* `exists_sextets`: values are those of some bytes exactly when their number and their last bits
  allow it.
-/

namespace Base64

/-! ## Values -/

/-- The values of a sequence of bytes, six bits each. -/
def sextets : List UInt8 → List ℕ
  | [] => []
  | [a] => [a.toNat / 4, a.toNat % 4 * 16]
  | [a, b] => [a.toNat / 4, a.toNat % 4 * 16 + b.toNat / 16, b.toNat % 16 * 4]
  | a :: b :: c :: rest =>
      a.toNat / 4 :: (a.toNat % 4 * 16 + b.toNat / 16) :: (b.toNat % 16 * 4 + c.toNat / 64)
        :: c.toNat % 64 :: sextets rest

/-- How many padding symbols complete a group. -/
def padding (n : ℕ) : ℕ := (4 - n % 4) % 4

/-- A sextet is below sixty-four. -/
theorem sextets_lt (bytes : List UInt8) : ∀ v ∈ sextets bytes, v < 64 := by
  induction bytes using sextets.induct with
  | case1 => simp [sextets]
  | case2 a =>
    have ha := a.toNat_lt
    simp only [sextets, List.mem_cons, List.not_mem_nil, or_false]
    rintro v (rfl | rfl) <;> omega
  | case3 a b =>
    have ha := a.toNat_lt
    have hb := b.toNat_lt
    simp only [sextets, List.mem_cons, List.not_mem_nil, or_false]
    rintro v (rfl | rfl | rfl) <;> omega
  | case4 a b c rest ih =>
    have ha := a.toNat_lt
    have hb := b.toNat_lt
    have hc := c.toNat_lt
    simp only [sextets, List.mem_cons]
    rintro v (rfl | rfl | rfl | rfl | hv)
    · omega
    · omega
    · omega
    · omega
    · exact ih v hv

/-- No group of a single sextet is left over. -/
theorem length_sextets_mod (bytes : List UInt8) : (sextets bytes).length % 4 ≠ 1 := by
  induction bytes using sextets.induct with
  | case1 => simp [sextets]
  | case2 a => simp [sextets]
  | case3 a b => simp [sextets]
  | case4 a b c rest ih =>
    simp only [sextets, List.length_cons]
    omega

/-! ## Texts -/

/-- Sixty-four symbols and a padding symbol apart from them. -/
structure Alphabet (α : Type) where
  char : ℕ → α
  value : α → Option ℕ
  pad : α
  value_char : ∀ v < 64, value (char v) = some v
  char_value : ∀ c v, value c = some v → char v = c ∧ v < 64
  value_pad : value pad = none

variable {α : Type} [DecidableEq α] (A : Alphabet α)

/-- The encoder: whole groups, the last one padded. -/
def encode (bytes : List UInt8) : List α :=
  (sextets bytes).map A.char ++ List.replicate (padding (sextets bytes).length) A.pad

/-- The decoder. `quad` is the position in the group, `left` the bits that no byte has taken, `pads`
the padding met since the last value. -/
def decodeFrom : List α → ℕ → ℕ → ℕ → Option (List UInt8)
  | [], quad, _, _ => if quad = 0 then some [] else none
  | c :: rest, quad, left, pads =>
      if c = A.pad then
        if quad < 2 then decodeFrom rest quad left pads
        else if 4 ≤ quad + (pads + 1) then some []
        else decodeFrom rest quad left (pads + 1)
      else match A.value c with
        | none => decodeFrom rest quad left pads
        | some v =>
            match quad with
            | 0 => decodeFrom rest 1 v 0
            | 1 => (decodeFrom rest 2 (v % 16) 0).map (.ofNat (left * 4 + v / 16) :: ·)
            | 2 => (decodeFrom rest 3 (v % 4) 0).map (.ofNat (left * 16 + v / 4) :: ·)
            | _ => (decodeFrom rest 0 0 0).map (.ofNat (left * 64 + v) :: ·)

/-- The bytes of a text, `none` where the last group is cut short. -/
def decode (text : List α) : Option (List UInt8) := decodeFrom A text 0 0 0

variable {A}

omit [DecidableEq α] in
/-- A symbol of the alphabet is not padding. -/
theorem char_ne_pad {v : ℕ} (hv : v < 64) : A.char v ≠ A.pad := by
  intro he
  have hval := A.value_char v hv
  rw [he, A.value_pad] at hval
  cases hval

section taken

variable {v : ℕ} (hv : v < 64) (rest : List α) (left pads : ℕ)

include hv

/-- The first character of a group is kept for the next one. -/
theorem decodeFrom_zero : decodeFrom A (A.char v :: rest) 0 left pads
    = decodeFrom A rest 1 v 0 := by
  rw [decodeFrom, if_neg (char_ne_pad hv), A.value_char v hv]
  rfl

/-- The second character of a group completes the first byte. -/
theorem decodeFrom_one : decodeFrom A (A.char v :: rest) 1 left pads
    = (decodeFrom A rest 2 (v % 16) 0).map (.ofNat (left * 4 + v / 16) :: ·) := by
  rw [decodeFrom, if_neg (char_ne_pad hv), A.value_char v hv]
  rfl

/-- The third character of a group completes the second byte. -/
theorem decodeFrom_two : decodeFrom A (A.char v :: rest) 2 left pads
    = (decodeFrom A rest 3 (v % 4) 0).map (.ofNat (left * 16 + v / 4) :: ·) := by
  rw [decodeFrom, if_neg (char_ne_pad hv), A.value_char v hv]
  rfl

/-- The fourth character of a group completes the third byte. -/
theorem decodeFrom_three : decodeFrom A (A.char v :: rest) 3 left pads
    = (decodeFrom A rest 0 0 0).map (.ofNat (left * 64 + v) :: ·) := by
  rw [decodeFrom, if_neg (char_ne_pad hv), A.value_char v hv]
  rfl

end taken

/-- Padding ends a group of two values or three. -/
theorem decodeFrom_padding {quad : ℕ} (left : ℕ) (hquad : quad = 2 ∨ quad = 3) :
    decodeFrom A (List.replicate (padding quad) A.pad) quad left 0 = some [] := by
  rcases hquad with rfl | rfl
  · simp [padding, decodeFrom]
  · simp [padding, decodeFrom]

/-- The bytes of a group are taken apart and put together again. -/
theorem ofNat_eq {b : UInt8} {n : ℕ} (h : n = b.toNat) : UInt8.ofNat n = b := by
  rw [h, UInt8.ofNat_toNat]

/-- **Decoding inverts encoding.** -/
theorem decode_encode (bytes : List UInt8) : decode A (encode A bytes) = some bytes := by
  unfold decode encode
  induction bytes using sextets.induct with
  | case1 => simp [sextets, padding, decodeFrom]
  | case2 a =>
    have ha := a.toNat_lt
    simp only [sextets, List.map_cons, List.map_nil, List.cons_append, List.nil_append]
    rw [decodeFrom_zero (by omega), decodeFrom_one (by omega)]
    have hpad := decodeFrom_padding (A := A) (a.toNat % 4 * 16 % 16) (.inl rfl)
    simp only [List.length_cons, List.length_nil]
    rw [hpad, Option.map_some, ofNat_eq (b := a) (by omega)]
  | case3 a b =>
    have ha := a.toNat_lt
    have hb := b.toNat_lt
    simp only [sextets, List.map_cons, List.map_nil, List.cons_append, List.nil_append]
    rw [decodeFrom_zero (by omega), decodeFrom_one (by omega), decodeFrom_two (by omega)]
    have hpad := decodeFrom_padding (A := A) (b.toNat % 16 * 4 % 4) (.inr rfl)
    simp only [List.length_cons, List.length_nil]
    rw [hpad, Option.map_some, Option.map_some, ofNat_eq (b := a) (by omega),
      ofNat_eq (b := b) (by omega)]
  | case4 a b c rest ih =>
    have ha := a.toNat_lt
    have hb := b.toNat_lt
    have hc := c.toNat_lt
    have hlen : padding (sextets (a :: b :: c :: rest)).length = padding (sextets rest).length := by
      simp only [sextets, List.length_cons, padding]
      omega
    rw [hlen]
    simp only [sextets, List.map_cons, List.cons_append]
    rw [decodeFrom_zero (by omega), decodeFrom_one (by omega), decodeFrom_two (by omega),
      decodeFrom_three (by omega), ih]
    simp only [Option.map_some]
    rw [ofNat_eq (b := a) (by omega), ofNat_eq (b := b) (by omega), ofNat_eq (b := c) (by omega)]

/-! ## Which values there are -/

/-- The bits of the last value that no byte takes are zero, and no value stands alone. -/
def Canonical (values : List ℕ) : Prop :=
  values.length % 4 ≠ 1 ∧
    ∀ v ∈ values.getLast?, (values.length % 4 = 2 → v % 16 = 0)
    ∧ (values.length % 4 = 3 → v % 4 = 0)

/-- The bits an encoding leaves over are zero. -/
theorem canonical_sextets (bytes : List UInt8) : Canonical (sextets bytes) := by
  refine ⟨length_sextets_mod bytes, ?_⟩
  induction bytes using sextets.induct with
  | case1 => simp [sextets]
  | case2 a => simp [sextets]
  | case3 a b => simp [sextets]
  | case4 a b c rest ih =>
    have hlen : (sextets (a :: b :: c :: rest)).length % 4 = (sextets rest).length % 4 := by
      simp only [sextets, List.length_cons]
      omega
    rw [hlen]
    intro v hv
    rcases hrest : sextets rest with _ | ⟨w, values⟩
    · simp
    · have hlast : (sextets (a :: b :: c :: rest)).getLast? = (sextets rest).getLast? := by
        simp only [sextets, hrest, List.getLast?_cons_cons]
      rw [hlast] at hv
      rw [← hrest]
      exact ih v hv

/-- Four values are those of three bytes. -/
theorem group_of_values {v w x y : ℕ} (hv : v < 64) (hw : w < 64) (hx : x < 64) (hy : y < 64)
    (rest : List UInt8) :
    sextets (.ofNat (v * 4 + w / 16) :: .ofNat (w % 16 * 16 + x / 4) :: .ofNat (x % 4 * 64 + y)
      :: rest)
      = v :: w :: x :: y :: sextets rest := by
  simp only [sextets, UInt8.toNat_ofNat', List.cons.injEq, and_true]
  omega

/-- **Canonical values are the values of some bytes.** -/
theorem exists_sextets : (values : List ℕ) → (∀ v ∈ values, v < 64) → Canonical values →
    ∃ bytes, sextets bytes = values
  | [], _, _ => ⟨[], rfl⟩
  | [_], _, h => absurd rfl h.1
  | [v, w], hlt, h => by
      have hv : v < 64 := hlt v (by simp)
      have hw : w < 64 := hlt w (by simp)
      have hz := (h.2 w rfl).1 rfl
      refine ⟨[.ofNat (v * 4 + w / 16)], ?_⟩
      simp only [sextets, UInt8.toNat_ofNat', List.cons.injEq, and_true]
      omega
  | [v, w, x], hlt, h => by
      have hv : v < 64 := hlt v (by simp)
      have hw : w < 64 := hlt w (by simp)
      have hx : x < 64 := hlt x (by simp)
      have hz := (h.2 x rfl).2 rfl
      refine ⟨[.ofNat (v * 4 + w / 16), .ofNat (w % 16 * 16 + x / 4)], ?_⟩
      simp only [sextets, UInt8.toNat_ofNat', List.cons.injEq, and_true]
      omega
  | v :: w :: x :: y :: rest, hlt, h => by
      have hlen : (v :: w :: x :: y :: rest).length % 4 = rest.length % 4 := by
        simp only [List.length_cons]
        omega
      have hrest : Canonical rest := by
        refine ⟨hlen ▸ h.1, fun u hu => ?_⟩
        rw [← hlen]
        refine h.2 u ?_
        rcases rest with _ | ⟨z, rest⟩
        · cases hu
        · simpa only [List.getLast?_cons_cons] using hu
      obtain ⟨bytes, hbytes⟩ := exists_sextets rest (fun u hu => hlt u (by simp [hu])) hrest
      refine ⟨_, (group_of_values (hlt v ?_) (hlt w ?_) (hlt x ?_) (hlt y ?_) bytes).trans ?_⟩
      · simp
      · simp
      · simp
      · simp
      · rw [hbytes]

end Base64
