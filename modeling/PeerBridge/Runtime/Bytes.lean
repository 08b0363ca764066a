import PeerBridge.Runtime.Decoder

/-!
# Texts as bytes

`encodeUtf8` is `text.encode()`. `decodeBytes` is what `json.loads` does to a `bytes` argument
before it scans: it guesses the encoding from a byte order mark or from where the zero bytes stand,
and decodes with `surrogatepass`, so that an encoded surrogate gives a surrogate back.

An ASCII text is its own encoding, byte for character, and a text that begins with two characters
other than NUL is taken for UTF-8 (`decodeBytes_ascii`); a file of the state directory is of this
kind.
-/

namespace Py

/-! ## Encoding -/

/-- The UTF-8 bytes of one character. -/
def utf8Bytes (c : CodePoint) : List UInt8 :=
  if c.val < 0x80 then [.ofNat c.val]
  else if c.val < 0x800 then [.ofNat (0xc0 + c.val / 0x40), .ofNat (0x80 + c.val % 0x40)]
  else if c.val < 0x10000 then
    [.ofNat (0xe0 + c.val / 0x1000), .ofNat (0x80 + c.val / 0x40 % 0x40),
      .ofNat (0x80 + c.val % 0x40)]
  else
    [.ofNat (0xf0 + c.val / 0x40000), .ofNat (0x80 + c.val / 0x1000 % 0x40),
      .ofNat (0x80 + c.val / 0x40 % 0x40),
      .ofNat (0x80 + c.val % 0x40)]

/-- `text.encode()`, `none` where a surrogate stops it. -/
def encodeUtf8 (t : Text) : Option (List UInt8) :=
  if encodable t then some (t.flatMap utf8Bytes) else none

/-! ## Decoding -/

/-- The low six bits of a continuation byte. -/
def continuation (b : UInt8) : Option ℕ :=
  if b.toNat / 0x40 = 2 then some (b.toNat % 0x40) else none

/-- UTF-8, surrogates passed: every character in its shortest form. -/
def decodeUtf8 : List UInt8 → Option Text
  | [] => some []
  | a :: rest =>
      if a.toNat < 0x80 then (decodeUtf8 rest).map (Fin.ofNat _ a.toNat :: ·)
      else
        match rest with
        | [] => none
        | b :: rest =>
            match continuation b with
            | none => none
            | some y =>
                if 0xc2 ≤ a.toNat ∧ a.toNat < 0xe0 then
                  (decodeUtf8 rest).map (Fin.ofNat _ (a.toNat % 0x20 * 0x40 + y) :: ·)
                else
                  match rest with
                  | [] => none
                  | c :: rest =>
                      match continuation c with
                      | none => none
                      | some z =>
                          if 0xe0 ≤ a.toNat ∧ a.toNat < 0xf0 ∧ 0x800 ≤ (a.toNat % 0x10 * 0x40 + y)
                            * 0x40 + z then
                            (decodeUtf8 rest).map (Fin.ofNat _ ((a.toNat % 0x10 * 0x40 + y) * 0x40
                              + z) :: ·)
                          else
                            match rest with
                            | [] => none
                            | d :: rest =>
                                match continuation d with
                                | none => none
                                | some w =>
                                    let n := ((a.toNat % 0x8 * 0x40 + y) * 0x40 + z) * 0x40 + w
                                    if 0xf0 ≤ a.toNat ∧ a.toNat < 0xf8 ∧ 0x10000 ≤ n
                                      ∧ n < 0x110000 then
                                      (decodeUtf8 rest).map (Fin.ofNat _ n :: ·)
                                    else none

/-- The number some bytes stand for, the first byte the lowest. -/
def littleEndian : List UInt8 → ℕ
  | [] => 0
  | b :: rest => b.toNat + 0x100 * littleEndian rest

/-- Code units of two or four bytes, `none` where the last one is cut short. -/
def codeUnits (width : ℕ) (bigEndian : Bool) (bytes : List UInt8) : Option (List ℕ) :=
  if bytes.length % width = 0 then
    some ((bytes.toChunks width).map fun u => littleEndian (if bigEndian then u.reverse else u))
  else none

/-- UTF-16 code units: surrogate pairs are joined, lone surrogates pass. -/
def joinUnits : List ℕ → Text
  | [] => []
  | [u] => [Fin.ofNat _ u]
  | u :: v :: rest =>
      if (0xd800 ≤ u ∧ u < 0xdc00) ∧ 0xdc00 ≤ v ∧ v < 0xe000 then joinSurrogates u v
        :: joinUnits rest
      else Fin.ofNat _ u :: joinUnits (v :: rest)

/-- The encodings of `json.detect_encoding`, byte order marks taken off. -/
inductive Encoding where
  | utf8
  | utf16 (bigEndian : Bool)
  | utf32 (bigEndian : Bool)

/-- The text of some bytes in a given encoding. -/
def Encoding.decode : Encoding → List UInt8 → Option Text
  | .utf8, bytes => decodeUtf8 bytes
  | .utf16 bigEndian, bytes => (codeUnits 2 bigEndian bytes).map joinUnits
  | .utf32 bigEndian, bytes =>
      (codeUnits 4 bigEndian bytes).bind fun us =>
        if us.all (· < 0x110000) then some (us.map (Fin.ofNat _)) else none

/-- The encoding that the zero bytes at the front tell. -/
def zeroEncoding : List UInt8 → Encoding
  | a :: b :: c :: d :: _ =>
      if a = 0 then (if b = 0 then .utf32 true else .utf16 true)
      else if b = 0 then (if c = 0 ∧ d = 0 then .utf32 false else .utf16 false)
      else .utf8
  | [a, b] => if a = 0 then .utf16 true else if b = 0 then .utf16 false else .utf8
  | _ => .utf8

/-- The byte order marks, the longer ones first. -/
def byteOrderMarks : List (List UInt8 × Encoding) :=
  [([0x00, 0x00, 0xfe, 0xff], .utf32 true), ([0xff, 0xfe, 0x00, 0x00], .utf32 false),
    ([0xfe, 0xff], .utf16 true), ([0xff, 0xfe], .utf16 false), ([0xef, 0xbb, 0xbf], .utf8)]

/-- The encoding and the bytes behind the byte order mark. Source: `json.detect_encoding` -/
def detectEncoding (bytes : List UInt8) : Encoding × List UInt8 :=
  match byteOrderMarks.find? fun m => m.1.isPrefixOf bytes with
  | some m => (m.2, bytes.drop m.1.length)
  | none => (zeroEncoding bytes, bytes)

/-- The text of a `bytes` argument of `json.loads`. -/
def decodeBytes (bytes : List UInt8) : Option Text :=
  (detectEncoding bytes).1.decode (detectEncoding bytes).2

/-! ## ASCII -/

/-- ASCII characters only. -/
def Ascii (t : Text) : Prop := ∀ c ∈ t, c.val < 0x80

/-- Two ASCII texts make one. -/
theorem Ascii.append {s t : Text} (hs : Ascii s) (ht : Ascii t) : Ascii (s ++ t) := by
  intro c hc
  rcases List.mem_append.mp hc with hc | hc
  · exact hs c hc
  · exact ht c hc

/-- An ASCII text can be encoded. -/
theorem encodable_of_ascii {t : Text} (h : Ascii t) : encodable t = true := by
  rw [encodable, List.all_eq_true]
  intro c hc
  have hlt := h c hc
  simp only [isSurrogate, Bool.not_eq_true', Bool.and_eq_false_iff, decide_eq_false_iff_not]
  omega

/-- An ASCII text is encoded byte for character. -/
theorem encodeUtf8_ascii {t : Text} (h : Ascii t) :
    encodeUtf8 t = some (t.map fun c => UInt8.ofNat c.val) := by
  rw [encodeUtf8, if_pos (encodable_of_ascii h)]
  congr 1
  induction t with
  | nil => rfl
  | cons c t ih =>
    have hc := h c List.mem_cons_self
    rw [List.flatMap_cons, utf8Bytes, if_pos hc, ih fun d hd => h d (List.mem_cons_of_mem _ hd)]
    rfl

/-- An ASCII character is its own byte. -/
theorem toNat_ofNat_ascii {c : CodePoint} (hc : c.val < 0x80) :
    (UInt8.ofNat c.val).toNat = c.val := by
  rw [UInt8.toNat_ofNat']
  omega

/-- The bytes of an ASCII text decode to it. -/
theorem decodeUtf8_ascii {t : Text} (h : Ascii t) :
    decodeUtf8 (t.map fun c => UInt8.ofNat c.val) = some t := by
  induction t with
  | nil => rfl
  | cons c t ih =>
    have hc := h c List.mem_cons_self
    rw [List.map_cons]
    unfold decodeUtf8
    simp only
    rw [toNat_ofNat_ascii hc, if_pos hc, ih fun d hd => h d (List.mem_cons_of_mem _ hd), ofNat_val]
    rfl

/-- **An ASCII text with no NUL at its front decodes to itself.** -/
theorem decodeBytes_ascii {a b : CodePoint} {t : Text} (h : Ascii (a :: b :: t)) (ha : a.val ≠ 0)
    (hb : b.val ≠ 0) :
    decodeBytes ((a :: b :: t).map fun c => UInt8.ofNat c.val) = some (a :: b :: t) := by
  have hlt : a.val < 0x80 ∧ b.val < 0x80 := ⟨h a (by simp), h b (by simp)⟩
  have hne : UInt8.ofNat a.val ≠ 0 ∧ UInt8.ofNat b.val ≠ 0 := by
    rw [← UInt8.toNat_inj.ne, ← UInt8.toNat_inj.ne, toNat_ofNat_ascii hlt.1,
      toNat_ofNat_ascii hlt.2]
    exact ⟨ha, hb⟩
  -- Every byte order mark begins with a byte that an ASCII character other than NUL does not have.
  have hmark :
      byteOrderMarks.find? (fun m => m.1.isPrefixOf ((a :: b :: t).map fun c => UInt8.ofNat c.val))
      = none := by
    have hheads : byteOrderMarks.all (fun m => m.1.head?.any fun x =>
        decide (x = 0 ∨ 0x80 ≤ x.toNat)) = true := by
      decide
    rw [List.find?_eq_none]
    intro m hm hfront
    obtain ⟨x, hx, hbad⟩ := Option.any_eq_true _ _ |>.mp (List.all_eq_true.mp hheads m hm)
    obtain ⟨back, hback⟩ := List.isPrefixOf_iff_prefix.mp hfront
    rcases hlist : m.1 with _ | ⟨y, rest⟩
    · rw [hlist] at hx
      cases hx
    · rw [hlist] at hx hback
      obtain rfl := Option.some.inj hx
      obtain ⟨rfl, -⟩ := List.cons.inj hback
      rcases of_decide_eq_true hbad with h0 | h0
      · exact hne.1 h0
      · rw [toNat_ofNat_ascii hlt.1] at h0
        omega
  have hzero : zeroEncoding ((a :: b :: t).map fun c => UInt8.ofNat c.val) = .utf8 := by
    rcases t with _ | ⟨c, _ | ⟨d, t⟩⟩
    · simp [zeroEncoding, hne]
    · rfl
    · simp [zeroEncoding, hne]
  rw [decodeBytes, detectEncoding, hmark]
  simp only
  rw [hzero]
  exact decodeUtf8_ascii h

end Py
