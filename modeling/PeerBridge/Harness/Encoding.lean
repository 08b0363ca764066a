import PeerBridge.Runtime.Base64
import PeerBridge.Runtime.Text

/-!
# The harness's base64url

The secret of the harness and the parts of its session cookie are unpadded base64url. The standard
library's functions are the ones of `Base64` over the standard alphabet with two symbols translated;
the decoder of the standard library is lenient, and the strictness is the module's own: it refuses
foreign symbols and a stray last symbol before it decodes, and compares what it decoded with what it
was given.

* `b64urlEncode_eq`: the encoding is the symbols of the values, nothing else;
* `b64url_strict`: the decoder accepts exactly the encodings.

Source: `dsh_delivery.py`, `b64url_encode`, `b64url_decode`.
-/

namespace PeerBridge.Harness

open Py Base64

/-! ## The standard library's base64 -/

/-- The standard alphabet. -/
def stdSymbols : Text := lit "ABCDEFGHIJKLMNOPQRSTUVWXYZabcdefghijklmnopqrstuvwxyz0123456789+/"

/-- A symbol is found where it stands. -/
theorem stdSymbols_idxOf : ∀ v < 64, stdSymbols.idxOf (stdSymbols.getD v 0) = v := by decide +kernel

/-- There are sixty-four symbols. -/
theorem stdSymbols_length : stdSymbols.length = 64 := by decide

/-- RFC 4648 base64. -/
def standard : Alphabet CodePoint where
  char v := stdSymbols.getD v 0
  value c := if stdSymbols.idxOf c < 64 then some (stdSymbols.idxOf c) else none
  pad := 0x3d
  value_char v hv := by
    rw [stdSymbols_idxOf v hv, if_pos hv]
  char_value c v h := by
    split at h
    · next hlt =>
      obtain rfl := Option.some.inj h
      refine ⟨?_, hlt⟩
      have hlen : stdSymbols.idxOf c < stdSymbols.length := by rw [stdSymbols_length]; exact hlt
      rw [List.getD_eq_getElem _ _ hlen]
      exact List.getElem_idxOf hlen
    · cases h
  value_pad := by decide

/-- Source: `base64.urlsafe_b64encode`, its translation -/
def toUrlsafe (c : CodePoint) : CodePoint := if c = 0x2b then 0x2d else if c = 0x2f then 0x5f else c

/-- Source: `base64.urlsafe_b64decode`, its translation -/
def fromUrlsafe (c : CodePoint) : CodePoint :=
  if c = 0x2d then 0x2b else if c = 0x5f then 0x2f else c

/-- Source: `base64.urlsafe_b64encode` -/
def urlsafeB64encode (raw : List UInt8) : Text := (encode standard raw).map toUrlsafe

/-- `none` where the function raises. Source: `base64.urlsafe_b64decode` -/
def urlsafeB64decode (text : Text) : Option (List UInt8) :=
  if text.all fun c => c.val < 0x80 then decode standard (text.map fromUrlsafe) else none

/-! ## Strict unpadded base64url -/

/-- Source: `b64url_encode` -/
def b64urlEncode (raw : List UInt8) : Text := (urlsafeB64encode raw).rdropWhile (· = 0x3d)

/-- The symbols the decoder accepts. -/
def urlSymbols : Text := lit "ABCDEFGHIJKLMNOPQRSTUVWXYZabcdefghijklmnopqrstuvwxyz0123456789-_"

/-- Source: `b64url_decode`, for a text -/
def b64urlDecode (text : Text) : Option (List UInt8) :=
  if text = [] then some []
  else if text.any fun c => c ∉ urlSymbols then none
  else if text.length % 4 = 1 then none
  else
    let padded := text ++ List.replicate ((4 - text.length % 4) % 4) 0x3d
    match urlsafeB64decode padded with
    | none => none
    | some raw => if b64urlEncode raw = text then some raw else none

/-- The symbol of a value. -/
def urlChar (v : ℕ) : CodePoint := toUrlsafe (standard.char v)

/-- What the URL-safe symbol of a sextet is: no padding, ASCII, and translated to the standard one.
-/
theorem urlChar_spec : ∀ v < 64, urlChar v ≠ 0x3d ∧ (urlChar v).val < 0x80 ∧
    fromUrlsafe (urlChar v) = standard.char v ∧ urlChar v ∈ urlSymbols
    ∧ urlSymbols.idxOf (urlChar v) = v := by
  decide +kernel

/-- An accepted symbol is the symbol of a value. -/
theorem urlChar_idxOf {c : CodePoint} (hc : c ∈ urlSymbols) :
    urlSymbols.idxOf c < 64 ∧ urlChar (urlSymbols.idxOf c) = c := by
  have hall : urlSymbols = (List.range 64).map urlChar := by decide +kernel
  rw [hall] at hc
  obtain ⟨v, hv, rfl⟩ := List.mem_map.mp hc
  have hlt := List.mem_range.mp hv
  rw [(urlChar_spec v hlt).2.2.2.2]
  exact ⟨hlt, rfl⟩

/-- The encoding is the symbols of the values. -/
theorem b64urlEncode_eq (raw : List UInt8) : b64urlEncode raw = (sextets raw).map urlChar := by
  have hpad : toUrlsafe standard.pad = 0x3d := by decide
  have hmap : (sextets raw).map (toUrlsafe ∘ standard.char) = (sextets raw).map urlChar := rfl
  unfold b64urlEncode urlsafeB64encode encode
  rw [List.map_append, List.map_map, hmap, List.map_replicate, hpad]
  induction padding (sextets raw).length with
  | zero =>
    rw [List.replicate_zero, List.append_nil, List.rdropWhile_eq_self_iff]
    intro hne
    obtain ⟨v, hv, he⟩ := List.mem_map.mp (List.getLast_mem hne)
    rw [← he]
    simpa using (urlChar_spec v (sextets_lt raw v hv)).1
  | succ n ih =>
    rw [List.replicate_succ', ← List.append_assoc, List.rdropWhile_concat_pos _ _ _ (by decide), ih]

/-- Padding puts back what stripping removed. -/
theorem padded_encode (raw : List UInt8) : ((b64urlEncode raw) ++
    List.replicate ((4 - (b64urlEncode raw).length % 4) % 4) 0x3d).map fromUrlsafe
      = encode standard raw := by
  have hpad : fromUrlsafe 0x3d = standard.pad := by decide
  rw [b64urlEncode_eq, List.map_append, List.map_map, List.length_map, List.map_replicate, hpad]
  refine congrArg₂ _ (List.map_congr_left fun v hv => ?_) rfl
  exact (urlChar_spec v (sextets_lt raw v hv)).2.2.1

/-- Decoding inverts encoding. -/
theorem b64urlDecode_encode (raw : List UInt8) : b64urlDecode (b64urlEncode raw) = some raw := by
  have hsym : ∀ c ∈ b64urlEncode raw, c ∈ urlSymbols ∧ c.val < 0x80 := by
    intro c hc
    rw [b64urlEncode_eq] at hc
    obtain ⟨v, hv, rfl⟩ := List.mem_map.mp hc
    have hspec := urlChar_spec v (sextets_lt raw v hv)
    exact ⟨hspec.2.2.2.1, hspec.2.1⟩
  have hlen : (b64urlEncode raw).length % 4 ≠ 1 := by
    rw [b64urlEncode_eq, List.length_map]
    exact length_sextets_mod raw
  unfold b64urlDecode
  split
  · next hnil =>
    rw [b64urlEncode_eq, List.map_eq_nil_iff] at hnil
    rcases raw with _ | ⟨a, _ | ⟨b, _ | ⟨c, rest⟩⟩⟩
    · rfl
    · cases hnil
    · cases hnil
    · cases hnil
  · have hforeign : ¬ (b64urlEncode raw).any (fun c => decide (c ∉ urlSymbols)) = true := by
      simp only [List.any_eq_true, decide_eq_true_eq, not_exists, not_and, not_not]
      exact fun c hc => (hsym c hc).1
    have hascii :
      ((b64urlEncode raw) ++ List.replicate ((4 - (b64urlEncode raw).length % 4) % 4) 0x3d).all
        (fun c => decide (c.val < 0x80)) = true := by
      rw [List.all_eq_true]
      intro c hc
      rcases List.mem_append.mp hc with hc | hc
      · simpa using (hsym c hc).2
      · rw [(List.mem_replicate.mp hc).2]
        decide
    rw [if_neg hforeign]
    dsimp only [urlsafeB64decode]
    rw [if_pos hascii, padded_encode, decode_encode]
    simp

/-- What is decoded encodes to the text. -/
theorem b64urlDecode_eq_some {text : Text} {raw : List UInt8} :
    b64urlDecode text = some raw ↔ text = b64urlEncode raw := by
  constructor
  · intro h
    unfold b64urlDecode at h
    split at h
    · next hnil =>
      obtain rfl := Option.some.inj h
      rw [hnil, b64urlEncode_eq]
      rfl
    · split at h
      · cases h
      · split at h
        · cases h
        · dsimp only at h
          split at h
          · cases h
          · split at h
            · next heq =>
              obtain rfl := Option.some.inj h
              exact heq.symm
            · cases h
  · rintro rfl
    exact b64urlDecode_encode raw

/-! ## What is accepted -/

/-- A text in canonical form: accepted symbols only, no padding among them, no stray last symbol,
and no bits left over. -/
structure CanonicalText (text : Text) : Prop where
  symbols : ∀ c ∈ text, c ∈ urlSymbols
  length : text.length % 4 ≠ 1
  bits : ∀ c ∈ text.getLast?, (text.length % 4 = 2 → urlSymbols.idxOf c % 16 = 0) ∧
    (text.length % 4 = 3 → urlSymbols.idxOf c % 4 = 0)

/-- The values of an accepted text. -/
theorem canonicalText_iff {text : Text} (hsym : ∀ c ∈ text, c ∈ urlSymbols) :
    CanonicalText text ↔ Canonical (text.map urlSymbols.idxOf) := by
  have hlast (p : ℕ → Prop) : (∀ v ∈ (text.map urlSymbols.idxOf).getLast?, p v)
      ↔ ∀ c ∈ text.getLast?, p (urlSymbols.idxOf c) := by
    rw [List.getLast?_map]
    simp
  unfold Canonical
  rw [List.length_map, hlast]
  exact ⟨fun h => ⟨h.length, h.bits⟩, fun h => ⟨hsym, h.1, h.2⟩⟩

/-- The canonical texts are the encodings. -/
theorem canonicalText_iff_exists {text : Text} :
    CanonicalText text ↔ ∃ raw, text = b64urlEncode raw := by
  constructor
  · intro h
    have hback : (text.map urlSymbols.idxOf).map urlChar = text := by
      rw [List.map_map]
      conv_rhs => rw [← List.map_id text]
      exact List.map_congr_left fun c hc => (urlChar_idxOf (h.symbols c hc)).2
    have hlt : ∀ v ∈ text.map urlSymbols.idxOf, v < 64 := by
      intro v hv
      obtain ⟨c, hc, rfl⟩ := List.mem_map.mp hv
      exact (urlChar_idxOf (h.symbols c hc)).1
    obtain ⟨raw, hraw⟩ := exists_sextets _ hlt ((canonicalText_iff h.symbols).mp h)
    exact ⟨raw, by rw [b64urlEncode_eq, hraw, hback]⟩
  · rintro ⟨raw, rfl⟩
    rw [b64urlEncode_eq]
    have hlt := sextets_lt raw
    have hsym : ∀ c ∈ (sextets raw).map urlChar, c ∈ urlSymbols := by
      intro c hc
      obtain ⟨v, hv, rfl⟩ := List.mem_map.mp hc
      exact (urlChar_spec v (hlt v hv)).2.2.2.1
    rw [canonicalText_iff hsym, List.map_map]
    have hid : (sextets raw).map (urlSymbols.idxOf ∘ urlChar) = sextets raw := by
      conv_rhs => rw [← List.map_id (sextets raw)]
      exact List.map_congr_left fun v hv => (urlChar_spec v (hlt v hv)).2.2.2.2
    rw [hid]
    exact canonical_sextets raw

/-- **The decoder is strict.** It inverts the encoder, what it returns encodes to exactly the text
it was given, and it returns something for the canonical texts only: a foreign symbol, padding, a
length of one above a multiple of four and bits left over are all refused. -/
theorem b64url_strict (raw : List UInt8) (text : Text) :
    b64urlDecode (b64urlEncode raw) = some raw
      ∧ (b64urlDecode text = some raw ↔ text = b64urlEncode raw)
      ∧ ((b64urlDecode text).isSome = true ↔ CanonicalText text) := by
  refine ⟨b64urlDecode_encode raw, b64urlDecode_eq_some, ?_⟩
  rw [Option.isSome_iff_exists, canonicalText_iff_exists]
  exact exists_congr fun r => b64urlDecode_eq_some

/-- A refused text of each kind beside an accepted one. -/
example : b64urlDecode (lit "_-8") = some [0xff, 0xef] ∧ b64urlDecode (lit "_-9") = none
    ∧ b64urlDecode (lit "_-8=") = none ∧ b64urlDecode (lit "_-8_w") = none := by
  decide +kernel

end PeerBridge.Harness
