import PeerBridge.Memory.Schema

/-!
# The frame of a reply

Both services answer a control request with one frame, the result under `ok`, and drop a reply that
does not encode within the limit. What follows measures such a frame: the lengths of lists and
objects from those of their parts, the widest numbers of the envelope, and the condition under which
a result is sent (`encode_okFrame`).

Source: `peer_transport.py`, `encode`; `memory.py`, `Service.handle`; `bridge.py`, `Bridge.handle`.
-/

namespace PeerBridge.Service

open Py
open PeerBridge.Memory (encode encodedLen lenEncode lenEncode_eq limit optSeq)

/-! ## Lists and objects -/

/-- Items take no more than their lengths and two characters each. -/
theorem length_dumpsItems_le (items : List Json) :
    (dumpsItems items).length ≤ (items.map fun v => dumpsLen v + 2).sum := by
  have hgap : (lit ", ").length = 2 := by decide
  induction items with
  | nil => exact le_rfl
  | cons v rest ih =>
    rcases rest with _ | ⟨w, rest⟩
    · simp [dumpsItems, dumpsLen]
    · simp only [dumpsItems, List.length_append, hgap, List.map_cons, List.sum_cons,
        dumpsLen] at ih ⊢
      omega

/-- A list takes its brackets, and for each item at most its separator. -/
theorem dumpsLen_arr_le (items : List Json) :
    dumpsLen (.arr items) ≤ 2 + (items.map fun v => dumpsLen v + 2).sum := by
  have hopen : (lit "[").length = 1 ∧ (lit "]").length = 1 := by decide
  have hitems := length_dumpsItems_le items
  simp only [dumpsLen, dumps, List.length_append, hopen.1, hopen.2] at hitems ⊢
  omega

/-- The length of an object whose keys are known. -/
theorem dumpsLen_obj_keys {m : Object} (keys : List Text) (n : ℕ) (hkeys : m.map Prod.fst = keys)
    (hn : membersOverhead (keys.map fun k => (k, .null)) = n) :
    dumpsLen (.obj m) = 2 + n + (m.map fun p => dumpsLen p.2).sum := by
  have hfst : m.map Prod.fst = (keys.map fun k => (k, Json.null)).map Prod.fst := by
    rw [hkeys, List.map_map]
    exact (List.map_id _).symm
  rw [dumpsLen_obj, membersOverhead_congr _ _ hfst, hn]

/-! ## Numbers -/

/-- The widest value of an `INTEGER` column that is not negative. -/
theorem decimalLen_column {n : ℕ} (h : n < 2 ^ 63) : decimalLen n ≤ 19 :=
  (decimalLen_le_iff (by decide)).mpr (h.trans (by decide))

/-- A 64-bit integer takes twenty characters at most. -/
theorem dumpsLen_int_le {n : ℤ} (hlow : -2 ^ 63 ≤ n) (hhigh : n < 2 ^ 63) :
    dumpsLen (.int n) ≤ 20 := by
  have habs : n.natAbs ≤ 2 ^ 63 := by omega
  have hdigits : decimalLen n.natAbs ≤ 19 :=
    (decimalLen_le_iff (by decide)).mpr (habs.trans_lt (by decide))
  have hsign : (lit "-").length = 1 := by decide
  simp only [dumpsLen, dumps, decimalInt]
  split
  · rw [List.length_append, length_decimal, hsign]
    omega
  · rw [length_decimal]
    omega

/-- A truth value takes five characters at most. -/
theorem dumpsLen_bool_le (b : Bool) : dumpsLen (.bool b) ≤ 5 := by
  cases b <;> decide

/-- A sequence, or none, takes nineteen characters at most. -/
theorem dumpsLen_optSeq_le {n : Option ℕ} (h : ∀ k, n = some k → k < 2 ^ 63) :
    dumpsLen (optSeq n) ≤ 19 := by
  rcases n with _ | k
  · exact le_of_eq_of_le dumpsLen_null (by decide)
  · rw [optSeq, dumpsLen_natCast]
    exact decimalLen_column (h k rfl)

/-! ## The frame -/

/-- `dict(ok=True, result=...)`. Source: `Service.handle`, `Bridge.handle` -/
def okFrame (result : Json) : Json := .obj [(lit "ok", .bool true), (lit "result", result)]

/-- The frame adds a constant to its result. -/
theorem encodedLen_okFrame (result : Json) :
    encodedLen (okFrame result) = dumpsLen result + 25 := by
  have htrue : dumpsLen (.bool true) = 4 := by decide
  rw [encodedLen, okFrame, dumpsLen_obj_keys [lit "ok", lit "result"] 18 rfl (by decide)]
  simp only [List.map_cons, List.map_nil, List.sum_cons, List.sum_nil, htrue]
  omega

/-- **A result that leaves room for its frame is sent.** -/
theorem encode_okFrame {result : Json} (h : dumpsLen result + 25 ≤ limit) :
    ∃ data, encode (okFrame result) = .ok data := by
  have hlen := lenEncode_eq (okFrame result)
  rw [encodedLen_okFrame, if_neg (not_lt.mpr h)] at hlen
  unfold lenEncode at hlen
  rcases henc : encode (okFrame result) with e | data
  · rw [henc] at hlen
    cases hlen
  · exact ⟨data, rfl⟩

end PeerBridge.Service
