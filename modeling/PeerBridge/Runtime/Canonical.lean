import PeerBridge.Runtime.Bytes
import PeerBridge.Runtime.RoundTrip

/-!
# The canonical rendering

`json.dumps(value, sort_keys=True, separators=(",", ":"))` is `compact value`: the members of every
object in the order of their keys, and no gap. Python compares dictionaries without regard to order,
so sorting is no change of the value: `sorted_get` says that every key still leads to the same
member.

* `sorted_denotable`, `ascii_dumpsWith`: what sorting and rendering keep;
* `length_compact_obj`: the length of an object is the sum over its members, in any order;
* `loads_compact`: the rendering loads as the sorted value.
-/

namespace Py

/-! ## Sorting -/

/-- The order of keys, by code points. -/
def keyLE (a b : Text × Json) : Prop := a.1 ≤ b.1

instance decidableKeyLE : DecidableRel keyLE := fun a b => inferInstanceAs (Decidable (a.1 ≤ b.1))

instance totalKeyLE : Std.Total keyLE := ⟨fun a b => le_total a.1 b.1⟩

instance transKeyLE : IsTrans (Text × Json) keyLE := ⟨fun _ _ _ => le_trans⟩

mutual

/-- The members of every object in the order of their keys. -/
def Json.sorted : Json → Json
  | .arr items => .arr (sortedItems items)
  | .obj members => .obj ((sortedMembers members).insertionSort keyLE)
  | v => v

def sortedItems : List Json → List Json
  | [] => []
  | v :: rest => v.sorted :: sortedItems rest

def sortedMembers : List (Text × Json) → List (Text × Json)
  | [] => []
  | (k, v) :: rest => (k, v.sorted) :: sortedMembers rest

end

/-- `json.dumps(value, sort_keys=True, separators=(",", ":"))`. -/
def compact (v : Json) : Text := dumpsWith [] v.sorted

/-- Sorting the members sorts their values. -/
theorem sortedMembers_eq (m : Object) : sortedMembers m = m.map fun p => (p.1, p.2.sorted) := by
  induction m with
  | nil => rfl
  | cons p m ih => rw [sortedMembers, ih]; rfl

/-- Sorting the items sorts each of them. -/
theorem sortedItems_eq (items : List Json) : sortedItems items = items.map Json.sorted := by
  induction items with
  | nil => rfl
  | cons v items ih => rw [sortedItems, ih]; rfl

/-- The members of a sorted object are the sorted members, in another order. -/
theorem sorted_perm (m : Object) :
    ((sortedMembers m).insertionSort keyLE).Perm (m.map fun p => (p.1, p.2.sorted)) := by
  rw [← sortedMembers_eq]
  exact List.perm_insertionSort _ _

/-- Sorting the members only reorders their keys. -/
theorem sorted_keys_perm (m : Object) :
    (((sortedMembers m).insertionSort keyLE).map Prod.fst).Perm (m.map Prod.fst) := by
  have h := (sorted_perm m).map Prod.fst
  rwa [List.map_map] at h

section lookup

variable {m : Object} (hm : (m.map Prod.fst).Nodup)

include hm

/-- Without repeated keys a lookup finds the one member of the key. -/
theorem find?_key_eq_some {key : Text} {p : Text × Json} :
    (m.find? fun q => q.1 == key) = some p ↔ p ∈ m ∧ p.1 = key := by
  constructor
  · intro h
    have hkey := List.find?_some h
    exact ⟨List.mem_of_find?_eq_some h, eq_of_beq hkey⟩
  · rintro ⟨hp, rfl⟩
    obtain ⟨q, hfind⟩ : ∃ q, (m.find? fun q => q.1 == p.1) = some q := by
      rw [← Option.isSome_iff_exists, List.find?_isSome]
      exact ⟨p, hp, beq_self_eq_true p.1⟩
    have hq := List.mem_of_find?_eq_some hfind
    have hkey := List.find?_some hfind
    rw [hfind, List.inj_on_of_nodup_map hm hq hp (eq_of_beq hkey)]

/-- Nor does the order of the members matter. -/
theorem find?_key_perm {n : Object} (h : m.Perm n) (key : Text) :
    (m.find? fun q => q.1 == key) = n.find? fun q => q.1 == key := by
  have hn := (h.map Prod.fst).nodup_iff.mp hm
  refine Option.ext fun p => ?_
  rw [find?_key_eq_some hm, find?_key_eq_some hn, h.mem_iff]

/-- **Every key of a sorted object leads to its member, sorted.** -/
theorem sorted_getD (key : Text) (d : Json) :
    Object.getD ((sortedMembers m).insertionSort keyLE) key d.sorted
    = (Object.getD m key d).sorted := by
  have hkeys := (sorted_keys_perm m).nodup_iff.mpr hm
  have hmap : (m.map fun p => (p.1, p.2.sorted)).find? (fun q => q.1 == key)
      = (m.find? fun q => q.1 == key).map fun p => (p.1, p.2.sorted) := by
    rw [List.find?_map]
    rfl
  unfold Object.getD
  rw [find?_key_perm hkeys (sorted_perm m), hmap]
  generalize List.find? (fun q => q.1 == key) m = found
  rcases found with _ | p
  · rfl
  · rfl

end lookup

/-! ## Equal values -/

/-- Equal as Python values: dictionaries are compared without regard to order. -/
def Json.Same (a b : Json) : Prop := a.sorted = b.sorted

mutual

/-- Sorting twice is sorting once. -/
theorem sorted_sorted : (v : Json) → v.sorted.sorted = v.sorted
  | .null => rfl
  | .bool _ => rfl
  | .int _ => rfl
  | .float _ => rfl
  | .str _ => rfl
  | .arr items => by
      rw [Json.sorted, Json.sorted, sortedItems_sorted items]
  | .obj members => by
      have hmap : sortedMembers ((sortedMembers members).insertionSort keyLE)
          = (sortedMembers (sortedMembers members)).insertionSort keyLE := by
        rw [sortedMembers_eq, sortedMembers_eq (sortedMembers members)]
        exact List.map_insertionSort _ _ _ _ fun p _ q _ => Iff.rfl
      rw [Json.sorted, Json.sorted, hmap, sortedMembers_sorted members]
      congr 1
      exact (List.pairwise_insertionSort keyLE _).insertionSort_eq

/-- Sorted items stay as they are. -/
theorem sortedItems_sorted : (items : List Json) → sortedItems (sortedItems items)
    = sortedItems items
  | [] => rfl
  | v :: rest => by rw [sortedItems, sortedItems, sorted_sorted v, sortedItems_sorted rest]

/-- Members with sorted values stay as they are. -/
theorem sortedMembers_sorted : (m : List (Text × Json)) → sortedMembers (sortedMembers m)
    = sortedMembers m
  | [] => rfl
  | (k, v) :: rest => by
    rw [sortedMembers, sortedMembers, sorted_sorted v, sortedMembers_sorted rest]

end

/-- A value is the same as its sorted form. -/
theorem same_sorted (v : Json) : v.sorted.Same v := sorted_sorted v

/-- An object whose members are sorted where they are. -/
theorem same_map_sorted (m : Object) : Json.Same (.obj (m.map fun p => (p.1, p.2.sorted)))
    (.obj m) := by
  have hmembers : sortedMembers (m.map fun p => (p.1, p.2.sorted)) = sortedMembers m := by
    rw [← sortedMembers_eq, sortedMembers_sorted]
  rw [Json.Same, Json.sorted, Json.sorted, hmembers]

/-- A field of the sorted members is the sorted field. -/
theorem get_map_sorted (m : Object) (key : Text) :
    Object.get (m.map fun p => (p.1, p.2.sorted)) key = (Object.get m key).sorted := by
  have hmap : (m.map fun p => (p.1, p.2.sorted)).find? (fun q => q.1 == key)
      = (m.find? fun q => q.1 == key).map fun p => (p.1, p.2.sorted) := by
    rw [List.find?_map]
    rfl
  unfold Object.get Object.getD
  rw [hmap]
  generalize List.find? (fun q => q.1 == key) m = found
  rcases found with _ | p
  · rfl
  · rfl

/-! ## What sorting and rendering keep -/

/-- The members can be written and read back when their keys and values can. -/
theorem denotableMembers_iff {m : Object} :
    DenotableMembers m ↔ ∀ p ∈ m, Joined p.1 ∧ Denotable p.2 := by
  induction m with
  | nil => simp [DenotableMembers]
  | cons p m ih =>
    rw [DenotableMembers, ih, List.forall_mem_cons, and_assoc]

mutual

/-- Sorting keeps a value that can be written and read back one. -/
theorem sorted_denotable : {v : Json} → Denotable v → Denotable v.sorted
  | .null, h => h
  | .bool _, h => h
  | .int _, h => h
  | .float _, h => h
  | .str _, h => h
  | .arr items, h => sortedItems_denotable h
  | .obj members, h => by
      refine ⟨(sorted_keys_perm members).nodup_iff.mpr h.1, ?_⟩
      rw [denotableMembers_iff]
      intro p hp
      rw [(List.perm_insertionSort _ _).mem_iff] at hp
      exact denotableMembers_iff.mp (sortedMembers_denotable h.2) p hp

/-- The same of the items. -/
theorem sortedItems_denotable : {items : List Json} → DenotableItems items →
    DenotableItems (sortedItems items)
  | [], h => h
  | _ :: _, h => ⟨sorted_denotable h.1, sortedItems_denotable h.2⟩

/-- The same of the members. -/
theorem sortedMembers_denotable : {m : List (Text × Json)} → DenotableMembers m →
    DenotableMembers (sortedMembers m)
  | [], h => h
  | (_, _) :: _, h => ⟨h.1, sorted_denotable h.2.1, sortedMembers_denotable h.2.2⟩

end

/-! ## ASCII -/

/-- Digits are ASCII. -/
theorem ascii_of_digits {ds : Text} (h : ∀ d ∈ ds, isDigit d = true) : Ascii ds := by
  intro c hc
  have hd := h c hc
  simp only [isDigit, Bool.and_eq_true, decide_eq_true_eq] at hd
  omega

/-- A literal whose characters are all ASCII. -/
theorem ascii_of_all {t : Text} (h : (t.all fun c => decide (c.val < 0x80)) = true) : Ascii t :=
  fun c hc => of_decide_eq_true (List.all_eq_true.mp h c hc)

/-- Hexadecimal digits are ASCII. -/
theorem ascii_hexDigit : ∀ n < 16, (hexDigit n).val < 0x80 := by decide

/-- An escape is ASCII. -/
theorem ascii_hexEscape (n : ℕ) : Ascii (hexEscape n) := by
  have hdigit : ∀ k, (hexDigit (k % 0x10)).val < 0x80 :=
    fun k => ascii_hexDigit _ (Nat.mod_lt _ (by omega))
  refine Ascii.append (ascii_of_all (by decide)) ?_
  intro c hc
  simp only [List.mem_cons, List.not_mem_nil, or_false] at hc
  rcases hc with rfl | rfl | rfl | rfl
  · exact hdigit _
  · exact hdigit _
  · exact hdigit _
  · exact hdigit _

/-- Every character is written in ASCII. -/
theorem ascii_escape (c : CodePoint) : Ascii (escape c) := by
  unfold escape
  split
  · exact ascii_of_all (by decide)
  · split
    · exact ascii_of_all (by decide)
    · split
      · next h =>
        intro d hd
        rw [List.mem_singleton.mp hd]
        simp only [Bool.and_eq_true, decide_eq_true_eq] at h
        omega
      · split
        · exact ascii_of_all (by decide)
        · split
          · exact ascii_of_all (by decide)
          · split
            · exact ascii_of_all (by decide)
            · split
              · exact ascii_of_all (by decide)
              · split
                · exact ascii_of_all (by decide)
                · split
                  · exact ascii_hexEscape _
                  · exact (ascii_hexEscape _).append (ascii_hexEscape _)

/-- Every text is quoted in ASCII. -/
theorem ascii_quote (t : Text) : Ascii (quote t) := by
  have hq : Ascii (lit "\"") := ascii_of_all (by decide)
  refine (hq.append fun c hc => ?_).append hq
  obtain ⟨d, -, hd⟩ := List.mem_flatMap.mp hc
  exact ascii_escape d c hd

/-- A natural number is written in ASCII. -/
theorem ascii_decimal (n : ℕ) : Ascii (decimal n) := ascii_of_digits (isDigit_of_mem_decimal n)

/-- Zeros are ASCII. -/
theorem ascii_zeros (n : ℕ) : Ascii (List.replicate n 0x30) := ascii_of_digits (isDigit_zeros n)

/-- The significant digits are ASCII. -/
theorem ascii_significant (d : ℕ) : Ascii (significant d) := by
  unfold significant
  split
  · exact ascii_of_all (by decide)
  · intro c hc
    rw [List.mem_reverse] at hc
    have hmem := List.mem_reverse.mp ((List.dropWhile_sublist _).subset hc)
    exact ascii_decimal d c hmem

/-- The placement of the decimal point is ASCII. -/
theorem ascii_layout {ds : Text} (h : Ascii ds) (point : ℤ) : Ascii (layout ds point) := by
  unfold layout
  split
  · split
    · exact ((ascii_of_all (by decide)).append (ascii_zeros _)).append h
    · split
      · exact (h.append (ascii_zeros _)).append (ascii_of_all (by decide))
      · have hpoint : Ascii (lit ".") := ascii_of_all (by decide)
        exact (Ascii.append (fun c hc => h c (List.mem_of_mem_take hc)) hpoint).append
          fun c hc => h c (List.mem_of_mem_drop hc)
  · have hpoint : Ascii (lit ".") := ascii_of_all (by decide)
    have hmantissa : ∀ c cs, ds = c :: cs → Ascii [c] ∧ Ascii cs := by
      rintro c cs rfl
      exact ⟨fun d hd => h d (by simp_all), fun d hd => h d (List.mem_cons_of_mem _ hd)⟩
    refine Ascii.append (Ascii.append (Ascii.append ?_ (ascii_of_all (by decide))) ?_) ?_
    · rcases ds with _ | ⟨c, _ | ⟨d, cs⟩⟩
      · exact ascii_of_all rfl
      · exact h
      · obtain ⟨hc, hcs⟩ := hmantissa c (d :: cs) rfl
        exact hc.append (hpoint.append hcs)
    · split
      · exact ascii_of_all (by decide)
      · exact ascii_of_all (by decide)
    · split
      · exact (ascii_of_all (by decide)).append (ascii_decimal _)
      · exact ascii_decimal _

/-- A float is written in ASCII. -/
theorem ascii_floatRepr (f : Float) : Ascii (floatRepr f) := by
  have hpos : ∀ q, Ascii (reprPos q) := fun q => ascii_layout (ascii_significant _) _
  cases f with
  | fin q =>
    rw [floatRepr, ratRepr]
    split
    · exact ascii_of_all (by decide)
    · split
      · exact hpos q
      · exact (ascii_of_all (by decide)).append (hpos _)
  | negZero => exact ascii_of_all (by decide)
  | inf => exact ascii_of_all (by decide)
  | negInf => exact ascii_of_all (by decide)
  | nan => exact ascii_of_all (by decide)

mutual

/-- **A rendering is ASCII.** -/
theorem ascii_dumpsWith {gap : Text} (hgap : Ascii gap) : (v : Json) → Ascii (dumpsWith gap v)
  | .null => by
      rw [dumpsWith]
      exact ascii_of_all (by decide)
  | .bool true => by
      rw [dumpsWith]
      exact ascii_of_all (by decide)
  | .bool false => by
      rw [dumpsWith]
      exact ascii_of_all (by decide)
  | .int n => by
      rw [dumpsWith, decimalInt]
      split
      · exact (ascii_of_all (by decide)).append (ascii_decimal _)
      · exact ascii_decimal _
  | .float f => ascii_floatRepr f
  | .str t => ascii_quote t
  | .arr items => by
      rw [dumpsWith]
      exact ((ascii_of_all (by decide)).append (ascii_dumpsItemsWith hgap items)).append
        (ascii_of_all (by decide))
  | .obj members => by
      rw [dumpsWith]
      exact ((ascii_of_all (by decide)).append (ascii_dumpsMembersWith hgap members)).append
        (ascii_of_all (by decide))

/-- Items are written in ASCII. -/
theorem ascii_dumpsItemsWith {gap : Text} (hgap : Ascii gap) : (items : List Json) →
    Ascii (dumpsItemsWith gap items)
  | [] => ascii_of_all rfl
  | [v] => by
      rw [dumpsItemsWith]
      exact ascii_dumpsWith hgap v
  | v :: w :: rest => by
      rw [dumpsItemsWith]
      · exact (((ascii_dumpsWith hgap v).append (ascii_of_all (by decide))).append hgap).append
          (ascii_dumpsItemsWith hgap (w :: rest))
      · simp

/-- Members are written in ASCII. -/
theorem ascii_dumpsMembersWith {gap : Text} (hgap : Ascii gap) : (m : List (Text × Json)) →
    Ascii (dumpsMembersWith gap m)
  | [] => ascii_of_all rfl
  | [(k, v)] => by
      rw [dumpsMembersWith]
      exact (((ascii_quote k).append (ascii_of_all (by decide))).append hgap).append
        (ascii_dumpsWith hgap v)
  | (k, v) :: p :: rest => by
      rw [dumpsMembersWith]
      · exact ((((((ascii_quote k).append (ascii_of_all (by decide))).append hgap).append
          (ascii_dumpsWith hgap v)).append (ascii_of_all (by decide))).append hgap).append
          (ascii_dumpsMembersWith hgap (p :: rest))
      · simp

end

/-- The canonical encoding is ASCII. -/
theorem ascii_compact (v : Json) : Ascii (compact v) := ascii_dumpsWith (ascii_of_all rfl) v.sorted

/-! ## Lengths -/

/-- An escape takes six characters. -/
theorem length_hexEscape (n : ℕ) : (hexEscape n).length = 6 := by
  have hu : (lit "\\u").length = 2 := by decide
  rw [hexEscape, List.length_append, hu]
  rfl

/-- A character takes at most six characters for each byte of it, and twelve in all. -/
theorem escapeWidth_le (c : CodePoint) : escapeWidth c ≤ 6 * utf8Width c ∧ escapeWidth c ≤ 12 := by
  have hpos : 1 ≤ utf8Width c := by
    unfold utf8Width
    split_ifs <;> omega
  have hshort : (lit "\\\"").length = 2 ∧ (lit "\\\\").length = 2 ∧ (lit "\\n").length = 2
    ∧ (lit "\\r").length = 2
      ∧ (lit "\\t").length = 2 ∧ (lit "\\f").length = 2 ∧ (lit "\\b").length = 2 := by decide
  obtain ⟨h1, h2, h3, h4, h5, h6, h7⟩ := hshort
  by_cases hbig : c.val < 0x10000
  · have hle : escapeWidth c ≤ 6 := by
      unfold escapeWidth escape
      split_ifs <;> simp only [h1, h2, h3, h4, h5, h6, h7, List.length_singleton,
        length_hexEscape] <;> omega
    omega
  · have hwidth : utf8Width c = 4 := by
      unfold utf8Width
      rw [if_neg (by omega), if_neg (by omega), if_neg hbig]
    have hle : escapeWidth c ≤ 12 := by
      unfold escapeWidth escape
      split_ifs <;>
        simp only [h1, h2, h3, h4, h5, h6, h7, List.length_singleton, List.length_append,
          length_hexEscape] <;> omega
    omega

/-- The escaped width of a text is at most six times its bytes, and twelve times its characters. -/
theorem escapedLen_le (t : Text) : escapedLen t ≤ 6 * utf8Len t ∧ escapedLen t ≤ 12 * t.length := by
  induction t with
  | nil => exact ⟨le_rfl, le_rfl⟩
  | cons c t ih =>
    have hc := escapeWidth_le c
    simp only [escapedLen, utf8Len, List.map_cons, List.sum_cons, List.length_cons] at ih ⊢
    omega

/-- The length of the members: keys, values, their marks and the separators between them. -/
theorem length_dumpsMembersWith (gap : Text) : (m : Object) → m ≠ [] →
    (dumpsMembersWith gap m).length + (1 + gap.length)
      = (m.map fun p => escapedLen p.1 + 3 + gap.length + (dumpsWith gap p.2).length
        + (1 + gap.length)).sum
  | [], h => absurd rfl h
  | [(k, v)], _ => by
      have hcolon : (lit ":").length = 1 := by decide
      simp only [dumpsMembersWith, List.length_append, length_quote, hcolon, List.map_cons,
        List.map_nil,
        List.sum_cons, List.sum_nil]
      omega
  | (k, v) :: p :: rest, _ => by
      have ih := length_dumpsMembersWith gap (p :: rest) (List.cons_ne_nil _ _)
      rw [List.map_cons, List.sum_cons, ← ih, dumpsMembersWith_cons]
      simp only [List.length_append, List.length_cons, length_quote]
      omega

/-- The length of the items and of the separators between them. -/
theorem length_dumpsItemsWith (gap : Text) : (items : List Json) → items ≠ [] →
    (dumpsItemsWith gap items).length + (1 + gap.length)
      = (items.map fun v => (dumpsWith gap v).length + (1 + gap.length)).sum
  | [], h => absurd rfl h
  | [v], _ => by simp [dumpsItemsWith]
  | v :: w :: rest, _ => by
      have ih := length_dumpsItemsWith gap (w :: rest) (List.cons_ne_nil _ _)
      rw [List.map_cons, List.sum_cons, ← ih, dumpsItemsWith_cons]
      simp only [List.length_append, List.length_cons]
      omega

/-- The length of an object: one for its opening brace, and for each member its key, its value, and
four characters around them, in whatever order. -/
theorem length_compact_obj {m : Object} (hm : m ≠ []) :
    (compact (.obj m)).length = 1 + (m.map fun p =>
      escapedLen p.1 + 4 + (compact p.2).length).sum := by
  have hne : (sortedMembers m).insertionSort keyLE ≠ [] := by
    rw [← List.length_pos_iff, List.length_insertionSort, sortedMembers_eq, List.length_map]
    exact List.length_pos_iff.mpr hm
  have hopen : (lit "\x7b").length = 1 ∧ (lit "\x7d").length = 1 := by decide
  have h := length_dumpsMembersWith [] _ hne
  rw [((sorted_perm m).map _).sum_eq, List.map_map] at h
  rw [compact, Json.sorted, dumpsWith]
  simp only [List.length_append, hopen.1, hopen.2]
  have hterm : (m.map fun p => escapedLen p.1 + 4 + (compact p.2).length)
      = m.map ((fun p => escapedLen p.1 + 3 + ([] : Text).length + (dumpsWith [] p.2).length
        + (1 + ([] : Text).length))
        ∘ fun p => (p.1, p.2.sorted)) := by
    refine List.map_congr_left fun p _ => ?_
    simp only [Function.comp_apply, List.length_nil, compact]
    omega
  rw [hterm, ← h, List.length_nil]
  omega

/-- The length of an array. -/
theorem length_compact_arr {items : List Json} (hi : items ≠ []) :
    (compact (.arr items)).length = 1 + (items.map fun v => (compact v).length + 1).sum := by
  have hne : sortedItems items ≠ [] := by
    rw [sortedItems_eq, Ne, List.map_eq_nil_iff]
    exact hi
  have hopen : (lit "[").length = 1 ∧ (lit "]").length = 1 := by decide
  have h := length_dumpsItemsWith [] _ hne
  rw [sortedItems_eq, List.map_map] at h
  rw [compact, Json.sorted, dumpsWith, sortedItems_eq]
  simp only [List.length_append, hopen.1, hopen.2]
  have hterm : (items.map fun v => (compact v).length + 1)
      = items.map ((fun v => (dumpsWith [] v).length + (1 + ([] : Text).length)) ∘ Json.sorted) :=
    List.map_congr_left fun v _ => rfl
  rw [hterm, ← h, List.length_nil]
  omega

/-- Null takes four characters. -/
@[simp] theorem length_compact_null : (compact .null).length = 4 := by decide

/-- A truth value takes five characters at most. -/
theorem length_compact_bool (b : Bool) : (compact (.bool b)).length ≤ 5 := by cases b <;> decide

/-- A natural number takes its digits. -/
@[simp] theorem length_compact_natCast (n : ℕ) : (compact (.int n)).length = decimalLen n :=
  length_decimalInt_natCast n

/-- A text takes its escaped length and two quotes. -/
@[simp] theorem length_compact_str (t : Text) : (compact (.str t)).length = escapedLen t + 2 :=
  length_quote t

/-! ## Reading back -/

/-- A hook that keeps the members of an object whose keys are distinct. -/
theorem loads_compact {hook : Object → Option Json}
    (hhook : ∀ m : Object, (m.map Prod.fst).Nodup → hook m = some (.obj m)) {v : Json}
    (hv : Denotable v) :
    loads hook (compact v) = some v.sorted :=
  loads_dumpsWith ⟨hhook, rfl⟩ (sorted_denotable hv)

/-- The bytes of a rendered object decode to it. -/
theorem decodeBytes_compact (m : Object) :
    decodeBytes ((compact (.obj m)).map fun c => UInt8.ofNat c.val) = some (compact (.obj m)) := by
  have hascii := ascii_compact (.obj m)
  have hopen : lit "\x7b" = [0x7b] ∧ lit "\x7d" = [0x7d] := by decide
  obtain ⟨b, rest, htext, hb⟩ : ∃ b rest, compact (.obj m) = 0x7b :: b :: rest ∧ b.val ≠ 0 := by
    rw [compact, Json.sorted, dumpsWith, hopen.1, hopen.2]
    rcases (sortedMembers m).insertionSort keyLE with _ | ⟨⟨k, v⟩, _ | ⟨p, rest⟩⟩
    · exact ⟨0x7d, [], rfl, by decide⟩
    · rw [dumpsMembersWith_single, quote_append]
      exact ⟨0x22, _, rfl, by decide⟩
    · rw [dumpsMembersWith_cons, quote_append]
      exact ⟨0x22, _, rfl, by decide⟩
  rw [htext] at hascii ⊢
  exact decodeBytes_ascii hascii (by decide) hb

end Py
