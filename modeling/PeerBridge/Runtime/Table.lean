import Mathlib

/-!
# Keyed tables

A relational table with a primary key: a list of rows, in insertion order, whose keys are distinct.
The invariant is a field, so every operation below carries its own proof that the key stays a key:
`insert?` refuses a duplicate key, `put` replaces the row of the same key, `remove` deletes the
rows a predicate selects, and `update` rewrites the selected rows without touching their keys.
-/

namespace Relational

/-- A table of rows `α` with primary key `key`. -/
structure Table (κ α : Type) (key : α → κ) where
  /-- The rows, in insertion order. -/
  rows : List α
  /-- The primary key. -/
  nodup : (rows.map key).Nodup

namespace Table

variable {κ α : Type} {key : α → κ}

/-- Tables with the same rows are the same. -/
@[ext] theorem ext {t u : Table κ α key} (h : t.rows = u.rows) : t = u := by
  cases t; cases u; cases h; rfl

/-- The table without rows. -/
def empty : Table κ α key := ⟨[], List.nodup_nil⟩

instance : Membership α (Table κ α key) := ⟨fun t a => a ∈ t.rows⟩

/-- To be in a table is to be one of its rows. -/
theorem mem_def {t : Table κ α key} {a : α} : a ∈ t ↔ a ∈ t.rows := Iff.rfl

/-- Nothing is in an empty table. -/
@[simp] theorem not_mem_empty (a : α) : ¬ a ∈ (empty : Table κ α key) := by
  simp [mem_def, empty]

/-- Two rows with one key are one row. -/
theorem eq_of_key {t : Table κ α key} {a b : α} (ha : a ∈ t) (hb : b ∈ t) (h : key a = key b) :
    a = b :=
  List.inj_on_of_nodup_map t.nodup ha hb h

section lookup

variable [DecidableEq κ]

/-- `SELECT ... WHERE key = k`. -/
def find (t : Table κ α key) (k : κ) : Option α := t.rows.find? fun a => key a = k

/-- What is found under a key is the row with that key. -/
theorem find_eq_some {t : Table κ α key} {k : κ} {a : α} :
    t.find k = some a ↔ a ∈ t ∧ key a = k := by
  constructor
  · intro h
    exact ⟨List.mem_of_find?_eq_some h, by simpa using List.find?_some h⟩
  · rintro ⟨ha, rfl⟩
    rcases hf : t.find (key a) with _ | b
    · have := List.find?_eq_none.mp hf a ha
      simp at this
    · have hb : b ∈ t := List.mem_of_find?_eq_some hf
      have hk : key b = key a := by simpa using List.find?_some hf
      rw [eq_of_key hb ha hk]

/-- Nothing is found under a key exactly when no row has it. -/
theorem find_eq_none {t : Table κ α key} {k : κ} : t.find k = none ↔ ∀ a ∈ t, key a ≠ k := by
  simp [find, mem_def]

/-- `INSERT`, refused on a duplicate key. -/
def insert? (t : Table κ α key) (a : α) : Option (Table κ α key) :=
  if h : key a ∈ t.rows.map key then none
  else some ⟨t.rows ++ [a], by
    rw [List.map_append, List.nodup_append]
    refine ⟨t.nodup, by simp, ?_⟩
    intro k hk k' hk' he
    simp only [List.map_cons, List.map_nil, List.mem_singleton] at hk'
    exact h (hk' ▸ he ▸ hk)⟩

/-- An insertion succeeds exactly when the key is new, and puts the row last. -/
theorem insert?_eq_some {t u : Table κ α key} {a : α} :
    t.insert? a = some u ↔ (∀ b ∈ t, key b ≠ key a) ∧ u.rows = t.rows ++ [a] := by
  unfold insert?
  by_cases h : key a ∈ t.rows.map key
  · rw [dif_pos h]
    obtain ⟨b, hb, hk⟩ := List.mem_map.mp h
    constructor
    · intro h'; cases h'
    · intro h'; exact absurd hk (h'.1 b hb)
  · rw [dif_neg h]
    constructor
    · intro h'
      cases h'
      exact ⟨fun b hb hk => h (List.mem_map.mpr ⟨b, hb, hk⟩), rfl⟩
    · rintro ⟨-, hu⟩
      exact congrArg some (ext hu.symm)

/-- After an insertion the rows are the earlier ones and the new one. -/
theorem mem_insert? {t u : Table κ α key} {a b : α} (h : t.insert? a = some u) :
    b ∈ u ↔ b ∈ t ∨ b = a := by
  rw [mem_def, (insert?_eq_some.mp h).2]
  simp [mem_def]

/-- An insertion fails exactly when the key is taken. -/
theorem insert?_eq_none {t : Table κ α key} {a : α} :
    t.insert? a = none ↔ ∃ b ∈ t, key b = key a := by
  unfold insert?
  by_cases h : key a ∈ t.rows.map key
  · rw [dif_pos h]
    simpa [mem_def] using h
  · rw [dif_neg h]
    simpa [mem_def] using h

/-- A row inserted into an empty table is its only row. -/
theorem insert?_empty (key : α → κ) (a : α) :
    ∃ t, (empty : Table κ α key).insert? a = some t ∧ t.rows = [a] := by
  rcases h : (empty : Table κ α key).insert? a with _ | t
  · obtain ⟨b, hb, -⟩ := insert?_eq_none.mp h
    exact absurd hb (not_mem_empty b)
  · exact ⟨t, rfl, (insert?_eq_some.mp h).2⟩

/-- `INSERT OR REPLACE`. -/
def put (t : Table κ α key) (a : α) : Table κ α key :=
  ⟨(t.rows.filter fun b => key b ≠ key a) ++ [a], by
    rw [List.map_append, List.nodup_append]
    refine ⟨t.nodup.sublist (List.filter_sublist.map key), by simp, ?_⟩
    intro k hk k' hk' he
    simp only [List.map_cons, List.map_nil, List.mem_singleton] at hk'
    obtain ⟨b, hb, rfl⟩ := List.mem_map.mp hk
    have := (List.mem_filter.mp hb).2
    simp only [decide_eq_true_eq] at this
    exact this (he.trans hk')⟩

/-- After a replacement the rows are those with other keys and the new one. -/
theorem mem_put {t : Table κ α key} {a b : α} :
    b ∈ t.put a ↔ (b ∈ t ∧ key b ≠ key a) ∨ b = a := by
  simp [mem_def, put]

end lookup

/-- `DELETE ... WHERE p`. -/
def remove (t : Table κ α key) (p : α → Bool) : Table κ α key :=
  ⟨t.rows.filter fun a => !p a, t.nodup.sublist (List.filter_sublist.map key)⟩

/-- After a deletion the rows are those the condition does not hold of. -/
@[simp] theorem mem_remove {t : Table κ α key} {p : α → Bool} {a : α} :
    a ∈ t.remove p ↔ a ∈ t ∧ p a = false := by
  simp [mem_def, remove]

/-- `UPDATE ... SET f WHERE p`, for an assignment that leaves the key alone. -/
def update (t : Table κ α key) (p : α → Bool) (f : α → α) (hf : ∀ a, key (f a) = key a) :
    Table κ α key :=
  ⟨t.rows.map fun a => if p a then f a else a, by
    have : (t.rows.map fun a => if p a then f a else a).map key = t.rows.map key := by
      rw [List.map_map]
      refine List.map_congr_left fun a _ => ?_
      by_cases hp : p a = true <;> simp [hp, hf]
    rw [this]
    exact t.nodup⟩

/-- After an update the rows are the images of the earlier ones. -/
theorem mem_update {t : Table κ α key} {p : α → Bool} {f : α → α} (hf : ∀ a, key (f a) = key a)
    {b : α} : b ∈ t.update p f hf ↔ ∃ a ∈ t, b = if p a then f a else a := by
  simp only [mem_def, update, List.mem_map]
  exact ⟨fun ⟨a, ha, h⟩ => ⟨a, ha, h.symm⟩, fun ⟨a, ha, h⟩ => ⟨a, ha, h.symm⟩⟩

/-- The image of a row under an update. -/
theorem mem_of_update {t u : Table κ α key} {p : α → Bool} {f : α → α}
    (hf : ∀ a, key (f a) = key a) (hu : u = t.update p f hf) {a : α} (ha : a ∈ t) :
    (if p a then f a else a) ∈ u :=
  hu ▸ (mem_update hf).mpr ⟨a, ha, rfl⟩

/-- An update changes what is found under a key, and finds nothing new. -/
theorem find_update [DecidableEq κ] (t : Table κ α key) (p : α → Bool) (f : α → α)
    (hf : ∀ a, key (f a) = key a) (k : κ) :
    (t.update p f hf).find k = (t.find k).map fun a => if p a then f a else a := by
  rcases h : t.find k with _ | a
  · rw [Option.map_none, find_eq_none]
    intro b hb
    obtain ⟨a, ha, rfl⟩ := (mem_update hf).mp hb
    have := find_eq_none.mp h a ha
    by_cases hp : p a = true <;> simp [hp, hf, this]
  · obtain ⟨ha, rfl⟩ := find_eq_some.mp h
    rw [Option.map_some, find_eq_some]
    refine ⟨(mem_update hf).mpr ⟨a, ha, rfl⟩, ?_⟩
    by_cases hp : p a = true <;> simp [hp, hf]

/-- After a deletion a row is found unless the condition holds of it. -/
theorem find_remove [DecidableEq κ] (t : Table κ α key) (p : α → Bool) (k : κ) :
    (t.remove p).find k = (t.find k).filter fun a => !p a := by
  rcases h : t.find k with _ | a
  · rw [Option.filter_none, find_eq_none]
    intro b hb
    exact find_eq_none.mp h b (mem_remove.mp hb).1
  · obtain ⟨ha, hk⟩ := find_eq_some.mp h
    by_cases hp : p a = true
    · rw [Option.filter_some, if_neg (by simp [hp]), find_eq_none]
      intro b hb hbk
      obtain ⟨hbt, hbp⟩ := mem_remove.mp hb
      rw [eq_of_key hbt ha (hbk.trans hk.symm), hp] at hbp
      cases hbp
    · rw [Option.filter_some, if_pos (by simpa using hp), find_eq_some]
      exact ⟨mem_remove.mpr ⟨ha, by simpa using hp⟩, hk⟩

/-- What was put is found under its key. -/
theorem find_put_self [DecidableEq κ] {t : Table κ α key} {a : α} {k : κ} (h : key a = k) :
    (t.put a).find k = some a :=
  find_eq_some.mpr ⟨mem_put.mpr (.inr rfl), h⟩

/-- What is found under another key stays. -/
theorem find_put_ne [DecidableEq κ] {t : Table κ α key} {a : α} {k : κ} (h : k ≠ key a) :
    (t.put a).find k = t.find k := by
  rcases hf : t.find k with _ | b
  · rw [find_eq_none]
    intro b hb hk
    rcases mem_put.mp hb with ⟨hbt, -⟩ | rfl
    · exact find_eq_none.mp hf b hbt hk
    · exact h hk.symm
  · obtain ⟨hb, hk⟩ := find_eq_some.mp hf
    exact find_eq_some.mpr ⟨mem_put.mpr (.inl ⟨hb, hk ▸ h⟩), hk⟩

/-! ## Sums over the rows -/

/-- An insertion adds the new row's share to a sum. -/
theorem sum_insert? [DecidableEq κ] {t u : Table κ α key} {a : α} (h : t.insert? a = some u)
    (f : α → ℕ) : (u.rows.map f).sum = (t.rows.map f).sum + f a := by
  rw [(insert?_eq_some.mp h).2]
  simp

/-- A deletion takes the deleted rows' shares from a sum. -/
theorem sum_remove (t : Table κ α key) (p : α → Bool) (f : α → ℕ) :
    ((t.remove p).rows.map f).sum + ((t.rows.filter p).map f).sum = (t.rows.map f).sum := by
  have h (l : List α) : ((l.filter fun a => !p a).map f).sum + ((l.filter p).map f).sum
      = (l.map f).sum := by
    induction l with
    | nil => rfl
    | cons a l ih =>
      rcases hp : p a with _ | _
      · simp only [List.filter_cons, hp, Bool.not_false, if_true, Bool.false_eq_true, if_false,
          List.map_cons, List.sum_cons]
        omega
      · simp only [List.filter_cons, hp, Bool.not_true, if_true, Bool.false_eq_true, if_false,
          List.map_cons, List.sum_cons]
        omega
  exact h t.rows

/-- A deletion does not enlarge a sum. -/
theorem sum_remove_le (t : Table κ α key) (p : α → Bool) (f : α → ℕ) :
    ((t.remove p).rows.map f).sum ≤ (t.rows.map f).sum := by
  have h := t.sum_remove p f
  omega

/-- An update that leaves every share alone leaves the sum alone. -/
theorem sum_update (t : Table κ α key) {p : α → Bool} {g : α → α} (hg : ∀ a, key (g a) = key a)
    {f : α → ℕ} (hf : ∀ a, f (g a) = f a) :
    ((t.update p g hg).rows.map f).sum = (t.rows.map f).sum := by
  have h (a : α) : f (if p a then g a else a) = f a := by
    split
    · exact hf a
    · rfl
  simp only [update, List.map_map, Function.comp_def, h]

/-- Removing the row of one key. -/
theorem sum_remove_key [DecidableEq κ] {t : Table κ α key} {a : α} (ha : a ∈ t) (f : α → ℕ) :
    ((t.remove fun b => key b = key a).rows.map f).sum + f a = (t.rows.map f).sum := by
  have hone : t.rows.filter (fun b => decide (key b = key a)) = [a] := by
    obtain ⟨s, u, hsu⟩ := List.append_of_mem ha
    have hnd := t.nodup
    rw [hsu] at hnd ⊢
    simp only [List.map_append, List.map_cons, List.nodup_append, List.nodup_cons] at hnd
    have hs : s.filter (fun b => decide (key b = key a)) = [] := by
      rw [List.filter_eq_nil_iff]
      intro b hb hk
      exact hnd.2.2 _ (List.mem_map_of_mem hb) _ List.mem_cons_self (of_decide_eq_true hk)
    have hu : u.filter (fun b => decide (key b = key a)) = [] := by
      rw [List.filter_eq_nil_iff]
      intro b hb hk
      exact hnd.2.1.1 (by rw [← of_decide_eq_true hk]; exact List.mem_map_of_mem hb)
    rw [List.filter_append, List.filter_cons, hs, hu]
    simp
  have h := t.sum_remove (fun b => decide (key b = key a)) f
  rw [hone] at h
  simpa using h

/-- A replacement enlarges a sum by the new row's share at most. -/
theorem sum_put_le [DecidableEq κ] (t : Table κ α key) (a : α) (f : α → ℕ) :
    ((t.put a).rows.map f).sum ≤ (t.rows.map f).sum + f a := by
  have h := t.sum_remove_le (fun b => !decide (key b ≠ key a)) f
  simp only [put, remove, Bool.not_not, List.map_append, List.sum_append, List.map_cons,
    List.map_nil,
    List.sum_cons, List.sum_nil] at h ⊢
  omega

/-- Storing a row under a new key. -/
theorem sum_put [DecidableEq κ] {t : Table κ α key} {a : α} (h : ∀ b ∈ t, key b ≠ key a)
    (f : α → ℕ) :
    ((t.put a).rows.map f).sum = (t.rows.map f).sum + f a := by
  have hall : t.rows.filter (fun b => decide (key b ≠ key a)) = t.rows := by
    rw [List.filter_eq_self]
    intro b hb
    simpa using h b hb
  simp only [put, hall]
  simp

/-- A deletion adds no rows. -/
theorem length_remove_le (t : Table κ α key) (p : α → Bool) :
    (t.remove p).rows.length ≤ t.rows.length := List.length_filter_le _ _

end Table

end Relational
