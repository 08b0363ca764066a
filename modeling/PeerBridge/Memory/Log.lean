import PeerBridge.Memory.Runs

/-!
# The event log has no gap above its floor

`Gapless` is the joint invariant of the numbers the protocol rests on: the floor and the head, the
sequences present between them, the cursor and the issued mark of every consumer, and the heads of
the frozen snapshots. Each committed change keeps it (`Gapless.change`), so it holds at every moment
of every run (`Run.gapless`).

From it follow the two facts a reader relies on: a delta is exactly the consecutive sequences after
its cursor, and a delta that announces more is not empty.

Source: `memory.py`, `Store._forget`, `Store.note`, `MemoryCommands.sync`.
-/

namespace PeerBridge.Memory

open Py Relational Effects Effects.Prog Relation

variable {H : Host}

/-! ## The invariant -/

/-- The log is complete above its floor, and no cursor or snapshot is ahead of it. -/
structure Gapless (db : Db) : Prop where
  floor_le : db.floor ≤ db.head
  present : ∀ n, db.floor < n → n ≤ db.head → ∃ e ∈ db.entries, e.seq = n
  bound : ∀ e ∈ db.entries, e.seq ≤ db.head
  cursors : ∀ c ∈ db.cursors, c.seq ≤ c.issued ∧ c.issued ≤ db.head
  heads : ∀ s ∈ db.snapshots, s.head ≤ db.head
  opened : ∀ c ∈ db.cursors, ∀ s ∈ db.snapshots, c.snapshot = some s.id → c.issued ≤ s.head

/-- The log of a new store has no gap. -/
theorem Gapless.initial (storeId : Text) : Gapless (Db.initial storeId) where
  floor_le := le_rfl
  present _ h1 h2 := absurd h2 (not_le.mpr h1)
  bound e he := absurd he (Table.not_mem_empty e)
  cursors c hc := absurd hc (Table.not_mem_empty c)
  heads s hs := absurd hs (Table.not_mem_empty s)
  opened c hc := absurd hc (Table.not_mem_empty c)

/-- The log part of the invariant does not look at the readers, and the reader part only needs
fewer rows: a content with the same log and fewer cursors and snapshots keeps both. -/
theorem Gapless.of_subset {db db' : Db} (h : Gapless db) (hhead : db'.head = db.head)
    (hfloor : db'.floor = db.floor) (hent : db'.entries = db.entries)
    (hcur : ∀ c ∈ db'.cursors, c ∈ db.cursors) (hsnap : ∀ s ∈ db'.snapshots, s ∈ db.snapshots) :
    Gapless db' where
  floor_le := by rw [hhead, hfloor]; exact h.floor_le
  present n h1 h2 := by
    rw [hent]
    exact h.present n (hfloor ▸ h1) (hhead ▸ h2)
  bound e he := by
    rw [hhead]
    exact h.bound e (hent ▸ he)
  cursors c hc := by
    rw [hhead]
    exact h.cursors c (hcur c hc)
  heads s hs := by
    rw [hhead]
    exact h.heads s (hsnap s hs)
  opened c hc s hs := h.opened c (hcur c hc) s (hsnap s hs)

/-- The maximum is above every member. -/
theorem le_foldr_max {l : List ℕ} {n : ℕ} (h : n ∈ l) : n ≤ l.foldr max 0 := by
  induction l with
  | nil => cases h
  | cons a rest ih =>
    obtain rfl | h := List.mem_cons.mp h
    · exact le_max_left _ _
    · exact (ih h).trans (le_max_right _ _)

/-- The maximum is below every common bound. -/
theorem foldr_max_le {l : List ℕ} {n : ℕ} (h : ∀ a ∈ l, a ≤ n) : l.foldr max 0 ≤ n := by
  induction l with
  | nil => exact Nat.zero_le n
  | cons a rest ih =>
    exact max_le (h a (List.mem_cons_self ..)) (ih fun b hb => h b (List.mem_cons_of_mem a hb))

/-- Removing a batch moves the floor past everything removed. -/
theorem Gapless.forget {db : Db} (h : Gapless db) {batch : List Entry} {usable fts : Bool}
    (hb : ∀ e ∈ batch, e ∈ db.entries) :
    Gapless (Db.forget batch fts (Db.unindex batch usable db)) := by
  have hun : Db.forget batch fts (Db.unindex batch usable db)
      = { Db.forget batch fts db with search := (Db.unindex batch usable db).search } := by
    cases usable <;> rfl
  rw [hun]
  have hmax : (batch.map Entry.seq).foldr max 0 ≤ db.head := by
    refine foldr_max_le fun n hn => ?_
    obtain ⟨e, he, rfl⟩ := List.mem_map.mp hn
    exact h.bound e (hb e he)
  refine ⟨max_le h.floor_le hmax, fun n h1 h2 => ?_, fun e he => ?_, h.cursors, h.heads, h.opened⟩
  · have h1' : max db.floor ((batch.map Entry.seq).foldr max 0) < n := h1
    obtain ⟨e, he, rfl⟩ := h.present n (lt_of_le_of_lt (le_max_left _ _) h1') h2
    refine ⟨e, Table.mem_remove.mpr ⟨he, ?_⟩, rfl⟩
    rw [List.any_eq_false]
    intro b hb'
    have hle := le_foldr_max (List.mem_map_of_mem hb' (f := Entry.seq))
    have hlt := lt_of_le_of_lt (le_max_right _ _) h1'
    simp only [beq_iff_eq]
    omega
  · exact h.bound e (Table.mem_remove.mp he).1

/-- Maintenance makes no gap. -/
theorem Gapless.maint {k : ℕ} {w w' : World} (hw : Maint H k w w') (h : Gapless w.db) :
    Gapless w'.db := by
  cases hw with
  | trim hw =>
    cases hw with
    | idle hi => rwa [hi.db]
    | forget batch usable t hl ht hb hu hd =>
      rw [hd]
      exact h.forget fun e he => (hb e he).1
    | invalidate hl hd =>
      rw [hd]
      exact h.of_subset rfl rfl rfl (fun _ hc => hc) fun _ hs => hs
  | retire t hl ht hd =>
    obtain ⟨cs, rs, hr, hcs, -⟩ := retire_spec t w.db
    rw [hd, hr]
    exact h.of_subset rfl rfl rfl (fun c hc => ((hcs c).mp hc).1)
      fun s hs => (Table.mem_remove.mp hs).1
  | prune t hl ht hd =>
    rw [hd]
    exact h.of_subset rfl rfl rfl (fun _ hc => hc) fun _ hs => hs

/-- An append makes no gap. -/
theorem Gapless.append {x : Append} {db db' : Db} (ha : Appended H x db db') (h : Gapless db) :
    Gapless db' where
  floor_le := by
    rw [ha.head, ha.floor]
    exact h.floor_le.trans (Nat.le_succ _)
  present n h1 h2 := by
    rw [ha.floor] at h1
    rw [ha.head] at h2
    by_cases hn : n = db.head + 1
    · exact ⟨x.entry (db.head + 1), ha.mem_entries.mpr (.inr rfl), hn.symm⟩
    · obtain ⟨e, he, rfl⟩ := h.present n h1 (by omega)
      exact ⟨x.relink (db.head + 1) e, ha.mem_entries.mpr (.inl ⟨e, he, rfl⟩), x.relink_seq _ e⟩
  bound e he := by
    rw [ha.head]
    obtain ⟨f, hf, rfl⟩ | rfl := ha.mem_entries.mp he
    · rw [x.relink_seq]
      exact (h.bound f hf).trans (Nat.le_succ _)
    · exact le_rfl
  cursors c hc := by
    rw [ha.cursors] at hc
    rw [ha.head]
    exact ⟨(h.cursors c hc).1, (h.cursors c hc).2.trans (Nat.le_succ _)⟩
  heads s hs := by
    rw [ha.snapshots] at hs
    rw [ha.head]
    exact (h.heads s hs).trans (Nat.le_succ _)
  opened c hc s hs := by
    rw [ha.cursors] at hc
    rw [ha.snapshots] at hs
    exact h.opened c hc s hs

/-- Rewriting cursor rows keeps the invariant when each rewritten row still satisfies it. -/
theorem Gapless.of_cursors {db : Db} (h : Gapless db) {p : Cursor → Bool} {f : Cursor → Cursor}
    {hf : ∀ c, (f c).consumer = c.consumer}
    (hok : ∀ c ∈ db.cursors, p c = true → (f c).seq ≤ (f c).issued ∧ (f c).issued ≤ db.head ∧
      ∀ s ∈ db.snapshots, (f c).snapshot = some s.id → (f c).issued ≤ s.head) :
    Gapless { db with cursors := db.cursors.update p f hf } where
  floor_le := h.floor_le
  present := h.present
  bound := h.bound
  cursors c hc := by
    obtain ⟨a, ha, rfl⟩ := (Table.mem_update hf).mp hc
    by_cases hp : p a = true
    · rw [if_pos hp]
      exact ⟨(hok a ha hp).1, (hok a ha hp).2.1⟩
    · rw [if_neg hp]
      exact h.cursors a ha
  heads := h.heads
  opened c hc s hs hcs := by
    obtain ⟨a, ha, rfl⟩ := (Table.mem_update hf).mp hc
    by_cases hp : p a = true
    · rw [if_pos hp] at hcs ⊢
      exact (hok a ha hp).2.2 s hs hcs
    · rw [if_neg hp] at hcs ⊢
      exact h.opened a ha s hs hcs

/-- A registration makes no gap. -/
theorem Gapless.register {db : Db} (h : Gapless db) {consumer : Text} {now : ℚ}
    {table : Table Text Cursor Cursor.consumer}
    (hi : db.cursors.insert? (Cursor.fresh consumer now) = some table) :
    Gapless { db with cursors := table } where
  floor_le := h.floor_le
  present := h.present
  bound := h.bound
  cursors c hc := by
    obtain hc | rfl := (Table.mem_insert? hi).mp hc
    · exact h.cursors c hc
    · exact ⟨le_rfl, Nat.zero_le _⟩
  heads := h.heads
  opened c hc s hs hcs := by
    obtain hc | rfl := (Table.mem_insert? hi).mp hc
    · exact h.opened c hc s hs hcs
    · cases hcs

/-- A quiet step makes no gap. -/
theorem Gapless.quiet {k : ℕ} {w w' : World} (hw : Quiet H k w w') (h : Gapless w.db) :
    Gapless w'.db := by
  cases hw with
  | maint hw => exact h.maint hw
  | append x ha hd => exact h.append ha.effect
  | register consumer now table hl ht hi hd =>
    rw [hd]
    exact h.register hi
  | touch consumer now hl ht hd =>
    rw [hd]
    exact h.of_cursors fun c hc _ =>
      ⟨(h.cursors c hc).1, (h.cursors c hc).2, fun s hs hcs => h.opened c hc s hs hcs⟩
  | clear c sid hc hs hu hl hd =>
    rw [hd]
    exact h.of_cursors fun c hc _ =>
      ⟨(h.cursors c hc).1, (h.cursors c hc).2, fun s _ hcs => by cases hcs⟩

/-- Maintenance does not move the head. -/
theorem Maints.head {k : ℕ} {w w' : World} (h : Maints H k w w') : w'.db.head = w.db.head := by
  refine keeps_of_reflTransGen (I := fun v => v.db.head = w.db.head) ?_ h rfl
  intro s t hst hs
  rw [← hs]
  cases hst with
  | trim hst =>
    obtain ⟨es, fl, ix, se, hd, -⟩ := hst.frame
    rw [hd]
  | retire now hl ht hd =>
    obtain ⟨cs, rs, hr, -⟩ := retire_spec now s.db
    rw [hd, hr]
  | prune now hl ht hd => rw [hd]; rfl

/-- A freeze makes no gap. -/
theorem Gapless.freeze {consumer sid : Text} {read : World} {created updated now : ℚ} {db db' : Db}
    (hf : Froze H consumer sid read created updated now db db') (hhead : read.db.head = db.head)
    (h : Gapless db) : Gapless db' := by
  obtain ⟨sizes, -, snapshots, items, hi, -, rfl⟩ := hf.sizes
  have hins : Gapless { db with snapshots := snapshots, items := items } := by
    refine ⟨h.floor_le, h.present, h.bound, h.cursors, fun s hs => ?_, fun c hc s hs hcs => ?_⟩
    · obtain hs | rfl := (Table.mem_insert? hi).mp hs
      · exact h.heads s hs
      · exact hhead.le
    · obtain hs | rfl := (Table.mem_insert? hi).mp hs
      · exact h.opened c hc s hs hcs
      · exact (h.cursors c hc).2.trans hhead.ge
  have hopen : Gapless (Db.openSnapshot consumer sid updated
      { db with snapshots := snapshots, items := items }) := by
    refine hins.of_cursors fun c hc _ =>
      ⟨(h.cursors c hc).1, (h.cursors c hc).2, fun s hs hcs => ?_⟩
    have hkey : s.id = sid := (Option.some.inj hcs).symm
    have hnew := Table.eq_of_key (t := snapshots) hs ((Table.mem_insert? hi).mpr (.inr rfl)) hkey
    rw [hnew]
    exact (h.cursors c hc).2.trans hhead.ge
  exact hopen.of_subset rfl rfl rfl (fun _ hc => hc) fun s hs => (Table.mem_remove.mp hs).1

/-! ## Deltas -/

/-- A page is a beginning of what is left, at least one row of it, with more exactly when rows are
left. -/
theorem boundedFrom_inv {α : Type} {size : α → Except Exc ℕ} {budget : ℕ} {out items : List α}
    {used : ℕ} {page : List α} {more : Bool} (hused : out = [] → used = 0)
    (h : boundedFrom size budget out items used = .ok (page, more)) :
    ∃ taken rest, page = out.reverse ++ taken ∧ items = taken ++ rest ∧
      (more = false → rest = []) ∧ (more = true → page ≠ []) := by
  induction items generalizing out used with
  | nil =>
    cases h
    exact ⟨[], [], by simp, rfl, fun _ => rfl, nofun⟩
  | cons a items ih =>
    rw [boundedFrom, except_bind_eq_ok] at h
    obtain ⟨n, -, h⟩ := h
    split at h
    · cases h
    rename_i hbig
    split at h
    · rename_i hfull
      cases h
      refine ⟨[], a :: items, by simp, rfl, nofun, fun _ hnil => ?_⟩
      have hout : out = [] := List.reverse_eq_nil_iff.mp hnil
      have h0 := hused hout
      exact hbig ⟨by simp [hout], by omega⟩
    · obtain ⟨taken, rest, h1, h2, h3, h4⟩ := ih (fun hn => absurd hn (List.cons_ne_nil a out)) h
      exact ⟨a :: taken, rest, by simpa using h1, by rw [h2]; rfl, h3, h4⟩

/-- A page is a prefix of its rows; one that announces more is not empty. -/
theorem bounded_inv {α : Type} {size : α → Except Exc ℕ} {items page : List α} {more : Bool}
    (h : bounded size items = .ok (page, more)) :
    ∃ rest, items = page ++ rest ∧ (more = false → rest = []) ∧ (more = true → page ≠ []) := by
  obtain ⟨taken, rest, rfl, h2, h3, h4⟩ := boundedFrom_inv (fun _ => rfl) h
  exact ⟨rest, h2, h3, h4⟩

/-- Every row of a page fits one. -/
theorem boundedFrom_fits {α : Type} {size : α → Except Exc ℕ} {budget : ℕ} {out items : List α}
    {used : ℕ} {page : List α} {more : Bool} (hout : ∀ a ∈ out, ∃ n, size a = .ok n ∧ n ≤ budget)
    (h : boundedFrom size budget out items used = .ok (page, more)) :
    ∀ a ∈ page, ∃ n, size a = .ok n ∧ n ≤ budget := by
  induction items generalizing out used with
  | nil =>
    cases h
    simpa using hout
  | cons b items ih =>
    rw [boundedFrom, except_bind_eq_ok] at h
    obtain ⟨n, hn, h⟩ := h
    split at h
    · cases h
    split at h
    · cases h
      simpa using hout
    · rename_i hfull
      refine ih (fun a ha => ?_) h
      rcases List.mem_cons.mp ha with rfl | ha
      · exact ⟨n, hn, by omega⟩
      · exact hout a ha

/-- No item above the budget is ever in a page. -/
theorem bounded_fits {α : Type} {size : α → Except Exc ℕ} {items page : List α} {more : Bool}
    (h : bounded size items = .ok (page, more)) : ∀ a ∈ page, ∃ n, size a = .ok n
    ∧ n ≤ frameBudget :=
  boundedFrom_fits (by simp) h

/-- Rows that each fit a page can be paged. -/
theorem boundedFrom_eq_ok {α : Type} {size : α → Except Exc ℕ} {budget : ℕ} {out items : List α}
    {used : ℕ} (h : ∀ a ∈ items, ∃ n, size a = .ok n ∧ n ≤ budget) :
    ∃ page more, boundedFrom size budget out items used = .ok (page, more) ∧
      out.length ≤ page.length ∧ (used = 0 → items ≠ [] → out.length < page.length) := by
  induction items generalizing out used with
  | nil => exact ⟨_, _, rfl, by simp, fun _ hn => absurd rfl hn⟩
  | cons a items ih =>
    obtain ⟨n, hn, hle⟩ := h a (List.mem_cons_self ..)
    rw [boundedFrom, hn]
    change ∃ page more, (if out.isEmpty ∧ n > budget then _ else if used + n > budget then _
      else _) = _ ∧ _
    rw [if_neg fun hbig => absurd hbig.2 (by omega)]
    by_cases hfull : used + n > budget
    · rw [if_pos hfull]
      exact ⟨_, _, rfl, by simp, fun h0 => by omega⟩
    · rw [if_neg hfull]
      obtain ⟨page, more, hp, hlen, -⟩ := @ih (a :: out) (used + n)
        fun b hb => h b (List.mem_cons_of_mem a hb)
      rw [List.length_cons] at hlen
      exact ⟨page, more, hp, by omega, fun _ _ => by omega⟩

/-- Items within the budget are paged, at least one at a time. -/
theorem bounded_eq_ok {α : Type} {size : α → Except Exc ℕ} {items : List α}
    (h : ∀ a ∈ items, ∃ n, size a = .ok n ∧ n ≤ frameBudget) :
    ∃ page more, bounded size items = .ok (page, more) ∧ (items ≠ [] → page ≠ []) := by
  obtain ⟨page, more, hp, -, hne⟩ := @boundedFrom_eq_ok α size frameBudget [] items 0 h
  exact ⟨page, more, hp, fun hi => List.ne_nil_of_length_pos (by simpa using hne rfl hi)⟩

/-- The rows above a cursor at or above the floor are consecutive. -/
theorem Gapless.rows_above {db : Db} (h : Gapless db) {seq : ℕ} (hfloor : db.floor ≤ seq) :
    (bySeq (db.entries.rows.filter fun e => decide (seq < e.seq))).map Entry.seq
      = List.range' (seq + 1) (db.head - seq) := by
  have hsorted : ((bySeq (db.entries.rows.filter fun e => decide (seq < e.seq))).map
      Entry.seq).Pairwise (· < ·) := by
    have hle : ((bySeq (db.entries.rows.filter fun e => decide (seq < e.seq))).map
        Entry.seq).Pairwise (· ≤ ·) :=
      List.pairwise_map.mpr (List.pairwise_insertionSort (fun a b : Entry => a.seq ≤ b.seq) _)
    have hnodup : ((bySeq (db.entries.rows.filter fun e => decide (seq < e.seq))).map
        Entry.seq).Nodup :=
      ((List.perm_insertionSort _ _).map Entry.seq).nodup_iff.mpr
        (db.entries.nodup.sublist (List.filter_sublist.map Entry.seq))
    exact (hle.and hnodup).imp fun h => lt_of_le_of_ne h.1 h.2
  refine List.Perm.eq_of_pairwise (fun a b _ _ h1 h2 => absurd (h1.trans h2) (lt_irrefl a)) hsorted
    List.pairwise_lt_range' ?_
  refine (List.perm_ext_iff_of_nodup (hsorted.imp ne_of_lt) List.nodup_range').mpr fun n => ?_
  rw [List.mem_map, List.mem_range'_1]
  constructor
  · rintro ⟨e, he, rfl⟩
    rw [bySeq, List.mem_insertionSort, List.mem_filter] at he
    have hb := h.bound e he.1
    have hs : seq < e.seq := by simpa using he.2
    omega
  · rintro ⟨h1, h2⟩
    obtain ⟨e, he, rfl⟩ := h.present n (by omega) (by omega)
    refine ⟨e, ?_, rfl⟩
    rw [bySeq, List.mem_insertionSort, List.mem_filter]
    exact ⟨he, by simp; omega⟩

/-- A beginning of consecutive numbers is consecutive. -/
theorem take_range'_min (s n k : ℕ) : (List.range' s n).take k = List.range' s (min k n) := by
  obtain h | h := le_total n k
  · rw [List.take_range'_of_length_le h, min_eq_right h]
  · rw [List.take_range'_of_length_ge h, min_eq_left h]

/-- **A delta is consecutive.** -/
theorem Gapless.delta {db : Db} (h : Gapless db) {c : Cursor} (hm : DeltaMode db c)
    {entries : List Entry} {more : Bool} (hd : db.delta c = .ok (entries, more)) :
    entries.map Entry.seq = List.range' (c.seq + 1) entries.length ∧
      deltaEnd c entries = c.seq + entries.length ∧ deltaEnd c entries ≤ max c.seq db.head ∧
      ((more || decide (deltaEnd c entries < db.head)) = true → entries ≠ []) := by
  obtain ⟨rest, hrows, hall, hne⟩ := bounded_inv hd
  have hmap : entries.map Entry.seq ++ rest.map Entry.seq
      = (List.range' (c.seq + 1) (db.head - c.seq)).take 500 := by
    rw [← h.rows_above hm.floor, ← List.map_take, ← List.map_append, ← hrows, Db.deltaRows]
  rw [take_range'_min] at hmap
  have hlen : entries.length + rest.length = min 500 (db.head - c.seq) := by
    simpa using congrArg List.length hmap
  have hseqs : entries.map Entry.seq = List.range' (c.seq + 1) entries.length := by
    have htake := congrArg (List.take entries.length) hmap
    rw [List.take_left' (by simp), take_range'_min, min_eq_left (by omega)] at htake
    exact htake
  have hend : deltaEnd c entries = c.seq + entries.length := by
    unfold deltaEnd
    rw [← List.getLast?_map, hseqs, List.getLast?_range']
    by_cases h0 : entries.length = 0
    · simp [h0]
    · rw [if_neg h0]
      simp
  refine ⟨hseqs, hend, ?_, fun hmore hnil => ?_⟩
  · rw [hend]
    omega
  · subst hnil
    cases more with
    | true => exact hne rfl rfl
    | false =>
      have hlt : c.seq < db.head := by simpa [hend] using hmore
      have hr : rest.length = 0 := by rw [hall rfl, List.length_nil]
      simp only [List.length_nil] at hlen
      omega

/-- A step of the protocol makes no gap. -/
theorem Gapless.change {k : ℕ} {w w' : World} (hw : Change H k w w') (h : Gapless w.db) :
    Gapless w'.db := by
  cases hw with
  | quiet hw => exact h.quiet hw
  | freeze consumer sid read created updated now hnone hm hl htick hord hc hu hn hf =>
    exact h.freeze hf hm.head.symm
  | issueDelta c entries more hc hm hp hn hl hd =>
    rw [hd]
    refine h.of_cursors fun d hdm hdc => ?_
    obtain rfl : d = c := Table.eq_of_key hdm hc (by simpa using hdc)
    have hb := h.cursors d hdm
    have hend := (h.delta hm hp).2.2.1
    refine ⟨(hb.1.trans hn.le), hend.trans (max_le (hb.1.trans hb.2) le_rfl), fun s _ hcs => ?_⟩
    rw [hm.snapshot] at hcs
    cases hcs
  | issuePage s token page more hs ht hp hn hl hd =>
    rw [hd]
    have hmem {x : Snapshot}
      (hx : x ∈ (w.db.issuePage s.id (token + page.length).toNat).snapshots) :
        ∃ y ∈ w.db.snapshots, x.head = y.head ∧ x.id = y.id := by
      rw [Db.issuePage, Table.mem_update] at hx
      obtain ⟨y, hy, rfl⟩ := hx
      refine ⟨y, hy, ?_⟩
      split <;> exact ⟨rfl, rfl⟩
    refine ⟨h.floor_le, h.present, h.bound, h.cursors, fun x hx => ?_, fun c hc x hx hcx => ?_⟩
    · obtain ⟨y, hy, h1, -⟩ := hmem hx
      exact h1 ▸ h.heads y hy
    · obtain ⟨y, hy, h1, h2⟩ := hmem hx
      exact h1 ▸ h.opened c hc y hy (h2 ▸ hcx)
  | ackSnapshot c s hb =>
    obtain ⟨acked, -, hd⟩ := hb.effect
    rw [hd]
    have hack : Gapless (Db.ackSnapshot s.id acked w.db) := by
      have hmem {x : Snapshot} (hx : x ∈ (Db.ackSnapshot s.id acked w.db).snapshots) :
          ∃ y ∈ w.db.snapshots, x.head = y.head ∧ x.id = y.id := by
        rw [Db.ackSnapshot, Table.mem_update] at hx
        obtain ⟨y, hy, rfl⟩ := hx
        refine ⟨y, hy, ?_⟩
        split <;> exact ⟨rfl, rfl⟩
      refine ⟨h.floor_le, h.present, h.bound, h.cursors, fun x hx => ?_, fun c hc x hx hcx => ?_⟩
      · obtain ⟨y, hy, h1, -⟩ := hmem hx
        exact h1 ▸ h.heads y hy
      · obtain ⟨y, hy, h1, h2⟩ := hmem hx
        exact h1 ▸ h.opened c hc y hy (h2 ▸ hcx)
    refine hack.of_cursors fun d hdm _ => ⟨le_max_left _ _, ?_, fun x _ hcx => by cases hcx⟩
    exact max_le (h.heads s hb.snapshot) (h.cursors c hb.cursor).2
  | advance c seq ha =>
    rw [ha.effect]
    refine h.of_cursors fun d hdm hdc => ?_
    obtain rfl : d = c := Table.eq_of_key hdm ha.cursor (by simpa using hdc)
    exact ⟨ha.issued, (h.cursors d hdm).2, fun s hs hcs => h.opened d hdm s hs hcs⟩

/-- A change of the index makes no gap. -/
theorem Gapless.reindexed {w w' : World} (hw : Reindexed w w') (h : Gapless w.db) :
    Gapless w'.db := by
  obtain ⟨s, i, hd⟩ := hw.db
  rw [hd]
  exact h.of_subset rfl rfl rfl (fun _ hc => hc) fun _ hs => hs

/-- **The log has no gap at any moment of any run.** -/
theorem Run.gapless {start w : World} {past : List (Event H)} (h : Run H start past w)
    (h0 : Gapless start.db) : Gapless w.db :=
  h.invariant (I := fun v => Gapless v.db) (fun _ _ _ hc => Gapless.change hc)
    (fun _ _ => Gapless.reindexed) h0

/-! ## The number of entries -/

/-- A change stores at most `MAX_ENTRIES` entries. -/
theorem Change.entries_le {k : ℕ} {w w' : World} (hw : Change H k w w')
    (h : w.db.entries.rows.length ≤ maxEntries) : w'.db.entries.rows.length ≤ maxEntries := by
  have hsame (he : w'.db.entries = w.db.entries) : w'.db.entries.rows.length ≤ maxEntries := by
    rwa [he]
  cases hw with
  | quiet hw =>
    cases hw with
    | maint hw =>
      rcases hw with hw | ⟨t, hl, ht, hd⟩ | ⟨t, hl, ht, hd⟩
      · obtain ⟨es, fl, ix, se, hd, -, hlen⟩ := hw.frame
        rw [hd]
        exact hlen.trans h
      · obtain ⟨cs, rs, hr, -⟩ := retire_spec t w.db
        exact hsame (by rw [hd, hr])
      · exact hsame (by rw [hd]; rfl)
    | append x ha =>
      have hroom := ha.room
      rw [ha.effect.entries, List.length_append, List.length_map, List.length_singleton]
      omega
    | register consumer now table hl ht hi hd => exact hsame (by rw [hd])
    | touch consumer now hl ht hd => exact hsame (by rw [hd]; rfl)
    | clear c sid hc hs hu hl hd => exact hsame (by rw [hd]; rfl)
  | freeze consumer sid read created updated now hnone hm hl htick hord hc hu hn hf =>
    obtain ⟨sizes, -, snapshots, items, -, -, hd⟩ := hf.sizes
    exact hsame (by rw [hd]; rfl)
  | issueDelta c entries more hc hm hp hn hl hd => exact hsame (by rw [hd]; rfl)
  | issuePage s token page more hs ht hp hn hl hd => exact hsame (by rw [hd]; rfl)
  | ackSnapshot c s hb =>
    obtain ⟨acked, -, hd⟩ := hb.effect
    exact hsame (by rw [hd]; rfl)
  | advance c seq ha => exact hsame (by rw [ha.effect]; rfl)

/-- Over a run the table of entries stays within its limit. -/
theorem Run.entries_le {start w : World} {past : List (Event H)} (h : Run H start past w)
    (h0 : start.db.entries.rows.length ≤ maxEntries) : w.db.entries.rows.length ≤ maxEntries := by
  refine h.invariant (I := fun v => v.db.entries.rows.length ≤ maxEntries)
    (fun _ _ _ => Change.entries_le) (fun v v' hr hv => ?_) h0
  obtain ⟨s, i, hd⟩ := hr.db
  rwa [hd]

/-! ## The deltas of a run -/

/-- Within one request every moment keeps the invariant. -/
theorem Gapless.changes {k : ℕ} {w w' : World} (hw : Changes H k w w') (h : Gapless w.db) :
    Gapless w'.db :=
  keeps_of_reflTransGen (I := fun v => Gapless v.db) (fun _ _ => Gapless.change) hw h

/-- A delta reply is the answer of a `sync` in delta mode. -/
theorem delta_event {e : Event H} {entries : List Entry} {cursor next head : ℕ} {more : Bool}
    (h : e.result = .ok (some (.delta entries cursor next head more))) :
    ∃ v c m, Quiets H e.before.tick e.before v ∧ DeltaMode v.db c ∧
      v.db.delta c = .ok (entries, m) ∧ cursor = c.seq ∧ next = deltaEnd c entries ∧
      more = (m || decide (deltaEnd c entries < v.db.head)) := by
  cases e.is with
  | quiet hq hstay hr => cases hr _ h
  | restart hq hr => exact absurd h (hr _)
  | ack r u consumer res ha hu hstay hk hres =>
    rw [hres] at h
    cases hk with
    | refused hi x he => subst he; cases h
    | replayed s hi hs hown hacked he => subst he; cases h
    | snapshot c s hc hb he => obtain rfl | rfl := he <;> cases h
    | ignored seq hi he => subst he; cases h
    | through c seq hc ha he => obtain rfl | rfl := he <;> cases h
  | sync r u v s res ha hu hb hv hstay hk hres =>
    rw [hres] at h
    have hpage {x : Snapshot} {token : ℤ} {page : List Item} {b : Bool} {z : World}
      {consumer : Text}
        (hs : Served H consumer r x token page b z e.after res) : False := by
      obtain ⟨-, -, rfl⟩ | ⟨-, -, -, rfl | rfl⟩ := hs.effect <;> cases h
    cases hk with
    | refused hm x he => subst he; cases h
    | page z x token page b hs hz hserved => exact (hpage hserved).elim
    | frozen z x sid t1 t2 t3 hs hdue hnone hm hl hord h1 h2 h3 hf hend =>
      obtain ⟨rfl, -⟩ | ⟨-, ⟨-, x, rfl⟩ | ⟨z, x, token, page, b, -, -, hserved⟩⟩ := hend
      · cases h
      · cases h
      · exact (hpage hserved).elim
    | delta c es m hs hdue hd =>
      have hres' : res = .ok (deltaReply v.db c es m) := by
        obtain ⟨-, -, hr⟩ | ⟨-, -, -, hr | hr⟩ := hd.effect
        · exact hr
        · exact hr
        · subst hr
          cases h
      subst hres'
      cases h
      exact ⟨v, c, m, hv, hd.mode, hd.bounded, rfl, rfl, rfl⟩

/-- **The log is complete above its floor, and every delta is consecutive.** At every moment of
every run from an empty store the floor is at most the head, each sequence between them is stored
exactly once and nothing above the head is stored; every cursor is at most its issued mark, which is
at most the head and at most the head of the consumer's open snapshot; and every delta reply of the
run holds exactly the sequences from its cursor to its next cursor, and is not empty if it announces
more. -/
theorem gap_free_log {storeId : Text} {pages : ℕ} {fts : Bool} {past : List (Event H)} {w : World}
    (h : Run H (World.initial storeId pages fts) past w) :
    w.db.floor ≤ w.db.head ∧
      (∀ n, w.db.floor < n → n ≤ w.db.head → (w.db.entries.rows.map Entry.seq).count n = 1) ∧
      (∀ e ∈ w.db.entries, e.seq ≤ w.db.head) ∧
      (∀ c ∈ w.db.cursors, c.seq ≤ c.issued ∧ c.issued ≤ w.db.head ∧
        ∀ s ∈ w.db.snapshots, c.snapshot = some s.id → c.issued ≤ s.head) ∧
      ∀ e ∈ past, ∀ entries cursor next head more,
        e.result = .ok (some (.delta entries cursor next head more)) →
          cursor ≤ next ∧ entries.map Entry.seq = List.range' (cursor + 1) (next - cursor) ∧
          (more = true → entries ≠ []) := by
  have hinit : Gapless (World.initial storeId pages fts).db := Gapless.initial storeId
  have hg := h.gapless hinit
  refine ⟨hg.floor_le, fun n h1 h2 => ?_, hg.bound, fun c hc => ?_, ?_⟩
  · obtain ⟨e, he, rfl⟩ := hg.present n h1 h2
    exact List.count_eq_one_of_mem w.db.entries.nodup (List.mem_map_of_mem he)
  · exact ⟨(hg.cursors c hc).1, (hg.cursors c hc).2, hg.opened c hc⟩
  · intro e he entries cursor next head more hr
    obtain ⟨earlier, -, hrun⟩ := h.before he
    obtain ⟨v, c, m, hv, hm, hd, rfl, rfl, rfl⟩ := delta_event hr
    have hgv : Gapless v.db := (hrun.gapless hinit).changes hv.changes
    obtain ⟨h1, h2, -, h4⟩ := hgv.delta hm hd
    refine ⟨by omega, ?_, h4⟩
    rw [h1, h2, Nat.add_sub_cancel_left]

/-- The run of one note and one `sync`: the entry is stored once, and the log starts at it. -/
theorem gap_free_log_note_sync :
    let w := (play Host.steady (World.initial (lit "store") 10 true)
      [ask (lit "note") (lit "a") [(lit "type", .str (lit "finding")),
        (lit "body", .str (lit "x"))],
        ask (lit "sync") (lit "a") []]).2
    w.db.floor < 1 ∧ 1 ≤ w.db.head ∧ (w.db.entries.rows.map Entry.seq).count 1 = 1 := by
  intro w
  obtain ⟨h1, h2⟩ : w.db.floor < 1 ∧ 1 ≤ w.db.head := by decide +kernel
  exact ⟨h1, h2, (gap_free_log (run_play _ _)).2.1 1 h1 h2⟩

end PeerBridge.Memory
