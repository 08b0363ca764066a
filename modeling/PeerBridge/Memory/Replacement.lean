import PeerBridge.Memory.Appends

/-!
# Replaced entries

An entry that supersedes or revokes another one leaves its sequence on the replaced row. The first
replacement owns that link: a later one is stored as an entry in its own right and points at the
owner of the link through `conflicts_with`. The link is what liveness reads, so a replaced entry
must keep it for as long as its row exists, also when the replacing row is gone.

* `Linked`: one link at most on a row, to a sequence above its own and at most the head.
* `Carried`: between two moments of a run a row keeps its sequence to itself, and once it has a link
  it does not change at all.
* `Appends.stored`: what an append stores, and what it does to the row it replaces.
* `replacement_permanent` collects them over runs, with the agreement of the two liveness
  predicates.

Source: `memory.py`, `Store.note`, `Store.live_clause`, `Store.live`, `Store._forget`.
-/

namespace PeerBridge.Memory

open Py Relational Effects Effects.Prog Relation

variable {H : Host}

/-! ## Links -/

/-- The replacement that owns the link of a row. -/
def Entry.replacedBy (e : Entry) : Option ℕ := e.supersededBy <|> e.revokedBy

/-- One link at most on a row, to a sequence above its own and at most the head. -/
structure Entry.LinkedBelow (e : Entry) (head : ℕ) : Prop where
  own : e.seq ≤ head
  single : e.supersededBy = none ∨ e.revokedBy = none
  above : ∀ n, e.replacedBy = some n → e.seq < n ∧ n ≤ head

/-- Every stored row is linked so. -/
def Linked (db : Db) : Prop := ∀ e ∈ db.entries, e.LinkedBelow db.head

/-- Links below a head are below every later one. -/
theorem Entry.LinkedBelow.mono {e : Entry} {head head' : ℕ} (h : e.LinkedBelow head)
    (hle : head ≤ head') : e.LinkedBelow head' where
  own := h.own.trans hle
  single := h.single
  above n hn := ⟨(h.above n hn).1, (h.above n hn).2.trans hle⟩

/-- A row is not replaced when it has neither link. -/
theorem Entry.replacedBy_eq_none {e : Entry} :
    e.replacedBy = none ↔ e.supersededBy = none ∧ e.revokedBy = none := by
  unfold Entry.replacedBy
  rcases e.supersededBy with _ | n
  · simp
  · simp

/-- A row that was not replaced is replaced by the note that links it. -/
theorem Entry.replacedBy_link {e : Entry} (h : e.replacedBy = none) (l : Link) (seq : ℕ) :
    (e.link l seq).replacedBy = some seq := by
  obtain ⟨hs, hr⟩ := Entry.replacedBy_eq_none.mp h
  rcases l with _ | _
  · simp [Entry.replacedBy, Entry.link]
  · simp [Entry.replacedBy, Entry.link, hs]

/-- The link written onto a row without one. -/
theorem Entry.LinkedBelow.link {e : Entry} {head : ℕ} (h : e.LinkedBelow head)
    (hnone : e.replacedBy = none) (l : Link) : (e.link l (head + 1)).LinkedBelow (head + 1) where
  own := by
    rw [Entry.link_seq]
    exact h.own.trans (Nat.le_succ _)
  single := by
    obtain ⟨hs, hr⟩ := Entry.replacedBy_eq_none.mp hnone
    rcases l with _ | _
    · exact .inr hr
    · exact .inl hs
  above n hn := by
    rw [Entry.replacedBy_link hnone, Option.some.injEq] at hn
    subst hn
    rw [Entry.link_seq]
    exact ⟨Nat.lt_succ_of_le h.own, le_rfl⟩

/-! ## What an append does to the rows before it -/

/-- The replaced entry is a stored row. -/
theorem Appended.found_stored {x : Append} {db db' : Db} (h : Appended H x db db') {t : Entry}
    (ht : x.found = some t) : t ∈ db.entries := by
  rcases h.found with ⟨-, hn⟩ | ⟨v, e, -, -, hv, hf⟩
  · rw [hn] at ht
    cases ht
  · obtain rfl := Option.some.inj (hf.symm.trans ht)
    exact (Db.target_mem hv).1

/-- A row is left alone, or it is the replaced row and had no link before. -/
theorem Appended.relink_inv {x : Append} {db db' : Db} (h : Appended H x db db') {f : Entry}
    (hf : f ∈ db.entries) :
    (x.relink (db.head + 1) f = f ∧ ¬ (x.found = some f ∧ f.replacedBy = none)) ∨
      (x.found = some f ∧ f.replacedBy = none ∧
        x.relink (db.head + 1) f = f.link x.args.linkKind (db.head + 1)) := by
  unfold Append.relink
  by_cases hc : x.conflict = none ∧ x.found.any (fun g => g.seq == f.seq) = true
  · rw [if_pos hc]
    rcases hx : x.found with _ | t
    · rw [hx] at hc
      cases hc.2
    · have hseq : t.seq = f.seq := by simpa [hx] using hc.2
      obtain rfl : t = f := Table.eq_of_key (h.found_stored hx) hf hseq
      have hnone : t.replacedBy = none := by
        simpa [Append.conflict, hx, Entry.replacedBy] using hc.1
      exact .inr ⟨rfl, hnone, rfl⟩
  · rw [if_neg hc]
    refine .inl ⟨rfl, ?_⟩
    rintro ⟨hx, hnone⟩
    apply hc
    constructor
    · simpa [Append.conflict, hx, Entry.replacedBy] using hnone
    · simp [hx]

/-- An append links downwards only. -/
theorem Linked.append {x : Append} {db db' : Db} (ha : Appended H x db db') (h : Linked db) :
    Linked db' := by
  intro e he
  rw [ha.head]
  rcases ha.mem_entries.mp he with ⟨f, hf, rfl⟩ | rfl
  · rcases ha.relink_inv hf with ⟨heq, -⟩ | ⟨-, hnone, heq⟩
    · rw [heq]
      exact (h f hf).mono (Nat.le_succ _)
    · rw [heq]
      exact (h f hf).link hnone _
  · refine ⟨le_rfl, .inl rfl, ?_⟩
    intro n hn
    cases hn

/-- A content that shrinks keeps its links. -/
theorem Linked.shrinks {w w' : World} (hs : Shrinks w w') (h : Linked w.db) : Linked w'.db := by
  intro e he
  rw [hs.head]
  exact h e (hs.entries e he)

/-! ## Between two moments -/

/-- From `db` to `db'`: the head does not go back, a sequence that was allocated is used by no other
row, and a row with a link does not change. -/
structure Carried (db db' : Db) : Prop where
  head : db.head ≤ db'.head
  rows : ∀ e' ∈ db'.entries, e'.seq ≤ db.head →
    ∃ e ∈ db.entries, e.seq = e'.seq ∧ (e.replacedBy ≠ none → e' = e)

/-- Every content carries itself. -/
theorem Carried.refl (db : Db) : Carried db db where
  head := le_rfl
  rows e he _ := ⟨e, he, rfl, fun _ => rfl⟩

/-- Contents carry each other in a chain. -/
theorem Carried.trans {a b c : Db} (h : Carried a b) (h' : Carried b c) : Carried a c where
  head := h.head.trans h'.head
  rows e'' he'' hle := by
    obtain ⟨e', he', hseq', hkeep'⟩ := h'.rows e'' he'' (hle.trans h.head)
    obtain ⟨e, he, hseq, hkeep⟩ := h.rows e' he' (hseq' ▸ hle)
    refine ⟨e, he, hseq.trans hseq', ?_⟩
    intro hr
    obtain rfl := hkeep hr
    exact hkeep' hr

/-- A content that shrinks is carried. -/
theorem Shrinks.carried {w w' : World} (h : Shrinks w w') : Carried w.db w'.db where
  head := h.head.ge
  rows e he _ := ⟨e, h.entries e he, rfl, fun _ => rfl⟩

/-- An append carries what was stored. -/
theorem Appended.carried {x : Append} {db db' : Db} (h : Appended H x db db') : Carried db db' where
  head := by
    rw [h.head]
    exact Nat.le_succ _
  rows e' he' hle := by
    rcases h.mem_entries.mp he' with ⟨f, hf, rfl⟩ | rfl
    · refine ⟨f, hf, (Append.relink_seq x _ f).symm, ?_⟩
      intro hr
      rcases h.relink_inv hf with ⟨heq, -⟩ | ⟨-, hnone, -⟩
      · exact heq
      · exact absurd hnone hr
    · exact absurd hle (Nat.not_succ_le_self _)

/-- One event of a run. -/
theorem Event.carried (e : Event H) : Carried e.before.db e.after.db := by
  rcases e.shrinks_or_appends with h | ⟨s, r, x, v, ha⟩
  · exact h.carried
  · exact ha.maint.shrinks.carried.trans ha.commits.effect.carried

/-- A run carries what was stored. -/
theorem Run.carried {start w : World} {past : List (Event H)} (h : Run H start past w) :
    Carried start.db w.db := by
  induction h with
  | nil => exact .refl _
  | snoc _ e he ih =>
    subst he
    exact ih.trans e.carried

/-- Over every run links go downwards. -/
theorem Run.linked {storeId : Text} {pages : ℕ} {fts : Bool} {past : List (Event H)} {w : World}
    (h : Run H (World.initial storeId pages fts) past w) : Linked w.db := by
  induction h with
  | nil =>
    intro e he
    exact absurd he (Table.not_mem_empty e)
  | snoc _ e he ih =>
    subst he
    rcases e.shrinks_or_appends with hs | ⟨s, r, x, v, ha⟩
    · exact Linked.shrinks hs ih
    · exact Linked.append ha.commits.effect (Linked.shrinks ha.maint.shrinks ih)

/-! ## Liveness -/

/-- Source: `Store.live` -/
def Db.live (db : Db) (horizon : Option ℕ) (now : ℚ) : List Entry :=
  bySeq (db.entries.rows.filter fun e => match horizon with
    | none => e.live now
    | some head => e.liveAt head now)

/-- A row with a link is not live. -/
theorem Entry.not_live {e : Entry} {n : ℕ} (h : e.replacedBy = some n) (now : ℚ) :
    e.live now = false := by
  rcases hs : e.supersededBy with _ | m
  · have hr : e.revokedBy = some n := by simpa [Entry.replacedBy, hs] using h
    simp [Entry.live, hr]
  · simp [Entry.live, hs]

/-- At the head both predicates are the same. -/
theorem Entry.LinkedBelow.liveAt_eq {e : Entry} {head : ℕ} (h : e.LinkedBelow head) (now : ℚ) :
    e.liveAt head now = e.live now := by
  have hown := h.own
  rcases hr : e.replacedBy with _ | n
  · obtain ⟨h1, h2⟩ := Entry.replacedBy_eq_none.mp hr
    simp [Entry.liveAt, Entry.live, h1, h2, hown]
  · rw [Entry.not_live hr]
    obtain ⟨-, hn⟩ := h.above n hr
    rcases hs : e.supersededBy with _ | m
    · have hv : e.revokedBy = some n := by simpa [Entry.replacedBy, hs] using hr
      simp [Entry.liveAt, hv, hn]
    · obtain rfl : m = n := by simpa [Entry.replacedBy, hs] using hr
      simp [Entry.liveAt, hs, hn]

/-! ## The result -/

/-- **What an append stores.** The new row carries no link. If it replaces an entry, its revision is
that entry's plus one and it conflicts with whatever owns that entry's link; an entry that had a
link is left as it was, and one that had none now carries the link to the new row. -/
theorem Appends.stored {e : Event H} {s : Service} {r : Object} {x : Append} {v : World}
    (h : Appends e s r x v) : ∃ row ∈ e.after.db.entries, row.seq = v.db.head + 1 ∧
      row.replacedBy = none ∧
      (x.args.target.truthy = false → row.revision = 1 ∧ row.conflictsWith = none) ∧
      (x.args.target.truthy = true → ∃ val t, Sql.ofJson x.args.target = .ok val ∧
        t ∈ v.db.entries ∧ H.matchesSeq val t.seq = true ∧ row.revision = t.revision + 1 ∧
        row.conflictsWith = t.replacedBy ∧
        (t.replacedBy ≠ none → t ∈ e.after.db.entries) ∧
        (t.replacedBy = none → t.link x.args.linkKind row.seq ∈ e.after.db.entries)) := by
  have ha := h.commits.effect
  refine ⟨x.entry (v.db.head + 1), ha.mem_entries.mpr (.inr rfl), rfl, rfl, ?_, ?_⟩
  · intro ht
    rcases ha.found with ⟨-, hx⟩ | ⟨_, _, ht', -⟩
    · simp [Append.entry, Append.revision, Append.conflict, hx]
    · rw [ht] at ht'
      cases ht'
  · intro ht
    rcases ha.found with ⟨ht', -⟩ | ⟨val, t, -, hval, htarget, hx⟩
    · rw [ht] at ht'
      cases ht'
    · obtain ⟨hmem, hmatch⟩ := Db.target_mem htarget
      refine ⟨val, t, hval, hmem, hmatch, ?_, ?_, ?_, ?_⟩
      · simp [Append.entry, Append.revision, hx]
      · simp [Append.entry, Append.conflict, hx, Entry.replacedBy]
      · intro hr
        rcases ha.relink_inv hmem with ⟨heq, -⟩ | ⟨-, hnone, -⟩
        · exact ha.mem_entries.mpr (.inl ⟨t, hmem, heq.symm⟩)
        · exact absurd hnone hr
      · intro hnone
        rcases ha.relink_inv hmem with ⟨-, hno⟩ | ⟨-, -, heq⟩
        · exact absurd ⟨hx, hnone⟩ hno
        · exact ha.mem_entries.mpr (.inl ⟨t, hmem, heq.symm⟩)

/-- **Replacement is permanent and loses no writer.** At every moment of every run: a row has one
link at most, to a sequence above its own and at most the head; a row that had a link at an earlier
moment and is still stored is the same row, and is not live; every append stores a row without a
link, with the revision after that of the entry it replaces and in conflict with the owner of that
entry's link; and liveness at the head is liveness. -/
theorem replacement_permanent {storeId : Text} {pages : ℕ} {fts : Bool} {past : List (Event H)}
    {w : World} (h : Run H (World.initial storeId pages fts) past w) :
    (∀ e ∈ w.db.entries, (e.supersededBy = none ∨ e.revokedBy = none) ∧
      ∀ n, e.replacedBy = some n → e.seq < n ∧ n ≤ w.db.head) ∧
    (∀ earlier later v, past = earlier ++ later →
      Run H (World.initial storeId pages fts) earlier v →
      Run H v later w → ∀ e ∈ v.db.entries, ∀ n, e.replacedBy = some n →
        ∀ e' ∈ w.db.entries, e'.seq = e.seq → e' = e ∧
          ∀ now, e'.live now = false ∧ e'.liveAt w.db.head now = false) ∧
    (∀ e ∈ past, ∀ s r x v, Appends e s r x v →
      ∃ row ∈ e.after.db.entries, row.seq = v.db.head + 1 ∧
      row.replacedBy = none ∧
      (x.args.target.truthy = false → row.revision = 1 ∧ row.conflictsWith = none) ∧
      (x.args.target.truthy = true → ∃ val t, Sql.ofJson x.args.target = .ok val ∧
        t ∈ v.db.entries ∧ H.matchesSeq val t.seq = true ∧ row.revision = t.revision + 1 ∧
        row.conflictsWith = t.replacedBy ∧
        (t.replacedBy ≠ none → t ∈ e.after.db.entries) ∧
        (t.replacedBy = none → t.link x.args.linkKind row.seq ∈ e.after.db.entries))) ∧
    ∀ now, w.db.live (some w.db.head) now = w.db.live none now ∧
      ∀ e ∈ w.db.entries, e.liveAt w.db.head now = e.live now := by
  have hlinked := h.linked
  refine ⟨fun e he => ⟨(hlinked e he).single, (hlinked e he).above⟩, ?_, ?_, ?_⟩
  · intro earlier later v _ hv hw e he n hn e' he' hseq
    obtain ⟨e0, he0, hseq0, hkeep⟩ := hw.carried.rows e' he' (hseq ▸ (hv.linked e he).own)
    obtain rfl : e0 = e := Table.eq_of_key he0 he (hseq0.trans hseq)
    obtain rfl : e' = e0 := hkeep (by rw [hn]; nofun)
    refine ⟨rfl, fun now => ⟨Entry.not_live hn now, ?_⟩⟩
    rw [(hlinked e' he').liveAt_eq]
    exact Entry.not_live hn now
  · intro e _ s r x v ha
    exact ha.stored
  · intro now
    have heq : ∀ e ∈ w.db.entries, e.liveAt w.db.head now = e.live now := by
      intro e he
      exact (hlinked e he).liveAt_eq now
    refine ⟨?_, heq⟩
    unfold Db.live
    rw [List.filter_congr heq]

/-- A run in which two writers replace the same entry and the first replacement then expires: the
second one was stored in conflict with the first, and the replaced entry never comes back. -/
theorem replacement_permanent_conflict :
    let note (fields : Object) : Act := ask (lit "note") (lit "a")
      ((lit "type", .str (lit "finding")) :: (lit "body", .str (lit "x")) :: fields)
    let acts := [note [], note [(lit "supersedes", .int 1), (lit "expires", .int 5)],
      note [(lit "revokes", .int 1)], .reclaim]
    let w := (play Host.steady (World.initial (lit "store") 10 true) acts).2
    (w.db.entries.rows.map fun e => (e.seq, e.supersededBy, e.revokedBy, e.conflictsWith,
      e.revision))
        = [(1, some 2, none, none, 1), (3, none, none, some 2, 2)] ∧
      ∀ now, w.db.live (some w.db.head) now = w.db.live none now := by
  intro note acts w
  refine ⟨by decide +kernel, fun now => ?_⟩
  exact ((replacement_permanent (run_play (World.initial (lit "store") 10 true) acts)).2.2.2 now).1

end PeerBridge.Memory
