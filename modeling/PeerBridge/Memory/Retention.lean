import PeerBridge.Memory.Accounting
import PeerBridge.Memory.Blocking
import PeerBridge.Memory.FrozenPages
import PeerBridge.Memory.Idempotency

/-!
# What the store promises to keep

Records leave the store in four places: the expiry at a request boundary, the expiry inside an
admission, the pruning of a reclamation and the pruning of a freeze. Each of them compares a stored
time with a time it has read. For each kind of record one lemma says what a committed change leaves
of it (`Change.snapshot`, `Change.cursor`, `Change.tombstone`, `Change.entry`, and `Retained.change`
for the deduplication rows): the record, possibly moved on, or a time was read at which its window
was over. `Run.held` carries that over runs.

The stored times themselves were read from the clock (`Timely`), so with a clock that never goes
back the record that stands in for an older one is never nearer to its end.

Retirement follows the activity a consumer has recorded, and an acknowledgement records its activity
before it stamps the snapshot. A clock that leaps between the two retires the consumer while its
acknowledgement is still to be replayed (`replay_refused_after_a_leap`); apart from that the replay
holds throughout the window.

Source: `memory.py`, `Store.expire`, `Store.reclaim`, `freeze`, `MemoryCommands.register`,
`MemoryCommands.ack`.
-/

namespace PeerBridge.Memory

open Py Relational Effects Effects.Prog Relation

variable {H : Host}

/-! ## One change -/

section change

variable {k : ℕ} {w w' : World}

/-- A snapshot row at a later moment: the same freeze, with pages issued and an acknowledgement at
most, and never nearer to its end. -/
structure Snapshot.Follows (s s' : Snapshot) : Prop where
  id : s'.id = s.id
  consumer : s'.consumer = s.consumer
  head : s'.head = s.head
  created : s'.created = s.created
  items : s'.items = s.items
  acked : ∀ a, s.ackedAt = some a → s'.ackedAt = some a
  stale : ∀ t, s'.stale t = true → s.stale t = true

/-- A snapshot follows itself. -/
theorem Snapshot.Follows.refl (s : Snapshot) : s.Follows s :=
  ⟨rfl, rfl, rfl, rfl, rfl, fun _ h => h, fun _ h => h⟩

/-- Snapshots follow each other in a chain. -/
theorem Snapshot.Follows.trans {s t u : Snapshot} (h : s.Follows t) (h' : t.Follows u) :
    s.Follows u where
  id := h'.id.trans h.id
  consumer := h'.consumer.trans h.consumer
  head := h'.head.trans h.head
  created := h'.created.trans h.created
  items := h'.items.trans h.items
  acked a ha := h'.acked a (h.acked a ha)
  stale t ht := h.stale t (h'.stale t ht)

/-- Issuing a token changes the issued position of a snapshot only. -/
theorem Snapshot.Follows.issue (s : Snapshot) (n : ℕ) : s.Follows { s with issued := n } :=
  ⟨rfl, rfl, rfl, rfl, rfl, fun _ h => h, fun _ h => h⟩

/-- An acknowledgement after the freeze prolongs the life of a snapshot. -/
theorem Snapshot.Follows.ack {s : Snapshot} {a : ℚ} (hs : s.ackedAt = none) (ha : s.created ≤ a) :
    s.Follows { s with ackedAt := some a } where
  id := rfl
  consumer := rfl
  head := rfl
  created := rfl
  items := rfl
  acked b hb := by
    rw [hs] at hb
    cases hb
  stale t ht := by
    have ht' : a < t - ackRetention := by simpa [Snapshot.stale] using ht
    have hend : s.created < t - snapshotTtl := by
      rw [ackRetention] at ht'
      rw [snapshotTtl]
      linarith
    simpa [Snapshot.stale, hs] using hend

/-- What is stored, or a time of the request at which its window was over. -/
def Leaves (H : Host) (k : ℕ) (w' : World) (past : ℚ → Prop) (P : Prop) : Prop :=
  P ∨ ∃ t, Reading H k w' t ∧ past t

/-- **What a change leaves of a snapshot** that was frozen before every time of the request. -/
theorem Change.snapshot (hc : Change H k w w') {s : Snapshot} (hs : s ∈ w.db.snapshots)
    (hfrozen : ∀ t, Reading H k w' t → s.created ≤ t) :
    Leaves H k w' (fun t => s.stale t = true) (∃ s' ∈ w'.db.snapshots, s.Follows s') := by
  have hsame {db : Db} (hd : w'.db = db) (he : db.snapshots = w.db.snapshots) :
      Leaves H k w' (fun t => s.stale t = true) (∃ s' ∈ w'.db.snapshots, s.Follows s') :=
    .inl ⟨s, by rw [hd, he]; exact hs, .refl s⟩
  rcases hc with hq | ⟨consumer, sid, read, created, updated, now, _, _, _, _, _, _, _, hnow, hf⟩ |
    ⟨_, _, _, _, _, _, _, _, hd⟩ | ⟨x, token, page, _, hx, _, _, _, _, hd⟩ | ⟨c, x, hb⟩ | ⟨_, _, ha⟩
  · rcases hq with hm | ⟨x, hc, -⟩ | ⟨_, _, _, _, _, _, hd⟩ | ⟨_, _, _, _, hd⟩ | ⟨_, _, _,
      _, _, _, hd⟩
    · rcases hm with ht | ⟨t, -, ht, hd⟩ | ⟨t, -, -, hd⟩
      · obtain ⟨es, fl, ix, se, hd, -⟩ := ht.frame
        exact hsame hd rfl
      · obtain ⟨cs, rs, hr, -⟩ := retire_spec t w.db
        rw [hr] at hd
        by_cases hst : s.stale t = true
        · exact .inr ⟨t, ht, hst⟩
        · refine .inl ⟨s, ?_, .refl s⟩
          rw [hd]
          exact Table.mem_remove.mpr ⟨hs, by simpa using hst⟩
      · exact hsame hd rfl
    · exact hsame rfl hc.effect.snapshots
    · exact hsame hd rfl
    · exact hsame hd rfl
    · exact hsame hd rfl
  · obtain ⟨sizes, -, snapshots, items, hi, -, hd⟩ := hf.sizes
    by_cases hst : s.stale now = true
    · exact .inr ⟨now, hnow, hst⟩
    · refine .inl ⟨s, ?_, .refl s⟩
      rw [hd]
      exact mem_pruneSnapshots (show s ∈ snapshots from (Table.mem_insert? hi).mpr (.inl hs))
        (by simpa using hst)
  · exact hsame hd rfl
  · refine .inl ⟨if s.id == x.id then { s with issued := (token + page.length).toNat }
      else s, ?_, ?_⟩
    · rw [hd]
      exact (Table.mem_update (f := fun s => { s with issued := (token + page.length).toNat })
        fun _ => rfl).mpr ⟨s, hs, rfl⟩
    · split
      · exact .issue s _
      · exact .refl s
  · obtain ⟨acked, hacked, hd⟩ := hb.effect
    refine .inl ⟨if s.id == x.id then { s with ackedAt := some acked } else s, ?_, ?_⟩
    · rw [hd]
      exact (Table.mem_update (f := fun s => { s with ackedAt := some acked }) fun _ =>
        rfl).mpr ⟨s, hs, rfl⟩
    · by_cases hid : s.id = x.id
      · obtain rfl := Table.eq_of_key hs hb.snapshot hid
        rw [if_pos (by simp)]
        exact .ack hb.unacked (hfrozen acked hacked)
      · rw [if_neg (by simpa using hid)]
        exact .refl s
  · exact hsame ha.effect rfl

/-- A cursor row at a later moment: the same consumer, active no earlier. -/
structure Cursor.Follows (c c' : Cursor) : Prop where
  consumer : c'.consumer = c.consumer
  updated : c.updated ≤ c'.updated

/-- A cursor follows itself. -/
theorem Cursor.Follows.refl (c : Cursor) : c.Follows c := ⟨rfl, le_rfl⟩

/-- **What a change leaves of a cursor**, compared with a row of it that was active before every
time of the request. -/
theorem Change.cursor (hc : Change H k w w') {c d : Cursor} (hdm : d ∈ w.db.cursors)
    (hcd : c.Follows d)
    (hactive : ∀ t, Reading H k w' t → c.updated ≤ t) :
    Leaves H k w' (fun t => c.updated < t - consumerTtl) (∃ c' ∈ w'.db.cursors, c.Follows c') := by
  have hsame {db : Db} (hd : w'.db = db) (he : db.cursors = w.db.cursors) :
      Leaves H k w' (fun t => c.updated < t - consumerTtl) (∃ c' ∈ w'.db.cursors, c.Follows c') :=
    .inl ⟨d, by rw [hd, he]; exact hdm, hcd⟩
  -- An update of some rows that leaves the keys alone and the activity no older.
  have hupd {p : Cursor → Bool} {f : Cursor → Cursor} (hf : ∀ x, (f x).consumer = x.consumer)
      (hd : w'.db.cursors = w.db.cursors.update p f hf) (hle : c.updated ≤ (f d).updated) :
      Leaves H k w' (fun t => c.updated < t - consumerTtl)
      (∃ c' ∈ w'.db.cursors, c.Follows c') := by
    refine .inl ⟨if p d then f d else d, ?_, ?_⟩
    · rw [hd]
      exact (Table.mem_update hf).mpr ⟨d, hdm, rfl⟩
    · split
      · exact ⟨(hf d).trans hcd.consumer, hle⟩
      · exact hcd
  rcases hc with hq | ⟨consumer, sid, read, created, updated, now, _, _, _, _, _, _, hu, _, hf⟩ |
    ⟨_, _, _, _, _, _, _, _, hd⟩ | ⟨_, _, _, _, _, _, _, _, _, hd⟩ | ⟨_, _, hb⟩ | ⟨_, _, ha⟩
  · rcases hq with hm | ⟨x, hc, -⟩ | ⟨_, _, table, _, _, hi, hd⟩ | ⟨consumer, now, _, ht, hd⟩ |
      ⟨_, _, _, _, _, _, hd⟩
    · rcases hm with ht | ⟨t, -, ht, hd⟩ | ⟨t, -, -, hd⟩
      · obtain ⟨es, fl, ix, se, hd, -⟩ := ht.frame
        exact hsame hd rfl
      · obtain ⟨cs, rs, hr, hcs, -⟩ := retire_spec t w.db
        by_cases hold : d.updated < t - consumerTtl
        · exact .inr ⟨t, ht, hcd.updated.trans_lt hold⟩
        · refine .inl ⟨d, ?_, hcd⟩
          rw [hd, hr]
          exact (hcs d).mpr ⟨hdm, hold⟩
      · exact hsame hd rfl
    · exact hsame rfl hc.effect.cursors
    · refine .inl ⟨d, ?_, hcd⟩
      rw [hd]
      exact (Table.mem_insert? hi).mpr (.inl hdm)
    · exact hupd (by intro _; rfl) (congrArg Db.cursors hd) (hactive now ht)
    · exact hupd (by intro _; rfl) (congrArg Db.cursors hd) hcd.updated
  · obtain ⟨_, -, _, _, -, -, hd⟩ := hf.sizes
    exact hupd (by intro _; rfl) (congrArg Db.cursors hd) (hactive updated hu)
  · exact hupd (by intro _; rfl) (congrArg Db.cursors hd) hcd.updated
  · exact hsame hd rfl
  · obtain ⟨_, -, hd⟩ := hb.effect
    exact hupd (by intro _; rfl) (congrArg Db.cursors hd) hcd.updated
  · exact hupd (by intro _; rfl) (congrArg Db.cursors ha.effect) hcd.updated

/-- A tombstone whose reader has no cursor is not written over. -/
theorem mem_foldl_retireOne (now : ℚ) (l : List Cursor) (db : Db) {g : Retired}
    (hg : g ∈ db.retired)
    (hl : ∀ d ∈ l, g.consumer ≠ d.consumer) : g ∈ (l.foldl (Db.retireOne now) db).retired := by
  induction l generalizing db with
  | nil => exact hg
  | cons d rest ih =>
    refine ih (db.retireOne now d) ?_ fun x hx => hl x (by simp [hx])
    exact Table.mem_put.mpr (.inl ⟨hg, hl d (by simp)⟩)

/-- A retirement that is not past its lifetime outlives the closing transaction of an expiry. -/
theorem mem_retire_retired {now : ℚ} {db : Db} {g : Retired} (hg : g ∈ db.retired) (ha : Apart db)
    (hlive : ¬ g.retiredAt < now - retiredTtl) : g ∈ (db.retire now).retired := by
  refine mem_foldl_retireOne now _ _ (Table.mem_remove.mpr ⟨hg, by simpa using hlive⟩) ?_
  intro d hd
  exact ha d (List.mem_filter.mp hd).1 g hg

/-- **What a change leaves of a tombstone.** -/
theorem Change.tombstone (hc : Change H k w w') (ha : Apart w.db) {g : Retired}
    (hg : g ∈ w.db.retired) :
    Leaves H k w' (fun t => g.retiredAt < t - retiredTtl) (g ∈ w'.db.retired) := by
  have hsame {db : Db} (hd : w'.db = db) (he : db.retired = w.db.retired) :
      Leaves H k w' (fun t => g.retiredAt < t - retiredTtl) (g ∈ w'.db.retired) :=
    .inl (by rw [hd, he]; exact hg)
  rcases hc with hq | ⟨_, _, _, _, _, _, _, _, _, _, _, _, _, _, hf⟩ | ⟨_, _, _, _, _, _,
    _, _, hd⟩ |
    ⟨_, _, _, _, _, _, _, _, _, hd⟩ | ⟨_, _, hb⟩ | ⟨_, _, ha⟩
  · rcases hq with hm | ⟨x, hc, -⟩ | ⟨_, _, _, _, _, _, hd⟩ | ⟨_, _, _, _, hd⟩ | ⟨_, _, _,
      _, _, _, hd⟩
    · rcases hm with ht | ⟨t, -, ht, hd⟩ | ⟨t, -, -, hd⟩
      · obtain ⟨es, fl, ix, se, hd, -⟩ := ht.frame
        exact hsame hd rfl
      · by_cases hold : g.retiredAt < t - retiredTtl
        · exact .inr ⟨t, ht, hold⟩
        · exact .inl (hd ▸ mem_retire_retired hg ha hold)
      · exact hsame hd rfl
    · exact hsame rfl hc.effect.retired
    · exact hsame hd rfl
    · exact hsame hd rfl
    · exact hsame hd rfl
  · obtain ⟨_, -, _, _, -, -, hd⟩ := hf.sizes
    exact hsame hd rfl
  · exact hsame hd rfl
  · exact hsame hd rfl
  · obtain ⟨_, -, hd⟩ := hb.effect
    exact hsame hd rfl
  · exact hsame ha.effect rfl

/-- A row of the log at a later moment: nothing but its links may have changed. -/
def Entry.Follows (e e' : Entry) : Prop :=
  e' = { e with supersededBy := e'.supersededBy, revokedBy := e'.revokedBy }

/-- A row follows itself. -/
theorem Entry.Follows.refl (e : Entry) : e.Follows e := rfl

/-- Rows follow each other in a chain. -/
theorem Entry.Follows.trans {a b c : Entry} (h : a.Follows b) (h' : b.Follows c) : a.Follows c := by
  unfold Entry.Follows at h h' ⊢
  rw [h', h]

/-- A row keeps its lifetime. -/
theorem Entry.Follows.expires {e e' : Entry} (h : e.Follows e') : e'.expires = e.expires := by
  rw [h]

/-- A row follows the links an append sets in it. -/
theorem Append.follows_relink (x : Append) (seq : ℕ) (e : Entry) : e.Follows (x.relink seq e) := by
  unfold Append.relink
  split
  · rcases x.args.linkKind with _ | _
    · exact rfl
    · exact rfl
  · exact .refl e

/-- **What a change leaves of an entry.** -/
theorem Change.entry (hc : Change H k w w') {e : Entry} (he : e ∈ w.db.entries) :
    Leaves H k w' (fun t => e.expires.before t = true) (∃ e' ∈ w'.db.entries, e.Follows e') := by
  have hsame {db : Db} (hd : w'.db = db) (hf : db.entries = w.db.entries) :
      Leaves H k w' (fun t => e.expires.before t = true) (∃ e' ∈ w'.db.entries, e.Follows e') :=
    .inl ⟨e, by rw [hd, hf]; exact he, .refl e⟩
  rcases hc with hq | ⟨_, _, _, _, _, _, _, _, _, _, _, _, _, _, hf⟩ | ⟨_, _, _, _, _, _,
    _, _, hd⟩ |
    ⟨_, _, _, _, _, _, _, _, _, hd⟩ | ⟨_, _, hb⟩ | ⟨_, _, ha⟩
  · rcases hq with hm | ⟨x, hc, -⟩ | ⟨_, _, _, _, _, _, hd⟩ | ⟨_, _, _, _, hd⟩ | ⟨_, _, _,
      _, _, _, hd⟩
    · rcases hm with ht | ⟨t, -, -, hd⟩ | ⟨t, -, -, hd⟩
      · rcases ht with hi | ⟨batch, usable, t, -, ht, hb, -, hd⟩ | ⟨-, hd⟩
        · exact hsame hi.db rfl
        · by_cases hold : e.expires.before t = true
          · exact .inr ⟨t, ht, hold⟩
          · refine .inl ⟨e, ?_, .refl e⟩
            have hrow : w'.db.entries = w.db.entries.remove fun e => batch.any fun b =>
                b.seq == e.seq := by
              rw [hd]
              rcases usable with _ | _
              · rfl
              · rfl
            rw [hrow]
            refine Table.mem_remove.mpr ⟨he, ?_⟩
            rw [List.any_eq_false]
            intro b hbm hseq
            -- The batch holds expired rows only, and this row is not one.
            obtain rfl := Table.eq_of_key (t := w.db.entries) (hb b hbm).1 he (by simpa using hseq)
            exact hold (hb b hbm).2
        · exact hsame hd rfl
      · obtain ⟨cs, rs, hr, -⟩ := retire_spec t w.db
        exact hsame (hd.trans hr) rfl
      · exact hsame hd rfl
    · exact .inl ⟨_, hc.effect.mem_entries.mpr (.inl ⟨e, he, rfl⟩), x.follows_relink _ e⟩
    · exact hsame hd rfl
    · exact hsame hd rfl
    · exact hsame hd rfl
  · obtain ⟨_, -, _, _, -, -, hd⟩ := hf.sizes
    exact hsame hd rfl
  · exact hsame hd rfl
  · exact hsame hd rfl
  · obtain ⟨_, -, hd⟩ := hb.effect
    exact hsame hd rfl
  · exact hsame ha.effect rfl

end change

/-! ## What the rows record -/

/-- A stored cursor comes from one that was stored: the same reader, as active as it was or active
at a time of the request. -/
def Cursor.From (H : Host) (k : ℕ) (w w' : World) (c' : Cursor) : Prop :=
  ∃ c ∈ w.db.cursors, c'.consumer = c.consumer
  ∧ (c'.updated = c.updated ∨ Reading H k w' c'.updated)

/-- The times of the readers' rows were read from the clock, and their keys can be bound as text. -/
structure Recorded (H : Host) (w : World) : Prop where
  created : ∀ s ∈ w.db.snapshots, Reading H 0 w s.created
  updated : ∀ c ∈ w.db.cursors, Reading H 0 w c.updated
  reader : ∀ c ∈ w.db.cursors, ∃ n, measure c.consumer = .ok n
  grave : ∀ g ∈ w.db.retired, ∃ n, measure g.consumer = .ok n

section recorded

variable {k : ℕ} {w w' : World}

/-- A new store holds no times yet. -/
theorem Recorded.initial (storeId : Text) (pages : ℕ) (fts : Bool) :
    Recorded H (World.initial storeId pages fts) where
  created s hs := absurd hs (Table.not_mem_empty s)
  updated c hc := absurd hc (Table.not_mem_empty c)
  reader c hc := absurd hc (Table.not_mem_empty c)
  grave g hg := absurd hg (Table.not_mem_empty g)

/-- It is enough to know where the rows come from. -/
theorem Recorded.of_rows (h : Recorded H w) (ht : w.tick ≤ w'.tick)
    (hs : ∀ s' ∈ w'.db.snapshots, (∃ s ∈ w.db.snapshots, s'.created = s.created)
      ∨ Reading H k w' s'.created)
    (hc : ∀ c' ∈ w'.db.cursors, c'.From H k w w' ∨
      (Reading H k w' c'.updated ∧ ∃ n, measure c'.consumer = .ok n))
    (hr : ∀ g ∈ w'.db.retired, g ∈ w.db.retired ∨ ∃ c ∈ w.db.cursors, c.consumer = g.consumer) :
    Recorded H w' where
  created s' hs' := by
    rcases hs s' hs' with ⟨s, hsm, he⟩ | hread
    · exact he ▸ (h.created s hsm).mono le_rfl ht
    · exact hread.mono (Nat.zero_le k) le_rfl
  updated c' hc' := by
    rcases hc c' hc' with ⟨c, hcm, -, he | hread⟩ | ⟨hread, -⟩
    · exact he ▸ (h.updated c hcm).mono le_rfl ht
    · exact hread.mono (Nat.zero_le k) le_rfl
    · exact hread.mono (Nat.zero_le k) le_rfl
  reader c' hc' := by
    rcases hc c' hc' with ⟨c, hcm, he, -⟩ | ⟨-, hn⟩
    · rw [he]
      exact h.reader c hcm
    · exact hn
  grave g hg := by
    rcases hr g hg with hg' | ⟨c, hcm, he⟩
    · exact h.grave g hg'
    · rw [← he]
      exact h.reader c hcm

/-- Steps of the protocol set times that were read from the clock. -/
theorem Recorded.change (hc : Change H k w w') (h : Recorded H w) : Recorded H w' := by
  have hkeepS {db : Db} (hd : w'.db = db) (he : db.snapshots = w.db.snapshots) :
    ∀ s' ∈ w'.db.snapshots,
      (∃ s ∈ w.db.snapshots, s'.created = s.created) ∨ Reading H k w' s'.created := by
    intro s hs
    rw [hd, he] at hs
    exact .inl ⟨s, hs, rfl⟩
  have hkeepC {db : Db} (hd : w'.db = db) (he : db.cursors = w.db.cursors) : ∀ c' ∈ w'.db.cursors,
      c'.From H k w w' ∨ (Reading H k w' c'.updated ∧ ∃ n, measure c'.consumer = .ok n) := by
    intro c hcm
    rw [hd, he] at hcm
    exact .inl ⟨c, hcm, rfl, .inl rfl⟩
  have hkeepR {db : Db} (hd : w'.db = db) (he : db.retired = w.db.retired) : ∀ g ∈ w'.db.retired,
      g ∈ w.db.retired ∨ ∃ c ∈ w.db.cursors, c.consumer = g.consumer := by
    intro g hg
    rw [hd, he] at hg
    exact .inl hg
  -- An update of the cursors that leaves the keys alone.
  have hupd {p : Cursor → Bool} {f : Cursor → Cursor} (hf : ∀ x, (f x).consumer = x.consumer)
      (hd : w'.db.cursors = w.db.cursors.update p f hf)
      (hu : ∀ x, (f x).updated = x.updated ∨ Reading H k w' (f x).updated) : ∀ c' ∈ w'.db.cursors,
      c'.From H k w w' ∨ (Reading H k w' c'.updated ∧ ∃ n, measure c'.consumer = .ok n) := by
    intro c' hcm
    rw [hd] at hcm
    obtain ⟨c, hc, rfl⟩ := (Table.mem_update hf).mp hcm
    refine .inl ⟨c, hc, ?_⟩
    split
    · exact ⟨hf c, hu c⟩
    · exact ⟨rfl, .inl rfl⟩
  have ht : w.tick ≤ w'.tick := hc.later.tick
  rcases hc with hq | ⟨consumer, sid, read, created, updated, now, _, _, _, _, _, hcr, hu, _, hf⟩ |
    ⟨_, _, _, _, _, _, _, _, hd⟩ | ⟨x, token, page, _, hx, _, _, _, _, hd⟩ | ⟨_, x, hb⟩ | ⟨_, _, ha⟩
  · rcases hq with hm | ⟨x, hc, -⟩ | ⟨consumer, now, table, _, hn, hi, hd, hroom, _⟩ |
      ⟨consumer, now, _, hn, hd⟩ | ⟨_, _, _, _, _, _, hd⟩
    · rcases hm with htr | ⟨t, -, -, hd⟩ | ⟨t, -, -, hd⟩
      · obtain ⟨es, fl, ix, se, hd, -⟩ := htr.frame
        exact h.of_rows ht (hkeepS hd rfl) (hkeepC hd rfl) (hkeepR hd rfl)
      · obtain ⟨cs, rs, hr, hcs, -⟩ := retire_spec t w.db
        refine h.of_rows (k := k) ht (fun s hs => ?_) (fun c hcm => ?_) (fun g hg => ?_)
        · rw [hd, hr] at hs
          exact .inl ⟨s, (Table.mem_remove.mp hs).1, rfl⟩
        · rw [hd, hr] at hcm
          exact .inl ⟨c, ((hcs c).mp hcm).1, rfl, .inl rfl⟩
        · rw [hd] at hg
          rcases retire_origin t w.db hg with hg | ⟨c, hcm, -, he⟩
          · exact .inl hg
          · exact .inr ⟨c, hcm, he⟩
      · exact h.of_rows ht (hkeepS hd rfl) (hkeepC hd rfl) (hkeepR hd rfl)
    · exact h.of_rows ht (hkeepS rfl hc.effect.snapshots) (hkeepC rfl hc.effect.cursors)
        (hkeepR rfl hc.effect.retired)
    · refine h.of_rows ht (hkeepS hd rfl) (fun c hcm => ?_) (hkeepR hd rfl)
      rw [hd] at hcm
      rcases (Table.mem_insert? hi).mp hcm with hcm | rfl
      · exact .inl ⟨c, hcm, rfl, .inl rfl⟩
      · obtain ⟨n, hmeasure, -⟩ := hroom
        exact .inr ⟨hn, n, hmeasure⟩
    · exact h.of_rows ht (hkeepS hd rfl)
        (hupd (by intro _; rfl) (congrArg Db.cursors hd) fun _ => .inr hn) (hkeepR hd rfl)
    · exact h.of_rows ht (hkeepS hd rfl)
        (hupd (by intro _; rfl) (congrArg Db.cursors hd) fun _ => .inl rfl) (hkeepR hd rfl)
  · obtain ⟨_, -, snapshots, items, hi, -, hd⟩ := hf.sizes
    refine h.of_rows ht (fun s hs => ?_)
      (hupd (by intro _; rfl) (congrArg Db.cursors hd) fun _ => .inr hu) (hkeepR hd rfl)
    rw [hd] at hs
    rcases (Table.mem_insert? hi).mp (Table.mem_remove.mp hs).1 with hs | rfl
    · exact .inl ⟨s, hs, rfl⟩
    · exact .inr hcr
  · exact h.of_rows ht (hkeepS hd rfl)
      (hupd (by intro _; rfl) (congrArg Db.cursors hd) fun _ => .inl rfl) (hkeepR hd rfl)
  · refine h.of_rows ht (fun s' hs => ?_) (hkeepC hd rfl) (hkeepR hd rfl)
    rw [hd] at hs
    obtain ⟨s, hsm, rfl⟩ := (Table.mem_update (f := fun s : Snapshot =>
      { s with issued := (token + page.length).toNat }) fun _ => rfl).mp hs
    refine .inl ⟨s, hsm, ?_⟩
    split <;> rfl
  · obtain ⟨acked, -, hd⟩ := hb.effect
    refine h.of_rows ht (fun s' hs => ?_)
      (hupd (by intro _; rfl) (congrArg Db.cursors hd) fun _ => .inl rfl) (hkeepR hd rfl)
    rw [hd] at hs
    obtain ⟨s, hsm, rfl⟩ := (Table.mem_update (f := fun s : Snapshot =>
      { s with ackedAt := some acked }) fun _ => rfl).mp hs
    refine .inl ⟨s, hsm, ?_⟩
    split <;> rfl
  · exact h.of_rows ht (hkeepS ha.effect rfl)
      (hupd (by intro _; rfl) (congrArg Db.cursors ha.effect) fun _ => .inl rfl)
      (hkeepR ha.effect rfl)

/-- **The readers' rows record times of the clock, at every moment of every run.** -/
theorem Recorded.reached {storeId : Text} {pages : ℕ} {fts : Bool} {past : List (Event H)}
    {w : World}
    (h : Run H (World.initial storeId pages fts) past w) : Recorded H w := by
  refine h.invariant (I := Recorded H) (fun _ _ _ => Recorded.change) (fun v v' hr hv => ?_)
    (.initial storeId pages fts)
  obtain ⟨s, x, hd⟩ := hr.db
  refine hv.of_rows (k := 0) hr.tick (fun s hs => ?_) (fun c hc => ?_) (fun g hg => ?_)
  · rw [hd] at hs
    exact .inl ⟨s, hs, rfl⟩
  · rw [hd] at hc
    exact .inl ⟨c, hc, rfl, .inl rfl⟩
  · rw [hd] at hg
    exact .inl hg

end recorded

/-! ## Runs -/

/-- The record is stored, or a time at which its window is over has passed. -/
def Held (H : Host) (past : ℚ → Prop) (P : Db → Prop) (w : World) : Prop :=
  P w.db ∨ ∃ i, i < w.tick ∧ past (H.clock i)

section held

variable {u v : World} {past : ℚ → Prop} {P : Db → Prop}

/-- A chain of changes of one request holds what one change leaves. -/
theorem Held.changes {k : ℕ} {w w' : World} (hc : Changes H k w w')
    (hstep : ∀ x y, Change H k x y → P x.db → Leaves H k y past (P y.db)) (h : Held H past P w) :
    Held H past P w' := by
  refine keeps_of_reflTransGen (I := Held H past P) ?_ hc h
  rintro x y hxy (hp | ⟨i, hi, ht⟩)
  · rcases hstep x y hxy hp with hp' | ⟨t, ⟨i, -, hi, rfl⟩, ht⟩
    · exact .inl hp'
    · exact .inr ⟨i, hi, ht⟩
  · exact .inr ⟨i, hi.trans_le hxy.later.tick, ht⟩

/-- **What every change leaves of a record, a run holds.** The changes are those of requests that
began after the first moment. -/
theorem Run.held {future : List (Event H)} (h : Run H u future v)
    (hstep : ∀ k x y, u.tick ≤ k → Change H k x y → P x.db → Leaves H k y past (P y.db))
    (hindex : ∀ db s i, P db → P { db with search := s, indexedThrough := i }) (h0 : P u.db) :
    Held H past P v := by
  induction h with
  | nil => exact .inl h0
  | snoc h e he ih =>
    subst he
    rcases perform_changes e.performed with hc | hr
    · exact ih.changes hc (hstep _ · · h.tick_le)
    · rcases ih with hp | ⟨i, hi, ht⟩
      · obtain ⟨s, x, hd⟩ := hr.db
        rw [Held, hd]
        exact .inl (hindex _ _ _ hp)
      · exact .inr ⟨i, hi.trans_le hr.tick, ht⟩

/-- A record whose window is not over at any moment so far is stored. -/
theorem Held.stored (h : Held H past P v) (hlive : ∀ i, i < v.tick → ¬ past (H.clock i)) :
    P v.db := by
  rcases h with h | ⟨i, hi, ht⟩
  · exact h
  · exact absurd ht (hlive i hi)

end held

/-! ## The records -/

section records

variable {u v w : World} {past future : List (Event H)} {storeId : Text} {pages : ℕ} {fts : Bool}

/-- A time read before `u` is not after a time of a request that began after `u`. -/
theorem Reading.le_of_later (hmono : Monotone H.clock) {k : ℕ} {s t : ℚ} (hs : Reading H 0 u s)
    (hk : u.tick ≤ k) (ht : Reading H k w t) : s ≤ t := by
  obtain ⟨i, -, hi, rfl⟩ := hs
  obtain ⟨j, hj, -, rfl⟩ := ht
  exact hmono (hi.le.trans (hk.trans hj))

/-- What a change of a later request leaves of the successors of a snapshot. -/
theorem Snapshot.Follows.change (hmono : Monotone H.clock) {s : Snapshot}
    (hs : Reading H 0 u s.created)
    {k : ℕ} {x y : World} (hk : u.tick ≤ k) (hc : Change H k x y)
    (h : ∃ s' ∈ x.db.snapshots, s.Follows s') :
    Leaves H k y (fun t => s.stale t = true) (∃ s' ∈ y.db.snapshots, s.Follows s') := by
  obtain ⟨s', hm, hf⟩ := h
  have hfrozen : ∀ t, Reading H k y t → s'.created ≤ t := by
    intro t ht
    rw [hf.created]
    exact hs.le_of_later hmono hk ht
  rcases hc.snapshot hm hfrozen with ⟨s'', hm', hf'⟩ | ⟨t, ht, hst⟩
  · exact .inl ⟨s'', hm', hf.trans hf'⟩
  · exact .inr ⟨t, ht, hf.stale t hst⟩

/-- What a change of a later request leaves of the successors of a cursor. -/
theorem Cursor.Follows.change (hmono : Monotone H.clock) {c : Cursor} (hc : Reading H 0 u c.updated)
    {k : ℕ} {x y : World} (hk : u.tick ≤ k) (hch : Change H k x y)
    (h : ∃ c' ∈ x.db.cursors, c.Follows c') :
    Leaves H k y (fun t => c.updated < t - consumerTtl) (∃ c' ∈ y.db.cursors, c.Follows c') := by
  obtain ⟨d, hd, hf⟩ := h
  exact hch.cursor hd hf fun t ht => hc.le_of_later hmono hk ht

/-- A row stays until a clock reading is past its lifetime. -/
theorem Entry.Follows.change {e : Entry} {k : ℕ} {x y : World} (hc : Change H k x y)
    (h : ∃ e' ∈ x.db.entries, e.Follows e') :
    Leaves H k y (fun t => e.expires.before t = true) (∃ e' ∈ y.db.entries, e.Follows e') := by
  obtain ⟨e', hm, hf⟩ := h
  rcases hc.entry hm with ⟨e'', hm', hf'⟩ | ⟨t, ht, hb⟩
  · exact .inl ⟨e'', hm', hf.trans hf'⟩
  · exact .inr ⟨t, ht, hf.expires ▸ hb⟩

/-- A tombstone, in a store where no consumer has a cursor beside its tombstone. -/
theorem Retired.change {g : Retired} {k : ℕ} {x y : World} (hc : Change H k x y)
    (h : g ∈ x.db.retired ∧ Budgeted x.db) :
    Leaves H k y (fun t => g.retiredAt < t - retiredTtl) (g ∈ y.db.retired ∧ Budgeted y.db) := by
  rcases hc.tombstone h.2.apart h.1 with hg | hout
  · exact .inl ⟨hg, h.2.change hc⟩
  · exact .inr hout

end records

/-! ## Requests of a reader -/

/-- An operation of a reader, and the program that answers it. -/
inductive Answers (H : Host) (r : Object) : Text → M Reply → Prop
  | sync : Answers H r (lit "sync") (sync H r)
  | ack : Answers H r (lit "ack") (ack H r)

/-- A reader's request runs behind its maintenance, unless that fails. -/
theorem Asks.answered {e : Event H} {op : Text} {p : M Reply} {r : Object} {consumer : Text}
    (ha : Asks e.act op r consumer) (hp : Answers H r op p) :
    (∃ x, e.result = .error x ∧ Upkeep x) ∨ ∃ u res, maybeExpire H e.before = (.ok (), u) ∧
      p u = (res, e.after) ∧ e.result = res.map some := by
  obtain ⟨s, pid, hact, hval⟩ := ha.act
  have hperf := e.performed
  rw [hact] at hperf
  obtain ⟨res, hcmd, hres⟩ := request_inv hperf
  have hro : readOnly (r.get (lit "op")) = false := by
    rcases hp with _ | _
    · exact not_readOnly ha.op (by decide)
    · exact not_readOnly ha.op (by decide)
  have hdisp : dispatch H s r pid (r.get (lit "op")) = p := by
    rw [Json.isText_iff.mp ha.op]
    rcases hp with _ | _
    · rfl
    · rfl
  have hlift : (Prog.lift (validateTarget s r) : M Unit) e.before = (.ok (), e.before) := by
    rw [hval]
    rfl
  unfold command at hcmd
  rw [bind_ok hlift, hdisp, maintain, if_neg (by simp [hro])] at hcmd
  obtain ⟨x, h1, rfl⟩ | ⟨_, u, h1, h2⟩ := bind_inv hcmd
  · exact .inl ⟨x, hres, upkeep_maybeExpire _ _ _ h1⟩
  · exact .inr ⟨u, res, h1, h2, hres⟩

/-- An operation of the protocol takes time. -/
theorem Answers.later {r : Object} {op : Text} {p : M Reply} (hp : Answers H r op p) {w w' : World}
    {res : Except Exc Reply} (h : p w = (res, w')) : w.tick ≤ w'.tick := by
  rcases hp with _ | _
  · exact (sync_changes h).later.tick
  · exact (ack_changes h).later.tick

/-- A retired consumer is refused. -/
theorem register_retired {consumer : Text} {n : ℕ} {g : Retired} {w : World}
    (hm : measure consumer = .ok n) (hc : w.db.cursors.find consumer = none)
    (hg : w.db.retired.find consumer = some g) :
    ∃ d, register H consumer w = (.error (refusal .consumerRetired d), w) := by
  have hlift : (Prog.lift (measure consumer) : M ℕ) w = (.ok n, w) := by rw [hm]; rfl
  unfold register
  rw [bind_ok hlift, database_bind, hc]
  simp only [hg]
  exact ⟨_, rfl⟩

/-- **A retired consumer is told so**, by either operation. -/
theorem Answers.retired {r : Object} {op : Text} {p : M Reply} (hp : Answers H r op p)
    {g : Retired} {n : ℕ}
    {w w' : World} {res : Except Exc Reply} (hn : measure g.consumer = .ok n)
    (hg : g ∈ w.db.retired) (ha : Apart w.db) (hcon : consumerOf r = .ok g.consumer)
    (h : p w = (res, w')) : ∃ d, res = .error (refusal .consumerRetired d) := by
  have hlift : (Prog.lift (consumerOf r) : M Text) w = (.ok g.consumer, w) := by
    rw [hcon]
    rfl
  have hnone : w.db.cursors.find g.consumer = none :=
    Table.find_eq_none.mpr fun c hc => (ha c hc g hg).symm
  obtain ⟨d, hreg⟩ := register_retired (H := H) hn hnone (Table.find_eq_some.mpr ⟨hg, rfl⟩)
  refine ⟨d, ?_⟩
  rcases hp with _ | _
  · have hb : beginSync H r w = (.error (refusal .consumerRetired d), w) := by
      unfold beginSync
      rw [bind_ok hlift, bind_error hreg]
    unfold Memory.sync at h
    rw [bind_error hb] at h
    exact (congrArg Prod.fst h).symm
  · unfold Memory.ack at h
    rw [bind_ok hlift, bind_error hreg] at h
    exact (congrArg Prod.fst h).symm

/-- The value of a request names the snapshot with this id. -/
structure Names (H : Host) (v : Json) (sid : Text) : Prop where
  truthy : v.truthy = true
  bound : ∃ b, Sql.ofJson v = .ok b ∧ H.textAffinity b = some sid

/-- A value that names a snapshot finds it. -/
theorem Names.state {v : Json} {sid : Text} (h : Names H v sid) (w : World) :
    snapshotState H v w = (.ok (w.db.snapshots.find sid), w) := by
  obtain ⟨b, hb, ht⟩ := h.bound
  have hlift : (Prog.lift (Sql.ofJson v) : M Sql) w = (.ok b, w) := by
    rw [hb]
    rfl
  unfold snapshotState
  rw [bind_ok hlift, ht]
  rfl

/-- A touch raises an error of upkeep at most. -/
theorem upkeep_touch (consumer : Text) : Raises Upkeep (touch H consumer) :=
  raises_controlled (fun _ h => h)
    (Raises.bind upkeep_write fun _ => Raises.bind raises_time fun _ => raises_execute _)

/-- **A stored acknowledgement is replayed** for a consumer that has a cursor, unless the storage
fails. -/
theorem ack_replays {r : Object} {s : Snapshot} {c : Cursor} {n : ℕ} {w w' : World}
    {res : Except Exc Reply} (hn : measure s.consumer = .ok n) (hs : s ∈ w.db.snapshots)
    (hacked : s.ackedAt.isSome = true) (hc : c ∈ w.db.cursors) (hcs : c.consumer = s.consumer)
    (hcon : consumerOf r = .ok s.consumer) (hid : Names H (r.get (lit "snapshot_id")) s.id)
    (h : ack H r w = (res, w')) :
    res = .ok (.ackedSnapshot s.head s.id true) ∨ ∃ x, res = .error x ∧ Upkeep x := by
  have hlift : (Prog.lift (consumerOf r) : M Text) w = (.ok s.consumer, w) := by
    rw [hcon]
    rfl
  unfold ack at h
  rw [bind_ok hlift, bind_ok (register_found hn (Table.find_eq_some.mpr ⟨hc, hcs⟩))] at h
  obtain ⟨x, h1, rfl⟩ | ⟨_, u, h1, h2⟩ := bind_inv h
  · exact .inr ⟨x, rfl, upkeep_touch _ _ _ _ h1⟩
  left
  -- Recording the activity leaves the snapshots alone.
  have hsu : s ∈ u.db.snapshots := by
    obtain ⟨hi, -⟩ | ⟨-, _, -, hd, -⟩ := touch_inv h1
    · rw [hi.db]
      exact hs
    · rw [hd]
      exact hs
  dsimp only at h2
  rw [if_pos hid.truthy] at h2
  unfold ackSnapshot at h2
  rw [bind_ok (hid.state u), Table.find_eq_some.mpr ⟨hsu, rfl⟩] at h2
  dsimp only at h2
  rw [if_neg (by simp), if_pos hacked] at h2
  exact (congrArg Prod.fst h2).symm

/-! ## Head counts -/

/-- At most `n` readers more, whichever of the two tables holds them, and at most `n` cursors
more. -/
structure Adds (n : ℕ) (db db' : Db) : Prop where
  live : db'.cursors.rows.length ≤ db.cursors.rows.length + n
  all : db'.readers (fun _ => 1) ≤ db.readers (fun _ => 1) + n

/-- Additions of two stretches add up. -/
theorem Adds.trans {m n : ℕ} {a b c : Db} (h : Adds m a b) (h' : Adds n b c) :
    Adds (m + n) a c where
  live := by
    have h1 := h.live
    have h2 := h'.live
    omega
  all := by
    have h1 := h.all
    have h2 := h'.all
    omega

/-- Where cursors and retirements stay the same nobody is added. -/
theorem Adds.of_eq {db db' : Db} (hc : db'.cursors = db.cursors) (hr : db'.retired = db.retired) :
    Adds 0 db db' := by
  constructor
  · rw [hc, Nat.add_zero]
  · rw [Db.readers, Db.readers, hc, hr, Nat.add_zero]

/-- An update of the cursors that leaves the keys alone. -/
theorem Adds.update {db db' : Db} {p : Cursor → Bool} {f : Cursor → Cursor}
    (hf : ∀ c, (f c).consumer = c.consumer) (hc : db'.cursors = db.cursors.update p f hf)
    (hr : db'.retired = db.retired) : Adds 0 db db' := by
  have hsum := db.cursors.sum_update (p := p) (g := f) hf (f := fun _ => 1) fun _ => rfl
  constructor
  · rw [hc]
    simp [Table.update]
  · simp only [Db.readers, hc, hr, hsum]
    exact le_rfl

/-- The closing transaction of an expiry adds nobody. -/
theorem Adds.retire (now : ℚ) (db : Db) : Adds 0 db (db.retire now) := by
  obtain ⟨cs, rs, hd, hcs, -⟩ := foldl_retireOne now
    (db.cursors.rows.filter fun c => c.updated < now - consumerTtl) (db.swept now)
  constructor
  · -- The remaining cursors are a part of those there were.
    have hrows : (db.retire now).cursors.rows.map Cursor.consumer ⊆ db.cursors.rows.map
        Cursor.consumer := by
      intro k hk
      obtain ⟨c, hc, rfl⟩ := List.mem_map.mp hk
      have hc' : c ∈ cs := by
        have heq : (db.retire now).cursors = cs := congrArg Db.cursors hd
        rw [← heq]
        exact hc
      exact List.mem_map_of_mem ((hcs c).mp hc').1
    have hnd : ((db.retire now).cursors.rows.map Cursor.consumer).Nodup :=
      (db.retire now).cursors.nodup
    have hlen := (List.subperm_of_subset hnd hrows).length_le
    simpa using hlen
  · have h1 := (readers_retire (fun _ => 1) now db).1
    have h2 := db.retired.sum_remove_le (fun r => r.retiredAt < now - retiredTtl) fun _ => 1
    have h3 : (db.swept now).readers (fun _ => 1) ≤ db.readers fun _ => 1 := by
      simp only [Db.readers, Db.swept, Db.dropOrphans]
      omega
    exact h1.trans h3

instance : Std.Refl (Adds 0) := ⟨fun _ => .of_eq rfl rfl⟩

instance : IsTrans Db (Adds 0) := ⟨fun _ _ _ h h' => Adds.trans h h'⟩

/-- No statement of maintenance or of a reader's requests adds a reader. -/
theorem statements_adds : Statements (Adds 0) where
  forget batch fts usable db := by
    rcases usable with _ | _
    · exact .of_eq rfl rfl
    · exact .of_eq rfl rfl
  invalidate _ := .of_eq rfl rfl
  retire := Adds.retire
  prune _ _ := .of_eq rfl rfl
  touch _ _ _ := .update (by intro _; rfl) rfl rfl
  clear _ _ := .update (by intro _; rfl) rfl rfl
  issueDelta _ _ _ := .update (by intro _; rfl) rfl rfl
  issuePage _ _ _ := .of_eq rfl rfl
  ack _ _ _ _ _ _ := .update (by intro _; rfl) rfl rfl
  advance _ _ _ := .update (by intro _; rfl) rfl rfl

/-- One registration adds one reader. -/
theorem adds_insertCursor (consumer : Text) {w w' : World}
    (h : insertCursor H consumer w = (.ok (), w')) :
    Adds 1 w.db w'.db := by
  obtain ⟨v, now, table, hv, -, -, ht, hd⟩ := insertCursor_inv h
  have hrows := (Table.insert?_eq_some.mp ht).2
  have hsum := Table.sum_insert? ht fun _ => 1
  rw [hd, hv.db] at *
  constructor
  · simp [hrows]
  · simp only [Db.readers, hsum]
    omega

/-- The bounds of a registration. -/
structure Peopled (db : Db) : Prop where
  live : db.cursors.rows.length ≤ maxConsumers
  all : db.cursors.rows.length + db.retired.rows.length ≤ maxConsumers + maxRetired

/-- The readers are the cursors and the retirements. -/
theorem readers_one (db : Db) :
    db.readers (fun _ => 1) = db.cursors.rows.length + db.retired.rows.length := by
  simp [Db.readers]

/-- A stretch that adds nobody keeps the bound on the readers. -/
theorem Peopled.adds {db db' : Db} (h : Peopled db) (ha : Adds 0 db db') : Peopled db' where
  live := ha.live.trans h.live
  all := by
    have hall := ha.all
    rw [readers_one, readers_one] at hall
    exact hall.trans h.all

/-- The bounds are kept. -/
def KeepsPeopled (db db' : Db) : Prop := Peopled db → Peopled db'

instance : Std.Refl KeepsPeopled := ⟨fun _ h => h⟩

instance : IsTrans Db KeepsPeopled := ⟨fun _ _ _ h h' hp => h' (h hp)⟩

/-- No statement of maintenance or of the protocol adds a reader. -/
theorem statements_keepsPeopled : Statements KeepsPeopled :=
  statements_adds.mono fun _ _ ha hp => hp.adds ha

/-- **A registration keeps the bounds**: it checks them before it makes room. -/
theorem keepsPeopled_register (consumer : Text) : Keeps (Between KeepsPeopled)
    (register H consumer) := by
  intro w hw
  rcases hrun : register H consumer w with ⟨r, w'⟩
  unfold register at hrun
  obtain ⟨e, -, -, rfl⟩ | ⟨m, -, h1⟩ := lift_bind_inv hrun
  · exact hw
  rw [database_bind] at h1
  rcases hc : w.db.cursors.find consumer with _ | c
  swap
  · rw [hc] at h1
    cases h1
    exact hw
  rcases hg : w.db.retired.find consumer with _ | g
  swap
  · simp only [hc, hg] at h1
    cases h1
    exact hw
  simp only [hc, hg] at h1
  split at h1
  · cases h1
    exact hw
  rename_i hroom
  rw [not_or] at hroom
  obtain ⟨e, -, -, rfl⟩ | ⟨_, -, h2⟩ := lift_bind_inv h1
  · exact hw
  obtain ⟨e, -, -, rfl⟩ | ⟨_, -, h3⟩ := lift_bind_inv h2
  · exact hw
  -- Making room adds nobody, and the row of the consumer is one.
  have hone {need : ℕ} {r : Except Exc Unit} {u : World}
      (hm : mutation H need 0 false (insertCursor H consumer) w = (r, u)) : Adds 1 w.db u.db := by
    obtain ⟨hm, -⟩ | ⟨v, _, x, hm, -, hb, -, hi, -⟩ := mutation_inv (keeps_insertCursor consumer) hm
    · have hadd := statements_adds.maints hm
      exact ⟨hadd.live.trans (Nat.le_succ _), hadd.all.trans (Nat.le_succ _)⟩
    · have htotal := Adds.trans (statements_adds.maints hm) (adds_insertCursor consumer hb)
      rwa [Nat.zero_add, ← hi.db] at htotal
  have hbounds {db : Db} (ha : Adds 1 w.db db) : Peopled db := by
    have hall := ha.all
    rw [readers_one, readers_one] at hall
    exact ⟨ha.live.trans (by omega), by omega⟩
  obtain ⟨e, h4, -⟩ | ⟨_, u, h4, h5⟩ := bind_inv h3
  · exact hbounds (hone h4)
  · cases h5
    exact hbounds (hone h4)

/-- Every durable step of a request keeps the bounds. -/
theorem respects_keepsPeopled : Respects H (Between KeepsPeopled) where
  toAttends := statements_keepsPeopled.attends
    (fun need consumer sid head members sizes _ =>
      between_mutate need (keeps_freezeRows consumer sid head members sizes) fun v _ v' h _ hp => by
        obtain ⟨x, _, _, _, _, _, hx, -, -, -, -, -, -, -, hd⟩ := freezeRows_inv h
        refine hp.adds ?_
        rw [hd, hx.db]
        exact .update (by intro _; rfl) rfl rfl)
    keepsPeopled_register
  append need control consumer a pid d key mark due := by
    refine between_mutate need (keeps_appendRow consumer a pid d key mark due) fun _ _ _ h _ => ?_
    refine (appendRow_keeps between_write between_time ?_ consumer a pid d key mark due).run h
    exact fun f hf => between_execute fun db hp => hp.adds (.of_eq (hf.cursors db) (hf.retired db))

/-- **The bounds of a registration hold at every moment between the events of a run.** -/
theorem Peopled.reached {storeId : Text} {pages : ℕ} {fts : Bool} {past : List (Event H)}
    {w : World}
    (h : Run H (World.initial storeId pages fts) past w) : Peopled w.db := by
  induction h with
  | nil => exact ⟨Nat.zero_le _, Nat.zero_le _⟩
  | snoc h e he ih =>
    subst he
    obtain ⟨act, w, res, w', hp⟩ := e
    dsimp only at ih ⊢
    cases act with
    | request s r pid =>
      obtain ⟨res', hcmd, -⟩ := request_inv hp
      by_cases hop : (r.get (lit "op")).isText (lit "recover") = false
      · exact (respects_keepsPeopled.command s r pid hop).run hcmd ih
      · rw [(keeps_recovering s r pid (by simpa using hop)).run hcmd |>.db]
        exact ih
    | expire =>
      exact (Keeps.bind statements_keepsPeopled.maintains.expire fun _ => Keeps.pure _).run hp ih
    | reclaim =>
      exact (Keeps.bind statements_keepsPeopled.maintains.reclaim fun _ => Keeps.pure _).run hp ih
    | restart fts =>
      obtain ⟨-, s, i, hd⟩ := (Keeps.bind (keeps_reopen fts) fun _ => Keeps.pure _).run hp
      rw [hd]
      exact ⟨ih.live, ih.all⟩

/-! ## The result -/

/-- No window of the record is over at any moment before `w`. -/
def Lasts (H : Host) (w : World) (past : ℚ → Prop) : Prop := ∀ i, i < w.tick → ¬ past (H.clock i)

/-- What lasts from a moment on lasts from every later one. -/
theorem Lasts.mono {w w' : World} {past : ℚ → Prop} (h : Lasts H w' past) (ht : w.tick ≤ w'.tick) :
    Lasts H w past := fun i hi => h i (hi.trans_le ht)

/-- The records of `u` within their windows are stored at `v`. -/
structure Keeping (H : Host) (u v : World) : Prop where
  snapshots : ∀ s ∈ u.db.snapshots, Lasts H v (fun t => s.stale t = true) →
    ∃ s' ∈ v.db.snapshots, s.Follows s'
  idem : ∀ i ∈ u.db.idem, Lasts H v (fun t => i.deadline < t) → i ∈ v.db.idem
  retired : ∀ g ∈ u.db.retired, Lasts H v (fun t => g.retiredAt < t - retiredTtl) → g ∈ v.db.retired
  cursors : ∀ c ∈ u.db.cursors, Lasts H v (fun t => c.updated < t - consumerTtl) →
    ∃ c' ∈ v.db.cursors, c.Follows c'
  entries : ∀ e ∈ u.db.entries, Lasts H v (fun t => e.expires.before t = true) →
    ∃ e' ∈ v.db.entries, e.Follows e'

/-- **A run keeps every record within its window**, up to any moment inside the request that
follows. -/
theorem Run.keeping (hmono : Monotone H.clock) {storeId : Text} {pages : ℕ} {fts : Bool}
    {past future : List (Event H)} {u v w : World}
    (h : Run H (World.initial storeId pages fts) past u)
    (hf : Run H u future v) (hc : Changes H v.tick v w) : Keeping H u w := by
  have hrec : Recorded H u := .reached h
  have huv : u.tick ≤ v.tick := hf.tick_le
  refine ⟨fun s hs hlast => ?_, fun i hi hlast => ?_, fun g hg hlast => ?_, fun c hcm hlast => ?_,
    fun e he hlast => ?_⟩
  · have hstep := fun k x y (hk : u.tick ≤ k) (hxy : Change H k x y) =>
      Snapshot.Follows.change hmono (hrec.created s hs) hk hxy
    have hv := hf.held (P := fun db => ∃ s' ∈ db.snapshots, s.Follows s') hstep (fun _ _ _ hp => hp)
      ⟨s, hs, .refl s⟩
    exact (hv.changes hc fun x y => hstep _ x y huv).stored hlast
  · have hv := hf.retained (i := i) (.inl hi)
    have hw : Retained H i w := keeps_of_reflTransGen (I := Retained H i)
      (fun _ _ => Retained.change) hc hv
    rcases hw with hw | ⟨j, hj, hlt⟩
    · exact hw
    · exact absurd hlt (hlast j hj)
  · have hv := hf.held (P := fun db => g ∈ db.retired ∧ Budgeted db)
      (fun k x y _ hxy => Retired.change hxy)
      (fun _ _ _ hp => ⟨hp.1, hp.2.entries, hp.2.logical, hp.2.apart⟩)
      ⟨hg, Budgeted.reached h.steps⟩
    exact ((hv.changes hc fun x y hxy => Retired.change hxy).stored hlast).1
  · have hstep := fun k x y (hk : u.tick ≤ k) (hxy : Change H k x y) =>
      Cursor.Follows.change hmono (hrec.updated c hcm) hk hxy
    have hv := hf.held (P := fun db => ∃ c' ∈ db.cursors, c.Follows c') hstep (fun _ _ _ hp => hp)
      ⟨c, hcm, .refl c⟩
    exact (hv.changes hc fun x y => hstep _ x y huv).stored hlast
  · have hv := hf.held (P := fun db => ∃ e' ∈ db.entries, e.Follows e')
      (fun k x y _ hxy => Entry.Follows.change hxy) (fun _ _ _ hp => hp) ⟨e, he, .refl e⟩
    exact (hv.changes hc fun x y hxy => Entry.Follows.change hxy).stored hlast

/-- **The store keeps what it promised.** In every run with a clock that never goes back, between
any two moments of it: a snapshot, a deduplication row, a tombstone, a consumer and an entry stored
at the first are stored at the second, unless their window was over at some moment before it. So an
acknowledgement that was recorded is replayed to its consumer with the same cursor for as long as
its retention and the consumer's own activity last, and a consumer with a tombstone is told that it
was retired for as long as the tombstone lasts; only a failure of the storage stands in the way of
either answer. At every moment the consumers and the tombstones are within their limits, and no
consumer has both. -/
theorem retention_promises (hmono : Monotone H.clock) {storeId : Text} {pages : ℕ} {fts : Bool}
    {past : List (Event H)} {u : World} (h : Run H (World.initial storeId pages fts) past u) :
    (∀ future v, Run H u future v → Keeping H u v) ∧
    (∀ s ∈ u.db.snapshots, ∀ a, s.ackedAt = some a → ∀ c ∈ u.db.cursors, c.consumer = s.consumer →
      ∀ future, ∀ e : Event H, Run H u future e.before → ∀ r, Asks e.act (lit "ack") r s.consumer →
      Names H (r.get (lit "snapshot_id")) s.id → Lasts H e.after (fun t => a < t - ackRetention) →
      Lasts H e.after (fun t => c.updated < t - consumerTtl) →
      e.result = .ok (some (.ackedSnapshot s.head s.id true)) ∨
        ∃ x, e.result = .error x ∧ Upkeep x) ∧
    (∀ g ∈ u.db.retired, ∀ future, ∀ e : Event H, Run H u future e.before → ∀ op r p,
      Answers H r op p →
      Asks e.act op r g.consumer → Lasts H e.after (fun t => g.retiredAt < t - retiredTtl) →
      (∃ d, e.result = .error (refusal .consumerRetired d)) ∨ ∃ x, e.result = .error x ∧ Upkeep x) ∧
    u.db.cursors.rows.length ≤ maxConsumers ∧
    u.db.cursors.rows.length + u.db.retired.rows.length ≤ maxConsumers + maxRetired ∧
    ∀ c ∈ u.db.cursors, ∀ g ∈ u.db.retired, g.consumer ≠ c.consumer := by
  have hrec : Recorded H u := .reached h
  have hpeople : Peopled u.db := .reached h
  refine ⟨fun future v hf => h.keeping hmono hf .refl, ?_, ?_, hpeople.live, hpeople.all,
    (Budgeted.reached h.steps).apart⟩
  · intro s hs a hacked c hc hcs future e hf r ha hid hlast hactive
    rcases ha.answered .ack with hfail | ⟨v, res, hv, hrun, hres⟩
    · exact .inr hfail
    have hm := maybeExpire_maint hv
    have htick : v.tick ≤ e.after.tick := (ack_changes hrun).later.tick
    have hkeep : Keeping H u v := h.keeping hmono hf hm.quiets.changes
    have hlast' : Lasts H v (fun t => s.stale t = true) := by
      intro i hi hst
      exact hlast i (hi.trans_le htick) (by simpa [Snapshot.stale, hacked] using hst)
    obtain ⟨s', hs', hfs⟩ := hkeep.snapshots s hs hlast'
    obtain ⟨c', hc', hfc⟩ := hkeep.cursors c hc (hactive.mono htick)
    obtain ⟨n, hn⟩ := hrec.reader c hc
    rw [hcs, ← hfs.consumer] at hn
    have hcs' : c'.consumer = s'.consumer := by rw [hfc.consumer, hcs, hfs.consumer]
    have hcon : consumerOf r = .ok s'.consumer := by rw [ha.consumer, hfs.consumer]
    rw [← hfs.id] at hid
    have hacked' : s'.ackedAt.isSome = true := by rw [hfs.acked a hacked]; rfl
    rw [hres, ← hfs.head, ← hfs.id]
    rcases ack_replays hn hs' hacked' hc' hcs' hcon hid hrun with rfl | ⟨x, rfl, hx⟩
    · exact .inl rfl
    · exact .inr ⟨x, rfl, hx⟩
  · intro g hg future e hf op r p hp ha hlast
    rcases ha.answered hp with hfail | ⟨v, res, hv, hrun, hres⟩
    · exact .inr hfail
    left
    have hm := maybeExpire_maint hv
    have htick : v.tick ≤ e.after.tick := hp.later hrun
    have hkeep : Keeping H u v := h.keeping hmono hf hm.quiets.changes
    have hbudget : Budgeted v.db :=
      keeps_of_reflTransGen (I := fun x : World => Budgeted x.db) (fun _ _ hc hb => hb.change hc)
        hm.quiets.changes (Budgeted.reached (h.append hf).steps)
    obtain ⟨n, hn⟩ := hrec.grave g hg
    obtain ⟨d, rfl⟩ :=
      hp.retired hn (hkeep.retired g hg (hlast.mono htick)) hbudget.apart ha.consumer hrun
    exact ⟨d, hres⟩

/-! ## A first snapshot, acknowledged twice -/

/-- The event of an act at a moment. -/
def Act.event (H : Host) (a : Act) (w : World) : Event H :=
  ⟨a, w, (a.perform H w).1, (a.perform H w).2, rfl⟩

/-- The acknowledgement of a snapshot by the consumer `a`. -/
def ackOf (sid : Text) : Act := ask (lit "ack") (lit "a") [(lit "snapshot_id", .str sid)]

/-- A first snapshot is read, -/
def synced (H : Host) : Event H :=
  (ask (lit "sync") (lit "a") []).event H (World.initial (lit "store") 10 true)

/-- acknowledged, -/
def ackedOnce (H : Host) : Event H := (ackOf (lit "snapshot-22")).event H (synced H).after

/-- and acknowledged again. -/
def ackedTwice (H : Host) : Event H := (ackOf (lit "snapshot-22")).event H (ackedOnce H).after

/-- A synchronisation and one acknowledgement, as a run. -/
theorem run_ackedOnce :
    Run H (World.initial (lit "store") 10 true) [synced H, ackedOnce H] (ackedOnce H).after :=
  (Run.nil.snoc (synced H) rfl).snoc (ackedOnce H) rfl

/-- The request of the second acknowledgement. -/
theorem asks_ackedTwice (H : Host) : ∃ r, Asks (ackedTwice H).act (lit "ack") r (lit "a") ∧
    Names H (r.get (lit "snapshot_id")) (lit "snapshot-22") :=
  ⟨_, ⟨⟨_, _, rfl, by decide⟩, by decide, by decide⟩, by decide, .text (lit "snapshot-22"),
    by decide, rfl⟩

/-- The second acknowledgement meets the acknowledged snapshot and the cursor of its consumer. -/
theorem stored_ackedOnce {w : World} {acked active : ℚ}
    (hs : w.db.snapshots.rows.map (fun s => (s.id, s.consumer, s.head, s.ackedAt))
      = [(lit "snapshot-22", lit "a", 0, some acked)])
    (hc : w.db.cursors.rows.map (fun c => (c.consumer, c.updated)) = [(lit "a", active)]) :
    ∃ s ∈ w.db.snapshots, ∃ c ∈ w.db.cursors, s.id = lit "snapshot-22" ∧ s.consumer = lit "a" ∧
      s.head = 0 ∧ s.ackedAt = some acked ∧ c.consumer = lit "a" ∧ c.updated = active := by
  obtain ⟨s, hsm, he⟩ := List.mem_map.mp (hs ▸ List.mem_singleton.mpr rfl)
  obtain ⟨c, hcm, hd⟩ := List.mem_map.mp (hc ▸ List.mem_singleton.mpr rfl)
  simp only [Prod.mk.injEq] at he hd
  exact ⟨s, hsm, c, hcm, he.1, he.2.1, he.2.2.1, he.2.2.2, hd.1, hd.2⟩

/-- A window that is not over at `w` was not over before. -/
theorem Lasts.of_le (hmono : Monotone H.clock) {w : World} {now start length : ℚ}
    (h : H.clock w.tick = now)
    (hle : now ≤ start + length) : Lasts H w (fun t => start < t - length) := by
  intro i hi ht
  have hlast : H.clock i ≤ now := h ▸ hmono hi.le
  linarith

/-- Seconds later the acknowledgement is still to be replayed. -/
theorem retention_promises_replayed :
    Keeping Host.steady (ackedOnce .steady).after (ackedTwice .steady).after ∧
      ((ackedTwice .steady).result = .ok (some (.ackedSnapshot 0 (lit "snapshot-22") true)) ∨
        ∃ x, (ackedTwice .steady).result = .error x ∧ Upkeep x) := by
  obtain ⟨hkeep, hreplay, -⟩ := retention_promises monotone_steady (run_ackedOnce (H := .steady))
  obtain ⟨htick, hsnap, hcur⟩ :
      Host.steady.clock (ackedTwice .steady).after.tick = 1700000059 ∧
      (ackedOnce .steady).after.db.snapshots.rows.map (fun s =>
        (s.id, s.consumer, s.head, s.ackedAt))
        = [(lit "snapshot-22", lit "a", 0, some 1700000048)] ∧
      (ackedOnce .steady).after.db.cursors.rows.map (fun c => (c.consumer, c.updated))
        = [(lit "a", 1700000041)] := by
    decide +kernel
  obtain ⟨s, hs, c, hc, hid, hcon, hhead, hacked, hcc, hact⟩ := stored_ackedOnce hsnap hcur
  obtain ⟨r, ha, hn⟩ := asks_ackedTwice .steady
  refine ⟨hkeep [ackedTwice .steady] _ (Run.nil.snoc _ rfl), ?_⟩
  rw [← hid] at hn
  rw [← hcon] at ha
  have hanswer := hreplay s hs _ hacked c hc (hcc.trans hcon.symm) []
    (ackedTwice .steady) .nil r ha hn
    (.of_le monotone_steady htick (by norm_num [ackRetention]))
    (.of_le monotone_steady htick (by rw [hact]; norm_num [consumerTtl]))
  rwa [hhead, hid] at hanswer

/-- A host whose clock leaps by 31 days between the questions 45 and 46, the way the clock of a
process does that was suspended. -/
def Host.leaping : Host :=
  { Host.steady with clock := fun n => if n < 46 then 1700000000 + n else 1700000000 + n
    + 31 * 86400 }

/-- The leaping clock never goes back. -/
theorem monotone_leaping : Monotone Host.leaping.clock := by
  intro m n h
  have hq : (m : ℚ) ≤ n := by exact_mod_cast h
  simp only [Host.leaping]
  split <;> split
  · linarith
  · linarith
  · omega
  · linarith

/-- **A replay that is refused.** The clock leaps between the activity an acknowledgement records
and the time it stamps on the snapshot. Seconds later the acknowledgement is within its retention,
but its consumer has been retired. -/
theorem replay_refused_after_a_leap :
    Monotone Host.leaping.clock ∧ ∃ past u s a r d, ∃ e : Event Host.leaping,
      Run Host.leaping (World.initial (lit "store") 10 true) past u ∧ s ∈ u.db.snapshots ∧
      s.ackedAt = some a ∧ e.before = u ∧ Asks e.act (lit "ack") r s.consumer ∧
      Names Host.leaping (r.get (lit "snapshot_id")) s.id ∧
      Lasts Host.leaping e.after (fun t => a < t - ackRetention) ∧
      e.result = .error (refusal .consumerRetired d) := by
  obtain ⟨htick, hsnap, hcur, hcode⟩ :
      Host.leaping.clock (ackedTwice .leaping).after.tick = 1702678459 ∧
      (ackedOnce .leaping).after.db.snapshots.rows.map (fun s =>
        (s.id, s.consumer, s.head, s.ackedAt))
        = [(lit "snapshot-22", lit "a", 0, some 1702678448)] ∧
      (ackedOnce .leaping).after.db.cursors.rows.map (fun c => (c.consumer, c.updated))
        = [(lit "a", 1700000041)] ∧
      (refusalOf (ackedTwice .leaping).result).map Prod.fst = some .consumerRetired := by
    decide +kernel
  obtain ⟨s, hs, -, -, hid, hcon, -, hacked, -⟩ := stored_ackedOnce hsnap hcur
  obtain ⟨r, ha, hn⟩ := asks_ackedTwice .leaping
  obtain ⟨⟨_, d⟩, hr, rfl⟩ := Option.map_eq_some_iff.mp hcode
  have hd := refusalOf_eq_some hr
  rw [← hcon] at ha
  rw [← hid] at hn
  have hlast : Lasts Host.leaping (ackedTwice .leaping).after (fun t =>
      1702678448 < t - ackRetention) :=
    .of_le monotone_leaping htick (by norm_num [ackRetention])
  exact ⟨monotone_leaping, [synced .leaping, ackedOnce .leaping], (ackedOnce .leaping).after, s,
    1702678448, r, d,
    ackedTwice .leaping, run_ackedOnce, hs, hacked, rfl, ha, hn, hlast, hd⟩

end PeerBridge.Memory
