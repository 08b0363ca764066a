import PeerBridge.Memory.Changes

/-!
# The protocol transitions of the memory store

What the transactions of `sync` and `ack` can do, one lemma for each function of `MemoryCommands`,
and the relation `Change H k` that collects them with the appends and the maintenance steps. The
`Quiet` changes move no reader; a freeze, the two issuances and the two acknowledgements stand
beside them, because what a reader receives and where its cursor stands follow from them.

`sync_inv` and `ack_inv` say what one request amounts to: quiet changes, and then an error, a page,
a delta or an acknowledgement. `command_changes` is the summary every invariant over runs starts
from: whatever a request does is a chain of changes.

Source: `memory.py`, `freeze`, class `MemoryCommands`.
-/

namespace PeerBridge.Memory

open Py Relational Effects Effects.Prog Relation

variable {H : Host}

/-! ## The committed changes -/

/-- The members of a freeze that read the content at `w`. -/
def World.members (H : Host) (w : World) : List Entry := w.db.frozen (H.clock w.tick)

/-- The content after a freeze: the snapshot row, its items, the cursor that points at it, and the
consumer's outdated snapshots pruned. -/
structure Froze (H : Host) (consumer sid : Text) (read : World) (created updated now : ℚ)
    (db db' : Db) : Prop where
  sizes : ∃ sizes, frozenSizes (read.members H) = .ok sizes ∧
    ∃ snapshots items, db.snapshots.insert?
        ⟨sid, consumer, read.db.head, created, (read.members H).length, 0, none⟩ = some snapshots ∧
      items.rows = db.items.rows ++ frozenItems sid (read.members H) sizes ∧
      db' = Db.pruneSnapshots consumer now (Db.openSnapshot consumer sid updated
        { db with snapshots := snapshots, items := items })
  charged : ∃ sizes ids, frozenSizes (read.members H) = .ok sizes ∧
    measureAll [.str sid, .str consumer] = .ok ids ∧ Room db (sizes.sum + (ids + 96)) 0 false

/-- The open snapshot can still be paged at `now`. -/
def Db.usable (db : Db) (consumer sid : Text) (now : ℚ) : Bool :=
  match db.snapshots.find sid with
  | none => false
  | some s => s.consumer == consumer && (s.ackedAt.isSome || decide (now - s.created ≤ snapshotTtl))

/-- The open snapshot was found unusable since question `k`: at every time, or at one the clock
gave. -/
def Abandoned (H : Host) (k : ℕ) (w w' : World) (consumer sid : Text) : Prop :=
  (∀ now, w.db.usable consumer sid now = false) ∨
    ∃ now, Reading H k w' now ∧ w.db.usable consumer sid now = false

/-- A committed change that moves no reader, in a request that began at question `k`. -/
inductive Quiet (H : Host) (k : ℕ) (w w' : World) : Prop
  | maint (h : Maint H k w w')
  | append (x : Append) (h : Commits H k x w w')
      (hd : noteChecks H x.consumer x.args x.pid = .ok x.draft)
  | register (consumer : Text) (now : ℚ) (table : Table Text Cursor Cursor.consumer)
      (hl : Later w w') (ht : Reading H k w' now)
      (hi : w.db.cursors.insert? (Cursor.fresh consumer now) = some table)
      (hd : w'.db = { w.db with cursors := table })
      (hroom : ∃ n, measure consumer = .ok n ∧ Room w.db (n + 64 + (n + 64)) 0 false)
      (hgrave : ∀ g ∈ w.db.retired, g.consumer ≠ consumer)
  | touch (consumer : Text) (now : ℚ) (hl : Later w w') (ht : Reading H k w' now)
      (hd : w'.db = w.db.touch consumer now)
  | clear (c : Cursor) (sid : Text) (hc : c ∈ w.db.cursors) (hs : c.snapshot = some sid)
      (hu : Abandoned H k w w' c.consumer sid) (hl : Later w w')
      (hd : w'.db = w.db.clearSnapshot c.consumer)

/-- A cursor in delta mode: no snapshot is open or due. -/
structure DeltaMode (db : Db) (c : Cursor) : Prop where
  snapshot : c.snapshot = none
  resnapshot : c.resnapshot = false
  bootstrapped : c.bootstrapped = true
  floor : db.floor ≤ c.seq

/-- The delta of a cursor: its entries, and whether the byte budget cut it. -/
def Db.delta (db : Db) (c : Cursor) : Except Exc (List Entry × Bool) :=
  bounded Entry.lenEncode (db.deltaRows c.seq)

/-- The last sequence of a delta. -/
def deltaEnd (c : Cursor) (entries : List Entry) : ℕ := (entries.getLast?.map Entry.seq).getD c.seq

/-- The page of a snapshot at a token. -/
def Db.page (db : Db) (sid : Text) (token : ℤ) : Except Exc (List Item × Bool) :=
  bounded (fun i : Item => .ok i.bytes) (db.pageRows sid token)

/-- The acknowledgement of the open snapshot `s` of the cursor `c`. -/
structure Bootstraps (H : Host) (k : ℕ) (c : Cursor) (s : Snapshot) (w w' : World) : Prop where
  cursor : c ∈ w.db.cursors
  snapshot : s ∈ w.db.snapshots
  opened : c.snapshot = some s.id
  own : s.consumer = c.consumer
  unacked : s.ackedAt = none
  live : ∃ t, Reading H k w' t ∧ t - s.created ≤ snapshotTtl
  complete : s.items ≤ s.issued
  later : Later w w'
  effect : ∃ acked, Reading H k w' acked ∧
    w'.db = Db.bootstrap c.consumer s.head (max s.head c.issued) (Db.ackSnapshot s.id acked w.db)

/-- The acknowledgement of the sequence `seq` by the cursor `c`. -/
structure Advances (c : Cursor) (seq : ℕ) (w w' : World) : Prop where
  cursor : c ∈ w.db.cursors
  snapshot : c.snapshot = none
  resnapshot : c.resnapshot = false
  bootstrapped : c.bootstrapped = true
  le : c.seq ≤ seq
  issued : seq ≤ c.issued
  later : Later w w'
  effect : w'.db = w.db.advance c.consumer seq

/-- A committed change. -/
inductive Change (H : Host) (k : ℕ) (w w' : World) : Prop
  | quiet (h : Quiet H k w w')
  | freeze (consumer sid : Text) (read : World) (created updated now : ℚ)
      (hnone : ∃ c ∈ read.db.cursors, c.consumer = consumer ∧ c.snapshot = none)
      (hm : Maints H k read w) (hl : Later w w') (htick : k ≤ read.tick)
      (hord : Monotone H.clock → created ≤ updated)
      (hc : Reading H k w' created) (hu : Reading H k w' updated) (hn : Reading H k w' now)
      (hf : Froze H consumer sid read created updated now w.db w'.db)
  | issueDelta (c : Cursor) (entries : List Entry) (more : Bool) (hc : c ∈ w.db.cursors)
      (hm : DeltaMode w.db c) (hp : w.db.delta c = .ok (entries, more))
      (hn : c.issued < deltaEnd c entries) (hl : Later w w')
      (hd : w'.db = w.db.issueDelta c.consumer (deltaEnd c entries))
  | issuePage (s : Snapshot) (token : ℤ) (page : List Item) (more : Bool)
      (hs : s ∈ w.db.snapshots) (ht : token ≤ s.issued)
      (hp : w.db.page s.id token = .ok (page, more)) (hn : s.issued < token + page.length)
      (hl : Later w w') (hd : w'.db = w.db.issuePage s.id (token + page.length).toNat)
  | ackSnapshot (c : Cursor) (s : Snapshot) (h : Bootstraps H k c s w w')
  | advance (c : Cursor) (seq : ℕ) (h : Advances c seq w w')

/-- A quiet step takes time. -/
theorem Quiet.later {k : ℕ} {w w' : World} (h : Quiet H k w w') : Later w w' := by
  cases h with
  | maint h => exact h.later
  | append x h => exact h.later
  | register _ _ _ hl => exact hl
  | touch _ _ hl => exact hl
  | clear _ _ _ _ _ hl => exact hl

/-- A step of the protocol takes time. -/
theorem Change.later {k : ℕ} {w w' : World} (h : Change H k w w') : Later w w' := by
  cases h with
  | quiet h => exact h.later
  | freeze _ _ _ _ _ _ _ _ hl => exact hl
  | issueDelta _ _ _ _ _ _ _ hl => exact hl
  | issuePage _ _ _ _ _ _ _ _ hl => exact hl
  | ackSnapshot _ _ h => exact h.later
  | advance _ _ h => exact h.later

/-- An abandoned bootstrap stays one when counted from an earlier moment. -/
theorem Abandoned.mono {k k' : ℕ} (hk : k' ≤ k) {w w' : World} {consumer sid : Text}
    (h : Abandoned H k w w' consumer sid) : Abandoned H k' w w' consumer sid := by
  rcases h with h | ⟨now, hn, h⟩
  · exact .inl h
  · exact .inr ⟨now, hn.mono hk le_rfl, h⟩

/-- A quiet step counted from a moment counts from every earlier one. -/
theorem Quiet.mono {k k' : ℕ} (hk : k' ≤ k) {w w' : World} (h : Quiet H k w w') :
    Quiet H k' w w' := by
  cases h with
  | maint h => exact .maint (h.mono hk)
  | append x h hd => exact .append x { h with ts := h.ts.mono hk le_rfl } hd
  | register c n t hl ht hi hd hroom hgrave =>
    exact .register c n t hl (ht.mono hk le_rfl) hi hd hroom hgrave
  | touch c n hl ht hd => exact .touch c n hl (ht.mono hk le_rfl) hd
  | clear c s hc hs hu hl hd => exact .clear c s hc hs (hu.mono hk) hl hd

/-- A bootstrap counted from a moment counts from every earlier one. -/
theorem Bootstraps.mono {k k' : ℕ} (hk : k' ≤ k) {c : Cursor} {s : Snapshot} {w w' : World}
    (h : Bootstraps H k c s w w') : Bootstraps H k' c s w w' := by
  obtain ⟨t, ht, hlive⟩ := h.live
  obtain ⟨a, ha, hd⟩ := h.effect
  exact ⟨h.cursor, h.snapshot, h.opened, h.own, h.unacked, ⟨t, ht.mono hk le_rfl, hlive⟩,
    h.complete, h.later, a, ha.mono hk le_rfl, hd⟩

/-- A step of the protocol counted from a moment counts from every earlier one. -/
theorem Change.mono {k k' : ℕ} (hk : k' ≤ k) {w w' : World} (h : Change H k w w') :
    Change H k' w w' := by
  cases h with
  | quiet h => exact .quiet (h.mono hk)
  | freeze c s r t1 t2 t3 hnone hm hl htick hord h1 h2 h3 hf =>
    exact .freeze c s r t1 t2 t3 hnone (hm.mono hk) hl (hk.trans htick) hord (h1.mono hk le_rfl)
      (h2.mono hk le_rfl) (h3.mono hk le_rfl) hf
  | issueDelta c es m hc hm hp hn hl hd => exact .issueDelta c es m hc hm hp hn hl hd
  | issuePage s t p m hs ht hp hn hl hd => exact .issuePage s t p m hs ht hp hn hl hd
  | ackSnapshot c s h => exact .ackSnapshot c s (h.mono hk)
  | advance c n h => exact .advance c n h

/-- A chain of quiet changes. -/
abbrev Quiets (H : Host) (k : ℕ) : World → World → Prop := ReflTransGen (Quiet H k)

/-- A chain of changes. -/
abbrev Changes (H : Host) (k : ℕ) : World → World → Prop := ReflTransGen (Change H k)

/-- Quiet steps counted from a moment count from every earlier one. -/
theorem Quiets.mono {k k' : ℕ} (hk : k' ≤ k) {w w' : World} (h : Quiets H k w w') :
    Quiets H k' w w' := ReflTransGen.mono (fun _ _ => Quiet.mono hk) _ _ h

/-- Steps of the protocol counted from a moment count from every earlier one. -/
theorem Changes.mono {k k' : ℕ} (hk : k' ≤ k) {w w' : World} (h : Changes H k w w') :
    Changes H k' w w' := ReflTransGen.mono (fun _ _ => Change.mono hk) _ _ h

/-- Maintenance is quiet. -/
theorem Maints.quiets {k : ℕ} {w w' : World} (h : Maints H k w w') : Quiets H k w w' :=
  ReflTransGen.mono (fun _ _ => Quiet.maint) _ _ h

/-- Quiet steps are steps of the protocol. -/
theorem Quiets.changes {k : ℕ} {w w' : World} (h : Quiets H k w w') : Changes H k w w' :=
  ReflTransGen.mono (fun _ _ => Change.quiet) _ _ h

/-- Steps of the protocol take time. -/
theorem Changes.later {k : ℕ} {w w' : World} (h : Changes H k w w') : Later w w' := by
  induction h with
  | refl => exact refl_of Later _
  | tail _ h ih => exact trans_of Later ih h.later

/-- Quiet steps take time. -/
theorem Quiets.later {k : ℕ} {w w' : World} (h : Quiets H k w w') : Later w w' := h.changes.later

/-- A stretch that leaves the content alone is quiet. -/
theorem Quiets.idle {k : ℕ} {w w' : World} (h : Idle w w') : Quiets H k w w' :=
  .single (.maint (.idle h))

/-! ## Registration and activity -/

/-- What a registration can raise. -/
inductive Unregistered : Exc → Prop
  | storage {e : Exc} (h : Storage e) : Unregistered e
  | encoding : Unregistered .valueError
  | retired (d : Text) : Unregistered (.refused .consumerRetired d none)

/-- Measuring texts fails on a lone surrogate only. -/
theorem measureAll_text_error (ts : List Text) {e : Exc}
    (h : measureAll (ts.map Json.str) = .error e) : e = .valueError := by
  induction ts with
  | nil => cases h
  | cons t rest ih =>
    rw [List.map_cons, measureAll, except_bind_eq_error] at h
    obtain h | ⟨n, -, h⟩ := h
    · exact measure_error h
    · rw [except_bind_eq_error] at h
      obtain h | ⟨m, -, h⟩ := h
      · exact ih h
      · cases h

/-- The insertion of a cursor does not turn the time back. -/
theorem keeps_insertCursor (consumer : Text) : Keeps Later (insertCursor H consumer) :=
  Keeps.bind (Keeps.later keeps_write) fun _ => Keeps.bind (Keeps.later keeps_time) fun _ =>
    Keeps.bind (Keeps.later keeps_database) fun _ =>
      Keeps.bind (Keeps.later (keeps_insertInto _ _)) fun _ => keeps_execute _

/-- The insertion of a cursor raises a storage error at most. -/
theorem raises_insertCursor (consumer : Text) : Raises Storage (insertCursor H consumer) :=
  Raises.bind raises_write fun _ => Raises.bind raises_time fun _ =>
    Raises.bind raises_database fun _ =>
      Raises.bind (raises_insertInto _ _) fun _ => raises_execute _

/-- A new cursor starts fresh, at a reading of the clock. -/
theorem insertCursor_inv {consumer : Text} {w w' : World}
    (h : insertCursor H consumer w = (.ok (), w')) :
    ∃ v now table, Idle w v ∧ Later v w' ∧ Reading H w.tick w' now ∧
      v.db.cursors.insert? (Cursor.fresh consumer now) = some table ∧
      w'.db = { v.db with cursors := table } := by
  obtain ⟨_, u, h1, h2⟩ := bind_ok_inv h
  have hu : Idle w u := keeps_write.run h1
  rw [time_bind, database_bind] at h2
  obtain ⟨table, x, h3, h4⟩ := bind_ok_inv h2
  obtain ⟨rfl, ht⟩ := insertInto_inv h3
  cases h4
  exact ⟨u, H.clock u.tick, table, hu, ⟨Nat.le_succ _, rfl⟩,
    ⟨u.tick, hu.tick, Nat.lt_succ_self _, rfl⟩, ht, rfl⟩

/-- **One run of `register`.** -/
theorem register_inv {consumer : Text} {w w' : World} {r : Except Exc Cursor}
    (h : register H consumer w = (r, w')) :
    (Maints H w.tick w w' ∧ ∃ e, r = .error e ∧ Unregistered e) ∨
      (w' = w ∧ ∃ c, w.db.cursors.find consumer = some c ∧ r = .ok c) ∨
      (w.db.cursors.find consumer = none ∧ w.db.retired.find consumer = none ∧
        ∃ w1 now table, Maints H w.tick w w1 ∧ Later w1 w' ∧ Reading H w.tick w' now ∧
          w1.db.cursors.insert? (Cursor.fresh consumer now) = some table ∧
          w'.db = { w1.db with cursors := table } ∧
          (∃ n, measure consumer = .ok n ∧ Room w1.db (n + 64 + (n + 64)) 0 false) ∧
          (∀ g ∈ w1.db.retired, g.consumer ≠ consumer) ∧
          (r = .ok (Cursor.fresh consumer 0) ∨ r = .error .killed)) := by
  unfold register at h
  obtain ⟨e, he, rfl, rfl⟩ | ⟨m, hm, h1⟩ := lift_bind_inv h
  · exact .inl ⟨.refl, e, rfl, measure_error he ▸ .encoding⟩
  rw [database_bind] at h1
  rcases hc : w.db.cursors.find consumer with _ | c
  swap
  · rw [hc] at h1
    cases h1
    exact .inr (.inl ⟨rfl, c, rfl, rfl⟩)
  rw [hc] at h1
  rcases hg : w.db.retired.find consumer with _ | g
  swap
  · simp only [hg] at h1
    cases h1
    exact .inl ⟨.refl, _, rfl, .retired _⟩
  simp only [hg] at h1
  split at h1
  · cases h1
    exact .inl ⟨.refl, _, rfl, .storage (.capacity _ _)⟩
  -- Maintenance gives a consumer without a cursor no tombstone.
  have hgrave {w1 : World} (hm : Maints H w.tick w w1) :
      ∀ g ∈ w1.db.retired, g.consumer ≠ consumer :=
    (keeps_of_reflTransGen (I := fun v : World => (∀ c ∈ v.db.cursors, c.consumer ≠ consumer) ∧
      ∀ g ∈ v.db.retired, g.consumer ≠ consumer) (fun _ _ hst => hst.ungraved) hm
      ⟨Table.find_eq_none.mp hc, Table.find_eq_none.mp hg⟩).2
  have hone : measureAll [.str consumer] = .ok m := by
    change (measure consumer >>= fun n => pure (n + 0)) = .ok m
    rw [hm]
    rfl
  obtain ⟨e, he, rfl, rfl⟩ | ⟨n, hn1, h2⟩ := lift_bind_inv h1
  · exact .inl ⟨.refl, e, rfl, measureAll_text_error [consumer] he ▸ .encoding⟩
  obtain ⟨e, he, rfl, rfl⟩ | ⟨n', hn2, h3⟩ := lift_bind_inv h2
  · exact .inl ⟨.refl, e, rfl, measureAll_text_error [consumer] he ▸ .encoding⟩
  obtain rfl := Except.ok.inj (hone.symm.trans hn1)
  obtain rfl := Except.ok.inj (hone.symm.trans hn2)
  obtain ⟨e, h4, rfl⟩ | ⟨_, u, h4, h5⟩ := bind_inv h3
  · obtain ⟨hm, e', he, hs⟩ | ⟨w1, _, w2, hm, hroom, hb, -, hi, hr⟩ :=
      mutation_inv (keeps_insertCursor _) h4
    · cases he
      refine .inl ⟨hm, e, rfl, .storage ?_⟩
      obtain hs | ⟨w1, w2, -, hb⟩ := hs
      · exact hs
      · exact raises_insertCursor _ _ _ _ hb
    · obtain hr | hr := hr
      · cases hr
      cases hr
      obtain ⟨v, now, table, hv, hl, hn, ht, hd⟩ := insertCursor_inv hb
      exact .inr (.inr ⟨rfl, rfl, v, now, table, hm.tail (.idle hv), trans_of Later hl hi.toLater,
        hn.mono hm.later.tick hi.tick, ht, hi.db.trans hd, ⟨_, ‹_›, hv.db ▸ hroom⟩,
        hgrave (hm.tail (.idle hv)), .inr rfl⟩)
  · cases h5
    obtain ⟨-, _, he, -⟩ | ⟨w1, _, w2, hm, hroom, hb, -, hi, -⟩ :=
      mutation_inv (keeps_insertCursor _) h4
    · cases he
    obtain ⟨v, now, table, hv, hl, hn, ht, hd⟩ := insertCursor_inv hb
    exact .inr (.inr ⟨rfl, rfl, v, now, table, hm.tail (.idle hv), trans_of Later hl hi.toLater,
      hn.mono hm.later.tick hi.tick, ht, hi.db.trans hd, ⟨_, ‹_›, hv.db ▸ hroom⟩,
      hgrave (hm.tail (.idle hv)), .inl rfl⟩)

/-- A touch sets the time of the consumer's cursor to a reading of the clock, or fails and changes
nothing. -/
theorem touch_inv {consumer : Text} {w w' : World} {r : Except Exc Unit}
    (h : touch H consumer w = (r, w')) :
    (Idle w w' ∧ ∃ e, r = .error e ∧ Storage e) ∨
      (Later w w' ∧ ∃ now, Reading H w.tick w' now ∧ w'.db = w.db.touch consumer now ∧
        (r = .ok () ∨ r = .error .killed)) := by
  have hk : Keeps Later (do
      write H
      let now ← time H
      execute (Db.touch consumer now)) :=
    Keeps.bind (Keeps.later keeps_write) fun _ => Keeps.bind (Keeps.later keeps_time) fun _ =>
      keeps_execute _
  have hraise : Raises Storage (touch H consumer) :=
    raises_transaction (fun _ h => h) hk
      (Raises.bind raises_write fun _ => Raises.bind raises_time fun _ => raises_execute _)
  have hst : ∀ e, r = .error e → Storage e := by
    rintro e rfl
    exact hraise _ _ _ h
  obtain ⟨hi, e, he, -⟩ | ⟨w1, _, w2, h1, h2, h3, -, hr⟩ := transaction_inv hk h
  · exact .inl ⟨hi, e, he, hst e he⟩
  · obtain ⟨_, u, h4, h5⟩ := bind_ok_inv h2
    have hu : Idle w u := trans_of Idle h1 (keeps_write.run h4)
    cases h5
    refine .inr ⟨⟨hu.tick.trans ((Nat.le_succ _).trans h3.tick), h3.fts.trans hu.fts⟩,
      H.clock u.tick, ⟨u.tick, hu.tick, h3.tick, rfl⟩, ?_, hr⟩
    rw [h3.db, ← hu.db]

/-! ## Freezing -/

/-- The items of a snapshot are appended in their order. -/
theorem insertItems_inv {l : List Item} {w w' : World} (h : insertItems l w = (.ok (), w')) :
    ∃ items, items.rows = w.db.items.rows ++ l ∧
      w' = { w with db := { w.db with items := items } } := by
  induction l generalizing w with
  | nil =>
    cases h
    exact ⟨w'.db.items, by simp, rfl⟩
  | cons i rest ih =>
    unfold insertItems at h
    rw [database_bind] at h
    obtain ⟨t, u, h1, h2⟩ := bind_ok_inv h
    obtain ⟨rfl, ht⟩ := insertInto_inv h1
    rw [execute_bind] at h2
    obtain ⟨items, hrows, hw⟩ := ih h2
    refine ⟨items, ?_, hw⟩
    rw [hrows, (Table.insert?_eq_some.mp ht).2]
    simp

/-- The insertion of items does not turn the time back. -/
theorem keeps_insertItems (l : List Item) : Keeps Later (insertItems l) := by
  induction l with
  | nil => exact Keeps.pure _
  | cons i rest ih =>
    refine Keeps.bind (Keeps.later keeps_database) fun _ => ?_
    exact Keeps.bind (Keeps.later (keeps_insertInto _ _)) fun _ =>
      Keeps.bind (keeps_execute _) fun _ => ih

/-- The insertion of items raises a storage error at most. -/
theorem raises_insertItems (l : List Item) : Raises Storage (insertItems l) := by
  induction l with
  | nil => exact Raises.pure _
  | cons i rest ih =>
    refine Raises.bind raises_database fun _ => ?_
    exact Raises.bind (raises_insertInto _ _) fun _ => Raises.bind (raises_execute _) fun _ => ih

section freezeRows

variable (consumer sid : Text) (head : ℕ) (members : List Entry) (sizes : List ℕ)

/-- The body of a freeze does not turn the time back. -/
theorem keeps_freezeRows : Keeps Later (freezeRows H consumer sid head members sizes) :=
  Keeps.bind (Keeps.later keeps_write) fun _ => Keeps.bind (Keeps.later keeps_time) fun _ =>
    Keeps.bind (Keeps.later keeps_database) fun _ =>
      Keeps.bind (Keeps.later (keeps_insertInto _ _)) fun _ => Keeps.bind (keeps_execute _) fun _ =>
        Keeps.bind (keeps_insertItems _) fun _ => Keeps.bind (Keeps.later keeps_time) fun _ =>
          Keeps.bind (keeps_execute _) fun _ => Keeps.bind (Keeps.later keeps_time) fun _ =>
            keeps_execute _

/-- The body of a freeze raises a storage error at most. -/
theorem raises_freezeRows : Raises Storage (freezeRows H consumer sid head members sizes) :=
  Raises.bind raises_write fun _ => Raises.bind raises_time fun _ =>
    Raises.bind raises_database fun _ =>
      Raises.bind (raises_insertInto _ _) fun _ => Raises.bind (raises_execute _) fun _ =>
        Raises.bind (raises_insertItems _) fun _ => Raises.bind raises_time fun _ =>
          Raises.bind (raises_execute _) fun _ => Raises.bind raises_time fun _ =>
            raises_execute _

variable {consumer sid head members sizes}

/-- What the body of a freeze stores: the snapshot, its items and the cursor that points to it, each
time a reading of the clock. -/
theorem freezeRows_inv {w w' : World}
    (h : freezeRows H consumer sid head members sizes w = (.ok (), w')) :
    ∃ v created updated now snapshots items, Idle w v ∧ Later v w' ∧ Reading H w.tick w' created ∧
      Reading H w.tick w' updated ∧ Reading H w.tick w' now ∧
      (Monotone H.clock → created ≤ updated) ∧
      v.db.snapshots.insert? ⟨sid, consumer, head, created, members.length, 0, none⟩
        = some snapshots ∧
      items.rows = v.db.items.rows ++ frozenItems sid members sizes ∧
      w'.db = Db.pruneSnapshots consumer now (Db.openSnapshot consumer sid updated
        { v.db with snapshots := snapshots, items := items }) := by
  have hl := (keeps_freezeRows consumer sid head members sizes).run h
  obtain ⟨_, v, h1, h2⟩ := bind_ok_inv h
  have hv : Idle w v := keeps_write.run h1
  rw [time_bind, database_bind] at h2
  obtain ⟨snapshots, x, h3, h4⟩ := bind_ok_inv h2
  obtain ⟨rfl, hs⟩ := insertInto_inv h3
  rw [execute_bind] at h4
  obtain ⟨_, y, h5, h6⟩ := bind_ok_inv h4
  obtain ⟨items, hi, rfl⟩ := insertItems_inv h5
  rw [time_bind, execute_bind, time_bind] at h6
  cases h6
  have ht : v.tick + 3 = v.tick + 1 + 1 + 1 := rfl
  refine ⟨v, H.clock v.tick, H.clock (v.tick + 1), H.clock (v.tick + 1 + 1), snapshots, items, hv,
    ⟨by simp; omega, rfl⟩, ⟨v.tick, hv.tick, by simp; omega, rfl⟩,
    ⟨v.tick + 1, by have := hv.tick; omega, by simp, rfl⟩,
    ⟨v.tick + 1 + 1, by have := hv.tick; omega, by simp, rfl⟩, fun hm => hm (Nat.le_succ _), hs, hi,
    rfl⟩

end freezeRows

/-- What a freeze can raise. -/
inductive Unfrozen : Exc → Prop
  | storage {e : Exc} (h : Storage e) : Unfrozen e
  | encoding : Unfrozen .valueError
  | held (d : Text) : Unfrozen (.refused .snapshotCapacity d none)

/-- The sizes of the members fail on a text that cannot be encoded only. -/
theorem frozenSizes_error {l : List Entry} {e : Exc} (h : frozenSizes l = .error e) :
    e = .valueError := by
  induction l with
  | nil => cases h
  | cons x rest ih =>
    rw [frozenSizes, except_bind_eq_error] at h
    obtain h | ⟨n, -, h⟩ := h
    · rw [Entry.lenEncode, lenEncode_eq] at h
      split at h <;> cases h
      rfl
    · rw [except_bind_eq_error] at h
      obtain h | ⟨m, -, h⟩ := h
      · exact ih h
      · cases h

/-- **One run of `freeze`.** The members are those of the moment it began at; they are inserted
after the maintenance that admission may run. The identifier is the answer to its fourth
question. -/
theorem freeze_inv {consumer : Text} {w w' : World} {r : Except Exc Text}
    (h : freeze H consumer w = (r, w')) :
    (Maints H w.tick w w' ∧ ∃ e, r = .error e ∧ Unfrozen e) ∨
      ∃ w1 sid created updated now, sid = H.uuid (w.tick + 3) ∧ Maints H w.tick w w1 ∧ Later w1 w' ∧
        Reading H w.tick w' created ∧ Reading H w.tick w' updated ∧ Reading H w.tick w' now ∧
        (Monotone H.clock → created ≤ updated) ∧
        Froze H consumer sid w created updated now w1.db w'.db ∧
        (r = .ok sid ∨ r = .error .killed) := by
  unfold freeze at h
  simp only [database_bind, time_bind] at h
  have hi (n : ℕ) : Maints H w.tick w { w with tick := w.tick + n } :=
    .idle ⟨⟨Nat.le_add_right _ _, rfl⟩, rfl⟩
  split at h
  · cases h
    exact .inl ⟨hi 3, _, rfl, .held _⟩
  rw [freshId_bind] at h
  obtain ⟨e, he, rfl, rfl⟩ | ⟨sizes, hsizes, h1⟩ := lift_bind_inv h
  · exact .inl ⟨hi 4, e, rfl, frozenSizes_error he ▸ .encoding⟩
  obtain ⟨e, he, rfl, rfl⟩ | ⟨ids, hids, h2⟩ := lift_bind_inv h1
  · exact .inl ⟨hi 4, e, rfl, measureAll_text_error [_, consumer] he ▸ .encoding⟩
  -- The committed freeze, read back at the moment it began.
  have hfroze {w1 w2 v : World} (hm : Maints H (w.tick + 1 + 1 + 1 + 1)
      { w with tick := w.tick + 1 + 1 + 1 + 1 } w1) (hv : Idle w2 v)
      (hroom : Room w1.db (sizes.sum + (ids + 96)) 0 false)
      (hb : freezeRows H consumer (H.uuid (w.tick + 1 + 1 + 1)) w.db.head
        (w.db.frozen (H.clock w.tick)) sizes w1 = (.ok (), w2)) :
      ∃ w1 created updated now, Maints H w.tick w w1 ∧ Later w1 v ∧ Reading H w.tick v created ∧
        Reading H w.tick v updated ∧ Reading H w.tick v now ∧
        (Monotone H.clock → created ≤ updated) ∧
        Froze H consumer (H.uuid (w.tick + 1 + 1 + 1)) w created updated now w1.db v.db := by
    have hm' : Maints H w.tick w w1 := (hi 4).trans (hm.mono (by omega))
    obtain ⟨u, created, updated, now, snapshots, items, hu, hl, h3, h4, h5, hord, h6, h7, h8⟩ :=
      freezeRows_inv hb
    have hk : w.tick ≤ w1.tick := hm'.later.tick
    exact ⟨u, created, updated, now, hm'.tail (.idle hu), trans_of Later hl hv.toLater,
      h3.mono hk hv.tick, h4.mono hk hv.tick, h5.mono hk hv.tick, hord,
      ⟨⟨sizes, hsizes, snapshots, items, h6, h7, hv.db.trans h8⟩,
        sizes, ids, hsizes, hids, hu.db ▸ hroom⟩⟩
  obtain ⟨e, h3, rfl⟩ | ⟨_, v, h3, h4⟩ := bind_inv h2
  · obtain ⟨hm, e', he, hs⟩ | ⟨w1, _, w2, hm, hroom, hb, -, hv, hr⟩ :=
      mutation_inv (keeps_freezeRows _ _ _ _ _) h3
    · cases he
      refine .inl ⟨(hi 4).trans (hm.mono (by simp; omega)), e, rfl, .storage ?_⟩
      obtain hs | ⟨_, _, -, hb⟩ := hs
      · exact hs
      · exact raises_freezeRows _ _ _ _ _ _ _ _ hb
    · obtain hr | hr := hr
      · cases hr
      cases hr
      obtain ⟨w1, created, updated, now, h5, h6, h7, h8, h9, hord, h10⟩ := hfroze hm hv hroom hb
      exact .inr ⟨w1, _, created, updated, now, rfl, h5, h6, h7, h8, h9, hord, h10, .inr rfl⟩
  · cases h4
    obtain ⟨-, _, he, -⟩ | ⟨w1, _, w2, hm, hroom, hb, -, hv, -⟩ :=
      mutation_inv (keeps_freezeRows _ _ _ _ _) h3
    · cases he
    obtain ⟨w1, created, updated, now, h5, h6, h7, h8, h9, hord, h10⟩ := hfroze hm hv hroom hb
    exact .inr ⟨w1, _, created, updated, now, rfl, h5, h6, h7, h8, h9, hord, h10, .inl rfl⟩

/-! ## Pages -/

/-- A snapshot has lapsed when it was never acknowledged and is older than its lifetime. -/
theorem lapsed_inv {s : Snapshot} {w w' : World} {r : Except Exc Bool}
    (h : lapsed H s w = (r, w')) :
    Idle w w'
    ∧ r = .ok (s.ackedAt.isNone && decide (H.clock w.tick - s.created > snapshotTtl)) := by
  unfold lapsed at h
  split at h
  · rename_i hs
    cases h
    exact ⟨refl_of Idle _, by simp [Option.isNone_iff_eq_none, Option.isSome_iff_ne_none.mp hs]⟩
  · rename_i hs
    cases h
    exact ⟨⟨⟨Nat.le_succ _, rfl⟩, rfl⟩, by simp [Option.not_isSome_iff_eq_none.mp hs]⟩

/-- The snapshot a request names is looked up among the stored ones. -/
theorem snapshotState_inv {v : Json} {w w' : World} {r : Except Exc (Option Snapshot)}
    (h : snapshotState H v w = (r, w')) : w' = w ∧ ((∃ e, r = .error e) ∨
      ∃ s, r = .ok s ∧ ∀ x ∈ s, x ∈ w.db.snapshots) := by
  unfold snapshotState at h
  obtain ⟨e, -, rfl, rfl⟩ | ⟨b, -, h1⟩ := lift_bind_inv h
  · exact ⟨rfl, .inl ⟨e, rfl⟩⟩
  rcases ht : H.textAffinity b with _ | sid
  · rw [ht] at h1
    cases h1
    exact ⟨rfl, .inr ⟨none, rfl, by simp⟩⟩
  · rw [ht] at h1
    cases h1
    exact ⟨rfl, .inr ⟨_, rfl, fun x hx => (Table.find_eq_some.mp hx).1⟩⟩

/-- The token of a request that continues a snapshot: the checks left it in range, and it names the
snapshot unless it starts it. -/
theorem pageToken_inv {consumer : Text} {s : Snapshot} {req : Object} {w w' : World}
    {r : Except Exc ℤ} (h : pageToken H consumer s req w = (r, w')) :
    Idle w w' ∧ ((∃ e, r = .error e) ∨ ∃ token, r = .ok token ∧ s.consumer = consumer ∧
      int (req.getD (lit "page_token") (.int 0)) = .ok token ∧ token ≤ s.issued ∧
      (token = 0 ∨ (req.get (lit "snapshot_id")).isText s.id = true)) := by
  unfold pageToken at h
  split at h
  · cases h
    exact ⟨refl_of Idle _, .inl ⟨_, rfl⟩⟩
  rename_i hown
  obtain ⟨e, h1, rfl⟩ | ⟨b, u, h1, h2⟩ := bind_inv h
  · cases (lapsed_inv h1).2
  have hu : Idle w u := (lapsed_inv h1).1
  split at h2
  · cases h2
    exact ⟨hu, .inl ⟨_, rfl⟩⟩
  obtain ⟨e, -, rfl, rfl⟩ | ⟨token, htoken, h3⟩ := lift_bind_inv h2
  · exact ⟨hu, .inl ⟨e, rfl⟩⟩
  dsimp only at h3
  split at h3
  · cases h3
    exact ⟨hu, .inl ⟨_, rfl⟩⟩
  rename_i hclaim
  split at h3
  · obtain ⟨e, h4, rfl⟩ | ⟨o, v, h4, h5⟩ := bind_inv h3
    · exact ⟨(snapshotState_inv h4).1 ▸ hu, .inl ⟨e, rfl⟩⟩
    obtain ⟨rfl, -⟩ := snapshotState_inv h4
    cases o with
    | none =>
      cases h5
      exact ⟨hu, .inl ⟨_, rfl⟩⟩
    | some other =>
      dsimp only at h5
      split at h5 <;> cases h5 <;> exact ⟨hu, .inl ⟨_, rfl⟩⟩
  rename_i hid
  split at h3
  · cases h3
    exact ⟨hu, .inl ⟨_, rfl⟩⟩
  · rename_i hle
    cases h3
    refine ⟨hu, .inr ⟨token, rfl, not_not.mp hown, htoken, not_lt.mp hle, ?_⟩⟩
    by_cases h0 : token = 0
    · exact .inl h0
    · have hnull : (req.get (lit "snapshot_id")).isNull = false := by
        simpa using fun hn => hclaim ⟨h0, hn⟩
      right
      by_contra hn
      exact hid ⟨hnull, by simpa using hn⟩

/-- The reply of a page. -/
def pageReply (s : Snapshot) (token : ℤ) (page : List Item) (more : Bool) : Reply :=
  .snapshot s.id s.head (page.map Item.payload) (token + page.length) s.items
    (more || decide (token + page.length < s.items))

/-- **One run of a checked page request.** -/
theorem servePage_inv {s : Snapshot} {token : ℤ} {w w' : World} {r : Except Exc Reply}
    (h : servePage H s token w = (r, w')) :
    (Idle w w' ∧ ∃ e, r = .error e) ∨ ∃ page more, w.db.page s.id token = .ok (page, more) ∧
      ((token + page.length ≤ s.issued ∧ Idle w w' ∧ r = .ok (pageReply s token page more)) ∨
        (s.issued < token + page.length ∧ Later w w' ∧
          w'.db = w.db.issuePage s.id (token + page.length).toNat ∧
          (r = .ok (pageReply s token page more) ∨ r = .error .killed))) := by
  unfold servePage at h
  obtain ⟨e, -, rfl, rfl⟩ | ⟨_, -, h1⟩ := lift_bind_inv h
  · exact .inl ⟨refl_of Idle _, e, rfl⟩
  rw [database_bind] at h1
  obtain ⟨e, -, rfl, rfl⟩ | ⟨⟨page, more⟩, hp, h2⟩ := lift_bind_inv h1
  · exact .inl ⟨refl_of Idle _, e, rfl⟩
  dsimp only at h2
  unfold issuePage at h2
  by_cases hn : token + (page.length : ℤ) > s.issued
  · rw [if_pos hn] at h2
    obtain ⟨e, h3, rfl⟩ | ⟨_, u, h3, h4⟩ := bind_inv h2
    · obtain ⟨hi, _, he, -⟩ | ⟨hl, hd, hr⟩ := statement_inv h3
      · exact .inl ⟨hi, e, rfl⟩
      · obtain hr | hr := hr
        · cases hr
        · cases hr
          exact .inr ⟨page, more, hp, .inr ⟨hn, hl, hd, .inr rfl⟩⟩
    · cases h4
      obtain ⟨-, _, he, -⟩ | ⟨hl, hd, -⟩ := statement_inv h3
      · cases he
      · exact .inr ⟨page, more, hp, .inr ⟨hn, hl, hd, .inl rfl⟩⟩
  · rw [if_neg hn] at h2
    cases h2
    exact .inr ⟨page, more, hp, .inl ⟨not_lt.mp hn, refl_of Idle _, rfl⟩⟩

/-- A page of the snapshot `s` served at a checked token, and its issuance. -/
structure Served (H : Host) (consumer : Text) (req : Object) (s : Snapshot) (token : ℤ)
    (page : List Item) (more : Bool) (w w' : World) (r : Except Exc Reply) : Prop where
  mem : s ∈ w.db.snapshots
  own : s.consumer = consumer
  request : int (req.getD (lit "page_token") (.int 0)) = .ok token
  named : token = 0 ∨ (req.get (lit "snapshot_id")).isText s.id = true
  issued : token ≤ s.issued
  bounded : w.db.page s.id token = .ok (page, more)
  effect : (token + page.length ≤ s.issued ∧ Idle w w' ∧ r = .ok (pageReply s token page more)) ∨
    (s.issued < token + page.length ∧ Later w w' ∧
      w'.db = w.db.issuePage s.id (token + page.length).toNat ∧
      (r = .ok (pageReply s token page more) ∨ r = .error .killed))

/-- **One run of `snapshot_page`.** -/
theorem snapshotPage_inv {consumer sid : Text} {req : Object} {w w' : World} {r : Except Exc Reply}
    (h : snapshotPage H consumer sid req w = (r, w')) :
    (Idle w w' ∧ ∃ e, r = .error e) ∨
      ∃ u s token page more, Idle w u ∧ s.id = sid
      ∧ Served H consumer req s token page more u w' r := by
  unfold snapshotPage at h
  rw [database_bind] at h
  rcases hs : w.db.snapshots.find sid with _ | s
  · rw [hs] at h
    cases h
    exact .inl ⟨refl_of Idle _, _, rfl⟩
  rw [hs] at h
  obtain ⟨hmem, hid⟩ := Table.find_eq_some.mp hs
  obtain ⟨e, h1, rfl⟩ | ⟨token, u, h1, h2⟩ := bind_inv h
  · exact .inl ⟨(pageToken_inv h1).1, e, rfl⟩
  obtain ⟨hu, ⟨_, he⟩ | ⟨t, ht, hown, hreq, hle, hnamed⟩⟩ := pageToken_inv h1
  · cases he
  cases ht
  obtain ⟨hi, he⟩ | ⟨page, more, hp, heff⟩ := servePage_inv h2
  · exact .inl ⟨trans_of Idle hu hi, he⟩
  · exact .inr ⟨u, s, token, page, more, hu, hid,
      ⟨hu.db ▸ hmem, hown, hreq, hnamed, hle, hp, heff⟩⟩

/-! ## The open snapshot -/

/-- The test of a bootstrap, and that it stays unusable once time has passed over it. -/
theorem unusable_inv {consumer sid : Text} {w w' : World} {r : Except Exc Bool}
    (h : unusable H consumer (w.db.snapshots.find sid) w = (r, w')) :
    Idle w w' ∧ r = .ok (!w.db.usable consumer sid (H.clock w.tick)) ∧
      (w.db.usable consumer sid (H.clock w.tick) = false →
        (∀ now, w.db.usable consumer sid now = false) ∨ w.tick < w'.tick) := by
  unfold unusable at h
  unfold Db.usable
  rcases hs : w.db.snapshots.find sid with _ | s
  · rw [hs] at h
    cases h
    exact ⟨refl_of Idle _, rfl, fun _ => .inl fun _ => rfl⟩
  · rw [hs] at h
    dsimp only at h
    split at h
    · rename_i hne
      cases h
      have hf : (s.consumer == consumer) = false := beq_false_of_ne hne
      exact ⟨refl_of Idle _, by simp [hf], fun _ => .inl fun _ => by simp [hf]⟩
    · rename_i he
      obtain ⟨hi, hr⟩ := lapsed_inv h
      obtain rfl := not_not.mp he
      rcases ha : s.ackedAt with _ | t
      · refine ⟨hi, hr.trans (by simp [ha, ← not_le]), fun _ => .inr ?_⟩
        -- The clock was asked.
        rw [lapsed, ha] at h
        cases h
        exact Nat.lt_succ_self _
      · exact ⟨hi, hr.trans (by simp [ha]), fun hn => by simp [ha] at hn⟩

/-- **One run of `openSnapshot`.** -/
theorem openSnapshot_inv {consumer : Text} {c : Cursor} {w w' : World}
    {r : Except Exc (Option Text × Bool)} (h : openSnapshot H consumer c w = (r, w')) :
    (c.snapshot = none ∧ w' = w ∧ r = .ok (none, c.resnapshot)) ∨ ∃ sid, c.snapshot = some sid ∧
      ((w.db.usable consumer sid (H.clock w.tick) = true ∧ Idle w w' ∧
          r = .ok (some sid, c.resnapshot)) ∨
        (w.db.usable consumer sid (H.clock w.tick) = false ∧
          ((Idle w w' ∧ ∃ e, r = .error e ∧ Storage e) ∨
            (Later w w' ∧ w'.db = w.db.clearSnapshot consumer ∧
              Abandoned H w.tick w w' consumer sid ∧
              (r = .ok (none, true) ∨ r = .error .killed))))) := by
  unfold openSnapshot at h
  rcases hs : c.snapshot with _ | sid
  · rw [hs] at h
    cases h
    exact .inl ⟨rfl, rfl, rfl⟩
  rw [hs] at h
  refine .inr ⟨sid, rfl, ?_⟩
  dsimp only at h
  rw [database_bind] at h
  obtain ⟨e, h1, rfl⟩ | ⟨b, u, h1, h2⟩ := bind_inv h
  · cases (unusable_inv h1).2.1
  obtain ⟨hu, hb, hasked⟩ := unusable_inv h1
  cases hb
  split at h2
  · rename_i hb
    have hd : w.db.usable consumer sid (H.clock w.tick) = false := by simpa using hb
    refine .inr ⟨hd, ?_⟩
    have hnow {v : World} (hl : Later u v) : Abandoned H w.tick w v consumer sid := by
      rcases hasked hd with h | h
      · exact .inl h
      · exact .inr ⟨_, ⟨w.tick, le_rfl, h.trans_le hl.tick, rfl⟩, hd⟩
    obtain ⟨e, h3, rfl⟩ | ⟨_, v, h3, h4⟩ := bind_inv h2
    · have hst : Storage e := (upkeep_fixed _ _ _ _ h3).storage
      obtain ⟨hi, -⟩ | ⟨hl, hd, hr⟩ := statement_inv h3
      · exact .inl ⟨trans_of Idle hu hi, e, rfl, hst⟩
      · obtain hr | hr := hr
        · cases hr
        · cases hr
          exact .inr ⟨trans_of Later hu.toLater hl, hu.db ▸ hd, hnow hl, .inr rfl⟩
    · cases h4
      obtain ⟨-, _, he, -⟩ | ⟨hl, hd, -⟩ := statement_inv h3
      · cases he
      · exact .inr ⟨trans_of Later hu.toLater hl, hu.db ▸ hd, hnow hl, .inl rfl⟩
  · rename_i hb
    cases h2
    exact .inl ⟨by simpa using hb, hu, rfl⟩

/-! ## Cursor rows under the protocol updates -/

/-- Two rows of one consumer that differ at most in their activity time. -/
def Cursor.Same (c d : Cursor) : Prop := d = { c with updated := d.updated }

/-- A cursor is at the position it is at. -/
theorem Cursor.Same.refl (c : Cursor) : c.Same c := rfl

/-- A touch rewrites the time of the consumer's cursor. -/
theorem mem_touch {db : Db} {consumer : Text} {now : ℚ} {c : Cursor}
    (hc : c ∈ db.cursors) (h : c.consumer = consumer) :
    { c with updated := now } ∈ (db.touch consumer now).cursors := by
  rw [Db.touch, Table.mem_update]
  exact ⟨c, hc, by simp [h]⟩

/-- Abandoning a bootstrap takes the snapshot from the consumer's cursor and asks for a new one. -/
theorem mem_clearSnapshot {db : Db} {consumer : Text} {c : Cursor} (hc : c ∈ db.cursors)
    (h : c.consumer = consumer) :
    { c with snapshot := none, resnapshot := true } ∈ (db.clearSnapshot consumer).cursors := by
  rw [Db.clearSnapshot, Table.mem_update]
  exact ⟨c, hc, by simp [h]⟩

/-- Every cursor of `db'` is one of `db`, at the same place. -/
def Unmoved (db db' : Db) : Prop :=
  ∀ c' ∈ db'.cursors, ∃ c ∈ db.cursors, c'.consumer = c.consumer ∧ c'.seq = c.seq ∧
    c'.issued = c.issued

/-- Every cursor of `db'` is one of `db`, at the same place, or new to a consumer `db` holds neither
a cursor nor a tombstone of. -/
def Enrolled (db db' : Db) : Prop :=
  ∀ c' ∈ db'.cursors, (∃ c ∈ db.cursors, c'.consumer = c.consumer ∧ c'.seq = c.seq ∧
    c'.issued = c.issued) ∨
    (db.cursors.find c'.consumer = none ∧ db.retired.find c'.consumer = none)

/-- Dropping cursors moves none. -/
theorem Unmoved.of_subset {db db' : Db} (h : ∀ c ∈ db'.cursors, c ∈ db.cursors) : Unmoved db db' :=
  fun c hc => ⟨c, h c hc, rfl, rfl, rfl⟩

/-- No step moves no cursor. -/
theorem Unmoved.refl (db : Db) : Unmoved db db := .of_subset fun _ hc => hc

/-- Two stretches that move no cursor make one. -/
theorem Unmoved.trans {a b c : Db} (h : Unmoved a b) (h' : Unmoved b c) : Unmoved a c := by
  intro x hx
  obtain ⟨y, hy, h1, h2, h3⟩ := h' x hx
  obtain ⟨z, hz, h4, h5, h6⟩ := h y hy
  exact ⟨z, hz, h1.trans h4, h2.trans h5, h3.trans h6⟩

/-- Where no cursor moves none appears. -/
theorem Unmoved.enrolled {db db' : Db} (h : Unmoved db db') : Enrolled db db' :=
  fun c hc => .inl (h c hc)

/-- A registration stays one when no cursor moves after it. -/
theorem Enrolled.trans {a b c : Db} (h : Enrolled a b) (h' : Unmoved b c) : Enrolled a c := by
  intro x hx
  obtain ⟨y, hy, h1, h2, h3⟩ := h' x hx
  rcases h y hy with ⟨z, hz, h4, h5, h6⟩ | hn
  · exact .inl ⟨z, hz, h1.trans h4, h2.trans h5, h3.trans h6⟩
  · exact .inr (by rwa [h1])

/-- Rewriting cursor rows without moving them. -/
theorem Unmoved.of_update {db db' : Db} {p : Cursor → Bool} {f : Cursor → Cursor}
    (hf : ∀ c, (f c).consumer = c.consumer) (hd : db'.cursors = db.cursors.update p f hf)
    (hseq : ∀ c, (f c).seq = c.seq) (hiss : ∀ c, (f c).issued = c.issued) : Unmoved db db' := by
  intro c' hc'
  rw [hd, Table.mem_update] at hc'
  obtain ⟨c, hc, rfl⟩ := hc'
  refine ⟨c, hc, ?_⟩
  split
  · exact ⟨hf c, hseq c, hiss c⟩
  · exact ⟨rfl, rfl, rfl⟩

/-- A step of maintenance adds and changes no cursor. -/
theorem Maint.cursors {k : ℕ} {w w' : World} (h : Maint H k w w') :
    ∀ c ∈ w'.db.cursors, c ∈ w.db.cursors := by
  intro c hc
  rcases h with h | ⟨t, hl, ht, hd⟩ | ⟨t, hl, ht, hd⟩
  · obtain ⟨es, fl, ix, se, hd, -⟩ := h.frame
    rwa [hd] at hc
  · obtain ⟨cs, rs, hr, hcs, -⟩ := retire_spec t w.db
    rw [hd, hr] at hc
    exact ((hcs c).mp hc).1
  · rw [hd] at hc
    exact hc

/-- Maintenance adds and changes no cursor. -/
theorem Maints.cursors {k : ℕ} {w w' : World} (h : Maints H k w w') :
    ∀ c ∈ w'.db.cursors, c ∈ w.db.cursors :=
  keeps_of_reflTransGen (I := fun v => ∀ c ∈ v.db.cursors, c ∈ w.db.cursors)
    (fun _ _ hst hs c hc => hs c (hst.cursors c hc)) h fun _ hc => hc

/-- A registration moves no cursor and adds a fresh one at most. -/
theorem register_enrolled {consumer : Text} {w w' : World} {r : Except Exc Cursor}
    (h : register H consumer w = (r, w')) : Enrolled w.db w'.db := by
  obtain ⟨hm, -⟩ | ⟨rfl, -⟩ | ⟨hc, hr, w1, now, table, hm, hl, hn, hi, hd, -⟩ := register_inv h
  · exact (Unmoved.of_subset hm.cursors).enrolled
  · exact (Unmoved.refl _).enrolled
  · intro c hc'
    rw [hd] at hc'
    rcases (Table.mem_insert? hi).mp hc' with h | rfl
    · exact .inl ⟨c, hm.cursors c h, rfl, rfl, rfl⟩
    · exact .inr ⟨hc, hr⟩

/-- A touch moves no cursor. -/
theorem touch_unmoved {consumer : Text} {w w' : World} {r : Except Exc Unit}
    (h : touch H consumer w = (r, w')) : Unmoved w.db w'.db := by
  obtain ⟨hi, -⟩ | ⟨-, now, -, hd, -⟩ := touch_inv h
  · rw [hi.db]
    exact .refl _
  · rw [hd]
    exact .of_update (fun _ => by rfl) rfl (fun _ => rfl) fun _ => rfl

/-- Opening a snapshot moves no cursor. -/
theorem openSnapshot_unmoved {consumer : Text} {c : Cursor} {w w' : World}
    {r : Except Exc (Option Text × Bool)} (h : openSnapshot H consumer c w = (r, w')) :
    Unmoved w.db w'.db := by
  have hidle {v : World} (hi : Idle w v) : Unmoved w.db v.db := by
    rw [hi.db]
    exact .refl _
  obtain ⟨-, rfl, -⟩ | ⟨sid, -, ⟨-, hi, -⟩ | ⟨-, ⟨hi, -⟩ | ⟨-, hd, -⟩⟩⟩ := openSnapshot_inv h
  · exact .refl _
  · exact hidle hi
  · exact hidle hi
  · rw [hd]
    exact .of_update (fun _ => by rfl) rfl (fun _ => rfl) fun _ => rfl

/-- What `register` and `touch` leave: the row of the consumer, as `register` returned it. -/
theorem registered_inv {consumer : Text} {c : Cursor} {w u w' : World} {r : Except Exc Unit}
    (h : register H consumer w = (.ok c, u)) (ht : touch H consumer u = (r, w')) :
    Quiets H w.tick w w' ∧ ((∃ e, r = .error e ∧ Storage e) ∨
      r = .ok () ∧ c.consumer = consumer ∧
        ∃ d ∈ w'.db.cursors, c.Same d ∧ Reading H w.tick w' d.updated) := by
  -- The registration, and the row it leaves.
  have hu : Quiets H w.tick w u ∧ c.consumer = consumer ∧ ∃ d ∈ u.db.cursors, c.Same d := by
    obtain ⟨-, e, he, -⟩ | ⟨rfl, c', hc, he⟩ | ⟨-, -, w1, now, table, hm, hl, hn, hi, hd, hroom,
        hgrave, hr⟩ :=
      register_inv h
    · cases he
    · cases he
      obtain ⟨hc, hk⟩ := Table.find_eq_some.mp hc
      exact ⟨.refl, hk, c, hc, .refl c⟩
    · obtain hr | hr := hr
      · cases hr
        refine ⟨hm.quiets.tail (.register consumer now table hl hn hi hd hroom hgrave), rfl,
          Cursor.fresh consumer now, ?_, rfl⟩
        rw [hd]
        exact (Table.mem_insert? hi).mpr (.inr rfl)
      · cases hr
  obtain ⟨hq, hc, d, hd, hsame⟩ := hu
  obtain ⟨hi, e, he, hs⟩ | ⟨hl, now, hn, hdb, hr⟩ := touch_inv ht
  · exact ⟨hq.tail (.maint (.idle hi)), .inl ⟨e, he, hs⟩⟩
  · refine ⟨hq.tail (.touch consumer now hl (hn.mono hq.later.tick le_rfl) hdb), ?_⟩
    obtain hr | hr := hr
    · refine .inr ⟨hr, hc, { d with updated := now }, ?_, ?_, hn.mono hq.later.tick le_rfl⟩
      · rw [hdb]
        exact mem_touch hd (by rw [hsame]; exact hc)
      · unfold Cursor.Same at hsame ⊢
        rw [hsame]
    · exact .inl ⟨_, hr, .killed⟩

/-- What `sync` has established when it starts to answer. -/
structure Begun (H : Host) (k : ℕ) (w : World) (s : Session) : Prop where
  row : ∃ c ∈ w.db.cursors, c.consumer = s.consumer ∧ s.cursor.consumer = s.consumer ∧
    c.seq = s.cursor.seq ∧ c.issued = s.cursor.issued ∧ c.snapshot = s.snapshot ∧
    Reading H k w c.updated ∧ (s.snapshot = none →
      s.due = (c.resnapshot || !c.bootstrapped || decide (c.seq < w.db.floor)))

/-- **One run of the first part of `sync`.** -/
theorem beginSync_inv {req : Object} {w w' : World} {r : Except Exc Session}
    (h : beginSync H req w = (r, w')) :
    Quiets H w.tick w w' ∧ ((∃ e, r = .error e) ∨
      ∃ s, r = .ok s ∧ consumerOf req = .ok s.consumer ∧ Begun H w.tick w' s) := by
  unfold beginSync at h
  obtain ⟨e, -, rfl, rfl⟩ | ⟨consumer, hcon, h1⟩ := lift_bind_inv h
  · exact ⟨.refl, .inl ⟨e, rfl⟩⟩
  obtain ⟨e, h2, rfl⟩ | ⟨c, u, h2, h3⟩ := bind_inv h1
  · refine ⟨?_, .inl ⟨e, rfl⟩⟩
    obtain ⟨hm, -⟩ | ⟨rfl, -⟩ | ⟨-, -, w1, now, table, hm, hl, hn, hi, hd, hroom, hgrave, -⟩ :=
      register_inv h2
    · exact hm.quiets
    · exact .refl
    · exact hm.quiets.tail (.register consumer now table hl hn hi hd hroom hgrave)
  obtain ⟨e, h4, rfl⟩ | ⟨_, v, h4, h5⟩ := bind_inv h3
  · exact ⟨(registered_inv h2 h4).1, .inl ⟨e, rfl⟩⟩
  obtain ⟨hq, ⟨_, he, -⟩ | ⟨-, hc, d, hd, hsame, hupd⟩⟩ := registered_inv h2 h4
  · cases he
  have hdc : d.consumer = consumer := by rw [hsame]; exact hc
  obtain ⟨e, h6, rfl⟩ | ⟨⟨snapshot, resnapshot⟩, x, h6, h7⟩ := bind_inv h5
  · refine ⟨?_, .inl ⟨e, rfl⟩⟩
    obtain ⟨-, rfl, -⟩ | ⟨sid, hs, ⟨-, hi, -⟩ | ⟨-, ⟨hi, -⟩ | ⟨hl, hdb, hn, -⟩⟩⟩ :=
      openSnapshot_inv h6
    · exact hq
    · exact hq.tail (.maint (.idle hi))
    · exact hq.tail (.maint (.idle hi))
    · refine hq.tail (.clear d sid hd (by rw [hsame]; exact hs)
        (by rw [hdc]; exact hn.mono hq.later.tick) hl ?_)
      rw [hdc, hdb]
  · cases h7
    obtain ⟨hs, rfl, he⟩ | ⟨sid, hs, ⟨-, hi, he⟩ | ⟨-, ⟨-, _, he, -⟩ | ⟨hl, hdb, hn, he⟩⟩⟩ :=
      openSnapshot_inv h6
    · cases he
      refine ⟨hq, .inr ⟨_, rfl, hcon, ⟨d, hd, hdc, hc, ?_, ?_, ?_, hupd, ?_⟩⟩⟩
      · rw [hsame]
      · rw [hsame]
      · rw [hsame]; exact hs
      · intro _
        rw [hsame]
    · cases he
      refine ⟨hq.tail (.maint (.idle hi)), .inr ⟨_, rfl, hcon,
        ⟨d, hi.db ▸ hd, hdc, hc, ?_, ?_, ?_, hupd.mono le_rfl hi.tick, fun h => by cases h⟩⟩⟩
      · rw [hsame]
      · rw [hsame]
      · rw [hsame]; exact hs
    · cases he
    · obtain he | he := he
      · cases he
        have hclear : w'.db = v.db.clearSnapshot d.consumer := by rw [hdc, hdb]
        refine ⟨hq.tail (.clear d sid hd (by rw [hsame]; exact hs)
          (by rw [hdc]; exact hn.mono hq.later.tick) hl hclear), .inr ⟨_, rfl, hcon,
          ⟨{ d with snapshot := none, resnapshot := true }, ?_, hdc, hc, ?_, ?_, rfl,
            hupd.mono le_rfl hl.tick, ?_⟩⟩⟩
        · rw [hdb]
          exact mem_clearSnapshot hd hdc
        · rw [hsame]
        · rw [hsame]
        · intro _
          simp
      · cases he

/-- The first part of `sync` moves no cursor. -/
theorem beginSync_enrolled {req : Object} {w w' : World} {r : Except Exc Session}
    (h : beginSync H req w = (r, w')) : Enrolled w.db w'.db := by
  unfold beginSync at h
  obtain ⟨e, -, rfl, rfl⟩ | ⟨consumer, -, h1⟩ := lift_bind_inv h
  · exact (Unmoved.refl _).enrolled
  obtain ⟨e, h2, rfl⟩ | ⟨c, u, h2, h3⟩ := bind_inv h1
  · exact register_enrolled h2
  obtain ⟨e, h4, rfl⟩ | ⟨_, v, h4, h5⟩ := bind_inv h3
  · exact (register_enrolled h2).trans (touch_unmoved h4)
  have hv := (register_enrolled h2).trans (touch_unmoved h4)
  obtain ⟨e, h6, rfl⟩ | ⟨p, x, h6, h7⟩ := bind_inv h5
  · exact hv.trans (openSnapshot_unmoved h6)
  · cases h7
    exact hv.trans (openSnapshot_unmoved h6)

/-! ## Deltas -/

/-- The reply of a delta. -/
def deltaReply (db : Db) (c : Cursor) (entries : List Entry) (more : Bool) : Reply :=
  .delta entries c.seq (deltaEnd c entries) db.head (more || decide (deltaEnd c entries < db.head))

/-- A delta of the cursor `c`, and its issuance. -/
structure Delivered (consumer : Text) (c : Cursor) (entries : List Entry) (more : Bool)
    (w w' : World) (r : Except Exc Reply) : Prop where
  mem : c ∈ w.db.cursors
  own : c.consumer = consumer
  mode : DeltaMode w.db c
  bounded : w.db.delta c = .ok (entries, more)
  effect : (deltaEnd c entries ≤ c.issued ∧ Idle w w' ∧ r = .ok (deltaReply w.db c entries more)) ∨
    (c.issued < deltaEnd c entries ∧ Later w w' ∧
      w'.db = w.db.issueDelta c.consumer (deltaEnd c entries) ∧
      (r = .ok (deltaReply w.db c entries more) ∨ r = .error .killed))

/-- One delta page: it raises and changes nothing, or hands out the next rows above the cursor. -/
theorem deltaPage_inv {c d : Cursor} {w w' : World} {r : Except Exc Reply}
    (hd : d ∈ w.db.cursors) (hm : DeltaMode w.db d) (hcon : d.consumer = c.consumer)
    (hseq : d.seq = c.seq) (hiss : d.issued = c.issued) (h : deltaPage H c w = (r, w')) :
    (Idle w w' ∧ ∃ e, r = .error e) ∨
      ∃ entries more, Delivered c.consumer d entries more w w' r := by
  unfold deltaPage at h
  rw [database_bind] at h
  obtain ⟨e, -, rfl, rfl⟩ | ⟨⟨entries, more⟩, hp, h1⟩ := lift_bind_inv h
  · exact .inl ⟨refl_of Idle _, e, rfl⟩
  dsimp only at h1
  have hend : (entries.getLast?.map Entry.seq).getD c.seq = deltaEnd d entries := by
    rw [deltaEnd, hseq]
  have hdelta : w.db.delta d = .ok (entries, more) := by rw [Db.delta, hseq]; exact hp
  rw [hend, ← hseq] at h1
  unfold issueDelta at h1
  by_cases hn : deltaEnd d entries > c.issued
  · rw [if_pos hn] at h1
    obtain ⟨e, h3, rfl⟩ | ⟨_, u, h3, h4⟩ := bind_inv h1
    · obtain ⟨hi, _, he, -⟩ | ⟨hl, hdb, hr⟩ := statement_inv h3
      · exact .inl ⟨hi, e, rfl⟩
      · obtain hr | hr := hr
        · cases hr
        · cases hr
          exact .inr ⟨entries, more, hd, hcon, hm, hdelta,
            .inr ⟨hiss ▸ hn, hl, hcon ▸ hdb, .inr rfl⟩⟩
    · cases h4
      obtain ⟨-, _, he, -⟩ | ⟨hl, hdb, -⟩ := statement_inv h3
      · cases he
      · exact .inr ⟨entries, more, hd, hcon, hm, hdelta,
          .inr ⟨hiss ▸ hn, hl, hcon ▸ hdb, .inl rfl⟩⟩
  · rw [if_neg hn] at h1
    cases h1
    exact .inr ⟨entries, more, hd, hcon, hm, hdelta,
      .inl ⟨hiss ▸ not_lt.mp hn, refl_of Idle _, rfl⟩⟩

/-! ## `sync` and `ack` -/

/-- How a `sync` of `consumer` that has begun at `w` ends. -/
inductive Answer (H : Host) (consumer : Text) (req : Object) (s : Session) (w w' : World)
    (r : Except Exc Reply) : Prop
  | refused (h : Maints H w.tick w w') (e : Exc) (he : r = .error e)
  | page (u : World) (x : Snapshot) (token : ℤ) (page : List Item) (more : Bool)
      (hs : s.snapshot = some x.id) (hu : Idle w u)
      (h : Served H consumer req x token page more u w' r)
  | frozen (u v : World) (sid : Text) (created updated now : ℚ) (hs : s.snapshot = none)
      (hdue : s.due = true) (hnone : ∃ c ∈ w.db.cursors, c.consumer = consumer ∧ c.snapshot = none)
      (hm : Maints H w.tick w u) (hl : Later u v) (hord : Monotone H.clock → created ≤ updated)
      (hc : Reading H w.tick v created) (hu : Reading H w.tick v updated)
      (hn : Reading H w.tick v now) (hf : Froze H consumer sid w created updated now u.db v.db)
      (hend : r = .error .killed ∧ w' = v ∨ (freeze H consumer w = (.ok sid, v) ∧
        ((Idle v w' ∧ ∃ e, r = .error e) ∨ ∃ z x token page more, Idle v z ∧ x.id = sid ∧
          Served H consumer req x token page more z w' r)))
  | delta (c : Cursor) (entries : List Entry) (more : Bool) (hs : s.snapshot = none)
      (hdue : s.due = false) (h : Delivered consumer c entries more w w' r)

/-- **One run of `sync`.** -/
theorem sync_inv {req : Object} {w w' : World} {r : Except Exc Reply}
    (h : sync H req w = (r, w')) :
    (Quiets H w.tick w w' ∧ (∃ e, r = .error e) ∧ ∃ e, beginSync H req w = (.error e, w')) ∨
      ∃ s u, beginSync H req w = (.ok s, u) ∧ Answer H s.consumer req s u w' r := by
  unfold sync at h
  obtain ⟨e, h1, rfl⟩ | ⟨s, u, h1, h2⟩ := bind_inv h
  · exact .inl ⟨(beginSync_inv h1).1, ⟨e, rfl⟩, e, h1⟩
  refine .inr ⟨s, u, h1, ?_⟩
  obtain ⟨-, ⟨_, he⟩ | ⟨_, he, -, ⟨c, hc, hcc, hsc, hseq, hiss, hsnap, -, hdue⟩⟩⟩ :=
    beginSync_inv h1
  · cases he
  cases he
  rcases hs : s.snapshot with _ | sid
  · rw [hs] at h2
    dsimp only at h2
    split at h2
    · rename_i hd
      have hnone : ∃ c ∈ u.db.cursors, c.consumer = s.consumer ∧ c.snapshot = none :=
        ⟨c, hc, hcc, hsnap.trans hs⟩
      obtain ⟨e, h3, rfl⟩ | ⟨sid, v, h3, h4⟩ := bind_inv h2
      · obtain ⟨hm, -⟩ | ⟨x, sid, t1, t2, t3, -, hm, hl, r1, r2, r3, hord, hf, he⟩ := freeze_inv h3
        · exact .refused hm e rfl
        · obtain he | he := he
          · cases he
          · cases he
            exact .frozen x w' sid t1 t2 t3 hs hd hnone hm hl hord r1 r2 r3 hf (.inl ⟨rfl, rfl⟩)
      · obtain ⟨-, _, he, -⟩ | ⟨x, sid', t1, t2, t3, -, hm, hl, r1, r2, r3, hord, hf, he⟩ :=
          freeze_inv h3
        · cases he
        obtain he | he := he
        · cases he
          obtain ⟨hi, he⟩ | ⟨z, y, token, page, more, hz, hy, hserved⟩ := snapshotPage_inv h4
          · exact .frozen x v sid t1 t2 t3 hs hd hnone hm hl hord r1 r2 r3 hf
              (.inr ⟨h3, .inl ⟨hi, he⟩⟩)
          · exact .frozen x v sid t1 t2 t3 hs hd hnone hm hl hord r1 r2 r3 hf
              (.inr ⟨h3, .inr ⟨z, y, token, page, more, hz, hy, hserved⟩⟩)
        · cases he
    · rename_i hd
      have hd' : s.due = false := by simpa using hd
      have hmode : DeltaMode u.db c := by
        have hdue := hdue hs
        rw [hd'] at hdue
        simp only [Bool.false_eq, Bool.or_eq_false_iff, Bool.not_eq_eq_eq_not, Bool.not_false,
          decide_eq_false_iff_not, not_lt] at hdue
        exact ⟨hsnap.trans hs, hdue.1.1, hdue.1.2, hdue.2⟩
      obtain ⟨hi, e, he⟩ | ⟨entries, more, hdel⟩ :=
        deltaPage_inv hc hmode (hcc.trans hsc.symm) hseq hiss h2
      · exact .refused (.idle hi) e he
      · exact .delta c entries more hs hd' (hsc ▸ hdel)
  · rw [hs] at h2
    obtain ⟨hi, e, he⟩ | ⟨z, x, token, page, more, hz, hid, hserved⟩ := snapshotPage_inv h2
    · exact .refused (.idle hi) e he
    · exact .page z x token page more (hs.trans (congrArg some hid.symm)) hz hserved

/-- How an `ack` of `consumer` whose row is in place at `w` ends. -/
inductive Acknowledged (H : Host) (consumer : Text) (w w' : World)
    (r : Except Exc Reply) : Prop
  | refused (h : Idle w w') (e : Exc) (he : r = .error e)
  | replayed (s : Snapshot) (hi : Idle w w') (hs : s ∈ w.db.snapshots)
    (hown : s.consumer = consumer)
      (hacked : s.ackedAt.isSome = true) (he : r = .ok (.ackedSnapshot s.head s.id true))
  | snapshot (c : Cursor) (s : Snapshot) (hc : c.consumer = consumer)
      (h : Bootstraps H w.tick c s w w')
      (he : r = .ok (.ackedSnapshot s.head s.id false) ∨ r = .error .killed)
  | ignored (seq : ℕ) (hi : Idle w w') (he : r = .ok (.ignored seq))
  | through (c : Cursor) (seq : ℕ) (hc : c.consumer = consumer) (h : Advances c seq w w')
      (he : r = .ok (.acked seq) ∨ r = .error .killed)

/-- An acknowledgement of a snapshot moves the cursor to the snapshot's head, or nothing happens. -/
theorem ackSnapshot_inv {consumer : Text} {c d : Cursor} {sid : Json} {w w' : World}
    {r : Except Exc Reply} (hd : d ∈ w.db.cursors) (hcon : c.consumer = consumer) (hsame : c.Same d)
    (h : ackSnapshot H consumer c sid w = (r, w')) : Acknowledged H consumer w w' r := by
  have hdc : d.consumer = consumer := by rw [hsame]; exact hcon
  unfold ackSnapshot at h
  obtain ⟨e, h1, rfl⟩ | ⟨o, u, h1, h2⟩ := bind_inv h
  · exact .refused ((snapshotState_inv h1).1 ▸ refl_of Idle _) e rfl
  obtain ⟨rfl, ⟨_, he⟩ | ⟨o', he, hmem⟩⟩ := snapshotState_inv h1
  · cases he
  cases he
  cases o with
  | none =>
    cases h2
    exact .refused (refl_of Idle _) _ rfl
  | some s =>
    dsimp only at h2
    split at h2
    · cases h2
      exact .refused (refl_of Idle _) _ rfl
    rename_i hown
    split at h2
    · rename_i hacked
      cases h2
      exact .replayed s (refl_of Idle _) (hmem s rfl) (not_not.mp hown) hacked rfl
    rename_i hunacked
    split at h2
    · cases h2
      exact .refused (refl_of Idle _) _ rfl
    rename_i hopen
    have hi : Idle u { u with tick := u.tick + 1 } := ⟨⟨Nat.le_succ _, rfl⟩, rfl⟩
    rw [time_bind] at h2
    split at h2
    · cases h2
      exact .refused hi _ rfl
    rename_i hlive
    split at h2
    · cases h2
      exact .refused hi _ rfl
    rename_i hall
    -- The snapshot named by the request is the one this cursor points at.
    have hsnap : d.snapshot = some s.id := by
      rcases hc : c.snapshot with _ | own
      · simp [hc] at hopen
      have hsid : sid = .str own := by
        rw [hc, Option.all_some, Bool.not_eq_true', Bool.not_eq_false] at hopen
        exact Json.isText_iff.mp hopen
      subst hsid
      have hfind : u.db.snapshots.find own = some s := by
        unfold snapshotState at h1
        obtain ⟨_, _, he, -⟩ | ⟨b, hb, h3⟩ := lift_bind_inv h1
        · cases he
        simp only [Sql.ofJson] at hb
        split at hb
        · cases hb
          exact Except.ok.inj (congrArg Prod.fst h3)
        · cases hb
      have : d.snapshot = some own := by rw [hsame]; exact hc
      rw [this, (Table.find_eq_some.mp hfind).2]
    have hk : Keeps Later (do
        write H
        let acked ← time H
        execute (Db.ackSnapshot s.id acked)
        execute (Db.bootstrap consumer s.head (max s.head c.issued))) :=
      Keeps.bind (Keeps.later keeps_write) fun _ => Keeps.bind (Keeps.later keeps_time) fun _ =>
        Keeps.bind (keeps_execute _) fun _ => keeps_execute _
    have hboot {r1 : Except Exc Unit} {v : World} (hp : progress H (do
        write H
        let acked ← time H
        execute (Db.ackSnapshot s.id acked)
        execute (Db.bootstrap consumer s.head (max s.head c.issued)))
        { u with tick := u.tick + 1 } = (r1, v)) :
        (Idle u v ∧ ∃ e, r1 = .error e) ∨
          (Bootstraps H u.tick d s u v ∧ (r1 = .ok () ∨ r1 = .error .killed)) := by
      obtain ⟨hi', e, he, -⟩ | ⟨w1, _, w2, h3, h4, h5, -, hr⟩ := transaction_inv hk hp
      · exact .inl ⟨trans_of Idle hi hi', e, he⟩
      · obtain ⟨_, x, h6, h7⟩ := bind_ok_inv h4
        have hx : Idle u x := trans_of Idle hi (trans_of Idle h3 (keeps_write.run h6))
        have ht : u.tick + 1 ≤ x.tick := (trans_of Idle h3 (keeps_write.run h6)).tick
        cases h7
        have hv : x.tick + 1 ≤ v.tick := h5.tick
        refine .inr ⟨⟨hd, hmem s rfl, hsnap, (not_not.mp hown).trans hdc.symm,
          by simpa using hunacked,
          ⟨H.clock u.tick, ⟨u.tick, le_rfl, by omega, rfl⟩, not_lt.mp hlive⟩, not_lt.mp hall,
          ⟨by omega, h5.fts.trans hx.fts⟩, H.clock x.tick, ⟨x.tick, by omega, by omega, rfl⟩, ?_⟩,
            hr⟩
        rw [h5.db, hdc, hsame]
        exact congrArg (fun db => Db.bootstrap consumer s.head (max s.head c.issued)
          (Db.ackSnapshot s.id (H.clock x.tick) db)) hx.db
    obtain ⟨e, h3, rfl⟩ | ⟨_, v, h3, h4⟩ := bind_inv h2
    · obtain ⟨hi', -⟩ | ⟨hb, hr⟩ := hboot h3
      · exact .refused hi' e rfl
      · obtain hr | hr := hr
        · cases hr
        · cases hr
          exact .snapshot d s hdc hb (.inr rfl)
    · cases h4
      obtain ⟨-, _, he⟩ | ⟨hb, -⟩ := hboot h3
      · cases he
      · exact .snapshot d s hdc hb (.inl rfl)

/-- An acknowledgement of a delta moves the cursor to a position that was issued, or nothing
happens. -/
theorem ackThrough_inv {consumer : Text} {c d : Cursor} {req : Object} {w w' : World}
    {r : Except Exc Reply} (hd : d ∈ w.db.cursors) (hcon : c.consumer = consumer) (hsame : c.Same d)
    (h : ackThrough H consumer c req w = (r, w')) : Acknowledged H consumer w w' r := by
  have hdc : d.consumer = consumer := by rw [hsame]; exact hcon
  unfold ackThrough at h
  split at h
  · cases h
    exact .refused (refl_of Idle _) _ rfl
  rename_i hopen
  split at h
  · cases h
    exact .refused (refl_of Idle _) _ rfl
  rename_i hboot
  obtain ⟨e, -, rfl, rfl⟩ | ⟨through, -, h1⟩ := lift_bind_inv h
  · exact .refused (refl_of Idle _) e rfl
  split at h1
  · cases h1
    exact .ignored _ (refl_of Idle _) rfl
  rename_i hge
  split at h1
  · cases h1
    exact .refused (refl_of Idle _) _ rfl
  rename_i hle
  rw [not_or] at hopen
  have hadv {v : World} (hl : Later w v) (hdb : v.db = w.db.advance consumer through.toNat) :
      Advances d through.toNat w v := by
    have hseq : (d.seq : ℤ) ≤ through := by rw [hsame]; exact not_lt.mp hge
    have hiss : through ≤ (d.issued : ℤ) := by rw [hsame]; exact not_lt.mp hle
    refine ⟨hd, ?_, ?_, ?_, by omega, by omega, hl, by rw [hdc, hdb]⟩
    · rw [hsame]; simpa using hopen.1
    · rw [hsame]; simpa using hopen.2
    · rw [hsame]; simpa using hboot
  obtain ⟨e, h3, rfl⟩ | ⟨_, v, h3, h4⟩ := bind_inv h1
  · obtain ⟨hi, -⟩ | ⟨hl, hdb, hr⟩ := statement_inv h3
    · exact .refused hi e rfl
    · obtain hr | hr := hr
      · cases hr
      · cases hr
        exact .through d _ hdc (hadv hl hdb) (.inr rfl)
  · cases h4
    obtain ⟨-, _, he, -⟩ | ⟨hl, hdb, -⟩ := statement_inv h3
    · cases he
    · exact .through d _ hdc (hadv hl hdb) (.inl rfl)

/-- **One run of `ack`.** -/
theorem ack_inv {req : Object} {w w' : World} {r : Except Exc Reply} (h : ack H req w = (r, w')) :
    (Quiets H w.tick w w' ∧ Enrolled w.db w'.db ∧ ∃ e, r = .error e) ∨
      ∃ consumer u, consumerOf req = .ok consumer ∧ Quiets H w.tick w u ∧ Enrolled w.db u.db ∧
        Acknowledged H consumer u w' r := by
  unfold ack at h
  obtain ⟨e, -, rfl, rfl⟩ | ⟨consumer, hcon, h1⟩ := lift_bind_inv h
  · exact .inl ⟨.refl, (Unmoved.refl _).enrolled, e, rfl⟩
  obtain ⟨e, h2, rfl⟩ | ⟨c, u, h2, h3⟩ := bind_inv h1
  · refine .inl ⟨?_, register_enrolled h2, e, rfl⟩
    obtain ⟨hm, -⟩ | ⟨rfl, -⟩ | ⟨-, -, w1, now, table, hm, hl, hn, hi, hd, hroom, hgrave, -⟩ :=
      register_inv h2
    · exact hm.quiets
    · exact .refl
    · exact hm.quiets.tail (.register consumer now table hl hn hi hd hroom hgrave)
  obtain ⟨e, h4, rfl⟩ | ⟨_, v, h4, h5⟩ := bind_inv h3
  · exact .inl ⟨(registered_inv h2 h4).1, (register_enrolled h2).trans (touch_unmoved h4), e, rfl⟩
  obtain ⟨hq, ⟨_, he, -⟩ | ⟨-, hc, d, hd, hsame, -⟩⟩ := registered_inv h2 h4
  · cases he
  refine .inr ⟨consumer, v, hcon, hq, (register_enrolled h2).trans (touch_unmoved h4), ?_⟩
  dsimp only at h5
  split at h5
  · exact ackSnapshot_inv hd hc hsame h5
  · exact ackThrough_inv hd hc hsame h5

/-! ## The dispatcher -/

/-- A recovery leaves the content alone. -/
theorem keeps_recover : Keeps Idle (recover H) := by
  have hlog : Keeps Idle (logState H) := keeps_logState
  have hraise {α : Type} (d : Text) (c : Option SqliteError) :
      Keeps Idle (block d >>= fun _ => (raiseBlocked c : M α)) :=
    Keeps.bind (keeps_block d) fun _ => keeps_raiseBlocked c
  have hnamed {α : Type} (d : Text → Text) (c : Option SqliteError) :
      Keeps Idle (errorLine H >>= fun line => block (d line) >>= fun _ => (raiseBlocked c : M α)) :=
    Keeps.bind keeps_errorLine fun _ => hraise _ _
  have hclear : Keeps Idle (modify fun w : World => { w with blocked := none } : M Unit) :=
    fun _ => ⟨⟨le_rfl, rfl⟩, rfl⟩
  have hvac : Keeps Idle (do
      let p ← tryCatch (do vacuum H; logState H) fun _ => do
        let line ← errorLine H
        block (lit "recovery could not reclaim pages (" ++ line ++ lit ")")
        raiseBlocked (some .other)
      if p.1 ≠ 0 ∨ p.2.1 ≠ 0 ∨ p.2.2 ≠ 0 then
        block (lit "recovery reclaimed pages but could not reset the log afterwards")
        raiseBlocked none
      modify fun w => { w with blocked := none }) := by
    refine Keeps.bind (Keeps.tryCatch (Keeps.bind keeps_vacuum fun _ => hlog) fun _ => hnamed _ _)
      fun p => ?_
    refine Keeps.ite ?_ hclear
    exact Keeps.bind (keeps_block _) fun _ => Keeps.bind (keeps_raiseBlocked _) fun _ => hclear
  refine Keeps.bind (Keeps.tryCatch hlog fun _ => hnamed _ _) fun p => Keeps.ite ?_ hvac
  exact Keeps.bind (keeps_block _) fun _ => Keeps.bind (keeps_raiseBlocked _) fun _ => hvac

/-- A search leaves the content alone. -/
theorem keeps_recall (r : Object) : Keeps Idle («recall» H r) := by
  unfold «recall»
  split
  · refine Keeps.ite (keeps_refuse _ _) ?_
    refine Keeps.bind (Keeps.lift _) fun _ => Keeps.bind keeps_time fun _ => ?_
    refine Keeps.bind Keeps.get fun w => Keeps.bind (Keeps.lift _) fun _ => ?_
    refine Keeps.bind (Keeps.lift _) fun _ => Keeps.bind (Keeps.lift _) fun _ => ?_
    exact Keeps.bind (Keeps.lift _) fun _ => Keeps.pure _
  · exact keeps_refuse _ _

/-- A status leaves the content alone. -/
theorem keeps_status (r : Object) : Keeps Idle (status H r) :=
  Keeps.bind Keeps.get fun _ => Keeps.bind (Keeps.lift _) fun _ =>
    Keeps.bind (Keeps.lift _) fun _ => Keeps.pure _

/-- The reply of an operation that only reads. -/
def Reply.isRead : Reply → Bool
  | .recovered .. => true
  | .hello .. => true
  | .recalled .. => true
  | .status .. => true
  | .stopping => true
  | _ => false

/-- What a search answers is the reply of a read. -/
theorem returns_recall (r : Object) : Returns (fun x => x.isRead = true) («recall» H r) := by
  unfold «recall»
  split
  · refine Returns.ite (Returns.throw _) (Returns.bind fun _ => Returns.bind fun _ => ?_)
    refine Returns.bind fun _ => Returns.bind fun _ => Returns.bind fun _ => ?_
    exact Returns.bind fun _ => Returns.bind fun _ => Returns.pure rfl
  · exact Returns.throw _

/-- What a status answers is the reply of a read. -/
theorem returns_status (r : Object) : Returns (fun x => x.isRead = true) (status H r) :=
  Returns.bind fun _ => Returns.bind fun _ => Returns.bind fun _ => Returns.pure rfl

/-- How a request ends. -/
inductive Handled (H : Host) (s : Service) (r : Object) (pid : ℕ) (w w' : World)
    (res : Except Exc Reply) : Prop
  | read (h : Idle w w') (hr : ∀ x, res = .ok x → x.isRead = true)
  | maintained (h : Maints H w.tick w w') (e : Exc) (he : res = .error e)
  | note (u : World) (consumer : Text) (n : Except Exc Noted) (hv : validateTarget s r = .ok ())
      (hop : (r.get (lit "op")).isText (lit "note") = true) (hu : maybeExpire H w = (.ok (), u))
      (hc : consumerOf r = .ok consumer)
      (hn : note H s.repo consumer (noteArgs r) pid u = (n, w')) (he : res = n.map Reply.noted)
  | sync (u : World) (hv : validateTarget s r = .ok ())
      (hop : (r.get (lit "op")).isText (lit "sync") = true) (hu : maybeExpire H w = (.ok (), u))
      (h : sync H r u = (res, w'))
  | ack (u : World) (hv : validateTarget s r = .ok ())
      (hop : (r.get (lit "op")).isText (lit "ack") = true) (hu : maybeExpire H w = (.ok (), u))
      (h : ack H r u = (res, w'))

/-- An operation with the name of one that writes is not read-only. -/
theorem not_readOnly {op : Json} {t : Text} (h : op.isText t = true)
    (ht : readOnly (.str t) = false) : readOnly op = false := by
  rw [Json.isText_iff.mp h]
  exact ht

/-- The upkeep before a request is maintenance, and is done before every request that may write. -/
theorem maintain_inv {op : Json} {w w' : World} {r : Except Exc Unit}
    (h : maintain H op w = (r, w')) :
    Maints H w.tick w w' ∧ (readOnly op = false → maybeExpire H w = (r, w')) := by
  unfold maintain at h
  split at h
  · rename_i hro
    cases h
    exact ⟨.refl, fun hf => by rw [hro] at hf; cases hf⟩
  · exact ⟨maybeExpire_maint h, fun _ => h⟩

/-- **One request.** -/
theorem command_inv {s : Service} {r : Object} {pid : ℕ} {w w' : World} {res : Except Exc Reply}
    (h : command H s r pid w = (res, w')) : Handled H s r pid w w' res := by
  unfold command at h
  obtain ⟨e, -, rfl, rfl⟩ | ⟨_, hval, h1⟩ := lift_bind_inv h
  · exact .read (refl_of Idle _) nofun
  obtain ⟨e, h2, rfl⟩ | ⟨_, u, h2, h3⟩ := bind_inv h1
  · exact .maintained (maintain_inv h2).1 e rfl
  obtain ⟨hm, hx⟩ := maintain_inv h2
  -- A read only operation commits nothing, and no maintenance ran before it.
  have hread (t : Text) (ht : readOnly (.str t) = true) (hop : (r.get (lit "op")).isText t = true)
      (hi : Idle u w') (hr : ∀ x, res = .ok x → x.isRead = true) : Handled H s r pid w w' res := by
    rw [Json.isText_iff.mp hop, maintain, if_pos ht] at h2
    cases h2
    exact .read hi hr
  unfold dispatch at h3
  split at h3
  · rename_i hop
    refine hread _ (by decide) hop ?_ ?_
    · exact (Keeps.bind keeps_recover fun _ => Keeps.bind Keeps.get fun _ => Keeps.pure _).run h3
    · rintro x rfl
      exact (Returns.bind fun _ => Returns.bind fun _ => Returns.pure rfl :
        Returns (fun x : Reply => x.isRead = true) _) _ _ _ h3
  split at h3
  · rename_i hop
    refine hread _ (by decide) hop ?_ ?_
    · exact (Keeps.bind Keeps.get fun _ => Keeps.pure _ : Keeps Idle _).run h3
    · rintro x rfl
      cases h3
      rfl
  split at h3
  · rename_i hop
    have hu := hx (not_readOnly hop (by decide))
    obtain ⟨e, -, rfl, rfl⟩ | ⟨consumer, hc, h4⟩ := lift_bind_inv h3
    · exact .maintained hm e rfl
    obtain ⟨e, h5, rfl⟩ | ⟨n, v, h5, h6⟩ := bind_inv h4
    · exact .note u consumer (.error e) hval hop hu hc h5 rfl
    · cases h6
      exact .note u consumer (.ok n) hval hop hu hc h5 rfl
  split at h3
  · rename_i hop
    exact .sync u hval hop (hx (not_readOnly hop (by decide))) h3
  split at h3
  · rename_i hop
    exact .ack u hval hop (hx (not_readOnly hop (by decide))) h3
  split at h3
  · rename_i hop
    refine hread _ (by decide) hop ((keeps_recall r).run h3) ?_
    rintro x rfl
    exact returns_recall r _ _ _ h3
  split at h3
  · rename_i hop
    refine hread _ (by decide) hop ((keeps_status r).run h3) ?_
    rintro x rfl
    exact returns_status r _ _ _ h3
  split at h3
  · rename_i hop
    refine hread _ (by decide) hop ?_ ?_
    · exact (Keeps.bind (Keeps.lift _) fun _ => Keeps.pure _ : Keeps Idle _).run h3
    · rintro x rfl
      exact (Returns.bind fun _ => Returns.pure rfl :
        Returns (fun x : Reply => x.isRead = true) _) _ _ _ h3
  · cases h3
    exact .maintained hm _ rfl

/-! ## Requests are chains of changes -/

/-- A page of a snapshot is steps of the protocol. -/
theorem Served.changes {consumer : Text} {req : Object} {s : Snapshot} {token : ℤ}
    {page : List Item} {more : Bool} {k : ℕ} {w w' : World} {r : Except Exc Reply}
    (h : Served H consumer req s token page more w w' r) : Changes H k w w' := by
  obtain ⟨-, hi, -⟩ | ⟨hn, hl, hd, -⟩ := h.effect
  · exact (Quiets.idle hi).changes
  · exact .single (.issuePage s token page more h.mem h.issued h.bounded hn hl hd)

/-- A delta page is steps of the protocol. -/
theorem Delivered.changes {consumer : Text} {c : Cursor} {entries : List Entry}
    {more : Bool} {k : ℕ}
    {w w' : World} {r : Except Exc Reply} (h : Delivered consumer c entries more w w' r) :
    Changes H k w w' := by
  obtain ⟨-, hi, -⟩ | ⟨hn, hl, hd, -⟩ := h.effect
  · exact (Quiets.idle hi).changes
  · exact .single (.issueDelta c entries more h.mem h.mode h.bounded hn hl hd)

/-- An answered `sync` is steps of the protocol. -/
theorem Answer.changes {consumer : Text} {req : Object} {s : Session} {w w' : World}
    {r : Except Exc Reply} (h : Answer H consumer req s w w' r) : Changes H w.tick w w' := by
  cases h with
  | refused h e he => exact h.quiets.changes
  | page u x token page more hs hu h => exact (Quiets.idle hu).changes.trans h.changes
  | frozen u v sid t1 t2 t3 hs hdue hnone hm hl hord h1 h2 h3 hf hend =>
    have hv : Changes H w.tick w v := hm.quiets.changes.tail
      (.freeze consumer sid w t1 t2 t3 hnone hm hl le_rfl hord h1 h2 h3 hf)
    obtain ⟨-, rfl⟩ | ⟨-, ⟨hi, -⟩ | ⟨z, x, token, page, more, hz, -, h⟩⟩ := hend
    · exact hv
    · exact hv.trans (Quiets.idle hi).changes
    · exact hv.trans ((Quiets.idle hz).changes.trans h.changes)
  | delta c entries more hs hdue h => exact h.changes

/-- An acknowledgement is steps of the protocol. -/
theorem Acknowledged.changes {consumer : Text} {w w' : World} {r : Except Exc Reply}
    (h : Acknowledged H consumer w w' r) : Changes H w.tick w w' := by
  cases h with
  | refused h => exact (Quiets.idle h).changes
  | replayed s hi => exact (Quiets.idle hi).changes
  | snapshot c s hc h => exact .single (.ackSnapshot c s h)
  | ignored seq hi => exact (Quiets.idle hi).changes
  | through c seq hc h => exact .single (.advance c seq h)

/-- A note is quiet: it touches no cursor and no snapshot. -/
theorem note_changes {repo consumer : Text} {a : NoteArgs} {pid : ℕ} {w w' : World}
    {r : Except Exc Noted} (h : note H repo consumer a pid w = (r, w')) : Quiets H w.tick w w' := by
  obtain ⟨hm, -⟩ | ⟨d, hd, ⟨hi, -⟩ | ⟨w1, x, key, due, hm, hof, -, hc, -⟩⟩ := note_inv h
  · exact hm.quiets
  · exact .idle hi
  · refine hm.quiets.tail (.append x hc ?_)
    rw [hof.consumer, hof.args, hof.pid, hof.draft]
    exact hd

/-- A note moves no cursor. -/
theorem note_unmoved {repo consumer : Text} {a : NoteArgs} {pid : ℕ} {w w' : World}
    {r : Except Exc Noted} (h : note H repo consumer a pid w = (r, w')) : Unmoved w.db w'.db := by
  obtain ⟨hm, -⟩ | ⟨d, hd, ⟨hi, -⟩ | ⟨w1, x, key, due, hm, hof, -, hc, -⟩⟩ := note_inv h
  · exact .of_subset hm.cursors
  · rw [hi.db]
    exact .refl _
  · refine .of_subset fun c hmem => hm.cursors c ?_
    rwa [hc.effect.cursors] at hmem

/-- A `sync` is steps of the protocol. -/
theorem sync_changes {req : Object} {w w' : World} {r : Except Exc Reply}
    (h : sync H req w = (r, w')) : Changes H w.tick w w' := by
  obtain ⟨hq, -⟩ | ⟨s, u, hb, ha⟩ := sync_inv h
  · exact hq.changes
  · have hq := (beginSync_inv hb).1
    exact hq.changes.trans (ha.changes.mono hq.later.tick)

/-- An `ack` is steps of the protocol. -/
theorem ack_changes {req : Object} {w w' : World} {r : Except Exc Reply}
    (h : ack H req w = (r, w')) : Changes H w.tick w w' := by
  obtain ⟨hq, -⟩ | ⟨c, u, -, hq, -, ha⟩ := ack_inv h
  · exact hq.changes
  · exact hq.changes.trans (ha.changes.mono hq.later.tick)

/-- **Whatever a request does is a chain of committed changes.** -/
theorem command_changes {s : Service} {r : Object} {pid : ℕ} {w w' : World}
    {res : Except Exc Reply} (h : command H s r pid w = (res, w')) : Changes H w.tick w w' := by
  have hthen {u : World} (hu : maybeExpire H w = (.ok (), u)) (hc : Changes H u.tick u w') :
      Changes H w.tick w w' :=
    have hm := maybeExpire_maint hu
    hm.quiets.changes.trans (hc.mono hm.later.tick)
  cases command_inv h with
  | read h hr => exact (Quiets.idle h).changes
  | maintained h => exact h.quiets.changes
  | note u consumer n hv hop hu hc hn he => exact hthen hu (note_changes hn).changes
  | sync u hv hop hu h => exact hthen hu (sync_changes h)
  | ack u hv hop hu h => exact hthen hu (ack_changes h)

end PeerBridge.Memory
