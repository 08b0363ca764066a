import PeerBridge.Memory.Snapshots

/-!
# Charges and usage

Admission compares the stored logical bytes plus a charge with a cap. The charge is computed over
the fields of a request, the usage is measured over six tables. This module proves that they agree:

* `Appended.logical`: an append whose text fields are texts or null grows the usage by exactly its
  charge, and so does a freeze before it prunes (`Froze.logical`);
* a registration grows it by at most its charge, and the retirement of idle readers leaves it alone
  (`logical_retire`), because a tombstone measures what the cursor row it replaces measured;
* so a change that was admitted is never rolled back by the check at its end, and the budgets hold
  at every moment (`Budgeted`, `accounting_exact`).

Source: `memory.py`, `Store.usage`, `charge`, `mutation`, `enforce_logical`, `admit`, `note`,
`expire`; `freeze`; `MemoryCommands.register`.
-/

namespace PeerBridge.Memory

open Py Relational Effects Effects.Prog Relation

variable {H : Host}

/-! ## Text fields -/

/-- A text field of a request is a string or null. -/
def TextField (v : Json) : Prop := v = .null ∨ ∃ t, v = .str t

/-- The text fields of a `note`. -/
structure NoteArgs.Textual (a : NoteArgs) : Prop where
  path : TextField a.path
  author : TextField a.author
  scopeTarget : TextField a.scopeTarget

/-- The measure of a text is its length in UTF-8. -/
theorem measure_eq_ok {t : Text} {n : ℕ} (h : measure t = .ok n) : n = utf8Len t := by
  unfold measure at h
  split at h
  · exact (Except.ok.inj h).symm
  · cases h

/-- What a text field is charged is what its column holds. -/
theorem measureOr_text {v : Json} {m : ℕ} {s : Sql} (hv : TextField v) (hm : measureOr v = .ok m)
    (hs : Sql.ofJson v = .ok s) : m = optLen (H.textAffinity s) := by
  rcases hv with rfl | ⟨t, rfl⟩
  · obtain rfl := Except.ok.inj hs
    obtain rfl := Except.ok.inj hm
    rfl
  · have hn : m = utf8Len t := measure_eq_ok hm
    change (if encodable t then .ok (.text t) else .error .valueError : Except Exc Sql)
      = .ok s at hs
    split at hs
    · obtain rfl := Except.ok.inj hs
      exact hn
    · cases hs

/-- Several values measure the sum of their measures. -/
theorem measureAll_cons {v : Json} {l : List Json} {n : ℕ} (h : measureAll (v :: l) = .ok n) :
    ∃ a b, measureOr v = .ok a ∧ measureAll l = .ok b ∧ n = a + b := by
  obtain ⟨a, ha, h1⟩ := except_bind_eq_ok.mp h
  obtain ⟨b, hb, h2⟩ := except_bind_eq_ok.mp h1
  exact ⟨a, b, ha, hb, (Except.ok.inj h2).symm⟩

/-- Several texts measure the sum of their lengths in UTF-8. -/
theorem measureAll_texts {ts : List Text} {n : ℕ} (h : measureAll (ts.map Json.str) = .ok n) :
    n = (ts.map utf8Len).sum := by
  induction ts generalizing n with
  | nil => exact (Except.ok.inj h).symm
  | cons t ts ih =>
    obtain ⟨a, b, ha, hb, rfl⟩ := measureAll_cons h
    rw [List.map_cons, List.sum_cons, measure_eq_ok (show measure t = .ok a from ha), ih hb]

/-- Where the text columns of a bound row come from. -/
theorem bindColumns_inv {consumer : Text} {a : NoteArgs} {d : Draft} {c : Columns}
    (h : bindColumns H consumer a d = .ok c) : ∃ s p u, Sql.ofJson a.scopeTarget = .ok s ∧
      Sql.ofJson a.path = .ok p ∧ Sql.ofJson a.author = .ok u ∧ c.scopeTarget = H.textAffinity s ∧
      c.path = H.textAffinity p ∧ c.author = H.textAffinity u := by
  unfold bindColumns at h
  obtain ⟨s, hs, h⟩ := except_bind_eq_ok.mp h
  obtain ⟨p, hp, h⟩ := except_bind_eq_ok.mp h
  obtain ⟨_, -, h⟩ := except_bind_eq_ok.mp h
  obtain ⟨u, hu, h⟩ := except_bind_eq_ok.mp h
  obtain ⟨_, -, h⟩ := except_bind_eq_ok.mp h
  obtain ⟨_, -, h⟩ := except_bind_eq_ok.mp h
  obtain ⟨_, -, h⟩ := except_bind_eq_ok.mp h
  obtain ⟨_, -, h⟩ := except_bind_eq_ok.mp h
  obtain rfl := Except.ok.inj h
  exact ⟨s, p, u, hs, hp, hu, rfl, rfl, rfl⟩

/-! ## Appends -/

/-- The links an append makes leave the lengths of the texts. -/
theorem Append.textLen_relink (x : Append) (seq : ℕ) (e : Entry) :
    (x.relink seq e).textLen = e.textLen := by
  unfold Append.relink
  split
  · unfold Entry.link
    split <;> rfl
  · rfl

/-- The key of the deduplication row that a request is charged for, if it has a key. -/
def NoteArgs.idemKey (H : Host) (repo consumer : Text) (a : NoteArgs) : Option Text :=
  if a.key.isNull then none else some (scopedKey H repo consumer a.key)

/-- The key of the row that an append stores is the key it was asked for. -/
theorem Append.Of.idemKey {x : Append} {consumer mark : Text} {a : NoteArgs} {pid : ℕ} {d : Draft}
    {key : Option Text} {due : ℚ} (h : x.Of consumer a pid d key mark due) :
    x.idem.map Idem.key = key := by
  have hfields := congrArg (Option.map Prod.fst) h.idem
  simpa [Option.map_map, Function.comp_def] using hfields

/-- The charge of the row an append stores. -/
theorem noteCharge_entry {x : Append} {n : ℕ} (seq : ℕ) (ht : x.args.Textual)
    (hc : bindColumns H x.consumer x.args x.draft = .ok x.cols)
    (h : measureAll [.str x.draft.body, x.args.path, x.args.author, x.args.scopeTarget,
      .str x.consumer]
      = .ok n) : n = (x.entry seq).textLen := by
  obtain ⟨s, p, u, hs, hp, hu, hs', hp', hu'⟩ := bindColumns_inv hc
  obtain ⟨b, n1, hb, h1, rfl⟩ := measureAll_cons h
  obtain ⟨mp, n2, hmp, h2, rfl⟩ := measureAll_cons h1
  obtain ⟨mu, n3, hmu, h3, rfl⟩ := measureAll_cons h2
  obtain ⟨ms, n4, hms, h4, rfl⟩ := measureAll_cons h3
  obtain ⟨mc, n5, hmc, h5, rfl⟩ := measureAll_cons h4
  obtain rfl := Except.ok.inj h5
  rw [measure_eq_ok (show measure x.draft.body = .ok b from hb),
    measure_eq_ok (show measure x.consumer = .ok mc from hmc), measureOr_text ht.path hmp hp,
    measureOr_text ht.author hmu hu, measureOr_text ht.scopeTarget hms hs, ← hs', ← hp', ← hu']
  simp only [Entry.textLen, Append.entry]
  omega

/-- An append takes one slot. -/
theorem Appended.slot {x : Append} {db db' : Db} (h : Appended H x db db') :
    db'.usage.entries = db.usage.entries + 1 := by
  simp [Db.usage, h.entries]

/-- **An append grows the usage by exactly its charge.** -/
theorem Appended.logical {x : Append} {db db' : Db} (h : Appended H x db db') (ht : x.args.Textual)
    {need : ℕ} (hn : noteCharge x.consumer x.args x.draft (x.idem.map Idem.key) = .ok need) :
    db'.usage.logical = db.usage.logical + need ∧ db'.usage.entries = db.usage.entries + 1 := by
  have hrows : (db'.entries.rows.map Entry.textLen).sum
      = (db.entries.rows.map Entry.textLen).sum + (x.entry (db.head + 1)).textLen := by
    rw [h.entries, List.map_append, List.sum_append, List.map_map]
    simp [Function.comp_def, Append.textLen_relink]
  have hlen : db'.entries.rows.length = db.entries.rows.length + 1 := h.slot
  -- The deduplication row, if there is one, is charged like the usage counts it.
  have hidem : (db'.idem.rows.map fun i => utf8Len i.key + 64).sum + (x.entry (db.head + 1)).textLen
      + entryOverhead = (db.idem.rows.map fun i => utf8Len i.key + 64).sum + need := by
    obtain ⟨entry, he, hn⟩ := except_bind_eq_ok.mp hn
    have hentry := noteCharge_entry (db.head + 1) ht h.cols he
    rcases h.idem with ⟨hx, hd⟩ | ⟨i, hx, -, -, hins⟩
    · rw [hx] at hn
      obtain rfl := Except.ok.inj hn
      rw [hd, ← hentry]
      omega
    · rw [hx] at hn
      obtain ⟨n, hk, hn⟩ := except_bind_eq_ok.mp hn
      obtain rfl := Except.ok.inj hn
      rw [Table.sum_insert? hins, ← measure_eq_ok hk, ← hentry]
      omega
  refine ⟨?_, hlen⟩
  simp only [Db.usage, hrows, hlen, h.cursors, h.retired, h.snapshots, h.items]
  rw [Nat.add_mul]
  omega

/-! ## Freezes -/

/-- Bytes of the rows that pruning removes. -/
def Db.prunedBytes (consumer : Text) (now : ℚ) (db : Db) : ℕ :=
  ((db.snapshots.rows.filter fun s => (db.outdated consumer now).any fun o => o.id == s.id).map
      fun s => utf8Len s.id + utf8Len s.consumer + 96).sum
    + ((db.items.rows.filter fun i => (db.outdated consumer now).any fun o => o.id == i.id).map
      Item.bytes).sum

/-- Dropping a consumer's snapshots releases the bytes of their items. -/
theorem logical_pruneSnapshots (consumer : Text) (now : ℚ) (db : Db) :
    (db.pruneSnapshots consumer now).usage.logical + db.prunedBytes consumer now
      = db.usage.logical := by
  have h1 := db.snapshots.sum_remove (fun s => (db.outdated consumer now).any fun o => o.id == s.id)
    fun s => utf8Len s.id + utf8Len s.consumer + 96
  have h2 := db.items.sum_remove (fun i => (db.outdated consumer now).any fun o => o.id == i.id)
    Item.bytes
  simp only [Db.usage, Db.pruneSnapshots, Db.prunedBytes]
  omega

/-- Dropping a consumer's snapshots does not enlarge the logical bytes. -/
theorem logical_pruneSnapshots_le (consumer : Text) (now : ℚ) (db : Db) :
    (db.pruneSnapshots consumer now).usage.logical ≤ db.usage.logical := by
  have h := logical_pruneSnapshots consumer now db
  omega

/-- The items of a freeze take the bytes of their members. -/
theorem sum_frozenItems {sid : Text} {members : List Entry} {sizes : List ℕ}
    (h : members.length = sizes.length) : ((frozenItems sid members sizes).map Item.bytes).sum
    = sizes.sum := by
  have hmap : (frozenItems sid members sizes).map Item.bytes = sizes := by
    unfold frozenItems
    rw [List.map_map]
    have hcomp :
      (Item.bytes ∘ fun p : (Entry × ℕ) × ℕ => (⟨sid, p.2, p.1.1.seq, p.1.1, p.1.2⟩ : Item))
        = Prod.snd ∘ Prod.fst := rfl
    rw [hcomp, ← List.map_map, List.zipIdx_map_fst, List.map_snd_zip (le_of_eq h.symm)]
  rw [hmap]

/-- The rows of a freeze before it prunes. -/
theorem logical_frozen {consumer sid : Text} {head : ℕ} {created : ℚ} {members : List Entry}
    {sizes : List ℕ} {ids : ℕ} {db : Db} {snapshots : Table Text Snapshot Snapshot.id}
    {items : Table (Text × ℕ) Item Item.key} (updated : ℚ) (hs : frozenSizes members = .ok sizes)
    (hi : measureAll [.str sid, .str consumer] = .ok ids)
    (hsnap : db.snapshots.insert? ⟨sid, consumer, head, created, members.length, 0, none⟩
      = some snapshots)
    (hitems : items.rows = db.items.rows ++ frozenItems sid members sizes) :
    (Db.openSnapshot consumer sid updated { db with snapshots := snapshots, items :=
      items }).usage.logical
      = db.usage.logical + (sizes.sum + (ids + 96)) := by
  have hlen : ids = utf8Len sid + utf8Len consumer := by
    have h1 : ids = ([sid, consumer].map utf8Len).sum := measureAll_texts hi
    simpa using h1
  have hcur := db.cursors.sum_update (p := fun c => c.consumer == consumer)
    (g := fun c => { c with snapshot := some sid, updated := updated }) (fun _ => by rfl)
    (f := fun c => utf8Len c.consumer + 64) (fun _ => rfl)
  have hsum : (items.rows.map Item.bytes).sum = (db.items.rows.map Item.bytes).sum + sizes.sum := by
    rw [hitems, List.map_append, List.sum_append, sum_frozenItems (length_frozenSizes hs).symm]
  simp only [Db.usage, Db.openSnapshot, hcur, hsum, Table.sum_insert? hsnap]
  omega

/-- `mid` is the content of a freeze before it prunes: the snapshot row, an item for each member of
what the freeze read, and the cursor that points at the snapshot. -/
def Unpruned (H : Host) (consumer sid : Text) (read : World) (sizes : List ℕ) (created updated : ℚ)
    (db mid : Db) : Prop :=
  ∃ snapshots items, db.snapshots.insert?
      ⟨sid, consumer, read.db.head, created, (read.members H).length, 0, none⟩ = some snapshots ∧
    items.rows = db.items.rows ++ frozenItems sid (read.members H) sizes ∧
    mid = Db.openSnapshot consumer sid updated { db with snapshots := snapshots, items := items }

/-- **A freeze grows the usage by exactly its charge, less what it prunes.** -/
theorem Froze.logical {consumer sid : Text} {read : World} {created updated now : ℚ} {db db' : Db}
    (h : Froze H consumer sid read created updated now db db') :
    ∃ sizes ids mid, frozenSizes (read.members H) = .ok sizes ∧
      measureAll [.str sid, .str consumer] = .ok ids ∧
      Unpruned H consumer sid read sizes created updated db mid
      ∧ db' = Db.pruneSnapshots consumer now mid ∧
      mid.usage.logical = db.usage.logical + (sizes.sum + (ids + 96)) ∧
      db'.usage.logical + mid.prunedBytes consumer now
        = db.usage.logical + (sizes.sum + (ids + 96)) ∧
      db'.usage.entries = db.usage.entries ∧ Room db (sizes.sum + (ids + 96)) 0 false := by
  obtain ⟨sizes, hsizes, snapshots, items, hsnap, hitems, rfl⟩ := h.sizes
  obtain ⟨sizes', ids, hsizes', hids, hroom⟩ := h.charged
  obtain rfl := Except.ok.inj (hsizes.symm.trans hsizes')
  have hmid := logical_frozen updated hsizes hids hsnap hitems
  refine ⟨sizes, ids, _, hsizes, hids, ⟨snapshots, items, hsnap, hitems, rfl⟩, rfl, hmid, ?_,
    rfl, hroom⟩
  rw [logical_pruneSnapshots, hmid]

/-! ## Registrations and retirement -/

/-- **A registration grows the usage by half of its charge.** The other half holds room for the
tombstone. -/
theorem logical_register {db : Db} {consumer : Text} {now : ℚ}
    {table : Table Text Cursor Cursor.consumer}
    (h : db.cursors.insert? (Cursor.fresh consumer now) = some table) {n : ℕ}
    (hn : measure consumer = .ok n) :
    { db with cursors := table }.usage.logical = db.usage.logical + (n + 64) := by
  rw [measure_eq_ok hn]
  simp only [Db.usage, Table.sum_insert? h, Cursor.fresh]
  omega

/-- No consumer has both a cursor and a tombstone. -/
def Apart (db : Db) : Prop := ∀ c ∈ db.cursors, ∀ g ∈ db.retired, g.consumer ≠ c.consumer

/-- The weight of the consumers with a cursor or a tombstone. -/
def Db.readers (f : Text → ℕ) (db : Db) : ℕ :=
  (db.cursors.rows.map fun c => f c.consumer).sum + (db.retired.rows.map fun g => f g.consumer).sum

/-- Retiring one reader. -/
theorem readers_retireOne (f : Text → ℕ) {db : Db} {c : Cursor} (now : ℚ) (hc : c ∈ db.cursors) :
    (db.retireOne now c).readers f ≤ db.readers f ∧
      ((∀ g ∈ db.retired, g.consumer ≠ c.consumer) → (db.retireOne now c).readers f
        = db.readers f) := by
  have hcur := Table.sum_remove_key hc fun c => f c.consumer
  have hput := db.retired.sum_put_le ⟨c.consumer, c.seq, now⟩ fun r => f r.consumer
  simp only [Db.readers, Db.retireOne, beq_eq_decide] at hput ⊢
  constructor
  · omega
  · intro hg
    have hput' := Table.sum_put (a := (⟨c.consumer, c.seq, now⟩ : Retired)) hg fun r => f r.consumer
    dsimp only at hput'
    omega

/-- Retiring readers with different consumers. -/
theorem readers_foldl_retireOne (f : Text → ℕ) (now : ℚ) (l : List Cursor) (db : Db)
    (hl : ∀ c ∈ l, c ∈ db.cursors) (hnd : (l.map Cursor.consumer).Nodup) :
    (l.foldl (Db.retireOne now) db).readers f ≤ db.readers f ∧
      ((∀ c ∈ l, ∀ g ∈ db.retired, g.consumer ≠ c.consumer) →
        (l.foldl (Db.retireOne now) db).readers f = db.readers f) := by
  induction l generalizing db with
  | nil => exact ⟨le_rfl, fun _ => rfl⟩
  | cons d rest ih =>
    obtain ⟨hle, heq⟩ := readers_retireOne f now (hl d (by simp))
    rw [List.map_cons, List.nodup_cons] at hnd
    have hne : ∀ c ∈ rest, c.consumer ≠ d.consumer := by
      intro c hc he
      exact hnd.1 (he ▸ List.mem_map_of_mem hc)
    have hl' : ∀ c ∈ rest, c ∈ (db.retireOne now d).cursors := by
      intro c hc
      refine Table.mem_remove.mpr ⟨hl c (by simp [hc]), ?_⟩
      simpa using hne c hc
    obtain ⟨hle', heq'⟩ := ih (db.retireOne now d) hl' hnd.2
    refine ⟨hle'.trans hle, ?_⟩
    intro hg
    refine (heq' ?_).trans (heq (hg d (by simp)))
    intro c hc g hgm
    rcases Table.mem_put.mp hgm with ⟨h1, -⟩ | rfl
    · exact hg c (by simp [hc]) g h1
    · exact (hne c hc).symm

/-- The usage counts each reader once, whichever of the two tables holds it. -/
theorem logical_foldl_retireOne (now : ℚ) (l : List Cursor) (db : Db) :
    (l.foldl (Db.retireOne now) db).usage.logical + db.readers (fun t => utf8Len t + 64)
      = db.usage.logical + (l.foldl (Db.retireOne now) db).readers fun t => utf8Len t + 64 := by
  obtain ⟨cs, rs, h, -⟩ := foldl_retireOne now l db
  rw [h]
  simp only [Db.usage, Db.readers]
  omega

/-- The content after the deletions of the closing transaction, before readers are retired. -/
def Db.swept (now : ℚ) (db : Db) : Db :=
  let db := { db with snapshots := db.snapshots.remove (Snapshot.stale now) }
  let db := db.dropOrphans
  let db := { db with idem := db.idem.remove fun i => i.deadline < now }
  { db with retired := db.retired.remove fun r => r.retiredAt < now - retiredTtl }

/-- The closing transaction of an expiry does not enlarge the logical bytes. -/
theorem logical_swept (now : ℚ) (db : Db) : (db.swept now).usage.logical ≤ db.usage.logical := by
  have h1 := db.snapshots.sum_remove_le (Snapshot.stale now) fun s =>
    utf8Len s.id + utf8Len s.consumer + 96
  have h2 := db.items.sum_remove_le (fun i =>
    !(db.snapshots.remove (Snapshot.stale now)).rows.any fun s => s.id == i.id) Item.bytes
  have h3 := db.idem.sum_remove_le (fun i => i.deadline < now) fun i => utf8Len i.key + 64
  have h4 := db.retired.sum_remove_le (fun r => r.retiredAt < now - retiredTtl)
    fun r => utf8Len r.consumer + 64
  simp only [Db.usage, Db.swept, Db.dropOrphans]
  omega

/-- **The retirement of idle readers moves their weight from one table to the other.** -/
theorem readers_retire (f : Text → ℕ) (now : ℚ) (db : Db) :
    (db.retire now).readers f ≤ (db.swept now).readers f ∧
      (Apart db → (db.retire now).readers f = (db.swept now).readers f) := by
  obtain ⟨hle, heq⟩ := readers_foldl_retireOne f now
    (db.cursors.rows.filter fun c => c.updated < now - consumerTtl) (db.swept now)
    (fun c hc => (List.mem_filter.mp hc).1)
    (db.cursors.nodup.sublist (List.filter_sublist.map Cursor.consumer))
  refine ⟨hle, ?_⟩
  intro ha
  refine heq fun c hc g hg => ?_
  exact ha c (List.mem_filter.mp hc).1 g (Table.mem_remove.mp hg).1

/-- **The retirement of idle readers leaves the usage alone.** -/
theorem logical_retire (now : ℚ) (db : Db) :
    (db.retire now).usage.logical ≤ (db.swept now).usage.logical ∧
      (Apart db → (db.retire now).usage.logical = (db.swept now).usage.logical) := by
  have husage : (db.retire now).usage.logical + (db.swept now).readers (fun t => utf8Len t + 64)
      = (db.swept now).usage.logical + (db.retire now).readers fun t => utf8Len t + 64 :=
    logical_foldl_retireOne now _ _
  obtain ⟨hle, heq⟩ := readers_retire (fun t => utf8Len t + 64) now db
  constructor
  · omega
  · intro ha
    have heq' := heq ha
    omega

/-! ## The budgets at every moment -/

/-- The stored content is within the budgets, and no consumer has both a cursor and a tombstone. -/
structure Budgeted (db : Db) : Prop where
  entries : db.usage.entries ≤ maxEntries
  logical : db.usage.logical ≤ maxLogicalBytes
  apart : Apart db

/-- No admission goes beyond the limit of the logical bytes. -/
theorem byteCap_le (control : Bool) : byteCap control ≤ maxLogicalBytes := by
  rcases control <;> decide

/-- No admission goes beyond the limit of the entries. -/
theorem entryCap_le (control : Bool) : entryCap control ≤ maxEntries := by
  rcases control <;> decide

/-- A new store is within its limits. -/
theorem Budgeted.initial (storeId : Text) : Budgeted (Db.initial storeId) where
  entries := Nat.zero_le _
  logical := by simp [Db.usage, Db.initial, Table.empty]
  apart c hc := absurd hc (Table.not_mem_empty c)

/-- A batch of expired rows only lowers the usage. -/
theorem logical_forget (batch : List Entry) (fts usable : Bool) (db : Db) :
    (Db.forget batch fts (Db.unindex batch usable db)).usage.logical ≤ db.usage.logical ∧
      (Db.forget batch fts (Db.unindex batch usable db)).usage.entries ≤ db.usage.entries := by
  have h1 := db.entries.sum_remove_le (fun e => batch.any fun b => b.seq == e.seq) Entry.textLen
  have h2 := db.entries.length_remove_le fun e => batch.any fun b => b.seq == e.seq
  have h3 := Nat.mul_le_mul_right entryOverhead h2
  rcases usable with _ | _
  · simp only [Db.usage, Db.forget, Db.unindex, Bool.false_eq_true, if_false]
    exact ⟨by omega, h2⟩
  · simp only [Db.usage, Db.forget, Db.unindex, if_true]
    exact ⟨by omega, h2⟩

/-- Dropping old keys does not enlarge the logical bytes. -/
theorem logical_prune (now : ℚ) (db : Db) : (db.prune now).usage.logical ≤ db.usage.logical := by
  have h := db.idem.sum_remove_le (fun i => (db.prunable now).any fun p => p.key == i.key)
    fun i => utf8Len i.key + 64
  simp only [Db.usage, Db.prune]
  omega

/-- A step that enlarges nothing keeps the store within its limits. -/
theorem Budgeted.of_le {db db' : Db} (h : Budgeted db) (hl : db'.usage.logical ≤ db.usage.logical)
    (he : db'.usage.entries ≤ db.usage.entries) (hc : ∀ c ∈ db'.cursors, ∃ d ∈ db.cursors,
      d.consumer = c.consumer)
    (hr : db'.retired = db.retired) : Budgeted db' where
  entries := he.trans h.entries
  logical := hl.trans h.logical
  apart c hc' g hg := by
    obtain ⟨d, hd, hdc⟩ := hc c hc'
    rw [← hdc]
    exact h.apart d hd g (hr ▸ hg)

/-- Maintenance keeps the store within its limits. -/
theorem Budgeted.maint {k : ℕ} {w w' : World} (hm : Maint H k w w') (h : Budgeted w.db) :
    Budgeted w'.db := by
  rcases hm with ht | ⟨t, -, -, hd⟩ | ⟨t, -, -, hd⟩
  · rcases ht with hi | ⟨batch, usable, t, -, -, -, -, hd⟩ | ⟨-, hd⟩
    · rw [hi.db]
      exact h
    · have hreaders : w'.db.cursors = w.db.cursors ∧ w'.db.retired = w.db.retired := by
        rw [hd]
        rcases usable with _ | _
        · exact ⟨rfl, rfl⟩
        · exact ⟨rfl, rfl⟩
      obtain ⟨hl, he⟩ := logical_forget batch w.fts usable w.db
      rw [← hd] at hl he
      exact h.of_le hl he (fun c hc => ⟨c, hreaders.1 ▸ hc, rfl⟩) hreaders.2
    · rw [hd]
      exact ⟨h.entries, h.logical, h.apart⟩
  · obtain ⟨cs, rs, hr, hcs, -⟩ := retire_spec t w.db
    refine ⟨?_, ?_, ?_⟩
    · rw [hd, hr]
      exact h.entries
    · rw [hd]
      exact ((logical_retire t w.db).1.trans (logical_swept t w.db)).trans h.logical
    · intro c hc g hg
      rw [hd] at hc hg
      rw [hr] at hc
      obtain ⟨hc1, hc2⟩ := (hcs c).mp hc
      rcases retire_origin t w.db hg with hg1 | ⟨d, hd1, hd2, he⟩
      · exact h.apart c hc1 g hg1
      · intro heq
        obtain rfl := Table.eq_of_key hd1 hc1 (he.trans heq)
        exact hc2 hd2
  · rw [hd]
    exact h.of_le (logical_prune t w.db) le_rfl (fun c hc => ⟨c, hc, rfl⟩) rfl

/-- An append keeps the store within its limits. -/
theorem Budgeted.append {k : ℕ} {x : Append} {w w' : World} (hc : Commits H k x w w')
    (h : Budgeted w.db) : Budgeted w'.db where
  entries := by
    obtain ⟨need, -, hroom⟩ := hc.charged
    rw [hc.effect.slot]
    exact hroom.entries.trans (entryCap_le _)
  logical := hc.kept.trans (byteCap_le _)
  apart c hc' g hg := by
    rw [hc.effect.cursors] at hc'
    rw [hc.effect.retired] at hg
    exact h.apart c hc' g hg

/-- An update of the cursors that leaves the consumers alone changes no figure. -/
theorem Budgeted.of_cursors {db db' : Db} (h : Budgeted db)
    {p : Cursor → Bool} {f : Cursor → Cursor} (hf : ∀ c, (f c).consumer = c.consumer)
    (hd : db'.cursors = db.cursors.update p f hf) (he : db'.entries = db.entries)
    (hi : db'.items = db.items) (hm : db'.idem = db.idem) (hr : db'.retired = db.retired)
    (hs : (db'.snapshots.rows.map fun s => utf8Len s.id + utf8Len s.consumer + 96).sum
      = (db.snapshots.rows.map fun s => utf8Len s.id + utf8Len s.consumer + 96).sum) :
    Budgeted db' := by
  have hcur := db.cursors.sum_update (p := p) (g := f) hf (f := fun c => utf8Len c.consumer + 64)
    (fun c => by rw [hf])
  have hl : db'.usage.logical = db.usage.logical := by
    simp only [Db.usage, hd, he, hi, hm, hr, hs, hcur]
  have hen : db'.usage.entries = db.usage.entries := by simp only [Db.usage, he]
  refine h.of_le hl.le hen.le ?_ hr
  intro c hc
  rw [hd] at hc
  obtain ⟨d, hdm, rfl⟩ := (Table.mem_update hf).mp hc
  refine ⟨d, hdm, ?_⟩
  split
  · rw [hf]
  · rfl

/-- **Every committed change keeps the budgets.** -/
theorem Budgeted.change {k : ℕ} {w w' : World} (hc : Change H k w w') (h : Budgeted w.db) :
    Budgeted w'.db := by
  rcases hc with hq | ⟨_, _, _, _, _, _, _, _, _, _, _, _, _, _, hf⟩ | ⟨_, _, _, _, _, _,
    _, _, hd⟩ |
    ⟨_, _, _, _, _, _, _, _, _, hd⟩ | ⟨c, s, hb⟩ | ⟨_, _, ha⟩
  · rcases hq with hm | ⟨x, hx, -⟩ | ⟨consumer, now, table, _, _, hi, hd, ⟨n, hn, hroom⟩, hgrave⟩ |
      ⟨_, _, _, _, hd⟩ | ⟨_, _, _, _, _, _, hd⟩
    · exact h.maint hm
    · exact h.append hx
    · have hgrow := logical_register hi hn
      have hcap := hroom.logical
      have hle := byteCap_le false
      refine ⟨?_, ?_, ?_⟩
      · rw [hd]
        exact h.entries
      · rw [hd, hgrow]
        omega
      · intro c hc g hg
        rw [hd] at hc hg
        rcases (Table.mem_insert? hi).mp hc with hc | rfl
        · exact h.apart c hc g hg
        · exact hgrave g hg
    · rw [hd]
      exact h.of_cursors (fun _ => by rfl) rfl rfl rfl rfl rfl rfl
    · rw [hd]
      exact h.of_cursors (fun _ => by rfl) rfl rfl rfl rfl rfl rfl
  · obtain ⟨sizes, ids, mid, -, -, -, -, -, hgrow, hen, hroom⟩ := hf.logical
    have hcap := hroom.logical
    have hle := byteCap_le false
    obtain ⟨_, -, _, _, -, -, hd⟩ := hf.sizes
    refine ⟨hen ▸ h.entries, by omega, ?_⟩
    intro c hc g hg
    rw [hd] at hc hg
    obtain ⟨d, hdm, rfl⟩ := (Table.mem_update (fun _ => by rfl)).mp hc
    have hg' := h.apart d hdm g hg
    split
    · exact hg'
    · exact hg'
  · rw [hd]
    exact h.of_cursors (fun _ => by rfl) rfl rfl rfl rfl rfl rfl
  · rw [hd]
    refine ⟨h.entries, ?_, h.apart⟩
    have hl := h.logical
    simp only [Db.usage, Db.issuePage] at hl ⊢
    refine le_of_eq_of_le ?_ hl
    congr 1
    exact w.db.snapshots.sum_update (fun _ => by rfl) (fun _ => rfl)
  · obtain ⟨acked, -, hd⟩ := hb.effect
    rw [hd]
    exact h.of_cursors (fun _ => by rfl) rfl rfl rfl rfl rfl
      (w.db.snapshots.sum_update (fun _ => by rfl) (fun _ => rfl))
  · rw [ha.effect]
    exact h.of_cursors (fun _ => by rfl) rfl rfl rfl rfl rfl rfl

/-- **The budgets hold at every moment of every run, also between the changes of one request.** -/
theorem Budgeted.reached {storeId : Text} {pages : ℕ} {fts : Bool} {u : World}
    (h : ReflTransGen (Step H) (World.initial storeId pages fts) u) : Budgeted u.db := by
  refine keeps_of_reflTransGen (I := fun v : World => Budgeted v.db) ?_ h (.initial storeId)
  rintro v v' (⟨k, hc⟩ | hr) hv
  · exact hv.change hc
  · obtain ⟨s, i, hd⟩ := hr.db
    rw [hd]
    exact ⟨hv.entries, hv.logical, hv.apart⟩

/-! ## The result -/

/-- A change admitted with a charge and slots, which grew the figures by at most these and left them
within the caps of its kind. -/
structure Admitted (db db' : Db) (need slots : ℕ) (control : Bool) : Prop where
  room : Room db need slots control
  grown : db'.usage.logical ≤ db.usage.logical + need
  slotted : db'.usage.entries = db.usage.entries + slots
  entries : db'.usage.entries ≤ entryCap control
  logical : db'.usage.logical ≤ byteCap control

/-- What fits beside the reserve and adds what it was charged is admitted. -/
theorem Room.admitted {db db' : Db} {need slots : ℕ} {control : Bool}
    (h : Room db need slots control)
    (hl : db'.usage.logical ≤ db.usage.logical + need)
    (he : db'.usage.entries = db.usage.entries + slots) : Admitted db db' need slots control where
  room := h
  grown := hl
  slotted := he
  entries := he.trans_le h.entries
  logical := hl.trans h.logical

/-- The check at the end of an admitted change passes. -/
theorem enforceLogical_ok {control : Bool} {w : World} (h : w.db.usage.logical ≤ byteCap control) :
    enforceLogical control w = (.ok (), w) := by
  unfold enforceLogical
  rw [database_bind, if_neg (not_lt.mpr h)]
  rfl

/-- **The appending transaction is not rolled back by the check.** -/
theorem enforceLogical_appendRow {consumer : Text} {a : NoteArgs} {pid : ℕ} {d : Draft}
    {key : Option Text}
    {mark : Text} {due : ℚ} {need : ℕ} {control : Bool} {u u' : World} {p : ℕ × Option ℕ}
    (ht : a.Textual) (hx : checkExclusive a = .ok ()) (hn : noteCharge consumer a d key = .ok need)
    (hroom : Room u.db need 1 control)
    (h : appendRow H consumer a pid d key mark due u = (.ok p, u')) :
    enforceLogical control u' = (.ok (), u') := by
  obtain ⟨x, rfl, rfl, rfl, rfl, hkey, -, -, ha, -⟩ := appendRow_inv (checkExclusive_eq_ok.mp hx) h
  have hof : x.Of x.consumer x.args x.pid x.draft key mark due := ⟨rfl, rfl, rfl, rfl, hkey⟩
  obtain ⟨hgrow, -⟩ := ha.logical ht (hof.idemKey ▸ hn)
  exact enforceLogical_ok (hgrow.trans_le hroom.logical)

/-- **The registering transaction is not rolled back by the check.** -/
theorem enforceLogical_insertCursor {consumer : Text} {n : ℕ} {u u' : World}
    (hn : measure consumer = .ok n) (hroom : Room u.db (n + 64 + (n + 64)) 0 false)
    (h : insertCursor H consumer u = (.ok (), u')) : enforceLogical false u' = (.ok (), u') := by
  obtain ⟨v, now, table, hv, -, -, hins, hd⟩ := insertCursor_inv h
  have hcap := hroom.logical
  rw [← hv.db] at hcap
  apply enforceLogical_ok
  rw [hd, logical_register hins hn]
  omega

/-- **The freezing transaction is not rolled back by the check.** -/
theorem enforceLogical_freezeRows {consumer sid : Text} {head : ℕ} {members : List Entry}
    {sizes : List ℕ}
    {ids : ℕ} {u u' : World} (hs : frozenSizes members = .ok sizes)
    (hi : measureAll [.str sid, .str consumer] = .ok ids)
    (hroom : Room u.db (sizes.sum + (ids + 96)) 0 false)
    (h : freezeRows H consumer sid head members sizes u = (.ok (), u')) :
    enforceLogical false u' = (.ok (), u') := by
  obtain ⟨v, created, updated, now, snapshots, items, hv, -, -, -, -, -, hsnap, hitems, hd⟩ :=
    freezeRows_inv h
  have hgrow := logical_frozen updated hs hi hsnap hitems
  have hcap := hroom.logical
  rw [← hv.db] at hcap
  apply enforceLogical_ok
  rw [hd]
  exact (logical_pruneSnapshots_le consumer now _).trans (hgrow.trans_le hcap)

/-- **Accounting equals measurement, and the budgets hold.** At every moment of every run, also
between the changes of one request: the entries and the logical bytes are within their budgets. A
`note` with text fields that commits appends the row of its own request, and grows the logical bytes
by exactly the charge the code computes from that request; a freeze stores the snapshot it has just
named and copies what it has read, and grows them by exactly its charge before it prunes, and by the
charge less the bytes of the rows it prunes in all; a registration grows them by half of its charge.
Each was admitted, and leaves both figures within the caps of its kind, which for an ordinary change
are the budgets less the reserve. The retirement of idle readers leaves the logical bytes alone. And
the check at the end of an admitted change passes. -/
theorem accounting_exact {storeId : Text} {pages : ℕ} {fts : Bool} {u : World}
    (hu : ReflTransGen (Step H) (World.initial storeId pages fts) u) :
    (u.db.usage.entries ≤ maxEntries ∧ u.db.usage.logical ≤ maxLogicalBytes) ∧
    (∀ repo consumer a pid n u', a.Textual → note H repo consumer a pid u = (n, u') →
      Maints H u.tick u u' ∨ ∃ (v : World) (x : Append) (d : Draft) (due : ℚ) (need : ℕ),
        Maints H u.tick u v ∧ noteChecks H consumer a pid = .ok d ∧
        x.Of consumer a pid d (a.idemKey H repo consumer) (fingerprint H (payload a d)) due ∧
        Commits H u.tick x v u' ∧
        noteCharge consumer a d (a.idemKey H repo consumer) = .ok need ∧
        u'.db.usage.logical = v.db.usage.logical + need ∧
        Admitted v.db u'.db need 1 (a.supersedes.truthy || a.revokes.truthy)) ∧
    (∀ consumer r u', freeze H consumer u = (r, u') →
      Maints H u.tick u u' ∨ ∃ v sid sizes ids created updated now mid, Maints H u.tick u v ∧
        sid = H.uuid (u.tick + 3) ∧ (r = .ok sid ∨ r = .error .killed) ∧
        frozenSizes (u.members H) = .ok sizes ∧ measureAll [.str sid, .str consumer] = .ok ids ∧
        Unpruned H consumer sid u sizes created updated v.db mid ∧
        u'.db = Db.pruneSnapshots consumer now mid ∧
        mid.usage.logical = v.db.usage.logical + (sizes.sum + (ids + 96)) ∧
        u'.db.usage.logical + mid.prunedBytes consumer now
          = v.db.usage.logical + (sizes.sum + (ids + 96)) ∧
        Admitted v.db u'.db (sizes.sum + (ids + 96)) 0 false) ∧
    (∀ consumer r u', register H consumer u = (r, u') →
      Maints H u.tick u u' ∨ ∃ v n now table, Maints H u.tick u v ∧ measure consumer = .ok n ∧
        v.db.cursors.insert? (Cursor.fresh consumer now) = some table ∧
        u'.db = { v.db with cursors := table } ∧
        u'.db.usage.logical = v.db.usage.logical + (n + 64) ∧
        Admitted v.db u'.db (n + 64 + (n + 64)) 0 false) ∧
    (∀ now, (u.db.retire now).usage.logical = (u.db.swept now).usage.logical) ∧
    (∀ consumer a pid d key mark due need control p u', a.Textual → checkExclusive a = .ok () →
      noteCharge consumer a d key = .ok need → Room u.db need 1 control →
      appendRow H consumer a pid d key mark due u = (.ok p, u') →
      enforceLogical control u' = (.ok (), u')) ∧
    (∀ consumer sid head members sizes ids u', frozenSizes members = .ok sizes →
      measureAll [.str sid, .str consumer] = .ok ids →
      Room u.db (sizes.sum + (ids + 96)) 0 false →
      freezeRows H consumer sid head members sizes u = (.ok (), u') →
      enforceLogical false u' = (.ok (), u')) ∧
    ∀ consumer n u', measure consumer = .ok n → Room u.db (n + 64 + (n + 64)) 0 false →
      insertCursor H consumer u = (.ok (), u') → enforceLogical false u' = (.ok (), u') := by
  have hb := Budgeted.reached hu
  refine ⟨⟨hb.entries, hb.logical⟩, ?_, ?_, ?_, fun now => (logical_retire now u.db).2 hb.apart,
    ?_, ?_, ?_⟩
  · intro repo consumer a pid n u' ht hn
    obtain ⟨hm, -⟩ | ⟨d, hd, ⟨hi, -⟩ | ⟨v, x, key, due, hm, hof, hkey, hc, -⟩⟩ := note_inv hn
    · exact .inl hm
    · exact .inl (.idle hi)
    · -- The key that was charged is the one the request asks for.
      obtain rfl : key = a.idemKey H repo consumer := by
        rcases hkey with ⟨rfl, hnull⟩ | ⟨rfl, hkeyed, -⟩
        · rw [NoteArgs.idemKey, if_pos hnull]
        · rw [NoteArgs.idemKey, if_neg (by rw [hkeyed]; exact Bool.false_ne_true)]
      obtain ⟨need, hneed, hroom⟩ := hc.charged
      obtain ⟨rfl, rfl, rfl⟩ : x.args = a ∧ x.consumer = consumer ∧ x.draft = d :=
        ⟨hof.args, hof.consumer, hof.draft⟩
      obtain ⟨hl, he⟩ := hc.effect.logical ht hneed
      rw [hof.idemKey] at hneed
      exact .inr ⟨v, x, x.draft, due, need, hm, hd, hof, hc, hneed, hl, hroom.admitted hl.le he⟩
  · intro consumer r u' hf
    obtain ⟨hm, -⟩ | ⟨v, sid, created, updated, now, hsid, hm, -, -, -, -, -, hfroze, hr⟩ :=
      freeze_inv hf
    · exact .inl hm
    · obtain ⟨sizes, ids, mid, hs, hi, hmid, hd, hgrown, hl, he, hroom⟩ := hfroze.logical
      exact .inr ⟨v, sid, sizes, ids, created, updated, now, mid, hm, hsid, hr, hs, hi, hmid, hd,
        hgrown, hl,
        hroom.admitted (by omega) he⟩
  · intro consumer r u' hr
    obtain ⟨hm, -⟩ | ⟨rfl, -⟩ | ⟨-, -, v, now, table, hm, -, -, hins, hd, ⟨n, hn, hroom⟩, -⟩ :=
      register_inv hr
    · exact .inl hm
    · exact .inl .refl
    · have hl : u'.db.usage.logical = v.db.usage.logical + (n + 64) := by
        rw [hd, logical_register hins hn]
      refine .inr ⟨v, n, now, table, hm, hn, hins, hd, hl, hroom.admitted ?_ ?_⟩
      · omega
      · rw [hd]
        rfl
  · intro consumer a pid d key mark due need control p u' ht hx hn hroom h
    exact enforceLogical_appendRow ht hx hn hroom h
  · intro consumer sid head members sizes ids u' hs hi hroom h
    exact enforceLogical_freezeRows hs hi hroom h
  · intro consumer n u' hn hroom h
    exact enforceLogical_insertCursor hn hroom h

/-- A note of two bytes under a key. -/
def keyedNote : NoteArgs :=
  noteArgs [(lit "type", .str (lit "finding")), (lit "body", .str (lit "yy")),
    (lit "key", .str (lit "k")),
    (lit "deadline", .int 1700000900)]

/-- The run of a note and a first sync: the figures of the three tables it wrote to. A keyed note
behind it is charged for its row and for the row of its key, and grows the store by that. -/
theorem accounting_exact_firstSync :
    let w := (play Host.steady (World.initial (lit "store") 10 true)
      [ask (lit "note") (lit "a") [(lit "type", .str (lit "finding")),
        (lit "body", .str (lit "x"))],
        ask (lit "sync") (lit "b") []]).2
    w.db.usage.entries = 1 ∧ w.db.usage.logical = 514 + 65 + (w.db.items.rows.map Item.bytes).sum
    + 108 ∧
      w.db.usage.logical ≤ maxLogicalBytes ∧
      (w.db.retire 1800000000).usage.logical = (w.db.swept 1800000000).usage.logical ∧
      ∃ (v : World) (d : Draft), noteChecks Host.steady (lit "a") keyedNote 7 = .ok d ∧
        noteCharge (lit "a") keyedNote d (keyedNote.idemKey Host.steady (lit "repo") (lit "a"))
        = .ok 587 ∧
        (note Host.steady (lit "repo") (lit "a") keyedNote 7 w).2.db.usage.logical
          = v.db.usage.logical + 587 := by
  intro w
  have h := accounting_exact (run_play (World.initial (lit "store") 10 true)
    [ask (lit "note") (lit "a") [(lit "type", .str (lit "finding")), (lit "body", .str (lit "x"))],
      ask (lit "sync") (lit "b") []] : Run Host.steady _ _ w).steps
  obtain ⟨hentries, hlogical, hgrown⟩ : w.db.usage.entries = 1 ∧
      w.db.usage.logical = 514 + 65 + (w.db.items.rows.map Item.bytes).sum + 108 ∧
      (note Host.steady (lit "repo") (lit "a") keyedNote 7 w).2.db.head ≠ w.db.head := by
    decide +kernel
  refine ⟨hentries, hlogical, h.1.2, h.2.2.2.2.1 _, ?_⟩
  have ht : keyedNote.Textual := ⟨.inl rfl, .inl rfl, .inl rfl⟩
  obtain hm | ⟨v, x, d, due, need, -, hd, -, -, hneed, hl, -⟩ :=
    h.2.1 (lit "repo")
    (lit "a") keyedNote 7 (note Host.steady (lit "repo") (lit "a") keyedNote 7 w).1
      (note Host.steady (lit "repo") (lit "a") keyedNote 7 w).2 ht Prod.mk.eta.symm
  · exact absurd hm.head hgrown
  · have hcharge : ((noteChecks Host.steady (lit "a") keyedNote 7).bind fun d =>
      noteCharge (lit "a")
        keyedNote d (keyedNote.idemKey Host.steady (lit "repo") (lit "a"))).toOption
          = some 587 := by
      decide +kernel
    rw [hd, Except.bind, hneed] at hcharge
    obtain rfl := Option.some.inj hcharge
    exact ⟨v, d, hd, hneed, hl⟩

end PeerBridge.Memory
