import PeerBridge.Memory.Boundary

/-!
# The committed changes of the memory store

One request runs several transactions. `Change H k` names every one of them that can commit, each
with what the code has checked by then and with its exact effect on the content: a maintenance step,
an append, a registration, the refresh of an activity time, the clearing of an unusable snapshot, a
freeze, the issuance of a delta or of a page, and the two acknowledgements.

Each function of the source has one lemma saying which of these a run of it amounts to
(`appendRow_inv`, `register_inv`, `freeze_inv`, ...). Every later argument about whole runs starts
from these lemmas and never unfolds the functions again.

Source: `memory.py`, `Store.note`, `freeze`, class `MemoryCommands`.
-/

namespace PeerBridge.Memory

open Py Relational Effects Effects.Prog Relation

variable {H : Host}

/-! ## Appends -/

/-- Which link a replacement writes onto the entry it replaces. -/
inductive Link where
  | superseded | revoked
  deriving DecidableEq

/-- The entry with the link of a replacement. -/
def Entry.link (l : Link) (seq : ℕ) (e : Entry) : Entry :=
  match l with
  | .superseded => { e with supersededBy := some seq }
  | .revoked => { e with revokedBy := some seq }

/-- A link leaves the sequence of a row. -/
@[simp] theorem Entry.link_seq (l : Link) (seq : ℕ) (e : Entry) : (e.link l seq).seq = e.seq := by
  cases l <;> rfl

/-- The link a replacement by this request writes. -/
def NoteArgs.linkKind (a : NoteArgs) : Link := if a.supersedes.truthy then .superseded else .revoked

/-- An append as it is committed: the request, what its checks and bindings produced, the time, the
entry it replaces, and the deduplication row it leaves. -/
structure Append where
  consumer : Text
  args : NoteArgs
  pid : ℕ
  draft : Draft
  cols : Columns
  ts : ℚ
  found : Option Entry
  idem : Option Idem

namespace Append

/-- The revision of the new row. -/
def revision (x : Append) : ℕ := (x.found.map fun e => e.revision + 1).getD 1

/-- The replacement the replaced entry already carries. -/
def conflict (x : Append) : Option ℕ := x.found.bind fun e => e.supersededBy <|> e.revokedBy

/-- The new row. -/
def entry (x : Append) (seq : ℕ) : Entry where
  seq := seq
  ts := x.ts
  kind := x.draft.kind
  scope := x.draft.scope
  scopeTarget := x.cols.scopeTarget
  path := x.cols.path
  body := x.draft.body
  author := x.cols.author
  authorPid := x.pid
  consumer := x.consumer
  revision := x.revision
  supersedes := x.cols.supersedes
  revokes := x.cols.revokes
  supersededBy := none
  revokedBy := none
  conflictsWith := x.conflict
  expires := x.cols.expires

/-- A row that was there before: the first replacement owns the link. -/
def relink (x : Append) (seq : ℕ) (e : Entry) : Entry :=
  if x.conflict = none ∧ x.found.any (fun f => f.seq == e.seq)
    = true then e.link x.args.linkKind seq
  else e

/-- The links an append makes leave the sequences. -/
@[simp] theorem relink_seq (x : Append) (seq : ℕ) (e : Entry) : (x.relink seq e).seq = e.seq := by
  unfold relink
  split <;> simp

end Append

/-- What an append does to the content. -/
structure Appended (H : Host) (x : Append) (db db' : Db) : Prop where
  cols : bindColumns H x.consumer x.args x.draft = .ok x.cols
  found : (x.args.target.truthy = false ∧ x.found = none) ∨
    ∃ v e, x.args.target.truthy = true ∧ Sql.ofJson x.args.target = .ok v ∧
      db.target H v = some e ∧ x.found = some e
  fresh : ∀ e ∈ db.entries, e.seq ≠ db.head + 1
  head : db'.head = db.head + 1
  floor : db'.floor = db.floor
  storeId : db'.storeId = db.storeId
  entries : db'.entries.rows
    = db.entries.rows.map (x.relink (db.head + 1)) ++ [x.entry (db.head + 1)]
  idem : (x.idem = none ∧ db'.idem = db.idem) ∨
    ∃ i, x.idem = some i ∧ i.seq = db.head + 1 ∧ db.idem.rows.length < maxIdemRows ∧
      db.idem.insert? i = some db'.idem
  cursors : db'.cursors = db.cursors
  retired : db'.retired = db.retired
  snapshots : db'.snapshots = db.snapshots
  items : db'.items = db.items

/-- After an append the rows are the earlier ones, relinked, and the new one. -/
theorem Appended.mem_entries {x : Append} {db db' : Db} (h : Appended H x db db') {e : Entry} :
    e ∈ db'.entries ↔ (∃ f ∈ db.entries, e = x.relink (db.head + 1) f)
    ∨ e = x.entry (db.head + 1) := by
  rw [Table.mem_def, h.entries]
  simp [Table.mem_def, eq_comm]

/-! ### The appending transaction -/

/-- A target names one sequence at most. -/
theorem matchesSeq_unique {v : Sql} {m n : ℕ} (hm : H.matchesSeq v m = true)
    (hn : H.matchesSeq v n = true) : m = n := by
  unfold Host.matchesSeq at hm hn
  split at hm
  · have h1 := eq_of_beq hm
    have h2 := eq_of_beq hn
    omega
  · have h1 := eq_of_beq hm
    have h2 := eq_of_beq hn
    exact_mod_cast h1.symm.trans h2
  · have h1 := eq_of_beq hm
    have h2 := eq_of_beq hn
    have h3 := Option.some.inj (h1.symm.trans h2)
    exact_mod_cast h3
  · cases hm

/-- The target of a note is a stored row the given value names. -/
theorem Db.target_mem {db : Db} {v : Sql} {e : Entry} (h : db.target H v = some e) :
    e ∈ db.entries ∧ H.matchesSeq v e.seq = true :=
  ⟨List.mem_of_find?_eq_some h, by simpa using List.find?_some h⟩

/-- An insertion that succeeds computes the table with the row in it. -/
theorem insertInto_inv {κ α : Type} {key : α → κ} [DecidableEq κ] {t u : Table κ α key} {a : α}
    {w w' : World} (h : insertInto t a w = (.ok u, w')) : w' = w ∧ t.insert? a = some u := by
  unfold insertInto at h
  rcases ht : t.insert? a with _ | u'
  · rw [ht] at h
    cases h
  · rw [ht] at h
    cases h
    exact ⟨rfl, rfl⟩

/-- The revision and the conflict of a note come from the row its target names. -/
theorem replacement_inv {target : Json} {w w' : World} {p : ℕ × Option ℕ}
    (h : replacement H target w = (.ok p, w')) :
    w' = w ∧ ((target.truthy = false ∧ p = (1, none)) ∨
      ∃ v e, target.truthy = true ∧ Sql.ofJson target = .ok v ∧ w.db.target H v = some e ∧
        p = (e.revision + 1, e.supersededBy <|> e.revokedBy)) := by
  unfold replacement at h
  split at h
  · rename_i ht
    obtain ⟨_, _, he, -⟩ | ⟨v, hv, h1⟩ := lift_bind_inv h
    · cases he
    rw [database_bind] at h1
    rcases he : w.db.target H v with _ | e
    · rw [he] at h1
      cases h1
    · rw [he] at h1
      cases h1
      exact ⟨rfl, .inr ⟨v, e, ht, hv, he, rfl⟩⟩
  · rename_i ht
    cases h
    exact ⟨rfl, .inl ⟨by simpa using ht, rfl⟩⟩

/-- The index after the row `seq` was appended: extended while it is kept, else as it was. -/
def Indexes (fts : Bool) (seq : ℕ) (body : Text) (db db' : Db) : Prop :=
  if fts = true ∧ db.indexedThrough ≥ 0 then
    db'.search = db.search ++ [(seq, body)] ∧ db'.indexedThrough = seq
  else db'.search = db.search ∧ db'.indexedThrough = db.indexedThrough

/-- Indexing the new row changes the index and its marker only. -/
theorem indexEntry_inv {seq : ℕ} {body : Text} {w w' : World}
    (h : indexEntry seq body w = (.ok (), w')) :
    ∃ s i, w' = { w with db := { w.db with search := s, indexedThrough := i } } ∧
      Indexes w.fts seq body w.db w'.db := by
  unfold Indexes
  unfold indexEntry at h
  rw [get_bind] at h
  by_cases hk : w.fts = true ∧ w.db.indexedThrough ≥ 0
  · rw [if_pos hk] at h ⊢
    cases h
    exact ⟨_, _, rfl, rfl, rfl⟩
  · rw [if_neg hk] at h ⊢
    cases h
    exact ⟨w.db.search, w.db.indexedThrough, rfl, rfl, rfl⟩

/-- A key is recorded while its table has room, with the reading of the clock and the deadline. -/
theorem recordIdem_inv {key : Option Text} {mark : Text} {due : ℚ} {seq : ℕ} {w w' : World}
    (h : recordIdem H key mark due seq w = (.ok (), w')) :
    (key = none ∧ w' = w) ∨ ∃ k u, key = some k ∧ w.db.idem.rows.length < maxIdemRows ∧
      w.db.idem.insert? ⟨k, mark, seq, H.clock w.tick, due⟩ = some u ∧
      w' = { w with db := { w.db with idem := u }, tick := w.tick + 1 } := by
  unfold recordIdem at h
  cases key with
  | none =>
    cases h
    exact .inl ⟨rfl, rfl⟩
  | some k =>
    simp only [database_bind] at h
    split at h
    · cases h
    · rename_i hlt
      rw [time_bind, database_bind] at h
      obtain ⟨u, v, h1, h2⟩ := bind_ok_inv h
      obtain ⟨rfl, hu⟩ := insertInto_inv h1
      cases h2
      exact .inr ⟨k, u, rfl, by omega, hu, rfl⟩

/-- The statement that links a replaced entry. -/
def Db.linkEntry (H : Host) (l : Link) (v : Sql) (seq : ℕ) (db : Db) : Db :=
  match l with
  | .superseded => db.linkSuperseded H v seq
  | .revoked => db.linkRevoked H v seq

/-- The link is set in the row the target names, unless there is none or the note conflicts. -/
theorem linkReplaced_inv {a : NoteArgs} {conflict : Option ℕ} {seq : ℕ} {w w' : World}
    (hx : ¬ (a.supersedes.truthy = true ∧ a.revokes.truthy = true))
    (h : linkReplaced H a conflict seq w = (.ok (), w')) :
    ((a.target.truthy = false ∨ conflict ≠ none) ∧ w' = w) ∨
      ∃ v, a.target.truthy = true ∧ conflict = none ∧ Sql.ofJson a.target = .ok v ∧
        w' = { w with db := w.db.linkEntry H a.linkKind v seq } := by
  unfold linkReplaced at h
  unfold NoteArgs.target NoteArgs.linkKind
  by_cases hs : a.supersedes.truthy = true
  · have hr : a.revokes.truthy = false := by
      by_contra hr
      exact hx ⟨hs, by simpa using hr⟩
    by_cases hc : conflict = none
    · rw [if_pos ⟨hs, hc⟩] at h
      obtain ⟨_, _, he, -⟩ | ⟨v, hv, h2⟩ := lift_bind_inv h
      · cases he
      rw [execute_bind, if_neg (by simp [hr])] at h2
      cases h2
      exact .inr ⟨v, by simp [hs], hc, by simpa [hs] using hv, by simp [hs, Db.linkEntry]⟩
    · rw [if_neg (fun h' => hc h'.2), if_neg (fun h' => hc h'.2)] at h
      cases h
      exact .inl ⟨.inr hc, rfl⟩
  · rw [if_neg (fun h' => hs h'.1)] at h
    by_cases hr : a.revokes.truthy = true ∧ conflict = none
    · rw [if_pos hr] at h
      obtain ⟨_, _, he, -⟩ | ⟨v, hv, h3⟩ := lift_bind_inv h
      · cases he
      cases h3
      exact .inr ⟨v, by simp [hs, hr.1], hr.2, by simpa [hs] using hv, by simp [hs, Db.linkEntry]⟩
    · rw [if_neg hr] at h
      cases h
      refine .inl ⟨?_, rfl⟩
      by_cases hc : conflict = none
      · left
        simpa [hs] using fun h' => hr ⟨h', hc⟩
      · exact .inr hc

section linkEntry

variable (l : Link) (v : Sql) (seq : ℕ) (db : Db)

/-- Links leave the head alone. -/
@[simp] theorem linkEntry_head : (db.linkEntry H l v seq).head = db.head := by cases l <;> rfl

/-- Links leave the floor alone. -/
@[simp] theorem linkEntry_floor : (db.linkEntry H l v seq).floor = db.floor := by cases l <;> rfl

/-- Links leave the identity of the store alone. -/
@[simp] theorem linkEntry_storeId : (db.linkEntry H l v seq).storeId = db.storeId := by
  cases l <;> rfl

/-- Links leave the keys alone. -/
@[simp] theorem linkEntry_idem : (db.linkEntry H l v seq).idem = db.idem := by cases l <;> rfl

/-- Links leave the cursors alone. -/
@[simp] theorem linkEntry_cursors : (db.linkEntry H l v seq).cursors = db.cursors := by
  cases l <;> rfl

/-- Links leave the retirements alone. -/
@[simp] theorem linkEntry_retired : (db.linkEntry H l v seq).retired = db.retired := by
  cases l <;> rfl

/-- Links leave the snapshots alone. -/
@[simp] theorem linkEntry_snapshots : (db.linkEntry H l v seq).snapshots = db.snapshots := by
  cases l <;> rfl

/-- Links leave the snapshot items alone. -/
@[simp] theorem linkEntry_items : (db.linkEntry H l v seq).items = db.items := by cases l <;> rfl

/-- Links leave the index alone. -/
@[simp] theorem linkEntry_search : (db.linkEntry H l v seq).search = db.search := by cases l <;> rfl

/-- Links leave the marker of the index alone. -/
@[simp] theorem linkEntry_indexedThrough :
    (db.linkEntry H l v seq).indexedThrough = db.indexedThrough := by cases l <;> rfl

/-- A link is set in the row its target names and in no other. -/
theorem linkEntry_rows : (db.linkEntry H l v seq).entries.rows
    = db.entries.rows.map fun e => if H.matchesSeq v e.seq then e.link l seq else e := by
  cases l <;> rfl

end linkEntry

/-- What the checks of `note` establish. -/
theorem noteChecks_eq_ok {consumer : Text} {a : NoteArgs} {pid : ℕ} {d : Draft} :
    noteChecks H consumer a pid = .ok d ↔ checkKind H a.kind = .ok d.kind ∧
      checkScope H a.scope = .ok d.scope ∧ checkScopeTarget d.scope a.scopeTarget = .ok () ∧
      checkBody a.body = .ok d.body ∧ checkProbe (probeRow consumer a pid d) = .ok () ∧
      checkExclusive a = .ok () := by
  unfold noteChecks
  simp only [except_bind_eq_ok]
  constructor
  · rintro ⟨k, hk, s, hs, _, ht, b, hb, _, hp, _, hx, hd⟩
    cases hd
    exact ⟨hk, hs, ht, hb, hp, hx⟩
  · rintro ⟨hk, hs, ht, hb, hp, hx⟩
    exact ⟨_, hk, _, hs, (), ht, _, hb, (), hp, (), hx, rfl⟩

/-- A note may not name two targets. -/
theorem checkExclusive_eq_ok {a : NoteArgs} :
    checkExclusive a = .ok () ↔ ¬ (a.supersedes.truthy = true ∧ a.revokes.truthy = true) := by
  unfold checkExclusive
  split
  · simp_all
  · simp_all

/-- A statement that leaves the readers' tables alone. -/
structure Spares (f : Db → Db) : Prop where
  cursors : ∀ db, (f db).cursors = db.cursors
  retired : ∀ db, (f db).retired = db.retired

/-- **The body of the appending transaction keeps what its statements keep**, and these spare the
readers. -/
theorem appendRow_keeps {R : World → World → Prop} [Std.Refl R] [IsTrans World R]
    (hwrite : Keeps R (write H)) (htime : Keeps R (time H))
    (hexec : ∀ f, Spares f → Keeps R (execute f))
    (consumer : Text) (a : NoteArgs) (pid : ℕ) (d : Draft) (key : Option Text) (mark : Text)
    (due : ℚ) :
    Keeps R (appendRow H consumer a pid d key mark due) := by
  have hread : Keeps R database := Keeps.bind Keeps.get fun _ => Keeps.pure _
  have hinsert {κ α : Type} {key : α → κ} [DecidableEq κ] (t : Table κ α key) (a : α) :
      Keeps R (insertInto t a) := by
    unfold insertInto
    split
    · exact Keeps.pure _
    · exact Keeps.throw _
  have hrep : Keeps R (replacement H a.target) := by
    refine Keeps.ite (Keeps.bind (Keeps.lift _) fun v => ?_) (Keeps.pure _)
    refine Keeps.bind hread fun db => ?_
    split
    · exact Keeps.throw _
    · exact Keeps.pure _
  have hlink (c : Option ℕ) (seq : ℕ) : Keeps R (linkReplaced H a c seq) := by
    have hrev : Keeps R (if a.revokes.truthy ∧ c = none then
        (Prog.lift (Sql.ofJson a.revokes) >>= fun s => execute fun db => db.linkRevoked H s seq)
        else pure ()) :=
      Keeps.ite (Keeps.bind (Keeps.lift _) fun _ => hexec _ ⟨fun _ => rfl, fun _ => rfl⟩)
      (Keeps.pure _)
    unfold linkReplaced
    refine Keeps.ite (Keeps.bind (Keeps.lift _) fun v => ?_) hrev
    exact Keeps.bind (hexec _ ⟨fun _ => rfl, fun _ => rfl⟩) fun _ => hrev
  have hidx (seq : ℕ) : Keeps R (indexEntry seq d.body) :=
    Keeps.bind Keeps.get fun w => Keeps.ite (hexec _ ⟨fun _ => rfl, fun _ => rfl⟩) (Keeps.pure _)
  have hidem (seq : ℕ) : Keeps R (recordIdem H key mark due seq) := by
    unfold recordIdem
    cases key with
    | none => exact Keeps.pure _
    | some k =>
      refine Keeps.bind hread fun db => Keeps.ite (Keeps.throw _) ?_
      refine Keeps.bind htime fun ts => Keeps.bind hread fun db' => ?_
      exact Keeps.bind (hinsert _ _) fun _ => hexec _ ⟨fun _ => rfl, fun _ => rfl⟩
  refine Keeps.bind hrep fun p => Keeps.bind hwrite fun _ => Keeps.bind hread fun db => ?_
  refine Keeps.bind htime fun ts => Keeps.bind (Keeps.lift _) fun c => ?_
  refine Keeps.bind hread fun db' => Keeps.bind (hinsert _ _) fun t => ?_
  refine Keeps.bind (hexec _ ⟨fun _ => rfl, fun _ => rfl⟩) fun _ => Keeps.bind (hlink _ _) fun _ =>
    ?_
  exact Keeps.bind (hidx _) fun _ => Keeps.bind (hidem _) fun _ => Keeps.pure _

/-- The body of the appending transaction goes to a later moment. -/
theorem keeps_appendRow (consumer : Text) (a : NoteArgs) (pid : ℕ) (d : Draft) (key : Option Text)
    (mark : Text) (due : ℚ) : Keeps Later (appendRow H consumer a pid d key mark due) :=
  appendRow_keeps (Keeps.later keeps_write) (Keeps.later keeps_time) (fun f _ => keeps_execute f)
    consumer a pid d key mark due

/-! ### What an append raises -/

/-- What stands in the way of a row: a value that cannot be measured or bound, a database error, an
entry to replace that is not there, or too many deduplication rows. -/
inductive Unstored : Exc → Prop
  | value : Unstored .valueError
  | overflow : Unstored .overflowError
  | attribute : Unstored .attributeError
  | sqlite (e : SqliteError) : Unstored (.sqlite e)
  | noSuchEntry (d : Text) : Unstored (.refused .noSuchEntry d none)
  | idemCapacity (d : Text) : Unstored (.refused .idemCapacity d none)

/-- Measuring a text fails on a lone surrogate only. -/
theorem measure_error {t : Text} {e : Exc} (h : measure t = .error e) : e = .valueError := by
  unfold measure at h
  split at h <;> cases h
  rfl

/-- What the checks of `note` refuse with. -/
inductive Unchecked : Exc → Prop
  | invalid (d : Text) : Unchecked (.refused .invalidRequest d none)
  | tooLarge (d : Text) : Unchecked (.refused .entryTooLarge d none)
  | value : Unchecked .valueError

/-- What the checks of a note raise. -/
theorem noteChecks_unchecked {consumer : Text} {a : NoteArgs} {pid : ℕ} {e : Exc}
    (h : noteChecks H consumer a pid = .error e) : Unchecked e := by
  rcases except_bind_eq_error.mp h with h | ⟨_, -, h⟩
  · unfold checkKind at h
    split at h
    · cases h
    · cases h
      exact .invalid _
  rcases except_bind_eq_error.mp h with h | ⟨_, -, h⟩
  · unfold checkScope at h
    split at h
    · cases h
    · cases h
      exact .invalid _
  rcases except_bind_eq_error.mp h with h | ⟨_, -, h⟩
  · unfold checkScopeTarget at h
    split at h
    · cases h
      exact .invalid _
    · cases h
  rcases except_bind_eq_error.mp h with h | ⟨_, -, h⟩
  · unfold checkBody at h
    split at h
    · split at h
      · cases h
        exact .invalid _
      · rcases except_bind_eq_error.mp h with h | ⟨_, -, h⟩
        · exact measure_error h ▸ .value
        · split at h
          · cases h
            exact .tooLarge _
          · cases h
    · cases h
      exact .invalid _
  rcases except_bind_eq_error.mp h with h | ⟨_, -, h⟩
  · unfold checkProbe at h
    rw [lenEncode_eq] at h
    rcases except_bind_eq_error.mp h with h | ⟨_, -, h⟩
    · split at h
      · cases h
        exact .value
      · cases h
    · split at h
      · cases h
        exact .tooLarge _
      · cases h
  rcases except_bind_eq_error.mp h with h | ⟨_, -, h⟩
  · unfold checkExclusive at h
    split at h
    · cases h
      exact .invalid _
    · cases h
  · cases h

/-- What measuring several values raises stores nothing. -/
theorem measureAll_unstored (l : List Json) {e : Exc} (h : measureAll l = .error e) :
    Unstored e := by
  induction l generalizing e with
  | nil => cases h
  | cons v rest ih =>
    rcases except_bind_eq_error.mp h with h | ⟨n, -, h⟩
    · unfold measureOr at h
      split at h
      · exact measure_error h ▸ .value
      · split at h
        · cases h
          exact .attribute
        · cases h
    · rcases except_bind_eq_error.mp h with h | ⟨m, -, h⟩
      · exact ih h
      · cases h

/-- What binding a value raises stores nothing. -/
theorem ofJson_unstored {v : Json} {e : Exc} (h : Sql.ofJson v = .error e) : Unstored e := by
  unfold Sql.ofJson at h
  split at h
  case h_3 =>
    split at h <;> cases h
    exact .overflow
  case h_9 =>
    split at h <;> cases h
    exact .value
  case h_10 | h_11 =>
    cases h
    exact .sqlite _
  all_goals cases h

/-- What computing a charge raises stores nothing. -/
theorem noteCharge_unstored {consumer : Text} {a : NoteArgs} {d : Draft} {key : Option Text}
    {e : Exc}
    (h : noteCharge consumer a d key = .error e) : Unstored e := by
  rcases except_bind_eq_error.mp h with h | ⟨n, -, h⟩
  · exact measureAll_unstored _ h
  · rcases key with _ | k
    · cases h
    · rcases except_bind_eq_error.mp h with h | ⟨m, -, h⟩
      · exact measure_error h ▸ .value
      · cases h

/-- What binding the columns raises stores nothing. -/
theorem bindColumns_unstored {consumer : Text} {a : NoteArgs} {d : Draft} {e : Exc}
    (h : bindColumns H consumer a d = .error e) : Unstored e := by
  unfold bindColumns at h
  -- The eight parameters are bound one after the other.
  rcases except_bind_eq_error.mp h with h | ⟨_, -, h⟩
  · exact ofJson_unstored h
  rcases except_bind_eq_error.mp h with h | ⟨_, -, h⟩
  · exact ofJson_unstored h
  rcases except_bind_eq_error.mp h with h | ⟨_, -, h⟩
  · exact ofJson_unstored h
  rcases except_bind_eq_error.mp h with h | ⟨_, -, h⟩
  · exact ofJson_unstored h
  rcases except_bind_eq_error.mp h with h | ⟨_, -, h⟩
  · exact ofJson_unstored h
  rcases except_bind_eq_error.mp h with h | ⟨_, -, h⟩
  · exact ofJson_unstored h
  rcases except_bind_eq_error.mp h with h | ⟨_, -, h⟩
  · exact ofJson_unstored h
  rcases except_bind_eq_error.mp h with h | ⟨_, -, h⟩
  · exact ofJson_unstored h
  · cases h

/-- What the appending transaction raises. -/
theorem raises_appendRow (consumer : Text) (a : NoteArgs) (pid : ℕ) (d : Draft) (key : Option Text)
    (mark : Text) (due : ℚ) : Raises Unstored (appendRow H consumer a pid d key mark due) := by
  have hwrite : Raises Unstored (write H) := by
    intro w e w' h
    unfold write at h
    split at h <;> cases h <;> exact .sqlite _
  have hinto {κ α : Type} {key : α → κ} [DecidableEq κ] (t : Table κ α key) (a : α) :
      Raises Unstored (insertInto t a) := by
    unfold insertInto
    split
    · exact Raises.pure _
    · exact Raises.throw (.sqlite _)
  have hofJson (v : Json) : Raises Unstored (Prog.lift (Sql.ofJson v) : M Sql) :=
    Raises.lift fun _ => ofJson_unstored
  unfold appendRow
  refine Raises.bind ?_ fun p => Raises.bind hwrite fun _ =>
    Raises.bind raises_database fun _ => Raises.bind raises_time fun _ =>
    Raises.bind (Raises.lift fun _ => bindColumns_unstored) fun _ =>
    Raises.bind raises_database fun _ =>
    Raises.bind (hinto _ _) fun _ =>
    Raises.bind (raises_execute _) fun _ =>
    Raises.bind ?_ fun _ => Raises.bind ?_ fun _ => Raises.bind ?_ fun _ => Raises.pure _
  · unfold replacement
    refine Raises.ite (fun _ => Raises.bind (hofJson _) fun v =>
      Raises.bind raises_database fun db => ?_) fun _ => Raises.pure _
    rcases db.target H v with _ | found
    · exact Raises.throw (.noSuchEntry _)
    · exact Raises.pure _
  · have hrevoke (b : Prop) [Decidable b] (v : Json) (f : Sql → Db → Db) : Raises Unstored
        (if b then (do let s ← Prog.lift (Sql.ofJson v); execute (f s)) else pure () : M Unit) :=
      Raises.ite (fun _ => Raises.bind (hofJson _) fun _ => raises_execute _)
        fun _ => Raises.pure _
    unfold linkReplaced
    exact Raises.ite (fun _ => Raises.bind (hofJson _) fun _ =>
      Raises.bind (raises_execute _) fun _ => hrevoke _ _ _) fun _ => hrevoke _ _ _
  · unfold indexEntry
    exact Raises.bind Raises.get fun _ =>
      Raises.ite (fun _ => raises_execute _) fun _ => Raises.pure _
  · unfold recordIdem
    rcases key with _ | k
    · exact Raises.pure _
    · have hinsert (seq : ℕ) : Raises Unstored (do
          let ts ← time H
          let table ← insertInto (← database).idem ⟨k, mark, seq, ts, due⟩
          execute fun db => { db with idem := table }) :=
        Raises.bind raises_time fun _ => Raises.bind raises_database fun _ =>
          Raises.bind (hinto _ _) fun _ => raises_execute _
      exact Raises.bind raises_database fun _ =>
        Raises.ite (fun _ => Raises.bind (Raises.throw (.idemCapacity _)) fun _ => hinsert _)
          fun _ => hinsert _

/-- The rows after the insertion and the link, in the terms of `Append`. -/
theorem relink_rows {x : Append} {db : Db} {v : Sql} {e : Entry} {t : Table ℕ Entry Entry.seq}
    (hf : db.target H v = some e) (hx : x.found = some e) (hc : x.conflict = none)
    (ht : db.entries.insert? (x.entry (db.head + 1)) = some t) :
    (t.rows.map fun f => if H.matchesSeq v f.seq then f.link x.args.linkKind (db.head + 1) else f)
      = db.entries.rows.map (x.relink (db.head + 1)) ++ [x.entry (db.head + 1)] := by
  obtain ⟨he, hm⟩ := Db.target_mem hf
  obtain ⟨hfresh, hrows⟩ := Table.insert?_eq_some.mp ht
  have hiff (n : ℕ) : H.matchesSeq v n = true ↔ e.seq = n :=
    ⟨fun h => matchesSeq_unique hm h, fun h => h ▸ hm⟩
  rw [hrows, List.map_append]
  congr 1
  · refine List.map_congr_left fun f _ => ?_
    by_cases hs : e.seq = f.seq
    · rw [if_pos ((hiff _).mpr hs)]
      simp [Append.relink, hc, hx, hs]
    · rw [if_neg (fun h => hs ((hiff _).mp h))]
      simp [Append.relink, hx, hs]
  · have hne : ¬ H.matchesSeq v (x.entry (db.head + 1)).seq = true :=
      fun h => hfresh e he ((hiff _).mp h)
    rw [List.map_singleton, if_neg hne]

/-- **The appending transaction.** -/
theorem appendRow_inv {consumer : Text} {a : NoteArgs} {pid : ℕ} {d : Draft} {key : Option Text}
    {mark : Text} {due : ℚ} {w w' : World} {p : ℕ × Option ℕ}
    (hx : ¬ (a.supersedes.truthy = true ∧ a.revokes.truthy = true))
    (h : appendRow H consumer a pid d key mark due w = (.ok p, w')) :
    ∃ x : Append, x.consumer = consumer ∧ x.args = a ∧ x.pid = pid ∧ x.draft = d ∧
      (x.idem.map fun i => (i.key, i.fingerprint, i.deadline)) = key.map (fun k => (k, mark, due)) ∧
      p = (w.db.head + 1, x.conflict) ∧ Reading H w.tick w' x.ts ∧ Appended H x w.db w'.db ∧
      Indexes w.fts (w.db.head + 1) d.body w.db w'.db := by
  have hlater := (keeps_appendRow consumer a pid d key mark due).run h
  unfold appendRow at h
  obtain ⟨⟨revision, conflict⟩, w1, h1, h2⟩ := bind_ok_inv h
  obtain ⟨rfl, hrep⟩ := replacement_inv h1
  obtain ⟨_, w2, h3, h4⟩ := bind_ok_inv h2
  have hi2 : Idle w1 w2 := keeps_write.run h3
  dsimp only at h4
  rw [database_bind, time_bind] at h4
  obtain ⟨_, _, he, -⟩ | ⟨cols, hcols, h5⟩ := lift_bind_inv h4
  · cases he
  rw [database_bind] at h5
  obtain ⟨t, w3, h6, h7⟩ := bind_ok_inv h5
  obtain ⟨rfl, ht⟩ := insertInto_inv h6
  rw [execute_bind] at h7
  obtain ⟨_, w4, h8, h9⟩ := bind_ok_inv h7
  obtain ⟨_, w5, h10, h11⟩ := bind_ok_inv h9
  obtain ⟨_, w6, h12, h13⟩ := bind_ok_inv h11
  obtain ⟨s, i, rfl, hindex⟩ := indexEntry_inv h10
  cases h13
  -- The replaced entry, and with it the whole description of the append.
  let found : Option Entry :=
    if a.target.truthy then (Sql.ofJson a.target).toOption.bind fun v => w1.db.target H v else none
  let seq := w1.db.head + 1
  let idem : Option Idem := key.map fun k => ⟨k, mark, seq, H.clock w4.tick, due⟩
  let x : Append := ⟨consumer, a, pid, d, cols, H.clock w2.tick, found, idem⟩
  have hrev : revision = x.revision ∧ conflict = x.conflict ∧
      ((a.target.truthy = false ∧ x.found = none) ∨
        ∃ v e, a.target.truthy = true ∧ Sql.ofJson a.target = .ok v ∧
          w1.db.target H v = some e ∧ x.found = some e) := by
    obtain ⟨hf, hp⟩ | ⟨v, e, hf, hv, he, hp⟩ := hrep
    · have hxf : x.found = none := by simp [x, found, hf]
      cases hp
      exact ⟨by simp [Append.revision, hxf], by simp [Append.conflict, hxf], .inl ⟨hf, hxf⟩⟩
    · have hxf : x.found = some e := by simp [x, found, hf, hv, he, Except.toOption]
      cases hp
      exact ⟨by simp [Append.revision, hxf], by simp [Append.conflict, hxf],
        .inr ⟨v, e, hf, hv, he, hxf⟩⟩
  obtain ⟨rfl, rfl, hfound⟩ := hrev
  have ht' : w1.db.entries.insert? (x.entry seq) = some t := by
    rw [hi2.db] at ht
    exact ht
  -- The content right before the deduplication row.
  have hlinked : w4.db.head = seq ∧ w4.db.floor = w1.db.floor ∧ w4.db.storeId = w1.db.storeId ∧
      w4.db.entries.rows = w1.db.entries.rows.map (x.relink seq) ++ [x.entry seq] ∧
      w4.db.idem = w1.db.idem ∧ w4.db.cursors = w1.db.cursors ∧ w4.db.retired = w1.db.retired ∧
      w4.db.snapshots = w1.db.snapshots ∧ w4.db.items = w1.db.items ∧ w4.tick = w2.tick + 1 ∧
      w4.db.search = w1.db.search ∧ w4.db.indexedThrough = w1.db.indexedThrough
      ∧ w4.fts = w1.fts := by
    have hrows := (Table.insert?_eq_some.mp ht').2
    simp only [hi2.db] at h8
    obtain ⟨hn, rfl⟩ | ⟨v, htr, hc, hv, rfl⟩ := linkReplaced_inv hx h8
    · refine ⟨rfl, rfl, rfl, ?_, rfl, rfl, rfl, rfl, rfl, rfl, rfl, rfl, hi2.fts⟩
      change t.rows = _
      rw [hrows]
      congr 1
      refine (List.map_id'' (fun f => ?_) _).symm
      obtain ⟨hf, hxf⟩ | ⟨_, e, hf, _, _, hxf⟩ := hfound
      · simp [Append.relink, hxf]
      · obtain hn | hn := hn
        · rw [hf] at hn
          cases hn
        · simp [Append.relink, hn]
    · obtain ⟨hf, -⟩ | ⟨v', e, hf, hv', he, hxf⟩ := hfound
      · rw [hf] at htr
        cases htr
      obtain rfl : v = v' := Except.ok.inj (hv.symm.trans hv')
      simp only [linkEntry_head, linkEntry_floor, linkEntry_storeId, linkEntry_idem,
        linkEntry_cursors, linkEntry_retired, linkEntry_snapshots, linkEntry_items,
        linkEntry_search, linkEntry_indexedThrough]
      refine ⟨rfl, rfl, rfl, ?_, rfl, rfl, rfl, rfl, rfl, trivial, rfl, rfl, hi2.fts⟩
      rw [linkEntry_rows]
      exact relink_rows he hxf hc ht'
  obtain ⟨hhead, hfloor, hstore, hrows, hidem, hcur, hret, hsnap, hitems, htick, hsearch, hthrough,
    hfts⟩ := hlinked
  have hindex' : Indexes w1.fts (w1.db.head + 1) d.body w1.db
      { w4.db with search := s, indexedThrough := i } := by
    unfold Indexes at hindex ⊢
    rw [hfts, hthrough, hsearch] at hindex
    rw [hi2.db] at hindex
    exact hindex
  have hts : Reading H w1.tick w' x.ts := by
    refine ⟨w2.tick, hi2.tick, ?_, rfl⟩
    obtain ⟨-, rfl⟩ | ⟨_, _, _, _, _, rfl⟩ := recordIdem_inv h12
    · exact htick ▸ Nat.lt_succ_self _
    · exact htick ▸ Nat.lt_add_of_pos_right (Nat.succ_pos _)
  have hp : (w2.db.head + 1, x.conflict) = (w1.db.head + 1, x.conflict) := by rw [hi2.db]
  have hfresh : ∀ e ∈ w1.db.entries, e.seq ≠ w1.db.head + 1 := (Table.insert?_eq_some.mp ht').1
  obtain ⟨rfl, rfl⟩ | ⟨k, u, rfl, hlt, hu, rfl⟩ := recordIdem_inv h12
  · exact ⟨x, rfl, rfl, rfl, rfl, rfl, hp, hts,
      ⟨hcols, hfound, hfresh, hhead, hfloor, hstore, hrows, .inl ⟨rfl, hidem⟩, hcur, hret, hsnap,
        hitems⟩, hindex'⟩
  · refine ⟨x, rfl, rfl, rfl, rfl, rfl, hp, hts,
      ⟨hcols, hfound, hfresh, hhead, hfloor, hstore, hrows, .inr ⟨_, rfl, rfl, ?_, ?_⟩, hcur, hret,
        hsnap, hitems⟩, hindex'⟩
    · change w4.db.idem.rows.length < maxIdemRows at hlt
      rwa [hidem] at hlt
    · change w4.db.idem.insert? _ = _ at hu
      rw [hidem, hi2.db] at hu
      exact hu

/-- The append of a request whose checks produced the draft `d`, with the deduplication row of its
key. -/
structure Append.Of (x : Append) (consumer : Text) (a : NoteArgs) (pid : ℕ) (d : Draft)
    (key : Option Text) (mark : Text) (due : ℚ) : Prop where
  consumer : x.consumer = consumer
  args : x.args = a
  pid : x.pid = pid
  draft : x.draft = d
  idem : (x.idem.map fun i => (i.key, i.fingerprint, i.deadline)) = key.map fun k => (k, mark, due)

/-- Every note is charged something. -/
theorem noteCharge_pos {consumer : Text} {a : NoteArgs} {d : Draft} {key : Option Text} {need : ℕ}
    (h : noteCharge consumer a d key = .ok need) : 0 < need := by
  have h512 : 0 < entryOverhead := by decide
  obtain ⟨entry, -, h1⟩ := except_bind_eq_ok.mp h
  rcases key with _ | k
  · obtain rfl := Except.ok.inj h1
    omega
  · obtain ⟨n, -, h2⟩ := except_bind_eq_ok.mp h1
    obtain rfl := Except.ok.inj h2
    omega

/-- `x` was committed between `w` and `w'`. -/
structure Commits (H : Host) (k : ℕ) (x : Append) (w w' : World) : Prop where
  later : Later w w'
  ts : Reading H k w' x.ts
  room : w.db.entries.rows.length < maxEntries
  effect : Appended H x w.db w'.db
  index : Indexes w.fts (w.db.head + 1) x.draft.body w.db w'.db
  charged : ∃ need, noteCharge x.consumer x.args x.draft (x.idem.map Idem.key) = .ok need ∧
    Room w.db need 1 (x.args.supersedes.truthy || x.args.revokes.truthy)
  kept : w'.db.usage.logical ≤ byteCap (x.args.supersedes.truthy || x.args.revokes.truthy)

/-- Where a note has room the table of entries is not full. -/
theorem Room.lt_maxEntries {db : Db} {need : ℕ} {control : Bool} (h : Room db need 1 control) :
    db.entries.rows.length < maxEntries := by
  have h1 : db.entries.rows.length + 1 ≤ entryCap control := h.entries
  have h2 : entryCap control ≤ maxEntries := by cases control <;> decide
  omega

/-- One append: maintenance and an exception, or maintenance and the row that is committed. -/
theorem noteAppend_inv {consumer : Text} {a : NoteArgs} {pid : ℕ} {d : Draft} {key : Option Text}
    {mark : Text} {due : ℚ} {w w' : World} {r : Except Exc Noted}
    (hx : ¬ (a.supersedes.truthy = true ∧ a.revokes.truthy = true))
    (h : noteAppend H consumer a pid d key mark due w = (r, w')) :
    (Maints H w.tick w w' ∧ ∃ e, r = .error e) ∨
      ∃ w1 x, Maints H w.tick w w1 ∧ x.Of consumer a pid d key mark due ∧
        Commits H w.tick x w1 w' ∧
        (r = .ok ⟨w1.db.head + 1, false, x.conflict, a.deadline⟩ ∨ r = .error .killed) := by
  unfold noteAppend at h
  obtain ⟨e, -, rfl, rfl⟩ | ⟨need, hneed, h1⟩ := lift_bind_inv h
  · exact .inl ⟨.refl, e, rfl⟩
  -- What the mutation did, whatever the handler turns its exception into.
  have hmut {r1 : Except Exc (ℕ × Option ℕ)} {v : World}
      (hm : mutation H need 1 (a.supersedes.truthy || a.revokes.truthy)
        (appendRow H consumer a pid d key mark due) w = (r1, v)) :
      (Maints H w.tick w v ∧ ∃ e, r1 = .error e) ∨
        ∃ w1 x, Maints H w.tick w w1 ∧ x.Of consumer a pid d key mark due ∧
          Commits H w.tick x w1 v ∧
          (r1 = .ok (w1.db.head + 1, x.conflict) ∨ r1 = .error .killed) := by
    obtain ⟨hc, e, he, -⟩ | ⟨w1, p, w2, hc, hroom, hbody, hkept, hi, hr⟩ :=
      mutation_inv (keeps_appendRow consumer a pid d key mark due) hm
    · exact .inl ⟨hc, e, he⟩
    · obtain ⟨x, h3, h4, h5, h6, h7, rfl, hts, ha, hindex⟩ := appendRow_inv hx hbody
      have hl := (keeps_appendRow consumer a pid d key mark due).run hbody
      have hkey : x.idem.map Idem.key = key := by
        have h8 := congrArg (Option.map Prod.fst) h7
        simpa [Option.map_map, Function.comp_def] using h8
      refine .inr ⟨w1, x, hc, ⟨h3, h4, h5, h6, h7⟩,
        ⟨trans_of Later hl hi.toLater, hts.mono hc.later.tick hi.tick, hroom.lt_maxEntries,
          hi.db ▸ ha, ?_, ⟨need, ?_, ?_⟩, ?_⟩, hr⟩
      · rw [hi.db, h6]
        exact hindex
      · rw [h3, h4, h6, hkey]
        exact hneed
      · rw [h4]
        exact hroom
      · rw [h4, hi.db]
        exact hkept (noteCharge_pos hneed).ne'
  obtain ⟨e, h2, rfl⟩ | ⟨⟨seq, conflict⟩, u, h2, h3⟩ := bind_inv h1
  · obtain ⟨_, _, he⟩ | ⟨e0, v, h4, h5⟩ := tryCatch_inv h2
    · cases he
    have hv : w' = v ∧ (e0 = .killed → e = .killed) := by
      cases e0 <;> cases h5 <;> exact ⟨rfl, fun h => by cases h <;> rfl⟩
    obtain ⟨rfl, hk⟩ := hv
    obtain ⟨hc, -⟩ | ⟨w1, x, hc, hof, hcom, hr⟩ := hmut h4
    · exact .inl ⟨hc, e, rfl⟩
    · obtain hr | hr := hr
      · cases hr
      · cases hr
        exact .inr ⟨w1, x, hc, hof, hcom, .inr (by rw [hk rfl])⟩
  · cases h3
    obtain ⟨_, h4, he⟩ | ⟨e0, v, _, h5⟩ := tryCatch_inv h2
    · cases he
      obtain ⟨-, _, he⟩ | ⟨w1, x, hc, hof, hcom, hr⟩ := hmut h4
      · cases he
      · obtain hr | hr := hr
        · cases hr
          exact .inr ⟨w1, x, hc, hof, hcom, .inl rfl⟩
        · cases hr
    · cases e0 <;> cases h5

/-- The lookup of a keyed write that found nothing to refuse. -/
theorem noteLookup_inv {key mark : Text} {deadline : Json} {w w' : World}
    {r : Except Exc (ℚ × Option Noted)} (h : noteLookup H key mark deadline w = (r, w')) :
    Idle w w' ∧ ((∃ e, r = .error e) ∨ ∃ due, deadlineValue deadline = .ok due ∧
      H.clock w.tick < due ∧ due ≤ H.clock w.tick + idemTtl ∧ (∃ n, measure key = .ok n) ∧
      ((w.db.idem.find key = none ∧ r = .ok (due, none)) ∨
        ∃ f, w.db.idem.find key = some f ∧ f.fingerprint = mark ∧ f.deadline = due ∧
          r = .ok (due, some ⟨f.seq, true, none, .float (.fin f.deadline)⟩))) := by
  have hi : Idle w { w with tick := w.tick + 1 } := ⟨⟨Nat.le_succ _, rfl⟩, rfl⟩
  unfold noteLookup at h
  split at h
  · cases h
    exact ⟨refl_of Idle _, .inl ⟨_, rfl⟩⟩
  rw [time_bind] at h
  obtain ⟨e, -, rfl, rfl⟩ | ⟨due, hdue, h1⟩ := lift_bind_inv h
  · exact ⟨hi, .inl ⟨e, rfl⟩⟩
  split at h1
  · cases h1
    exact ⟨hi, .inl ⟨_, rfl⟩⟩
  split at h1
  · cases h1
    exact ⟨hi, .inl ⟨_, rfl⟩⟩
  rename_i hahead hpast
  obtain ⟨e, -, rfl, rfl⟩ | ⟨n, hn, h2⟩ := lift_bind_inv h1
  · exact ⟨hi, .inl ⟨e, rfl⟩⟩
  rw [database_bind] at h2
  rcases hf : w.db.idem.find key with _ | f
  · rw [hf] at h2
    cases h2
    exact ⟨hi, .inr ⟨due, hdue, not_le.mp hpast, not_lt.mp hahead, ⟨n, hn⟩, .inl ⟨rfl, rfl⟩⟩⟩
  · rw [hf] at h2
    dsimp only at h2
    split at h2
    · cases h2
      exact ⟨hi, .inl ⟨_, rfl⟩⟩
    split at h2
    · cases h2
      exact ⟨hi, .inl ⟨_, rfl⟩⟩
    · rename_i hm hd
      cases h2
      exact ⟨hi, .inr ⟨due, hdue, not_le.mp hpast, not_lt.mp hahead, ⟨n, hn⟩,
        .inr ⟨f, rfl, not_not.mp hm, not_not.mp hd, rfl⟩⟩⟩

/-- **One run of `note`.** -/
theorem note_inv {repo consumer : Text} {a : NoteArgs} {pid : ℕ} {w w' : World}
    {r : Except Exc Noted} (h : note H repo consumer a pid w = (r, w')) :
    (Maints H w.tick w w' ∧ ∃ e, r = .error e) ∨
      ∃ d, noteChecks H consumer a pid = .ok d ∧
        ((Idle w w' ∧ ∃ due f, a.key.isNull = false ∧ deadlineValue a.deadline = .ok due ∧
          H.clock w.tick < due ∧ w.db.idem.find (scopedKey H repo consumer a.key) = some f ∧
          f.fingerprint = fingerprint H (payload a d) ∧ f.deadline = due ∧
          r = .ok ⟨f.seq, true, none, .float (.fin f.deadline)⟩) ∨
        ∃ w1 x key due, Maints H w.tick w w1 ∧
          x.Of consumer a pid d key (fingerprint H (payload a d)) due ∧
          ((key = none ∧ a.key.isNull = true) ∨
            (key = some (scopedKey H repo consumer a.key) ∧ a.key.isNull = false ∧
              deadlineValue a.deadline = .ok due ∧ H.clock w.tick < due ∧
              due ≤ H.clock w.tick + idemTtl ∧
              (∃ n, measure (scopedKey H repo consumer a.key) = .ok n) ∧
              w.db.idem.find (scopedKey H repo consumer a.key) = none)) ∧
          Commits H w.tick x w1 w' ∧
          (r = .ok ⟨w1.db.head + 1, false, x.conflict, a.deadline⟩ ∨ r = .error .killed)) := by
  unfold note at h
  obtain ⟨e, -, rfl, rfl⟩ | ⟨d, hd, h1⟩ := lift_bind_inv h
  · exact .inl ⟨.refl, e, rfl⟩
  have hx := checkExclusive_eq_ok.mp (noteChecks_eq_ok.mp hd).2.2.2.2.2
  dsimp only at h1
  split at h1
  · rename_i hk
    obtain hc | ⟨w1, x, hc, hof, hcom, hr⟩ := noteAppend_inv hx h1
    · exact .inl hc
    · exact .inr ⟨d, hd, .inr ⟨w1, x, none, 0, hc, hof, .inl ⟨rfl, hk⟩, hcom, hr⟩⟩
  · rename_i hk
    have hk' : a.key.isNull = false := by simpa using hk
    obtain ⟨e, h2, rfl⟩ | ⟨⟨due, found⟩, u, h2, h3⟩ := bind_inv h1
    · exact .inl ⟨.idle (noteLookup_inv h2).1, e, rfl⟩
    obtain ⟨hi, ⟨_, he⟩ | ⟨due', hdue, hlt, hle, hn, hcase⟩⟩ := noteLookup_inv h2
    · cases he
    obtain ⟨hnone, he⟩ | ⟨f, hf, hfp, hfd, he⟩ := hcase
    · cases he
      obtain ⟨hc, e, rfl⟩ | ⟨w1, x, hc, hof, hcom, hr⟩ := noteAppend_inv hx h3
      · exact .inl ⟨(Maints.idle hi).trans (hc.mono hi.tick), e, rfl⟩
      · exact .inr ⟨d, hd, .inr ⟨w1, x, _, due, (Maints.idle hi).trans (hc.mono hi.tick), hof,
          .inr ⟨rfl, hk', hdue, hlt, hle, hn, hnone⟩,
          { hcom with ts := hcom.ts.mono hi.tick le_rfl }, hr⟩⟩
    · cases he
      cases h3
      exact .inr ⟨d, hd, .inl ⟨hi, due, f, hk', hdue, hlt, hf, hfp, hfd, rfl⟩⟩

end PeerBridge.Memory
