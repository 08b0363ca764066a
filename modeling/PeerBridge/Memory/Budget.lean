import PeerBridge.Memory.Appends

/-!
# The page budget of stored entries

`note` refuses what could never be delivered by encoding a row with placeholder values: sequence 0,
time 0.0, revision 1 and no links. The stored row carries the real values, and a later replacement
writes a link onto it, so the stored row can be longer than the probed one
(`Append.encodedLen_entry`). A probe exactly at the budget is accepted and stored a few bytes above
it (`stored_entry_exceeds_budget`).

What the admission is meant to give holds exactly for the appends that leave room for the growth
(`Append.Roomy`): in a run of such appends every stored entry and every snapshot item fits a page at
every moment, and an append that does not leave room puts a row above the budget into the store
(`stored_entries_fit`).

Source: `memory.py`, `Store.note`, `bounded`; `peer_transport.py`, `encode`.
-/

namespace PeerBridge.Memory

open Py Relational Effects Effects.Prog Relation

variable {H : Host}

/-! ## The length of a row -/

/-- The bytes of a row beyond its values. -/
def rowOverhead : ℕ := 3 + membersOverhead (fields.map fun k => (k, .null))

/-- A row encodes in the length of its frame and its values. -/
theorem encodedLen_row {values : List Json} (h : values.length = fields.length) :
    encodedLen (row values) = rowOverhead + (values.map dumpsLen).sum := by
  have hkeys : ((fields.zip values).map Prod.fst) = (fields.map fun k => (k, Json.null)).map
      Prod.fst := by
    rw [List.map_fst_zip (le_of_eq h.symm), List.map_map]
    exact (List.map_id _).symm
  have hvals : (fields.zip values).map (fun p => dumpsLen p.2) = values.map dumpsLen := by
    have hcomp := List.map_map (l := fields.zip values) (g := dumpsLen) (f := Prod.snd)
    rw [List.map_snd_zip (le_of_eq h)] at hcomp
    exact hcomp.symm
  simp only [encodedLen, row, dumpsLen_obj, membersOverhead_congr _ _ hkeys, hvals, rowOverhead]
  omega

/-! ## What the stored row adds to the probe -/

/-- What the columns take beyond the values of the request they come from. -/
def Columns.growth (c : Columns) (a : NoteArgs) : ℤ :=
  (dumpsLen (optText c.scopeTarget) - dumpsLen a.scopeTarget)
    + (dumpsLen (optText c.path) - dumpsLen a.path)
    + (dumpsLen (optText c.author) - dumpsLen a.author)
    + (dumpsLen c.supersedes.json - dumpsLen a.supersedes)
    + (dumpsLen c.revokes.json - dumpsLen a.revokes)
    + (dumpsLen c.expires.json - dumpsLen a.expires)

/-- What the stored row takes beyond the probed one: its sequence for `0`, its time for `0.0`, its
revision for `1`, the link it conflicts with for `null`, and its columns for their request
fields. -/
def Append.growth (x : Append) (seq : ℕ) : ℤ :=
  (decimalLen seq - 1) + (dumpsLen (.float (.fin x.ts)) - 3) + (decimalLen x.revision - 1)
    + (dumpsLen (optSeq x.conflict) - 4) + x.cols.growth x.args

/-- The length the admission of `note` looks at. -/
def Append.probeLen (x : Append) : ℕ := encodedLen (probeRow x.consumer x.args x.pid x.draft)

/-- The stored row is longer than the probe by what the real fields add. -/
theorem Append.encodedLen_entry (x : Append) (seq : ℕ) :
    (encodedLen (x.entry seq).json : ℤ) = x.probeLen + x.growth seq := by
  have h0 : dumpsLen (.int 0) = 1 := by decide
  have h1 : dumpsLen (.int 1) = 1 := by decide
  have ht : dumpsLen (.float (.fin 0)) = 3 := by decide +kernel
  rw [Append.probeLen, probeRow, Entry.json, encodedLen_row rfl, encodedLen_row rfl]
  simp only [List.map_cons, List.map_nil, List.sum_cons, List.sum_nil, Append.entry, Append.growth,
    Columns.growth, dumpsLen_natCast, dumpsLen_null, optSeq, h0, h1, ht]
  push_cast
  ring

/-- A link takes the place of a `null`. -/
theorem Entry.encodedLen_link {e : Entry} (l : Link) (seq : ℕ) (hs : e.supersededBy = none)
    (hr : e.revokedBy = none) :
    (encodedLen (e.link l seq).json : ℤ) = encodedLen e.json + decimalLen seq - 4 := by
  have hl := decimalLen_pos seq
  rw [Entry.json, Entry.json, encodedLen_row rfl, encodedLen_row rfl]
  rcases l with _ | _
  all_goals
    simp only [Entry.link, hs, hr, optSeq, List.map_cons, List.map_nil, List.sum_cons, List.sum_nil,
      dumpsLen_natCast, dumpsLen_null]
    push_cast
    ring

/-- The append leaves room in a log that ends at `head`: the probed length and what the stored row
adds stay within the page budget, and so does the entry it replaces with the link to it. -/
structure Append.Roomy (x : Append) (head : ℕ) : Prop where
  row : x.probeLen + x.growth (head + 1) ≤ frameBudget
  link : ∀ e, x.found = some e → x.conflict = none →
    (encodedLen e.json : ℤ) + decimalLen (head + 1) - 4 ≤ frameBudget

/-- An entry that carries no conflict for its replacement has no link yet. -/
theorem Append.unlinked {x : Append} {e : Entry} (hf : x.found = some e) (hc : x.conflict = none) :
    e.supersededBy = none ∧ e.revokedBy = none := by
  rw [Append.conflict, hf] at hc
  rcases hs : e.supersededBy with _ | n
  · exact ⟨rfl, by simpa [hs] using hc⟩
  · simp [hs] at hc

/-! ## Stored rows fit -/

/-- Every stored entry fits a page, and so does every snapshot item, which keeps its encoded
size. -/
structure Deliverable (db : Db) : Prop where
  entries : ∀ e ∈ db.entries, e.Fits
  items : ∀ i ∈ db.items, i.bytes = encodedLen i.payload.json ∧ i.payload.Fits

/-- Nothing is stored in a new store. -/
theorem Deliverable.initial (storeId : Text) : Deliverable (Db.initial storeId) where
  entries e he := absurd he (Table.not_mem_empty e)
  items i hi := absurd hi (Table.not_mem_empty i)

/-- What shrinks a store keeps its rows within the budget. -/
theorem Deliverable.shrinks {w w' : World} (hw : Shrinks w w') (h : Deliverable w.db) :
    Deliverable w'.db where
  entries e he := h.entries e (hw.entries e he)
  items i hi := by
    rcases hw.items i hi with h1 | ⟨h1, h2⟩
    · exact h.items i h1
    · exact ⟨h1, h.entries _ h2⟩

/-- The row of an append fits exactly when the probe leaves room for what the real fields add. -/
theorem Append.entry_fits_iff (x : Append) (head : ℕ) :
    (x.entry (head + 1)).Fits ↔ x.probeLen + x.growth (head + 1) ≤ frameBudget := by
  rw [← Append.encodedLen_entry]
  exact Nat.cast_le.symm

/-- A row that was there before an append fits after it, if the append leaves room for its link. -/
theorem Append.relink_fits {x : Append} {head : ℕ} {e : Entry} (hx : x.Roomy head)
    (hf : ∀ f, x.found = some f → f.seq = e.seq → f = e) (he : e.Fits) :
    (x.relink (head + 1) e).Fits := by
  unfold Append.relink
  split
  · rename_i hc
    obtain ⟨hc, hany⟩ := hc
    rcases hfound : x.found with _ | f
    · simp [hfound] at hany
    obtain rfl := hf f hfound (by simpa [hfound] using hany)
    obtain ⟨h1, h2⟩ := Append.unlinked hfound hc
    have hlink := hx.link f hfound hc
    rw [← Entry.encodedLen_link x.args.linkKind _ h1 h2] at hlink
    exact Nat.cast_le.mp hlink
  · exact he

/-- The entry an append replaces is stored before it. -/
theorem Appended.found_mem {x : Append} {db db' : Db} (h : Appended H x db db') {e : Entry}
    (he : x.found = some e) : e ∈ db.entries := by
  obtain ⟨-, hn⟩ | ⟨v, f, -, -, hf, hs⟩ := h.found
  · rw [hn] at he
    cases he
  · obtain rfl := Option.some.inj (hs.symm.trans he)
    exact (Db.target_mem hf).1

/-- An append with room keeps every row within the budget. -/
theorem Deliverable.append {x : Append} {db db' : Db} (ha : Appended H x db db')
    (hx : x.Roomy db.head) (h : Deliverable db) : Deliverable db' where
  entries e he := by
    rcases ha.mem_entries.mp he with ⟨f, hf, rfl⟩ | rfl
    · refine Append.relink_fits hx (fun g hg hseq => ?_) (h.entries f hf)
      exact Table.eq_of_key (ha.found_mem hg) hf hseq
    · exact (x.entry_fits_iff db.head).mpr hx.row
  items i hi := h.items i (ha.items ▸ hi)

/-- An append that leaves no room puts a row above the budget into the store. -/
theorem Appended.exceeds {x : Append} {db db' : Db} (ha : Appended H x db db')
    (hx : ¬ x.Roomy db.head) : ∃ e ∈ db'.entries, ¬ e.Fits := by
  by_cases hrow : x.probeLen + x.growth (db.head + 1) ≤ frameBudget
  · have hlink : ¬ ∀ e, x.found = some e → x.conflict = none →
        (encodedLen e.json : ℤ) + decimalLen (db.head + 1) - 4 ≤ frameBudget :=
      fun hl => hx ⟨hrow, hl⟩
    push Not at hlink
    obtain ⟨e, hfound, hc, hlt⟩ := hlink
    refine ⟨_, ha.mem_entries.mpr (.inl ⟨e, ha.found_mem hfound, rfl⟩), ?_⟩
    obtain ⟨h1, h2⟩ := Append.unlinked hfound hc
    rw [← Entry.encodedLen_link x.args.linkKind _ h1 h2] at hlt
    rw [Append.relink, if_pos ⟨hc, by simp [hfound]⟩]
    exact not_le.mpr (Nat.cast_lt.mp hlt)
  · exact ⟨_, ha.mem_entries.mpr (.inr rfl), fun hf => hrow ((x.entry_fits_iff db.head).mp hf)⟩

/-- The row is appended above the head the request has found. -/
theorem Appends.head {e : Event H} {s : Service} {r : Object} {x : Append} {v : World}
    (h : Appends e s r x v) : v.db.head = e.before.db.head := h.maint.shrinks.head

/-- Every note the event stored leaves room in the log it began with. -/
def Event.Roomy (e : Event H) : Prop :=
  ∀ s r x v, Appends e s r x v → x.Roomy e.before.db.head

/-- One event with room keeps every row within the budget. -/
theorem Deliverable.event {e : Event H} (hx : e.Roomy) (h : Deliverable e.before.db) :
    Deliverable e.after.db := by
  rcases e.shrinks_or_appends with hs | ⟨s, r, x, v, ha⟩
  · exact h.shrinks hs
  · have hroom : x.Roomy v.db.head := ha.head ▸ hx s r x v ha
    exact (h.shrinks ha.maint.shrinks).append ha.commits.effect hroom

/-- A run of events with room keeps every row within the budget. -/
theorem Run.deliverable {start w : World} {past : List (Event H)} (h : Run H start past w)
    (hx : ∀ e ∈ past, e.Roomy) (h0 : Deliverable start.db) : Deliverable w.db := by
  induction h with
  | nil => exact h0
  | snoc h e he ih =>
    subst he
    refine Deliverable.event (hx e (by simp)) (ih fun e' he' => hx e' ?_)
    exact List.mem_append_left _ he'

/-! ## Pages never refuse a row that fits -/

/-- A row that fits can be encoded, within the budget. -/
theorem Entry.Fits.lenEncode {e : Entry} (h : e.Fits) :
    ∃ n, e.lenEncode = .ok n ∧ n ≤ frameBudget := by
  have hlimit : frameBudget ≤ limit := by decide
  refine ⟨encodedLen e.json, ?_, h⟩
  rw [Entry.lenEncode, lenEncode_eq, if_neg (not_lt.mpr (le_trans h hlimit))]

/-- Rows of a deliverable store are paged. -/
theorem Deliverable.bounded {db : Db} (h : Deliverable db) {rows : List Entry}
    (hrows : ∀ e ∈ rows, e ∈ db.entries) : ∃ p, bounded Entry.lenEncode rows = .ok p := by
  obtain ⟨page, more, hp, -⟩ := @bounded_eq_ok _ Entry.lenEncode _
    fun e he => (h.entries e (hrows e he)).lenEncode
  exact ⟨_, hp⟩

/-- The rows of a page are items of the snapshot. -/
theorem mem_pageRows {db : Db} {sid : Text} {token : ℤ} {i : Item} (h : i ∈ db.pageRows sid token) :
    i ∈ db.items := by
  unfold Db.pageRows at h
  rw [List.mem_insertionSort] at h
  exact (List.mem_filter.mp h).1

/-- Every page of a snapshot of a deliverable store is served. -/
theorem Deliverable.page {db : Db} (h : Deliverable db) (sid : Text) (token : ℤ) :
    ∃ p, db.page sid token = .ok p := by
  obtain ⟨page, more, hp, -⟩ := @bounded_eq_ok _ (fun i : Item => (.ok i.bytes : Except Exc ℕ))
    (db.pageRows sid token) fun i hi => by
      obtain ⟨hb, hf⟩ := h.items i (mem_pageRows hi)
      exact ⟨i.bytes, rfl, hb ▸ hf⟩
  exact ⟨_, hp⟩

/-- **Stored entries stay deliverable exactly when every append leaves room.** In every run from an
empty store whose notes all leave room for what the stored row and its links add to the probe, at
every moment each stored entry and each snapshot item encodes within the page budget, so `bounded`
pages any rows of the store and of its snapshots. Any note that leaves no room puts a row above the
budget into the store. -/
theorem stored_entries_fit {storeId : Text} {pages : ℕ} {fts : Bool} {past : List (Event H)}
    {w : World} (h : Run H (World.initial storeId pages fts) past w) :
    ((∀ e ∈ past, e.Roomy) →
      (∀ e ∈ w.db.entries, encodedLen e.json ≤ frameBudget) ∧
      (∀ i ∈ w.db.items, i.bytes = encodedLen i.payload.json ∧ i.bytes ≤ frameBudget) ∧
      (∀ rows : List Entry, (∀ e ∈ rows, e ∈ w.db.entries) →
        ∃ p, bounded Entry.lenEncode rows = .ok p) ∧
      ∀ sid token, ∃ p, w.db.page sid token = .ok p) ∧
    ∀ e ∈ past, ¬ e.Roomy → ∃ m ∈ e.after.db.entries, frameBudget < encodedLen m.json := by
  refine ⟨fun hx => ?_, fun e he hx => ?_⟩
  · have hd : Deliverable w.db := h.deliverable hx (.initial storeId)
    refine ⟨hd.entries, fun i hi => ?_, fun rows => hd.bounded, hd.page⟩
    obtain ⟨hb, hf⟩ := hd.items i hi
    exact ⟨hb, hb ▸ hf⟩
  · unfold Event.Roomy at hx
    push Not at hx
    obtain ⟨s, r, x, v, ha, hn⟩ := hx
    obtain ⟨m, hm, hf⟩ := ha.commits.effect.exceeds (ha.head ▸ hn)
    exact ⟨m, hm, not_le.mp hf⟩

/-- One short note: it leaves room, and what is stored can be paged. -/
theorem stored_entries_fit_note :
    let run := play Host.steady (World.initial (lit "store") 10 true)
      [ask (lit "note") (lit "a") [(lit "type", .str (lit "finding")),
        (lit "body", .str (lit "x"))]]
    (∀ e ∈ run.1, e.Roomy) ∧ run.2.db.entries.rows.length = 1 ∧
      ∃ p, bounded Entry.lenEncode run.2.db.entries.rows = .ok p := by
  intro run
  have hfit : (run.1.all fun e => e.after.db.entries.rows.all fun m =>
      decide (encodedLen m.json ≤ frameBudget)) = true := by decide +kernel
  have hroomy : ∀ e ∈ run.1, e.Roomy := by
    intro e he
    by_contra hn
    obtain ⟨m, hm, hlt⟩ := (stored_entries_fit (run_play _ _)).2 e he hn
    have := List.all_eq_true.mp (List.all_eq_true.mp hfit e he) m hm
    exact absurd (of_decide_eq_true this) (not_le.mpr hlt)
  obtain ⟨-, -, hpage, -⟩ := (stored_entries_fit (run_play _ _)).1 hroomy
  exact ⟨hroomy, by decide +kernel, hpage _ fun _ he => he⟩

/-! ## A row above the budget -/

/-- A host whose storage always works and allocates nothing. -/
structure Host.Works (H : Host) : Prop where
  log : ∀ n, H.log n = .state 0 0 0
  engine : ∀ n, H.engine n = .ok
  grow : ∀ n, H.grow n = 0
  slack : ∀ n, H.slack n = 0
  vacuum : ∀ n, H.vacuum n = some 0
  killed : ∀ n, H.killed n = false

/-- The steady host always works. -/
theorem steady_works : Host.steady.Works :=
  ⟨fun _ => rfl, fun _ => rfl, fun _ => rfl, fun _ => rfl, fun _ => rfl, fun _ => rfl⟩

/-- The log check of a working host takes one moment. -/
theorem Host.Works.resetLog (hH : H.Works) (w : World) :
    resetLog H w = (.ok (), { w with tick := w.tick + 1 }) := by
  have hstate : logState H w = (.ok (0, 0, 0), { w with tick := w.tick + 1 }) := by
    simp [logState, hH.log]
  unfold Memory.resetLog
  rw [bind_ok (tryCatch_ok hstate)]
  rfl

/-- A working host grants every write. -/
theorem Host.Works.write (hH : H.Works) (w : World) :
    write H w = (.ok (), { w with tick := w.tick + 1 }) := by
  simp [Memory.write, hH.engine, hH.grow]

/-- A working host lets no process die. -/
theorem Host.Works.interrupt (hH : H.Works) (w : World) :
    interrupt H w = (.ok (), { w with tick := w.tick + 1 }) := by
  simp [Memory.interrupt, hH.killed]

/-- A commit of a working host allocates nothing. -/
theorem Host.Works.commit (hH : H.Works) (w : World) :
    commit H w = (.ok (), { w with tick := w.tick + 1 }) := by
  simp [Memory.commit, hH.slack]

section works

variable {α : Type} {control : Bool} {body : M α} {a : α} {w w2 : World}

/-- A transaction on working storage commits what its body leaves. -/
theorem transaction_works (hH : H.Works) {blocking : Bool} (hw : w.blocked = none)
    (hbody : body { w with tick := w.tick + 1 } = (.ok a, w2)) (hp : w2.pages ≤ pageCap control) :
    transaction H control blocking body w = (.ok a, { w2 with tick := w2.tick + 3 }) := by
  have hreq : requireWritable w = (.ok (), w) := by
    simp [requireWritable, hw]
  have hpages : enforcePages control w2 = (.ok (), w2) := by
    unfold enforcePages
    rw [get_bind, if_neg (not_lt.mpr hp)]
    rfl
  unfold transaction
  rw [bind_ok hreq, bind_ok (hH.resetLog _), get_bind]
  have hinner : (do
      let a ← body
      enforcePages control
      interrupt H
      commit H
      return a : M α) { w with tick := w.tick + 1 } = (.ok a, { w2 with tick := w2.tick + 2 }) := by
    rw [bind_ok hbody, bind_ok hpages, bind_ok (hH.interrupt _), bind_ok (hH.commit _)]
    rfl
  rw [bind_ok (tryCatch_ok hinner), bind_ok (hH.interrupt _)]
  rfl

/-- A mutation that is admitted and stays within the bounds commits what its body leaves. -/
theorem mutation_works (hH : H.Works) {need slots : ℕ} (hw : w.blocked = none)
    (hadm : w.admits need slots control = true)
    (hbody : body { w with tick := w.tick + 1 } = (.ok a, w2)) (hp : w2.pages ≤ pageCap control)
    (hl : w2.db.usage.logical ≤ byteCap control) :
    mutation H need slots control body w = (.ok a, { w2 with tick := w2.tick + 3 }) := by
  have h1 : admission H need slots control w = (.ok (), w) := by
    unfold admission
    rw [get_bind, if_pos hadm]
    rfl
  have h2 : enforceLogical control w2 = (.ok (), w2) := by
    unfold enforceLogical
    rw [database_bind, if_neg (not_lt.mpr hl)]
    rfl
  unfold mutation
  rw [bind_ok h1]
  refine transaction_works hH hw ?_ hp
  rw [bind_ok hbody]
  split
  · rw [bind_ok h2]
    rfl
  · rfl

end works

/-- A text of `n` characters that take one byte each, encoded or not. -/
structure Plain (p : Text) (n : ℕ) : Prop where
  encodable : encodable p = true
  utf8 : utf8Len p = n
  escaped : escapedLen p = n

/-- A repeated letter is plain text. -/
theorem plain_replicate (n : ℕ) : Plain (List.replicate n 0x70) n where
  encodable := by simp [Py.encodable, show isSurrogate 0x70 = false by decide]
  utf8 := by simp [utf8Len, show utf8Width 0x70 = 1 by decide]
  escaped := by simp [show escapeWidth 0x70 = 1 by decide]

/-- The request for an entry with the path `p`, under a key with a deadline unless these are
null. -/
def longNote (p : Text) (key deadline : Json) : Object :=
  [(lit "op", .str (lit "note")), (lit "consumer", .str (lit "a")),
    (lit "type", .str (lit "finding")),
    (lit "body", .str (lit "x")), (lit "path", .str p), (lit "key", key),
    (lit "deadline", deadline)]

/-- The fields of the long note. -/
theorem noteArgs_longNote (p : Text) (key deadline : Json) : noteArgs (longNote p key deadline)
    = ⟨.str (lit "finding"), .str (lit "x"), .str (lit "repo"), .null, .str p, .null, .null,
      .null, key,
      deadline, .null⟩ := rfl

/-- What the checks of that request establish. -/
def longDraft : Draft := ⟨.finding, .repo, lit "x"⟩

/-- The row that is stored. -/
def longEntry (p : Text) (ts : ℚ) : Entry :=
  ⟨1, ts, .finding, .repo, none, some p, lit "x", none, 7, lit "a", 1, .null, .null, none,
    none, none, .null⟩

/-- The length of the path that brings the probe exactly to the budget. -/
def longLen : ℕ := 253661

/-- A path of that length. -/
def longPath : Text := List.replicate longLen 0x70

/-- The long path is plain text. -/
theorem plain_longPath : Plain longPath longLen := plain_replicate longLen

/-- A process that has stored nothing yet, on working storage with room. -/
structure Ready (w : World) : Prop where
  blocked : w.blocked = none
  pages : w.pages = 10
  db : w.db = Db.initial (lit "store")
  fts : w.fts = true
  expiredAt : w.expiredAt = 1700000001

/-- A store that holds the long row and nothing else but these cursors, snapshots and items. -/
structure Holding (p : Text) (ts : ℚ) (w : World) (cs : List Cursor) (ss : List Snapshot)
    (is : List Item) : Prop where
  blocked : w.blocked = none
  pages : w.pages = 10
  expiredAt : w.expiredAt = 1700000001
  head : w.db.head = 1
  floor : w.db.floor = 0
  entries : w.db.entries.rows = [longEntry p ts]
  idem : w.db.idem.rows = []
  retired : w.db.retired.rows = []
  cursors : w.db.cursors.rows = cs
  snapshots : w.db.snapshots.rows = ss
  items : w.db.items.rows = is

/-- Time does not change what is stored. -/
theorem Holding.at {p : Text} {ts : ℚ} {w : World} {cs : List Cursor} {ss : List Snapshot}
    {is : List Item} (h : Holding p ts w cs ss is) (n : ℕ) :
    Holding p ts { w with tick := n } cs ss is :=
  ⟨h.blocked, h.pages, h.expiredAt, h.head, h.floor, h.entries, h.idem, h.retired, h.cursors,
    h.snapshots, h.items⟩

/-- The operation `note` is dispatched to `note`, for the consumer of the request. -/
theorem dispatch_note (s : Service) (r : Object) (pid : ℕ) :
    dispatch H s r pid (.str (lit "note")) = (do
      let consumer ← Prog.lift (consumerOf r)
      let result ← note H s.repo consumer (noteArgs r) pid
      return .noted result) := by
  unfold dispatch
  rw [if_neg (by decide), if_neg (by decide), if_pos (by decide)]

/-- The consumer of the long note. -/
theorem consumerOf_longNote (p : Text) (key deadline : Json) :
    consumerOf (longNote p key deadline) = .ok (lit "a") := by
  have hget : (longNote p key deadline).get (lit "consumer") = .str (lit "a") := rfl
  unfold consumerOf
  rw [hget]
  decide +kernel

/-- Once the expiry before it is over, the long note is answered by `note`. -/
theorem command_longNote (s : Service) (p : Text) (key deadline : Json) (pid : ℕ) {w v : World}
    (h : maybeExpire Host.steady w = (.ok (), v)) :
    command Host.steady s (longNote p key deadline) pid w
      = (do
          let result ← note Host.steady s.repo (lit "a") (noteArgs (longNote p key deadline)) pid
          return .noted result : M Reply) v := by
  have hop : (longNote p key deadline).get (lit "op") = .str (lit "note") := rfl
  have htarget : validateTarget s (longNote p key deadline) = .ok () := rfl
  have hmaintain : maintain Host.steady (.str (lit "note")) w = (.ok (), v) := h
  unfold command
  rw [bind_ok (show (Prog.lift _ : M Unit) _ = (.ok _, _) by rw [lift_apply, htarget]), hop,
    bind_ok hmaintain, dispatch_note,
    bind_ok (show (Prog.lift _ : M Text) _ = (.ok _, _) by rw [lift_apply, consumerOf_longNote])]

/-- The empty store after the expiry that precedes its first request. -/
def expired : World := ⟨Db.initial (lit "store"), 10, none, true, 1700000001, 7⟩

/-- After its first expiry the store is ready. -/
theorem ready_expired : Ready expired := ⟨rfl, rfl, rfl, rfl, rfl⟩

/-- The first expiry of a new store finds nothing to delete. -/
theorem maybeExpire_initial :
    maybeExpire Host.steady (World.initial (lit "store") 10 true) = (.ok (), expired) := by
  let w2 : World := ⟨Db.initial (lit "store"), 10, none, true, 0, 4⟩
  have hbody : (do write Host.steady; execute (Db.retire 1700000001) : M Unit)
      ⟨Db.initial (lit "store"), 10, none, true, 0, 3⟩ = (.ok (), w2) := rfl
  have htx :
    transaction Host.steady true true (do write Host.steady; execute (Db.retire 1700000001))
      ⟨Db.initial (lit "store"), 10, none, true, 0, 2⟩ = (.ok (), { w2 with tick := 7 }) :=
    transaction_works steady_works rfl hbody (by decide +kernel)
  have hloop (v : World) : expireLoop Host.steady 1700000001 0 0 v = (.ok 0, v) := rfl
  have hexp : expire Host.steady ⟨Db.initial (lit "store"), 10, none, true, 0, 1⟩
      = (.ok 0, expired) := by
    unfold expire
    rw [time_bind, database_bind, show Host.steady.clock 1 = 1700000001 by decide +kernel]
    exact (bind_ok (hloop _)).trans (bind_ok htx)
  unfold maybeExpire
  rw [time_bind, get_bind, if_pos (by decide +kernel)]
  exact bind_ok hexp

section long

variable {p : Text} {key deadline : Json} (hp : Plain p longLen)
include hp

/-- The probe of the long note encodes to the budget exactly. -/
theorem probe_longNote :
    encodedLen (probeRow (lit "a") (noteArgs (longNote p key deadline)) 7 longDraft)
    = frameBudget := by
  rw [noteArgs_longNote, probeRow, encodedLen_row rfl]
  simp only [List.map_cons, List.map_nil, List.sum_cons, List.sum_nil, dumpsLen_str, hp.escaped]
  decide +kernel

/-- The long note passes its checks. -/
theorem noteChecks_longNote :
    noteChecks Host.steady (lit "a") (noteArgs (longNote p key deadline)) 7 = .ok longDraft := by
  refine noteChecks_eq_ok.mpr ⟨rfl, rfl, rfl, rfl, ?_, rfl⟩
  rw [checkProbe, lenEncode_eq, probe_longNote hp]
  rfl

/-- The charge of the long note. -/
theorem noteCharge_longNote (idemKey : Option Text) :
    noteCharge (lit "a") (noteArgs (longNote p key deadline)) longDraft idemKey
      = match idemKey with
        | none => .ok 254175
        | some k => (measure k).map fun n => 254175 + (n + 64) := by
  rw [noteArgs_longNote, noteCharge, measureAll, measureAll, measureOr, measureOr, measure, measure,
    if_pos hp.encodable, hp.utf8]
  rcases idemKey with _ | k
  · rfl
  · rcases hk : measure k with e | n
    · rfl
    · rfl

/-- The columns of the long note can be bound. -/
theorem bindColumns_longNote :
    bindColumns Host.steady (lit "a") (noteArgs (longNote p key deadline)) longDraft
    = .ok ⟨none, some p, none, .null, .null, .null⟩ := by
  rw [noteArgs_longNote, bindColumns, Sql.ofJson.eq_def (.str p)]
  dsimp only
  rw [if_pos hp.encodable]
  rfl

/-- The length of the stored texts of the long note. -/
theorem textLen_longEntry (ts : ℚ) : (longEntry p ts).textLen = 253663 := by
  simp only [Entry.textLen, longEntry, optLen, Option.getD, hp.utf8]
  decide +kernel

/-- The appending transaction up to its deduplication row. -/
theorem appendRow_longNote (key deadline : Json) {w : World} (hw : Ready w) :
    ∃ v, Holding p (1700000000 + (w.tick + 1 : ℕ)) v [] [] [] ∧ v.tick = w.tick + 2 ∧
      ∀ idemKey mark due w', recordIdem Host.steady idemKey mark due 1 v = (.ok (), w') →
        appendRow Host.steady (lit "a") (noteArgs (longNote p key deadline)) 7 longDraft
        idemKey mark
          due w = (.ok (1, none), w') := by
  obtain ⟨db, pages, blocked, fts, expiredAt, tick⟩ := w
  obtain ⟨rfl, rfl, rfl, rfl, rfl⟩ := hw
  have hrep (v : World) :
      replacement Host.steady (noteArgs (longNote p key deadline)).target v = (.ok (1, none), v) :=
        rfl
  have hwrite (v : World) : write Host.steady v = (.ok (), { v with tick := v.tick + 1 }) := rfl
  obtain ⟨t, ht, hrows⟩ := Table.insert?_empty Entry.seq
    (longEntry p (1700000000 + (tick + 1 : ℕ)))
  have hins (v : World) : insertInto (Db.initial (lit "store")).entries
      (longEntry p (1700000000 + (tick + 1 : ℕ))) v = (.ok t, v) := by
    rw [insertInto, show (Db.initial (lit "store")).entries.insert? _ = some t from ht]
    rfl
  refine ⟨⟨{ Db.initial (lit "store") with
      head := 1, entries := t, indexedThrough := 1, search := [(1, lit "x")] }, 10, none, true,
    1700000001, tick + 2⟩, ⟨rfl, rfl, rfl, rfl, rfl, hrows, rfl, rfl, rfl, rfl, rfl⟩, rfl, ?_⟩
  intro idemKey mark due w' hrec
  unfold appendRow
  rw [bind_ok (hrep _)]
  dsimp only
  rw [bind_ok (hwrite _), database_bind, time_bind,
    bind_ok (show (Prog.lift (bindColumns Host.steady (lit "a") (noteArgs (longNote p key deadline))
      longDraft) : M _) _ = (.ok _, _) by rw [lift_apply, bindColumns_longNote hp]), database_bind]
  exact (bind_ok (hins _)).trans (bind_ok hrec)

/-- The bytes a store with the long row accounts for. -/
theorem Holding.logical {ts : ℚ} {w : World} {cs : List Cursor} {ss : List Snapshot}
    {is : List Item}
    (h : Holding p ts w cs ss is) : w.db.usage.logical
      = 254175 + (is.map Item.bytes).sum + (cs.map fun c => utf8Len c.consumer + 64).sum
        + (ss.map fun s => utf8Len s.id + utf8Len s.consumer + 96).sum := by
  have hover : entryOverhead = 512 := rfl
  simp only [Db.usage, h.entries, h.idem, h.retired, h.cursors, h.snapshots, h.items,
    List.map_cons, List.map_nil, List.sum_cons, List.sum_nil, textLen_longEntry hp,
    List.length_cons, List.length_nil]
  omega

/-- The long note is stored. -/
theorem note_longNote {w : World} (hw : Ready w) :
    ∃ w', note Host.steady (lit "repo") (lit "a") (noteArgs (longNote p .null .null)) 7 w
      = (.ok ⟨1, false, none, .null⟩, w') ∧ Holding p (1700000000 + (w.tick + 2 : ℕ)) w' [] [] [] ∧
      w'.tick = w.tick + 6 := by
  have hready : Ready { w with tick := w.tick + 1 } :=
    ⟨hw.blocked, hw.pages, hw.db, hw.fts, hw.expiredAt⟩
  obtain ⟨w2, hlong, htick, happend⟩ := appendRow_longNote hp .null .null hready
  have hadm : w.admits 254175 1 false = true := by
    rw [World.admits, hw.db, hw.pages]
    decide +kernel
  have hbody := happend none
    (fingerprint Host.steady (payload (noteArgs (longNote p .null .null)) longDraft)) 0 w2 rfl
  have hmut := mutation_works steady_works hw.blocked hadm hbody
    (hlong.pages.trans_le (by decide +kernel)) ((hlong.logical hp).trans_le (by decide +kernel))
  refine ⟨{ w2 with tick := w2.tick + 3 }, ?_, hlong.at _, ?_⟩
  · unfold note
    rw [bind_ok
      (show (Prog.lift (noteChecks Host.steady (lit "a") (noteArgs (longNote p .null .null)) 7)
      : M _) _ = (.ok _, _) by rw [lift_apply, noteChecks_longNote hp]),
      if_pos (show (noteArgs (longNote p .null .null)).key.isNull = true from rfl), noteAppend,
      bind_ok (show (Prog.lift (noteCharge (lit "a") (noteArgs (longNote p .null .null))
        longDraft none)
        : M _) _ = (.ok _, _) by rw [lift_apply, noteCharge_longNote hp])]
    exact bind_ok (tryCatch_ok hmut)
  · change w2.tick + 3 = _
    rw [htick]

/-- The row stored for a probe at the budget is nine bytes longer: its time replaces `0.0`. -/
theorem encodedLen_longEntry : encodedLen (longEntry p 1700000009).json = frameBudget + 9 := by
  rw [Entry.json, encodedLen_row rfl]
  simp only [longEntry, optText, optSeq, Sql.json, List.map_cons, List.map_nil, List.sum_cons,
    List.sum_nil, dumpsLen_str, dumpsLen_null, hp.escaped]
  decide +kernel

/-- What the request leaves: the note was accepted, and its row is stored. -/
theorem perform_longNote :
    ∃ w, Act.perform Host.steady (.request ⟨lit "repo", lit "generation"⟩ (longNote p .null .null)
      7)
        (World.initial (lit "store") 10 true) = (.ok (some (.noted ⟨1, false, none, .null⟩)), w) ∧
      Holding p 1700000009 w [] [] [] ∧ w.tick = 13 := by
  obtain ⟨w, hn, hlong, htick⟩ := note_longNote hp ready_expired
  refine ⟨w, ?_, ?_, htick⟩
  · have hcommand : command Host.steady ⟨lit "repo", lit "generation"⟩ (longNote p .null .null) 7
        (World.initial (lit "store") 10 true) = (.ok (.noted ⟨1, false, none, .null⟩), w) :=
      (command_longNote _ _ _ _ _ maybeExpire_initial).trans (bind_ok hn)
    exact bind_ok hcommand
  · have hts : (1700000000 + (expired.tick + 2 : ℕ) : ℚ) = 1700000009 := by decide +kernel
    exact hts ▸ hlong

end long

/-- Rows that start with one above the budget cannot be paged. -/
theorem bounded_exceeds {α : Type} {size : α → Except Exc ℕ} {a : α} {n : ℕ} (hs : size a = .ok n)
    (h : frameBudget < n) (rest : List α) :
    ∃ d, bounded size (a :: rest) = .error (refusal .entryTooLarge d) := by
  unfold bounded boundedFrom
  rw [hs]
  exact ⟨_, if_pos ⟨rfl, h⟩⟩

/-- The stored row of the long note is nine bytes above the budget. -/
theorem lenEncode_longEntry {p : Text} (hp : Plain p longLen) :
    (longEntry p 1700000009).lenEncode = .ok (frameBudget + 9) := by
  rw [Entry.lenEncode, lenEncode_eq, encodedLen_longEntry hp]
  rfl

/-- **A note is accepted whose row cannot be delivered.** The probe of an entry whose path has
253661 characters is exactly at the page budget. The row is stored nine bytes above it, and
`bounded` refuses it. -/
theorem stored_entry_exceeds_budget :
    ∃ e : Event Host.steady, Run Host.steady (World.initial (lit "store") 10 true) [e] e.after ∧
      e.act = .request ⟨lit "repo", lit "generation"⟩ (longNote longPath .null .null) 7 ∧
      e.result = .ok (some (.noted ⟨1, false, none, .null⟩)) ∧
      ∃ m ∈ e.after.db.entries, encodedLen m.json = frameBudget + 9 ∧
        ∃ d, bounded Entry.lenEncode [m] = .error (refusal .entryTooLarge d) := by
  obtain ⟨w, hp, hlong, -⟩ := perform_longNote plain_longPath
  have hlen := encodedLen_longEntry plain_longPath
  refine ⟨⟨_, _, _, w, hp⟩, .snoc .nil _ rfl, rfl, rfl, _, ?_, hlen, ?_⟩
  · change _ ∈ w.db.entries
    rw [Table.mem_def, hlong.entries]
    exact List.mem_singleton.mpr rfl
  · exact bounded_exceeds (lenEncode_longEntry plain_longPath) (by decide) []

end PeerBridge.Memory
