import PeerBridge.Notify.Journal

/-!
# What the operations of a journal do

One specification for each operation, in terms of the row a sequence has (`Journal.row`) and of the
two positions. Admission and settling change rows; `Advanced` says what moving the scan position
does: it passes no row that still waits, and it removes exactly the rows that are over.

Every committed journal is valid (`commit_eq_ok`), and the operations keep it so: see
`Notify.Soundness` for what that rules out.
-/

namespace PeerBridge.Notify.Journal

open Py Relational Effects PeerBridge.Service PeerBridge.Bridge PeerBridge.Hints

variable {j j' k : Journal}

/-! ## The row of a sequence -/

/-- The row of a sequence. -/
def row (j : Journal) (n : ℕ) : Option Work := j.work.1.find n

/-- A row is stored under its own number. -/
theorem seq_of_row {n : ℕ} {w : Work} (h : j.row n = some w) : w.seq = n :=
  (Table.find_eq_some.mp h).2

/-- The rows are those found under their numbers. -/
theorem mem_rows {w : Work} : w ∈ j.rows ↔ j.row w.seq = some w := by
  unfold rows row
  rw [List.mem_mergeSort, Table.find_eq_some]
  simp [Table.mem_def]

/-- A row of the journal is found under its number. -/
theorem row_of_mem {w : Work} (h : w ∈ j.rows) : j.row w.seq = some w := mem_rows.mp h

/-- What is found under a number is a row of the journal. -/
theorem mem_of_row {n : ℕ} {w : Work} (h : j.row n = some w) : w ∈ j.rows := by
  rw [mem_rows, seq_of_row h]
  exact h

/-- Two journals with the same table have the same rows. -/
theorem row_congr (h : k.work = j.work) (n : ℕ) : k.row n = j.row n := by
  unfold row
  rw [h]

/-- A change of all rows changes what is found under a number. -/
theorem find_set (t : Works) (f : Work → Work) (hf : ∀ w, (f w).seq = w.seq) (n : ℕ) :
    (t.set f hf).1.find n = (t.1.find n).map f := by
  unfold Works.set
  rw [Table.find_update]
  simp

/-- After a deletion only the rows that were kept are found. -/
theorem find_drop (t : Works) (p : Work → Bool) (n : ℕ) :
    (t.drop p).1.find n = (t.1.find n).filter fun w => !p w := Table.find_remove t.1 p n

/-- An insertion succeeds exactly while the table has room. -/
theorem insert_eq_ok {t u : Works} {w : Work} :
    t.insert w = .ok u ↔ t.1.rows.length < maxWork ∧ u.1 = t.1.put w := by
  unfold Works.insert
  split
  · next h =>
    simp only [Except.ok.injEq]
    constructor
    · rintro rfl
      exact ⟨h, rfl⟩
    · rintro ⟨-, hu⟩
      exact Subtype.ext hu.symm
  · next h =>
    simp only [reduceCtorEq, false_iff, not_and]
    intro h'
    exact absurd h' h

/-! ## What counting leaves alone -/

/-- The two journals agree on everything but counters. -/
structure SameButCounters (j k : Journal) : Prop where
  participant : k.participant = j.participant
  nonce : k.nonce = j.nonce
  imported : k.importedThrough = j.importedThrough
  scan : k.scanThrough = j.scanThrough
  enumerated : k.enumeratedThrough = j.enumeratedThrough
  seeded : k.pointersSeeded = j.pointersSeeded
  confirmed : k.activationConfirmed = j.activationConfirmed
  lost : k.historyLost = j.historyLost
  acknowledged : k.historyAcknowledged = j.historyAcknowledged
  work : k.work = j.work
  attempt : k.attempt = j.attempt

/-- A journal agrees with itself. -/
theorem SameButCounters.rfl : SameButCounters j j := by
  constructor <;> rfl

/-- Counting changes a counter only. -/
theorem sameButCounters_count (j : Journal) (c : Counter) (n : ℕ) :
    SameButCounters j (j.count c n) := by
  constructor <;> rfl

/-- Journals that agree but for the counters agree in a chain. -/
theorem SameButCounters.trans (h : SameButCounters j k) (h' : SameButCounters k j') :
    SameButCounters j j' where
  participant := h'.participant.trans h.participant
  nonce := h'.nonce.trans h.nonce
  imported := h'.imported.trans h.imported
  scan := h'.scan.trans h.scan
  enumerated := h'.enumerated.trans h.enumerated
  seeded := h'.seeded.trans h.seeded
  confirmed := h'.confirmed.trans h.confirmed
  lost := h'.lost.trans h.lost
  acknowledged := h'.acknowledged.trans h.acknowledged
  work := h'.work.trans h.work
  attempt := h'.attempt.trans h.attempt

/-- Counting dispositions changes counters only. -/
theorem sameButCounters_countAll (j : Journal) (ds : List Disposition) :
    SameButCounters j (j.countAll ds) := by
  induction ds generalizing j with
  | nil => exact .rfl
  | cons d ds ih =>
    rw [countAll, List.foldl_cons]
    rcases counterOf d with _ | c
    · exact ih j
    · exact (sameButCounters_count j c 1).trans (ih _)

/-! ## Committing -/

/-- A commit succeeds exactly on a valid journal. -/
theorem commit_eq_ok : j.commit = .ok k ↔ j.valid = true ∧ k = j := by
  unfold commit
  split
  · next h => simp [h, eq_comm]
  · next h => simp [h]

/-- The check of an integer passes exactly between its bound and the largest safe one. -/
theorem integer_eq_ok {n m : ℕ} {u : Unit} : integer n m = .ok u ↔ m ≤ n ∧ n ≤ maxSequence := by
  unfold integer
  split
  · next h => simp [h]
  · next h => simpa using h

/-! ## What a valid journal says -/

/-- What `rowOk` says, as far as it is used. -/
structure RowOk (w : Work) : Prop where
  positive : 1 ≤ w.seq
  bounded : w.seq ≤ maxSequence
  attempts : w.attempts ≤ maxAttempts
  pending : w.disposition = .pending → w.attempts < maxAttempts

/-- The check of a row, spelled out. -/
theorem rowOk_iff {w : Work} : rowOk w = true ↔
    (1 ≤ w.seq ∧ w.seq ≤ maxSequence ∧ w.retryAt ≤ maxSequence ∧ w.attempts ≤ maxAttempts)
      ∧ (w.disposition = .pending → w.attempts ≠ maxAttempts)
      ∧ (w.disposition = .reserved ∨ w.disposition = .delivered → w.attempts ≠ 0)
      ∧ (w.disposition = .failed → w.attempts = maxAttempts ∧ w.uncertain = false)
      ∧ (w.disposition = .unknown → w.uncertain = true)
      ∧ (w.disposition ≠ .pending → w.retryAt = 0) := by
  simp only [rowOk, Bool.and_eq_true, Bool.not_eq_true', Bool.and_eq_false_imp, decide_eq_true_eq,
    decide_eq_false_iff_not, Bool.or_eq_true, Bool.or_eq_false_iff, Bool.not_eq_false', ne_eq,
    Decidable.not_not]
  tauto

/-- A row that passes its check is well formed. -/
theorem RowOk.of {w : Work} (h : rowOk w = true) : RowOk w := by
  obtain ⟨⟨h1, h2, -, h4⟩, h5, -⟩ := rowOk_iff.mp h
  exact ⟨h1, h2, h4, fun hp => lt_of_le_of_ne h4 (h5 hp)⟩

/-- What a journal that has been validated says. -/
structure Valid (j : Journal) : Prop where
  imported_le : j.importedThrough ≤ j.scanThrough
  scan_le : j.scanThrough ≤ j.enumeratedThrough
  enumerated_le : j.enumeratedThrough ≤ maxSequence
  acknowledged : j.historyAcknowledged = true → j.historyLost = true
  counters : ∀ c, j.counters c ≤ maxSequence
  rows : ∀ n w, j.row n = some w → rowOk w = true
  attempt : j.attemptOk = true

/-- The check of a journal, spelled out. -/
theorem valid_iff : j.valid = true ↔ Valid j := by
  have hcounters : [Counter.delivered, .acknowledged, .obsolete, .failed, .unknown, .missing,
    .attempts,
      .ignored].all (fun c => decide (j.counters c ≤ maxSequence)) = true
      ↔ ∀ c, j.counters c ≤ maxSequence := by
    simp only [List.all_cons, List.all_nil, Bool.and_true, Bool.and_eq_true, decide_eq_true_eq]
    constructor
    · rintro ⟨h1, h2, h3, h4, h5, h6, h7, h8⟩ c
      cases c <;> assumption
    · intro h
      exact ⟨h _, h _, h _, h _, h _, h _, h _, h _⟩
  have hrows : j.rows.all rowOk = true ↔ ∀ n w, j.row n = some w → rowOk w = true := by
    rw [List.all_eq_true]
    exact ⟨fun h n w hw => h w (mem_of_row hw), fun h w hw => h w.seq w (row_of_mem hw)⟩
  have hack : (!j.historyAcknowledged || j.historyLost) = true
      ↔ (j.historyAcknowledged = true → j.historyLost = true) := by
    rcases j.historyAcknowledged with _ | _ <;> simp
  simp only [valid, Bool.and_eq_true, decide_eq_true_eq, hcounters, hrows, hack]
  constructor
  · rintro ⟨⟨⟨⟨⟨⟨h1, h2⟩, h3⟩, h4⟩, h5⟩, h6⟩, h7⟩
    exact ⟨h1, h2, h3, h4, h5, h6, h7⟩
  · rintro ⟨h1, h2, h3, h4, h5, h6, h7⟩
    exact ⟨⟨⟨⟨⟨⟨h1, h2⟩, h3⟩, h4⟩, h5⟩, h6⟩, h7⟩

/-- The reserved rows are the rows with that disposition. -/
theorem mem_reservedRows {w : Work} :
    w ∈ j.reservedRows ↔ j.row w.seq = some w ∧ w.disposition = .reserved := by
  simp [reservedRows, mem_rows]

/-- Without an attempt no row is reserved. -/
theorem Valid.not_reserved (h : Valid j) (ha : j.attempt = none) {n : ℕ} {w : Work}
    (hw : j.row n = some w) : w.disposition ≠ .reserved := by
  have hok := h.attempt
  rw [attemptOk, ha] at hok
  simp only [List.isEmpty_iff] at hok
  intro hr
  have hmem : w ∈ j.reservedRows := mem_reservedRows.mpr ⟨seq_of_row hw ▸ hw, hr⟩
  rw [hok] at hmem
  cases hmem

/-- What an open attempt in a valid journal says. -/
structure OpenOk (j : Journal) (a : Attempt) : Prop where
  nonempty : a.members ≠ []
  length : a.members.length ≤ maxMembers
  started : a.started ≤ maxSequence
  confirmed : j.activationConfirmed = true
  seeded : j.pointersSeeded = true
  kinds : j.reservedRows.all Work.isPeer = true ∨ j.reservedRows.length = 1
  /-- The members are exactly the reserved rows. -/
  members : ∀ n, n ∈ a.members ↔ ∃ w, j.row n = some w ∧ w.disposition = .reserved

/-- The check of an open attempt, spelled out. -/
theorem attemptOk_some {a : Attempt} (ha : j.attempt = some a) :
    j.attemptOk = true ↔ OpenOk j a := by
  have h1 : a.members.all (fun n => j.reservedRows.any (·.seq = n)) = true
      ↔ ∀ n ∈ a.members, ∃ w, j.row n = some w ∧ w.disposition = .reserved := by
    simp only [List.all_eq_true, List.any_eq_true, decide_eq_true_eq]
    refine forall₂_congr fun n _ => ⟨?_, ?_⟩
    · rintro ⟨w, hw, rfl⟩
      exact ⟨w, mem_reservedRows.mp hw⟩
    · rintro ⟨w, hw, hr⟩
      exact ⟨w, mem_reservedRows.mpr ⟨seq_of_row hw ▸ hw, hr⟩, seq_of_row hw⟩
  have h2 : j.reservedRows.all (fun w => a.members.contains w.seq) = true
      ↔ ∀ n w, j.row n = some w → w.disposition = .reserved → n ∈ a.members := by
    simp only [List.all_eq_true, List.contains_iff_mem]
    constructor
    · intro h n w hw hr
      have := h w (mem_reservedRows.mpr ⟨seq_of_row hw ▸ hw, hr⟩)
      rwa [seq_of_row hw] at this
    · intro h w hw
      obtain ⟨hrow, hr⟩ := mem_reservedRows.mp hw
      exact h _ w hrow hr
  simp only [attemptOk, ha, Bool.and_eq_true, h1, h2, Bool.not_eq_true', decide_eq_true_eq,
    List.isEmpty_eq_false_iff, Bool.or_eq_true]
  constructor
  · rintro ⟨⟨⟨⟨⟨⟨⟨g1, g2⟩, g3⟩, g4⟩, g5⟩, g6⟩, g7⟩, g8⟩
    exact ⟨g1, g2, g3, g4, g5, g6, fun n => ⟨g7 n, fun ⟨w, hw, hr⟩ => g8 n w hw hr⟩⟩
  · rintro ⟨g1, g2, g3, g4, g5, g6, g7⟩
    exact ⟨⟨⟨⟨⟨⟨⟨g1, g2⟩, g3⟩, g4⟩, g5⟩, g6⟩, fun n => (g7 n).mp⟩,
      fun n w hw hr => (g7 n).mpr ⟨w, hw, hr⟩⟩

/-- The open attempt of a valid journal covers exactly the reserved rows. -/
theorem Valid.openOk (h : Valid j) {a : Attempt} (ha : j.attempt = some a) : OpenOk j a :=
  (attemptOk_some ha).mp h.attempt

/-- An empty table has no rows. -/
theorem rows_of_empty (h : j.work = .empty) : j.rows = [] := by
  simp [rows, h, Works.empty, Table.empty]

/-- A journal without work. -/
theorem valid_of_empty (hwork : j.work = .empty) (hattempt : j.attempt = none)
    (hscan : j.scanThrough = j.importedThrough) (henum : j.enumeratedThrough = j.importedThrough)
    (hmax : j.importedThrough ≤ maxSequence)
    (hack : j.historyAcknowledged = true → j.historyLost = true)
    (hcounters : ∀ c, j.counters c ≤ maxSequence) : j.valid = true := by
  refine valid_iff.mpr ⟨hscan.ge, hscan.le.trans henum.ge, henum.le.trans hmax, hack,
    hcounters, ?_, ?_⟩
  · intro n w hw
    have hmem := mem_of_row hw
    rw [rows_of_empty hwork] at hmem
    cases hmem
  · rw [attemptOk, hattempt, reservedRows, rows_of_empty hwork]
    rfl

/-! ## What the operations keep -/

/-- Whose journal it is and what it was imported with. -/
structure SameIdentity (j k : Journal) : Prop where
  participant : k.participant = j.participant
  nonce : k.nonce = j.nonce
  imported : k.importedThrough = j.importedThrough
  lost : k.historyLost = j.historyLost
  confirmed : k.activationConfirmed = j.activationConfirmed

/-- A journal has its own identity. -/
theorem SameIdentity.rfl : SameIdentity j j := by
  constructor <;> rfl

/-- Journals of one identity have it in a chain. -/
theorem SameIdentity.trans (h : SameIdentity j k) (h' : SameIdentity k j') : SameIdentity j j' where
  participant := h'.participant.trans h.participant
  nonce := h'.nonce.trans h.nonce
  imported := h'.imported.trans h.imported
  lost := h'.lost.trans h.lost
  confirmed := h'.confirmed.trans h.confirmed

/-- Counting does not change the identity. -/
theorem SameButCounters.identity (h : SameButCounters j k) : SameIdentity j k :=
  ⟨h.participant, h.nonce, h.imported, h.lost, h.confirmed⟩

/-! ## Moving the scan position -/

/-- What `advance` does to a journal. -/
structure Advanced (j k : Journal) : Prop where
  identity : SameIdentity j k
  seeded : k.pointersSeeded = j.pointersSeeded
  attempt : k.attempt = j.attempt
  row : ∀ n, k.row n = (j.row n).filter fun w => !isOver k.scanThrough w
  le : j.scanThrough ≤ k.scanThrough
  enumerated_le : j.enumeratedThrough ≤ k.enumeratedThrough
  bound : k.scanThrough ≤ max j.scanThrough k.enumeratedThrough
  /-- No row that waits is passed. -/
  waiting : ∀ n w, j.row n = some w → w.disposition.waits = true → n ≤ k.scanThrough →
    n ≤ j.scanThrough

/-- The position up to which rows are eligible does not pass the given one. -/
theorem eligible_le (j : Journal) (high : ℕ) : j.eligible high ≤ high := by
  unfold eligible
  split
  · exact le_rfl
  · exact Nat.min_le_left _ _

/-- A waiting row above the scan keeps the eligible position below it. -/
theorem eligible_lt {high n : ℕ} {w : Work} (hrow : j.row n = some w)
    (hwaits : w.disposition.waits = true) (hscan : j.scanThrough < n) : j.eligible high < n := by
  have hseq := seq_of_row hrow
  have hmem : n ∈ (j.rows.filter fun w => w.disposition.waits && j.scanThrough < w.seq).map
      Work.seq := by
    rw [List.mem_map]
    exact ⟨w, List.mem_filter.mpr ⟨mem_of_row hrow, by simp [hwaits, hseq, hscan]⟩, hseq⟩
  unfold eligible
  split
  · next hnone =>
    rw [List.min?_eq_none_iff] at hnone
    rw [hnone] at hmem
    cases hmem
  · next m hm =>
    have hle : m ≤ n := (List.min?_eq_some_iff.mp hm).2 n hmem
    have hpos := Nat.min_le_right high (m - 1)
    omega

/-- Advancing moves the positions forward only. -/
theorem advanced_advanceTo (j : Journal) {high : ℕ} (hhigh : j.enumeratedThrough ≤ high) :
    Advanced j (j.advanceTo high) := by
  have hsame := sameButCounters_countAll j
    ((j.rows.filter (isOver (max j.scanThrough (j.eligible high)))).map Work.disposition)
  constructor
  · exact ⟨hsame.participant, hsame.nonce, hsame.imported, hsame.lost, hsame.confirmed⟩
  · exact hsame.seeded
  · exact hsame.attempt
  · intro n
    exact find_drop j.work _ n
  · exact Nat.le_max_left _ _
  · exact hhigh
  · show max j.scanThrough (j.eligible high) ≤ max j.scanThrough high
    have := j.eligible_le high
    omega
  · intro n w hrow hwaits hn
    by_contra hscan
    have hlt : j.eligible high < n := eligible_lt hrow hwaits (by omega)
    have hn' : n ≤ max j.scanThrough (j.eligible high) := hn
    omega

/-- A row stays as it is, or it is over. -/
theorem Advanced.row_cases (h : Advanced j k) (n : ℕ) : j.row n = none ∧ k.row n = none
    ∨ ∃ w, j.row n = some w ∧ (k.row n = some w
      ∨ k.row n = none ∧ n ≤ k.scanThrough ∧ w.disposition.folds = true) := by
  have hk := h.row n
  rcases hj : j.row n with _ | w
  · rw [hj] at hk
    exact .inl ⟨rfl, hk⟩
  · rw [hj, Option.filter_some] at hk
    refine .inr ⟨w, rfl, ?_⟩
    by_cases hover : isOver k.scanThrough w = true
    · simp only [hover, Bool.not_true, Bool.false_eq_true, if_false] at hk
      simp only [isOver, Bool.and_eq_true, decide_eq_true_eq, seq_of_row hj] at hover
      exact .inr ⟨hk, hover⟩
    · simp only [hover, Bool.not_false, if_true] at hk
      exact .inl hk

/-- An advance without a target goes to the enumerated position. -/
theorem advance_none : j.advance none = .ok (j.advanceTo j.enumeratedThrough) := rfl

/-- An advance to a target succeeds exactly when the target is neither below the scan nor too large.
-/
theorem advance_some {t : ℕ} : j.advance (some t) = .ok k ↔
    (j.scanThrough ≤ t ∧ t ≤ maxSequence) ∧ k = j.advanceTo (max j.enumeratedThrough t) := by
  unfold advance
  rw [except_bind_eq_ok]
  constructor
  · rintro ⟨u, hu, hk⟩
    exact ⟨integer_eq_ok.mp hu, (Except.ok.inj hk).symm⟩
  · rintro ⟨hu, rfl⟩
    exact ⟨(), integer_eq_ok.mpr hu, rfl⟩

/-! ## Admission -/

/-- What admitting records does: rows are kept, and new rows are pending ones of admitted
records. -/
structure Admitted (historical : Bool) (records : List Record) (j k : Journal) : Prop where
  identity : SameIdentity j k
  seeded : k.pointersSeeded = j.pointersSeeded
  attempt : k.attempt = j.attempt
  scan : k.scanThrough = j.scanThrough
  enumerated : k.enumeratedThrough = j.enumeratedThrough
  acknowledged : k.historyAcknowledged = j.historyAcknowledged
  /-- A row stays, or is new. -/
  row : ∀ n, k.row n = j.row n ∨ j.row n = none ∧ ∃ r ∈ records, r.seq = n
    ∧ k.row n = some (fresh r)
    ∧ 1 ≤ n ∧ n ≤ maxSequence ∧ (historical = true ∨ j.scanThrough < n)
  /-- Every record that is not behind the scan has a row of its own origin. -/
  held : ∀ r ∈ records, historical = true ∨ j.scanThrough < r.seq →
    ∃ w, k.row r.seq = some w ∧ w.origin = r.origin

/-- No record admits nothing. -/
theorem Admitted.nil (historical : Bool) (j : Journal) : Admitted historical [] j j := by
  constructor
  · exact .rfl
  · rfl
  · rfl
  · rfl
  · rfl
  · rfl
  · intro n
    exact .inl rfl
  · intro r hr
    cases hr

/-- A row that is there stays as it is. -/
theorem Admitted.row_of_some {historical : Bool} {records : List Record}
    (h : Admitted historical records j k) {n : ℕ} {w : Work} (hw : j.row n = some w) :
    k.row n = some w := by
  rcases h.row n with hn | ⟨hn, -⟩
  · rw [hn, hw]
  · rw [hn] at hw
    cases hw

/-- Admissions of two lists make the admission of both. -/
theorem Admitted.trans {historical : Bool} {rs rs' : List Record} (h : Admitted historical rs j k)
    (h' : Admitted historical rs' k j') : Admitted historical (rs ++ rs') j j' := by
  constructor
  · exact h.identity.trans h'.identity
  · exact h'.seeded.trans h.seeded
  · exact h'.attempt.trans h.attempt
  · exact h'.scan.trans h.scan
  · exact h'.enumerated.trans h.enumerated
  · exact h'.acknowledged.trans h.acknowledged
  · intro n
    rcases h'.row n with h2 | ⟨hnone, r, hr, hseq, hrow, h1, hmax, hpast⟩
    · rcases h.row n with h1 | ⟨hnone, r, hr, hseq, hrow, hrest⟩
      · exact .inl (h2.trans h1)
      · exact .inr ⟨hnone, r, List.mem_append_left _ hr, hseq, h2.trans hrow, hrest⟩
    · rcases h.row n with hn | ⟨-, r', -, -, hrow', -⟩
      · rw [h.scan] at hpast
        exact .inr ⟨hn ▸ hnone, r, List.mem_append_right _ hr, hseq, hrow, h1, hmax, hpast⟩
      · rw [hnone] at hrow'
        cases hrow'
  · intro r hr hpast
    rcases List.mem_append.mp hr with hr | hr
    · obtain ⟨w, hw, ho⟩ := h.held r hr hpast
      exact ⟨w, h'.row_of_some hw, ho⟩
    · rw [← h.scan] at hpast
      exact h'.held r hr hpast

/-- Adding one record admits it. -/
theorem admitted_addRecord {historical : Bool} {r : Record} (h : addRecord historical j r = .ok k) :
    Admitted historical [r] j k := by
  obtain ⟨u, hu, h⟩ := except_bind_eq_ok.mp h
  obtain ⟨h1, hmax⟩ := integer_eq_ok.mp hu
  split at h
  · next hbehind =>
    cases h
    simp only [Bool.and_eq_true, decide_eq_true_eq, Bool.not_eq_true'] at hbehind
    refine ⟨.rfl, rfl, rfl, rfl, rfl, rfl, fun n => .inl rfl, ?_⟩
    intro r' hr' hpast
    rw [List.mem_singleton.mp hr', hbehind.2] at hpast
    rcases hpast with hpast | hpast
    · cases hpast
    · omega
  · next hpast =>
    have hpast' : historical = true ∨ j.scanThrough < r.seq := by
      by_cases hh : historical = true
      · exact .inl hh
      · right
        simp only [Bool.and_eq_true, decide_eq_true_eq, Bool.not_eq_true', hh, and_true] at hpast
        simpa using hpast
    rcases hold : j.work.1.find r.seq with _ | old
    · rw [hold] at h
      obtain ⟨work, hwork, hk⟩ := except_bind_eq_ok.mp h
      obtain ⟨-, hput⟩ := insert_eq_ok.mp hwork
      cases hk
      have hself : row { j with work := work } r.seq = some (fresh r) := by
        unfold row
        rw [hput]
        exact Table.find_put_self rfl
      refine ⟨⟨rfl, rfl, rfl, rfl, rfl⟩, rfl, rfl, rfl, rfl, rfl, ?_, ?_⟩
      · intro n
        by_cases hn : n = r.seq
        · subst hn
          exact .inr ⟨hold, r, List.mem_singleton_self r, rfl, hself, h1, hmax, hpast'⟩
        · left
          unfold row
          rw [hput]
          exact Table.find_put_ne hn
      · intro r' hr' _
        rw [List.mem_singleton.mp hr']
        exact ⟨fresh r, hself, rfl⟩
    · rw [hold] at h
      simp only at h
      split at h
      · next horigin =>
        cases h
        refine ⟨.rfl, rfl, rfl, rfl, rfl, rfl, fun n => .inl rfl, ?_⟩
        intro r' hr' _
        rw [List.mem_singleton.mp hr']
        exact ⟨old, hold, horigin⟩
      · cases h

/-- Adding records admits them in their order. -/
theorem admitted_add {historical : Bool} {records : List Record}
    (h : j.add records historical = .ok k) :
    Admitted historical records j k := by
  induction records generalizing j with
  | nil =>
    obtain rfl : j = k := Except.ok.inj h
    exact .nil historical j
  | cons r records ih =>
    rw [add, List.foldlM_cons] at h
    obtain ⟨m, hm, hk⟩ := except_bind_eq_ok.mp h
    exact (admitted_addRecord hm).trans (ih hk)

/-- Counting after an admission. -/
theorem Admitted.count {historical : Bool} {records : List Record}
    (h : Admitted historical records j k)
    {j' : Journal} (hsame : SameButCounters k j') : Admitted historical records j j' := by
  refine ⟨h.identity.trans hsame.identity, hsame.seeded.trans h.seeded,
    hsame.attempt.trans h.attempt,
    hsame.scan.trans h.scan, hsame.enumerated.trans h.enumerated,
    hsame.acknowledged.trans h.acknowledged, ?_, ?_⟩
  · intro n
    rw [row_congr hsame.work]
    exact h.row n
  · intro r hr hpast
    rw [row_congr hsame.work]
    exact h.held r hr hpast

/-- The mark of an ingested scan: what it admits is held, and the positions move on from there. -/
theorem ingest_eq_ok {s : Scanned} (h : j.ingest s = .ok k) :
    ∃ m, Admitted false s.records j m ∧ Advanced m k ∧ k.valid = true
      ∧ k.enumeratedThrough = max j.enumeratedThrough s.through
      ∧ j.admitAll s = .ok m := by
  obtain ⟨_, -, h⟩ := except_bind_eq_ok.mp h
  obtain ⟨_, -, h⟩ := except_bind_eq_ok.mp h
  obtain ⟨_, -, h⟩ := except_bind_eq_ok.mp h
  obtain ⟨m, hm, h⟩ := except_bind_eq_ok.mp h
  obtain ⟨k', hk', h⟩ := except_bind_eq_ok.mp h
  obtain ⟨hvalid, rfl⟩ := commit_eq_ok.mp h
  obtain ⟨m', hm', hcount⟩ := except_bind_eq_ok.mp hm
  cases hcount
  have hadmitted := (admitted_add hm').count (sameButCounters_count m' .ignored
    (s.ignored.filter (j.enumeratedThrough < ·)).length)
  obtain ⟨-, rfl⟩ := advance_some.mp hk'
  refine ⟨_, hadmitted, advanced_advanceTo _ (Nat.le_max_left _ _), hvalid, ?_, hm⟩
  show max _ _ = _
  rw [hadmitted.enumerated]

/-- Seeding admits the pointers once, as history, and never a record of a peer. -/
theorem seedPointers_eq_ok {records : List Record} (h : j.seedPointers records = .ok k) :
    k.valid = true ∧ (j.pointersSeeded = true ∧ k = j
      ∨ j.pointersSeeded = false ∧ (∀ r ∈ records, r.origin ≠ .peer)
        ∧ ∃ m, Admitted true records j m ∧ k = { m with pointersSeeded := true }) := by
  unfold seedPointers at h
  split at h
  · next hs =>
    obtain ⟨hvalid, rfl⟩ := commit_eq_ok.mp h
    exact ⟨hvalid, .inl ⟨hs, rfl⟩⟩
  · next hs =>
    obtain ⟨_, hkinds, h⟩ := except_bind_eq_ok.mp h
    obtain ⟨m, hm, h⟩ := except_bind_eq_ok.mp h
    obtain ⟨hvalid, rfl⟩ := commit_eq_ok.mp h
    refine ⟨hvalid, .inr ⟨by simpa using hs, ?_, m, admitted_add hm, rfl⟩⟩
    have := raiseIf_eq_ok.mp hkinds
    simp only [Bool.or_eq_false_iff, List.any_eq_false, decide_eq_true_eq] at this
    exact this.2

/-! ## Attempts -/

/-- Resolving settles every member of the open attempt and advances. -/
theorem resolve_eq_ok {outcome : Outcome} {now : ℕ} (h : j.resolve outcome now = .ok k) :
    ∃ a, j.attempt = some a ∧ Advanced (j.settleAll a.members outcome now) k ∧ k.valid = true
      ∧ k.enumeratedThrough = j.enumeratedThrough := by
  obtain ⟨_, -, h⟩ := except_bind_eq_ok.mp h
  rcases ha : j.attempt with _ | a
  · rw [ha] at h
    cases h
  · rw [ha] at h
    obtain ⟨k', hk', h⟩ := except_bind_eq_ok.mp h
    obtain ⟨hvalid, rfl⟩ := commit_eq_ok.mp h
    rw [advance_none] at hk'
    cases hk'
    refine ⟨a, rfl, advanced_advanceTo _ le_rfl, hvalid, ?_⟩
    exact (sameButCounters_countAll j _).enumerated

/-- What settling does to one row. -/
theorem row_settleAll (j : Journal) (members : List ℕ) (outcome : Outcome) (now n : ℕ) :
    (j.settleAll members outcome now).row n = (j.row n).map (resolveRow members outcome now) :=
  find_set j.work _ _ n

/-- What settling keeps. -/
theorem sameIdentity_settleAll (j : Journal) (members : List ℕ) (outcome : Outcome) (now : ℕ) :
    SameIdentity j (j.settleAll members outcome now)
      ∧ (j.settleAll members outcome now).scanThrough = j.scanThrough
      ∧ (j.settleAll members outcome now).pointersSeeded = j.pointersSeeded := by
  have h := sameButCounters_countAll j
    ((((j.rows.filter fun w => members.contains w.seq).map (settleRow outcome now)).filter
      (·.disposition.exhausted)).map Work.disposition)
  exact ⟨⟨h.participant, h.nonce, h.imported, h.lost, h.confirmed⟩, h.scan, h.seeded⟩

/-- A reservation takes rows that are due, outside any attempt, on an activated and seeded journal.
-/
theorem reserve_eq_ok {sequences : List ℕ} {now : ℕ} {rows : List Work}
    (h : j.reserve sequences now = .ok (rows, k)) :
    j.attempt = none ∧ j.activationConfirmed = true ∧ j.pointersSeeded = true ∧ k.valid = true
      ∧ (∀ n ∈ sequences, ∃ w, j.row n = some w ∧ reservable now w = true)
      ∧ k = j.reserveAll sequences now ∧ rows = k.rows.filter (fun w => sequences.contains w.seq)
      ∧ goodSequences sequences = true := by
  obtain ⟨_, -, h⟩ := except_bind_eq_ok.mp h
  obtain ⟨_, hgood, h⟩ := except_bind_eq_ok.mp h
  obtain ⟨_, hready, h⟩ := except_bind_eq_ok.mp h
  obtain ⟨_, hopen, h⟩ := except_bind_eq_ok.mp h
  obtain ⟨_, hselected, h⟩ := except_bind_eq_ok.mp h
  obtain ⟨_, -, h⟩ := except_bind_eq_ok.mp h
  obtain ⟨k', hk', h⟩ := except_bind_eq_ok.mp h
  obtain ⟨hvalid, rfl⟩ := commit_eq_ok.mp hk'
  cases h
  have hready' := raiseIf_eq_ok.mp hready
  simp only [Bool.or_eq_false_iff, Bool.not_eq_false'] at hready'
  have hopen' := raiseIf_eq_ok.mp hopen
  simp only [Option.isSome_eq_false_iff, Option.isNone_iff_eq_none] at hopen'
  have hgood' := raiseIf_eq_ok.mp hgood
  simp only [Bool.not_eq_false'] at hgood'
  refine ⟨hopen', hready'.1, hready'.2, hvalid, ?_, rfl, rfl, hgood'⟩
  have hselected' := raiseIf_eq_ok.mp hselected
  simp only [Bool.not_eq_false', List.all_map, List.all_eq_true] at hselected'
  intro n hn
  exact (Option.any_eq_true _ _).mp (hselected' n hn)

/-- What a reservation does to one row. -/
theorem row_reserveAll (j : Journal) (sequences : List ℕ) (now n : ℕ) :
    (j.reserveAll sequences now).row n = (j.row n).map (reserveRow sequences) :=
  find_set j.work _ _ n

/-- A manual retry takes rows that are exhausted. -/
theorem retry_eq_ok {sequences : List ℕ} (h : j.retry sequences = .ok k) :
    k.valid = true
      ∧ (∀ n ∈ sequences, ∃ w, j.row n = some w ∧ w.disposition.exhausted = true)
      ∧ k = { j with work := j.work.set (retryRow sequences) (seq_retryRow sequences) } := by
  obtain ⟨_, -, h⟩ := except_bind_eq_ok.mp h
  obtain ⟨_, hrows, h⟩ := except_bind_eq_ok.mp h
  obtain ⟨hvalid, rfl⟩ := commit_eq_ok.mp h
  refine ⟨hvalid, ?_, rfl⟩
  have hrows' := raiseIf_eq_ok.mp hrows
  simp only [Bool.not_eq_false', List.all_map, List.all_eq_true] at hrows'
  intro n hn
  exact (Option.any_eq_true _ _).mp (hrows' n hn)

/-- What a manual retry does to one row. -/
theorem row_retry (j : Journal) (sequences : List ℕ) (n : ℕ) :
    row { j with work := j.work.set (retryRow sequences) (seq_retryRow sequences) } n
      = (j.row n).map (retryRow sequences) :=
  find_set j.work _ _ n

/-! ## Reconciliation -/

/-- A reconciliation judges every row outside an attempt, advances and drops what is gone. -/
theorem reconcile_eq_ok {s : Snapshot} {records : List Record} (h : j.reconcile s records = .ok k) :
    j.attempt = none ∧ k.valid = true ∧ (∀ w ∈ j.rows, ∃ v, judge s records w = .ok v)
      ∧ ∃ m, Advanced (j.judgeAll s records) m ∧ m.enumeratedThrough = j.enumeratedThrough
        ∧ k = m.dropGone (j.gone s records) := by
  obtain ⟨_, hopen, h⟩ := except_bind_eq_ok.mp h
  obtain ⟨_, hjudged, h⟩ := except_bind_eq_ok.mp h
  obtain ⟨m, hm, h⟩ := except_bind_eq_ok.mp h
  obtain ⟨hvalid, rfl⟩ := commit_eq_ok.mp h
  rw [advance_none] at hm
  cases hm
  have hopen' := raiseIf_eq_ok.mp hopen
  simp only [Option.isSome_eq_false_iff, Option.isNone_iff_eq_none] at hopen'
  refine ⟨hopen', hvalid, ?_, _, advanced_advanceTo _ le_rfl, ?_, rfl⟩
  · intro w hw
    obtain ⟨v, -, hv⟩ := except_mapM_mem hjudged hw
    exact ⟨v, hv⟩
  · exact (sameButCounters_countAll j _).enumerated

/-- What judging keeps. -/
theorem sameIdentity_judgeAll (j : Journal) (s : Snapshot) (records : List Record) :
    SameIdentity j (j.judgeAll s records) ∧ (j.judgeAll s records).scanThrough = j.scanThrough
      ∧ (j.judgeAll s records).pointersSeeded = j.pointersSeeded
      ∧ (j.judgeAll s records).attempt = j.attempt := by
  have h :=
    sameButCounters_countAll j (((j.gone s records).filter (·.disposition ≠ .unknown)).map fun _ =>
    Disposition.unknown)
  exact ⟨⟨h.participant, h.nonce, h.imported, h.lost, h.confirmed⟩, h.scan, h.seeded, h.attempt⟩

/-- What a reconciliation's judgement does to one row. -/
theorem row_judgeAll (j : Journal) (s : Snapshot) (records : List Record) (n : ℕ) :
    (j.judgeAll s records).row n = (j.row n).map (judged s records) :=
  find_set j.work _ _ n

/-- What the verdicts can be. -/
theorem judge_cases {s : Snapshot} {records : List Record} {w : Work} {v : Verdict}
    (h : judge s records w = .ok v) :
    v = .keep ∨ w.disposition.folds = false
      ∧ (v = .settle .acknowledged ∨ v = .settle .obsolete ∨ v = .missing ∧ s.ackThrough
        = none) := by
  unfold judge at h
  split at h
  · cases h
    exact .inl rfl
  · next hf =>
    have hf' : w.disposition.folds = false := by simpa using hf
    split at h
    · cases h
      exact .inr ⟨hf', .inl rfl⟩
    · split at h
      · split at h
        · cases h
          exact .inl rfl
        · cases h
      · split at h
        · split at h
          · split at h
            · cases h
              exact .inr ⟨hf', .inr (.inl rfl)⟩
            · cases h
          · cases h
            exact .inl rfl
        · split at h
          · next hnone =>
            cases h
            exact .inr ⟨hf', .inr (.inr ⟨rfl, by simpa using hnone⟩)⟩
          · cases h

/-- What a verdict does to a row. -/
theorem judged_spec (s : Snapshot) (records : List Record) (w : Work) :
    (judged s records w).attempts = w.attempts ∧ (judged s records w).origin = w.origin
      ∧ (w.disposition.folds = true → judged s records w = w)
      ∧ (judged s records w = w ∨ (judged s records w).disposition = .acknowledged
        ∨ (judged s records w).disposition = .obsolete ∨ (judged s records w).disposition
        = .unknown) := by
  unfold judged
  rcases hv : judge s records w with e | v
  · exact ⟨rfl, rfl, fun _ => rfl, .inl rfl⟩
  · rcases judge_cases hv with rfl | ⟨hf, hrest⟩
    · exact ⟨rfl, rfl, fun _ => rfl, .inl rfl⟩
    · have habsurd : w.disposition.folds = true → judged s records w = w := by
        intro hf'
        rw [hf] at hf'
        cases hf'
      rw [judged, hv] at habsurd
      rcases hrest with rfl | rfl | ⟨rfl, -⟩
      · exact ⟨rfl, rfl, habsurd, .inr (.inl rfl)⟩
      · exact ⟨rfl, rfl, habsurd, .inr (.inr (.inl rfl))⟩
      · exact ⟨rfl, rfl, habsurd, .inr (.inr (.inr rfl))⟩

/-- A row is dropped when it is gone and the scan has passed it. -/
theorem row_dropGone (j : Journal) (gone : List Work) (n : ℕ) :
    (j.dropGone gone).row n
      = (j.row n).filter fun w => !(w.seq ≤ j.scanThrough && gone.any (·.seq = w.seq)) :=
  find_drop j.work _ n

/-- A row stays, or the scan has passed it. -/
theorem row_dropGone_cases (j : Journal) (gone : List Work) (n : ℕ) :
    (j.dropGone gone).row n = j.row n
      ∨ (j.dropGone gone).row n = none ∧ n ≤ j.scanThrough ∧ ∃ w ∈ gone, w.seq = n := by
  rw [row_dropGone]
  rcases hw : j.row n with _ | w
  · exact .inl rfl
  · rw [Option.filter_some]
    split
    · exact .inl rfl
    · next h =>
      right
      simp only [Bool.not_eq_true', Bool.not_eq_false, Bool.and_eq_true, decide_eq_true_eq,
        List.any_eq_true, seq_of_row hw] at h
      exact ⟨rfl, h⟩

end PeerBridge.Notify.Journal
