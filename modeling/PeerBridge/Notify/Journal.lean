import PeerBridge.Hints.Handshake
import PeerBridge.Notify.Source

/-!
# The notification journal

The notifier's own durable account of what it has told the participant: one row for each admitted
message, at most one attempt in progress, and two positions. Everything up to `scanThrough` is
settled or exhausted; everything up to `enumeratedThrough` has been read from the inbox.

Every operation is one transaction. It validates what it is about to commit, and an exception leaves
the journal as it was; so an operation is a function to `Except Exc Journal`.

A journal never holds more than `maxWork` rows: the bound is part of the type of its work table, and
the only operation that adds a row refuses when the table is full.

Source: `notification_journal.py`.
-/

namespace PeerBridge.Notify

open Py Relational Effects PeerBridge.Service PeerBridge.Bridge PeerBridge.Hints

/-! ## Rows -/

/-- Source: `MAX_WORK` -/
def maxWork : ℕ := 2048

/-- Source: `MAX_MEMBERS` -/
def maxMembers : ℕ := 10

/-- Source: `MAX_ATTEMPTS` -/
def maxAttempts : ℕ := 3

/-- Source: `STATES` -/
inductive Disposition where
  | pending | reserved | delivered | failed | unknown | acknowledged | obsolete
  deriving DecidableEq

/-- Work that delivery still has to come back to. -/
def Disposition.waits : Disposition → Bool
  | pending | reserved => true
  | _ => false

/-- Work that is over once the scan position has passed it. -/
def Disposition.folds : Disposition → Bool
  | delivered | acknowledged | obsolete => true
  | _ => false

/-- Work that only an operator's retry brings back. -/
def Disposition.exhausted : Disposition → Bool
  | failed | unknown => true
  | _ => false

/-- Source: `COUNTERS` -/
inductive Counter where
  | delivered | acknowledged | obsolete | failed | unknown | missing | attempts | ignored
  deriving DecidableEq

/-- A row of `work`. -/
structure Work where
  seq : ℕ
  origin : Origin
  disposition : Disposition
  attempts : ℕ
  retryAt : ℕ
  uncertain : Bool
  deriving DecidableEq

/-- `kind = 'peer'` -/
def Work.isPeer (w : Work) : Bool := w.origin = .peer

/-- The table `work`. -/
abbrev Works := { t : Table ℕ Work Work.seq // t.rows.length ≤ maxWork }

namespace Works

/-- No work. -/
def empty : Works := ⟨.empty, Nat.zero_le _⟩

/-- One more row fits below the limit. -/
theorem length_put_le {t : Works} (w : Work) (h : t.1.rows.length < maxWork) :
    (t.1.put w).rows.length ≤ maxWork := by
  have hle := List.length_filter_le (fun b => decide (b.seq ≠ w.seq)) t.1.rows
  simp only [Table.put, List.length_append, List.length_singleton]
  omega

/-- `INSERT INTO work`, refused when the table is full. -/
def insert (t : Works) (w : Work) : Except Exc Works :=
  if h : t.1.rows.length < maxWork then .ok ⟨t.1.put w, length_put_le w h⟩
  else .error (.journal .capacity)

/-- `UPDATE work`. -/
def set (t : Works) (f : Work → Work) (hf : ∀ w, (f w).seq = w.seq) : Works :=
  ⟨t.1.update (fun _ => true) f hf, by simpa [Table.update] using t.2⟩

/-- `DELETE FROM work`. -/
def drop (t : Works) (p : Work → Bool) : Works :=
  ⟨t.1.remove p, (Table.length_remove_le t.1 p).trans t.2⟩

end Works

/-- The attempt in progress: the rows of `attempt` and `attempt_member`. -/
structure Attempt where
  started : ℕ
  members : List ℕ
  deriving DecidableEq

/-- The committed content of `notify-journal.sqlite3`. -/
structure Journal where
  /-- `provider` and `target_digest` -/
  participant : Participant
  nonce : Hex 32
  importedThrough : ℕ
  scanThrough : ℕ
  enumeratedThrough : ℕ
  pointersSeeded : Bool
  activationConfirmed : Bool
  historyLost : Bool
  historyAcknowledged : Bool
  counters : Counter → ℕ
  work : Works
  attempt : Option Attempt

namespace Journal

/-- A journal just initialised. Source: `identity` -/
def initial (p : Participant) (nonce : Hex 32) (through : ℕ) (historyLost : Bool) : Journal where
  participant := p
  nonce := nonce
  importedThrough := through
  scanThrough := through
  enumeratedThrough := through
  pointersSeeded := false
  activationConfirmed := false
  historyLost := historyLost
  historyAcknowledged := false
  counters := fun _ => 0
  work := .empty
  attempt := none

/-- Source: `Journal.rows` -/
def rows (j : Journal) : List Work := j.work.1.rows.mergeSort fun a b => a.seq ≤ b.seq

/-! ## Validation -/

/-- The checks on one row. -/
def rowOk (w : Work) : Bool :=
  1 ≤ w.seq && w.seq ≤ maxSequence && w.retryAt ≤ maxSequence && w.attempts ≤ maxAttempts
    && !(w.disposition = .pending && w.attempts = maxAttempts)
    && !((w.disposition = .reserved || w.disposition = .delivered) && w.attempts = 0)
    && !(w.disposition = .failed && (w.attempts ≠ maxAttempts || w.uncertain))
    && !(w.disposition = .unknown && !w.uncertain)
    && !(w.disposition ≠ .pending && w.retryAt ≠ 0)

/-- The reserved rows. -/
def reservedRows (j : Journal) : List Work := j.rows.filter fun w => w.disposition = .reserved

/-- The checks on the attempt: its members are exactly the reserved rows, all of one kind. -/
def attemptOk (j : Journal) : Bool :=
  match j.attempt with
  | none => j.reservedRows.isEmpty
  | some a =>
      !a.members.isEmpty && a.members.length ≤ maxMembers && a.started ≤ maxSequence
        && j.activationConfirmed && j.pointersSeeded
        && (j.reservedRows.all Work.isPeer || j.reservedRows.length = 1)
        && a.members.all (fun n => j.reservedRows.any (·.seq = n))
        && j.reservedRows.all (fun w => a.members.contains w.seq)

/-- Source: `Journal.validate`, on a journal of the right schema -/
def valid (j : Journal) : Bool :=
  j.importedThrough ≤ j.scanThrough && j.scanThrough ≤ j.enumeratedThrough
    && j.enumeratedThrough ≤ maxSequence && (!j.historyAcknowledged || j.historyLost)
    && [Counter.delivered, .acknowledged, .obsolete, .failed, .unknown, .missing, .attempts,
      .ignored].all (fun c => j.counters c ≤ maxSequence)
    && j.rows.all rowOk && j.attemptOk

/-- The end of a transaction. -/
def commit (j : Journal) : Except Exc Journal :=
  if j.valid then .ok j else .error (.journal .recoveryRequired)

/-- Source: `Journal.count` -/
def count (j : Journal) (c : Counter) (amount : ℕ) : Journal :=
  { j with counters := Function.update j.counters c (min maxSequence (j.counters c + amount)) }

/-- The counter of a disposition that is counted; `pending` and `reserved` are not. -/
def counterOf : Disposition → Option Counter
  | .delivered => some .delivered
  | .acknowledged => some .acknowledged
  | .obsolete => some .obsolete
  | .failed => some .failed
  | .unknown => some .unknown
  | .pending | .reserved => none

/-- The rows counted one by one. -/
def countAll (j : Journal) (ds : List Disposition) : Journal :=
  ds.foldl (fun j d => match counterOf d with
    | some c => j.count c 1
    | none => j) j

/-! ## Admission and progress -/

/-- Source: `integer` with a minimum -/
def integer (n minimum : ℕ) : Except Exc Unit :=
  if minimum ≤ n ∧ n ≤ maxSequence then .ok () else .error (.journal .invalidCounter)

/-- The row of a record just admitted. -/
def fresh (r : Record) : Work := ⟨r.seq, r.origin, .pending, 0, 0, false⟩

/-- One turn of the loop of `add`. -/
def addRecord (historical : Bool) (j : Journal) (r : Record) : Except Exc Journal := do
  integer r.seq 1
  if r.seq ≤ j.scanThrough && !historical then .ok j
  else match j.work.1.find r.seq with
    | some old => if old.origin = r.origin then .ok j else .error (.journal .sourceChanged)
    | none =>
        let work ← j.work.insert (fresh r)
        return { j with work := work }

/-- Source: `Journal.add` -/
def add (j : Journal) (records : List Record) (historical : Bool) : Except Exc Journal :=
  records.foldlM (addRecord historical) j

/-- The position before the first row behind the scan that still waits, and at most `high`. -/
def eligible (j : Journal) (high : ℕ) : ℕ :=
  match ((j.rows.filter fun w => w.disposition.waits && j.scanThrough < w.seq).map
    Work.seq).min? with
  | none => high
  | some n => min high (n - 1)

/-- The rows that are over at a scan position. -/
def isOver (position : ℕ) (w : Work) : Bool := w.seq ≤ position && w.disposition.folds

/-- The scan position moved and everything that is over there removed. -/
def moveTo (j : Journal) (high position : ℕ) : Journal :=
  let j' := j.countAll ((j.rows.filter (isOver position)).map Work.disposition)
  { j' with
    enumeratedThrough := high
    scanThrough := position
    work := j.work.drop (isOver position) }

/-- The scan position moved as far as the enumerated range and waiting rows allow. -/
def advanceTo (j : Journal) (high : ℕ) : Journal :=
  j.moveTo high (max j.scanThrough (j.eligible high))

/-- Source: `Journal.advance` -/
def advance (j : Journal) (through : Option ℕ) : Except Exc Journal :=
  match through with
  | none => .ok (j.advanceTo j.enumeratedThrough)
  | some t => do
      integer t j.scanThrough
      return j.advanceTo (max j.enumeratedThrough t)

/-- What a scan admits and counts. -/
def admitAll (j : Journal) (s : Scanned) : Except Exc Journal := do
  let j' ← j.add s.records false
  return j'.count .ignored (s.ignored.filter (j.enumeratedThrough < ·)).length

/-- Source: `Journal.ingest` -/
def ingest (j : Journal) (s : Scanned) : Except Exc Journal := do
  integer s.through j.scanThrough
  raiseIf (scanLimit < s.records.length || s.records.any (s.through < ·.seq))
    (Exc.journal .sourceChanged)
  raiseIf (scanLimit < s.ignored.length + s.records.length
      || s.ignored.any (fun n => n = 0 || s.through < n) || !decide s.ignored.Nodup
      || s.ignored.any (fun n => s.records.any (·.seq = n))) (Exc.journal .sourceChanged)
  let j' ← j.admitAll s
  let j' ← j'.advance (some s.through)
  j'.commit

/-- Source: `Journal.seed_pointers` -/
def seedPointers (j : Journal) (records : List Record) : Except Exc Journal :=
  if j.pointersSeeded then j.commit
  else do
    raiseIf (pointerLimit < records.length || records.any (·.origin = .peer))
      (Exc.journal .sourceChanged)
    let j' ← j.add records true
    commit { j' with pointersSeeded := true }

/-! ## Attempts -/

/-- The pending rows that can be told now. -/
def ready (j : Journal) (memoryAvailable : Bool) : List Work :=
  j.rows.filter fun w => w.disposition = .pending && (memoryAvailable || w.isPeer)

/-- The rows told together: one pointer, or peer frames up to the first that has to wait. -/
def selection (now : ℕ) (ready : List Work) : List ℕ :=
  match ready with
  | [] => []
  | first :: _ =>
      if now < first.retryAt then []
      else if !first.isPeer then [first.seq]
      else ((ready.takeWhile fun w => w.isPeer && w.retryAt ≤ now).take maxMembers).map Work.seq

/-- Source: `Journal.due` -/
def due (j : Journal) (now : ℕ) (memoryAvailable : Bool) : Except Exc (List ℕ) := do
  integer now 0
  return selection now (j.ready memoryAvailable)

/-- A row taken into the attempt. -/
def reserveRow (sequences : List ℕ) (w : Work) : Work :=
  if sequences.contains w.seq then
    { w with disposition := .reserved, attempts := w.attempts + 1, retryAt := 0 }
  else w

/-- A reservation leaves the numbers of the rows. -/
theorem seq_reserveRow (sequences : List ℕ) (w : Work) : (reserveRow sequences w).seq = w.seq := by
  unfold reserveRow
  split
  · rfl
  · rfl

/-- A row that can be reserved now. -/
def reservable (now : ℕ) (w : Work) : Bool :=
  w.disposition = .pending && w.retryAt ≤ now && w.attempts < maxAttempts

/-- The form of a list of sequences `reserve` and `retry` take. -/
def goodSequences (sequences : List ℕ) : Bool :=
  1 ≤ sequences.length && sequences.length ≤ maxMembers && sequences.all (0 < ·)
    && decide sequences.Nodup

/-- The attempt opened with its members. -/
def reserveAll (j : Journal) (sequences : List ℕ) (now : ℕ) : Journal :=
  let j' := j.count .attempts sequences.length
  { j' with
    work := j.work.set (reserveRow sequences) (seq_reserveRow sequences)
    attempt := some ⟨now, sequences⟩ }

/-- Source: `Journal.reserve`; returns the reserved rows -/
def reserve (j : Journal) (sequences : List ℕ) (now : ℕ) : Except Exc (List Work × Journal) := do
  integer now 0
  raiseIf (!goodSequences sequences) (Exc.journal .invalidReservation)
  raiseIf (!j.activationConfirmed || !j.pointersSeeded) (Exc.journal .notReady)
  raiseIf j.attempt.isSome (Exc.journal .attemptInProgress)
  let selected := sequences.map fun n => j.work.1.find n
  raiseIf (!selected.all fun w => w.any (reservable now)) (Exc.journal .invalidReservation)
  raiseIf (!(selected.all (fun w => w.any Work.isPeer) || selected.length = 1))
    (Exc.journal .invalidReservation)
  let j' ← (j.reserveAll sequences now).commit
  return (j'.rows.filter fun w => sequences.contains w.seq, j')

/-- Source: the outcomes of `Journal.resolve` -/
inductive Outcome where
  | delivered | failed | unknown
  deriving DecidableEq

/-- The pause before the next attempt. -/
def pause (attempts : ℕ) : ℕ := if attempts = 1 then 30 else 60

/-- A member of the attempt after its outcome. -/
def settleRow (outcome : Outcome) (now : ℕ) (w : Work) : Work :=
  let uncertain := w.uncertain || outcome = .unknown
  if outcome = .delivered then
    { w with disposition := .delivered, retryAt := 0, uncertain := uncertain }
  else if maxAttempts ≤ w.attempts then
    { w with
      disposition := if uncertain then .unknown else .failed
      retryAt := 0
      uncertain := uncertain }
  else
    { w with
      disposition := .pending
      retryAt := min maxSequence (now + pause w.attempts)
      uncertain := uncertain }

/-- The row after the resolution of an attempt with the given members. -/
def resolveRow (members : List ℕ) (outcome : Outcome) (now : ℕ) (w : Work) : Work :=
  if members.contains w.seq then settleRow outcome now w else w

/-- Resolving leaves the numbers of the rows. -/
theorem seq_resolveRow (members : List ℕ) (outcome : Outcome) (now : ℕ) (w : Work) :
    (resolveRow members outcome now w).seq = w.seq := by
  unfold resolveRow settleRow
  repeat' split
  all_goals rfl

/-- The attempt ended and its members settled. -/
def settleAll (j : Journal) (members : List ℕ) (outcome : Outcome) (now : ℕ) : Journal :=
  let settled := (j.rows.filter fun w => members.contains w.seq).map (settleRow outcome now)
  let j' := j.countAll ((settled.filter (·.disposition.exhausted)).map Work.disposition)
  { j' with
    work := j.work.set (resolveRow members outcome now) (seq_resolveRow members outcome now)
    attempt := none }

/-- Source: `Journal.resolve` -/
def resolve (j : Journal) (outcome : Outcome) (now : ℕ) : Except Exc Journal := do
  integer now 0
  match j.attempt with
  | none => .error (.journal .noAttempt)
  | some a =>
      let j' ← (j.settleAll a.members outcome now).advance none
      j'.commit

/-- Source: `Journal.recover_attempt` -/
def recoverAttempt (j : Journal) (now : ℕ) : Except Exc Journal :=
  if j.attempt.isNone then .ok j else j.resolve .unknown now

/-- A row taken up again. -/
def retryRow (sequences : List ℕ) (w : Work) : Work :=
  if sequences.contains w.seq then { w with disposition := .pending, attempts := 0, retryAt := 0 }
  else w

/-- A manual retry leaves the numbers of the rows. -/
theorem seq_retryRow (sequences : List ℕ) (w : Work) : (retryRow sequences w).seq = w.seq := by
  unfold retryRow
  split
  · rfl
  · rfl

/-- Source: `Journal.retry` -/
def retry (j : Journal) (sequences : List ℕ) : Except Exc Journal := do
  raiseIf (!goodSequences sequences) (Exc.journal .invalidRetry)
  raiseIf (!(sequences.map fun n => j.work.1.find n).all fun w => w.any (·.disposition.exhausted))
    (Exc.journal .invalidRetry)
  commit { j with work := j.work.set (retryRow sequences) (seq_retryRow sequences) }

/-! ## Reconciliation -/

/-- What a snapshot says about a row. -/
inductive Verdict where
  | keep
  | settle (d : Disposition)
  /-- An older bridge cannot say why the row is gone. -/
  | missing
  deriving DecidableEq

/-- A pointer that has replaced the given one. -/
def replaced (pointers : List Record) (key : Hex 64) (inst : Instance) (seq : ℕ) : Bool :=
  match pointerOf pointers key with
  | none => false
  | some current => current.origin = .pointer key inst && seq < current.seq

/-- The body of the loop of `reconcile`. -/
def judge (s : Snapshot) (records : List Record) (w : Work) : Except Exc Verdict :=
  if w.disposition.folds then .ok .keep
  else if s.ackThrough.any (w.seq ≤ ·) then .ok (.settle .acknowledged)
  else match records.find? (·.seq = w.seq) with
  | some r => if r.origin = w.origin then .ok .keep else .error (.journal .sourceChanged)
  | none =>
      match w.origin with
      | .pointer key inst =>
          match s.bindings, s.pointers with
          | some bindings, some pointers =>
              if instanceOf bindings key ≠ some inst ∨ replaced pointers key inst w.seq then
                .ok (.settle .obsolete)
              else .error (.journal .sourceMissing)
          | _, _ => .ok .keep
      | .peer =>
          if s.ackThrough.isNone then .ok .missing else .error (.journal .sourceMissing)

/-- A row after a verdict. -/
def applyVerdict (v : Verdict) (w : Work) : Work :=
  match v with
  | .keep => w
  | .settle d => { w with disposition := d, retryAt := 0 }
  | .missing => { w with disposition := .unknown, retryAt := 0, uncertain := true }

/-- A row after its own verdict. -/
def judged (s : Snapshot) (records : List Record) (w : Work) : Work :=
  match judge s records w with
  | .ok v => applyVerdict v w
  | .error _ => w

/-- Judging leaves the numbers of the rows. -/
theorem seq_judged (s : Snapshot) (records : List Record) (w : Work) :
    (judged s records w).seq = w.seq := by
  unfold judged applyVerdict
  repeat' split
  all_goals rfl

/-- `compatibility_missing` -/
def isMissing (s : Snapshot) (records : List Record) (w : Work) : Bool :=
  match judge s records w with
  | .ok .missing => true
  | _ => false

/-- The rows an older bridge cannot account for. -/
def gone (j : Journal) (s : Snapshot) (records : List Record) : List Work :=
  j.rows.filter (isMissing s records)

/-- Every row after its verdict. -/
def judgeAll (j : Journal) (s : Snapshot) (records : List Record) : Journal :=
  let j' := j.countAll (((j.gone s records).filter (·.disposition ≠ .unknown)).map fun _ =>
    Disposition.unknown)
  { j' with work := j.work.set (judged s records) (seq_judged s records) }

/-- The rows an older bridge cannot account for removed, as far as the scan position has passed. -/
def dropGone (j : Journal) (gone : List Work) : Journal :=
  { j with work := j.work.drop fun w => w.seq ≤ j.scanThrough && gone.any (·.seq = w.seq) }

/-- Source: `Journal.reconcile` -/
def reconcile (j : Journal) (s : Snapshot) (records : List Record) : Except Exc Journal := do
  raiseIf j.attempt.isSome (Exc.journal .attemptInProgress)
  let _ ← j.rows.mapM (judge s records)
  let j' ← (j.judgeAll s records).advance none
  (j'.dropGone (j.gone s records)).commit

/-! ## Activation and health -/

/-- Source: `Journal.confirm_activation` -/
def confirmActivation (j : Journal) (evidence : Activation) : Except Exc Journal := do
  raiseIf (evidence ≠ ⟨j.participant.digest, j.nonce⟩) (Exc.journal .activationMismatch)
  commit { j with activationConfirmed := true }

/-- Source: `Journal.acknowledge_health` -/
def acknowledgeHealth (j : Journal) : Except Exc Journal :=
  commit { j with
    counters := fun _ => 0
    historyAcknowledged := j.historyAcknowledged || j.historyLost }

end Journal

end PeerBridge.Notify
