import PeerBridge.Bridge.Inbox

/-!
# The inbox as the notifier reads it

Read-only snapshots of the bridge's database, each one transaction. What a snapshot can say depends
on the bridge: an older one keeps no acknowledgement watermark and no memory bindings, and then the
absence of a row explains nothing.

Source: `notification_source.py`.
-/

namespace PeerBridge.Notify

open Py Relational Effects PeerBridge.Service PeerBridge.Bridge

/-- Source: `SCAN_LIMIT` -/
def scanLimit : ℕ := 128

/-- Source: `RECONCILE_LIMIT` -/
def reconcileLimit : ℕ := 2048

/-- Source: `POINTER_LIMIT` -/
def pointerLimit : ℕ := 16

/-- The identity of an inbox row: `seq`, `kind`, `binding` and `binding_instance`. -/
structure Record where
  seq : ℕ
  origin : Origin
  deriving DecidableEq

/-- A record that points to the given binding. -/
def Record.pointsTo (key : Hex 64) (r : Record) : Bool :=
  match r.origin with
  | .peer => false
  | .pointer k _ => k = key

/-- What the bridge is verified to keep. Source: `InboxSource.__init__` -/
structure Capabilities where
  /-- `inbox_ack_watermark` -/
  acknowledgements : Bool
  /-- `memory_binding` -/
  pointers : Bool
  /-- Bindings are kept only beside a watermark; otherwise the versions do not match. -/
  watermarked : pointers = true → acknowledgements = true

/-- The metadata of one snapshot. -/
structure Snapshot where
  ackThrough : Option ℕ
  activation : Option Activation
  /-- The instance of each binding. -/
  bindings : Option (List (Hex 64 × Instance))
  /-- The pointer of each binding that has one. -/
  pointers : Option (List Record)

/-- `bindings.get(key)` -/
def instanceOf (bindings : List (Hex 64 × Instance)) (key : Hex 64) : Option Instance :=
  bindings.lookup key

/-- `pointers.get(key)` -/
def pointerOf (pointers : List Record) (key : Hex 64) : Option Record :=
  pointers.find? (Record.pointsTo key)

/-- `ORDER BY seq` -/
def orderedRows (db : Db) : List Row := db.inbox.rows.mergeSort fun a b => a.seq ≤ b.seq

/-- The ordered rows are the stored ones. -/
theorem mem_orderedRows {db : Db} {r : Row} : r ∈ orderedRows db ↔ r ∈ db.inbox :=
  List.mem_mergeSort

/-- No sequence occurs twice among them. -/
theorem nodup_orderedRows (db : Db) : ((orderedRows db).map Row.seq).Nodup :=
  ((List.mergeSort_perm db.inbox.rows _).map Row.seq).nodup_iff.mpr db.inbox.nodup

/-- They are in the order of their sequences. -/
theorem pairwise_orderedRows (db : Db) : (orderedRows db).Pairwise fun a b => a.seq ≤ b.seq := by
  have htrans : ∀ a b c : Row, decide (a.seq ≤ b.seq) → decide (b.seq ≤ c.seq) →
      decide (a.seq ≤ c.seq) := by
    intro a b c hab hbc
    simp only [decide_eq_true_eq] at hab hbc ⊢
    exact hab.trans hbc
  have htotal : ∀ a b : Row, decide (a.seq ≤ b.seq) || decide (b.seq ≤ a.seq) := by
    intro a b
    simp only [Bool.or_eq_true, decide_eq_true_eq]
    exact le_total _ _
  refine (List.pairwise_mergeSort htrans htotal db.inbox.rows).imp ?_
  intro a b hab
  simpa using hab

/-- Source: `InboxSource.projection`, `InboxSource.record`; an older inbox holds peer frames only -/
def readRecord (caps : Capabilities) (r : Row) : Except Exc Record :=
  if 1 ≤ r.seq ∧ r.seq ≤ maxSequence then .ok ⟨r.seq, if caps.pointers then r.origin else .peer⟩
  else .error (.source .invalidSequence)

/-- The loop over pointer rows in `snapshot`. -/
def collectPointers (bindings : List (Hex 64 × Instance)) :
    List Record → List Record → Except Exc (List Record)
  | taken, [] => .ok taken
  | taken, r :: rest =>
      match r.origin with
      | .peer => .error (.source .recordInvalid)
      | .pointer key inst =>
          if taken.any (Record.pointsTo key) ∨ instanceOf bindings key ≠ some inst then
            .error (.source .pointerInvalid)
          else collectPointers bindings (taken ++ [r]) rest

/-- `SELECT binding, binding_instance FROM memory_binding` -/
def instances (db : Db) : List (Hex 64 × Instance) :=
  db.bindings.rows.map fun b => (b.binding, b.bindingInstance)

/-- The pointers of a snapshot. -/
def readPointers (caps : Capabilities) (db : Db) : Except Exc (List Record) := do
  let rows := ((orderedRows db).filter fun r => !r.isPeer).take (pointerLimit + 1)
  raiseIf (pointerLimit < rows.length) (Exc.source .pointerCapacity)
  let records ← rows.mapM (readRecord caps)
  collectPointers (instances db) [] records

/-- Source: `InboxSource.snapshot` -/
def snapshot (caps : Capabilities) (db : Db) : Except Exc Snapshot :=
  let ack := if caps.acknowledgements then some db.ackThrough else none
  let activation := if caps.acknowledgements then db.activation else none
  if caps.pointers then do
    raiseIf (pointerLimit < db.bindings.rows.length) (Exc.source .bindingCapacity)
    let pointers ← readPointers caps db
    return ⟨ack, activation, some (instances db), some pointers⟩
  else .ok ⟨ack, activation, none, none⟩

/-- What a scan returns beside its snapshot. -/
structure Scanned where
  through : ℕ
  records : List Record
  ignored : List ℕ

/-- `frame.get('type') == 'user'` -/
def isUser (f : Object) : Bool := (f.get (lit "type")).isText (lit "user")

/-- The loop of `scan`; a peer frame that is not for the user is ignored. -/
def scanRows (caps : Capabilities) : Scanned → List Row → Except Exc Scanned
  | s, [] => .ok s
  | s, row :: rest => do
      let record ← readRecord caps row
      match record.origin with
      | .pointer .. => scanRows caps { s with through := record.seq, records :=
        s.records ++ [record] } rest
      | .peer =>
          match row.frame with
          | .obj f =>
              if isUser f then
                scanRows caps { s with through := record.seq, records :=
                  s.records ++ [record] } rest
              else
                scanRows caps { s with through := record.seq, ignored :=
                  s.ignored ++ [record.seq] } rest
          | _ => .error (.source .frameInvalid)

/-- Source: `InboxSource.scan` -/
def scan (caps : Capabilities) (db : Db) (after : ℕ) : Except Exc Scanned := do
  raiseIf (maxSequence < after) (Exc.source .invalidSequence)
  let _ ← snapshot caps db
  scanRows caps ⟨after, [], []⟩ (((orderedRows db).filter fun r => after < r.seq).take scanLimit)

/-- Source: `InboxSource.seed_pointers` -/
def readSeed (caps : Capabilities) (db : Db) : Except Exc (List Record) := do
  let s ← snapshot caps db
  match s.pointers with
  | some records => .ok records
  | none => .error (.source .versionMismatch)

/-- Source: `InboxSource.retained`; the batches together are all rows with a listed sequence -/
def retained (caps : Capabilities) (db : Db) (sequences : List ℕ) :
    Except Exc (Snapshot × List Record) := do
  raiseIf (reconcileLimit < sequences.length || sequences.any (fun n => n = 0 || maxSequence < n)
    || !decide sequences.Nodup) (Exc.source .invalidSequence)
  let s ← snapshot caps db
  let records ← ((orderedRows db).filter fun r => sequences.contains r.seq).mapM (readRecord caps)
  return (s, records)

end PeerBridge.Notify
