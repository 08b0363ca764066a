import PeerBridge.Memory.Store

/-!
# The memory protocol: snapshots, cursors, and the command dispatcher

The operations of `MemoryCommands` in `memory.py`, with `freeze` and `bounded`. One request runs
several separately committed transactions; each of them is a `progress` or a `mutation` below, in
source order, so a later refusal leaves the earlier commits in place exactly as the code does.

Source: `memory.py`, `bounded`, `freeze`, `validate_target`, `stop_result`, class `MemoryCommands`,
`MemoryError_.database_fault`.
-/

namespace PeerBridge.Memory

open Py Relational Effects

variable (H : Host)

/-! ## Pages -/

/-- The page loop: `used` bytes are taken by `out` items (kept in reverse). -/
def boundedFrom {α : Type} (size : α → Except Exc ℕ) (budget : ℕ) :
    List α → List α → ℕ → Except Exc (List α × Bool)
  | out, [], _ => .ok (out.reverse, false)
  | out, a :: rest, used => do
      let n ← size a
      if out.isEmpty ∧ n > budget then
        throw (refusal .entryTooLarge (lit "one entry encodes to " ++ decimal n
          ++ lit " bytes, above the " ++ decimal budget
          ++ lit " byte page budget; it cannot be delivered"))
      else if used + n > budget then return (out.reverse, true)
      else boundedFrom size budget (a :: out) rest (used + n)

/-- Fill a page by encoded byte size. Source: `bounded` -/
def bounded {α : Type} (size : α → Except Exc ℕ) (items : List α) : Except Exc (List α × Bool) :=
  boundedFrom size frameBudget [] items 0

/-- `len(encode(self.store.row(x)))`. -/
def Entry.lenEncode (e : Entry) : Except Exc ℕ := Memory.lenEncode e.json

/-! ## Liveness and frozen snapshots -/

/-- Live now. Source: `Store.live_clause`, without a horizon -/
def Entry.live (now : ℚ) (e : Entry) : Bool :=
  e.supersededBy.isNone && e.revokedBy.isNone && e.expires.unexpired now

/-- Live as of an event horizon. Source: `Store.live_clause(at)` -/
def Entry.liveAt (head : ℕ) (now : ℚ) (e : Entry) : Bool :=
  e.seq ≤ head && e.supersededBy.all (head < ·) && e.revokedBy.all (head < ·)
    && e.expires.unexpired now

/-- The order of a snapshot: by type, newest first. -/
def snapshotLe (a b : Entry) : Prop :=
  a.kind.order < b.kind.order ∨ (a.kind.order = b.kind.order ∧ b.seq ≤ a.seq)

instance : DecidableRel snapshotLe := fun a b => by unfold snapshotLe; infer_instance

/-- The capped selection: `taken k` entries of type `k` were met before. -/
def capTails : (Kind → ℕ) → List Entry → List Entry
  | _, [] => []
  | taken, e :: rest =>
      match e.kind.tail with
      | none => e :: capTails taken rest
      | some cap =>
          let taken' := fun k => if k = e.kind then taken k + 1 else taken k
          if taken' e.kind > cap then capTails taken' rest else e :: capTails taken' rest

/-- The members of a snapshot frozen at `now`, in delivery order. -/
def Db.frozen (db : Db) (now : ℚ) : List Entry :=
  capTails (fun _ => 0)
    ((db.entries.rows.filter fun e => e.liveAt db.head now).insertionSort snapshotLe)

/-- Snapshots of a consumer within their retention. -/
def Db.heldSnapshots (db : Db) (consumer : Text) (created acked : ℚ) : ℕ :=
  (db.snapshots.rows.filter fun s => s.consumer == consumer && match s.ackedAt with
    | none => decide (s.created ≥ created - snapshotTtl)
    | some t => decide (t ≥ acked - ackRetention)).length

/-- The encoded size of every member. -/
def frozenSizes : List Entry → Except Exc (List ℕ)
  | [] => .ok []
  | e :: rest => do
      let n ← e.lenEncode
      let ns ← frozenSizes rest
      return n :: ns

/-- The item rows of a snapshot. -/
def frozenItems (sid : Text) (members : List Entry) (sizes : List ℕ) : List Item :=
  (members.zip sizes).zipIdx.map fun p => ⟨sid, p.2, p.1.1.seq, p.1.1, p.1.2⟩

/-- `executemany('INSERT INTO snapshot_items ...')`. -/
def insertItems : List Item → M Unit
  | [] => return ()
  | i :: rest => do
      let table ← insertInto (← database).items i
      execute fun db => { db with items := table }
      insertItems rest

/-- `UPDATE cursors SET snapshot=?,updated=? WHERE consumer=?`. -/
def Db.openSnapshot (consumer sid : Text) (now : ℚ) (db : Db) : Db :=
  { db with
    cursors := db.cursors.update (fun c => c.consumer == consumer)
      (fun c => { c with snapshot := some sid, updated := now }) fun _ => rfl }

/-- Snapshots of the consumer already outside their retention, beyond the newest few. -/
def Db.outdated (consumer : Text) (now : ℚ) (db : Db) : List Snapshot :=
  ((db.snapshots.rows.filter fun s => s.consumer == consumer && s.stale now).insertionSort
    fun a b => b.created ≤ a.created).drop maxSnapshotsPerConsumer

/-- Pruning those snapshots with their items. -/
def Db.pruneSnapshots (consumer : Text) (now : ℚ) (db : Db) : Db :=
  { db with
    snapshots := db.snapshots.remove fun s => (db.outdated consumer now).any fun o => o.id == s.id
    items := db.items.remove fun i => (db.outdated consumer now).any fun o => o.id == i.id }

/-- The body of the freezing transaction. -/
def freezeRows (consumer sid : Text) (head : ℕ) (members : List Entry) (sizes : List ℕ) :
    M Unit := do
  write H
  let created ← time H
  let table ← insertInto (← database).snapshots
    ⟨sid, consumer, head, created, members.length, 0, none⟩
  execute fun db => { db with snapshots := table }
  insertItems (frozenItems sid members sizes)
  let updated ← time H
  execute (Db.openSnapshot consumer sid updated)
  let now ← time H
  execute (Db.pruneSnapshots consumer now)

/-- Source: `freeze` -/
def freeze (consumer : Text) : M Text := do
  let db ← database
  let now ← time H
  let members := db.frozen now
  let t1 ← time H
  let t2 ← time H
  let held := db.heldSnapshots consumer t1 t2
  if held ≥ maxSnapshotsPerConsumer then
    refuse .snapshotCapacity (lit "this consumer already holds " ++ decimal held
      ++ lit (" snapshots within their retention; acknowledge or abandon one before opening " ++
        "another"))
  let sid ← freshId H
  let sizes ← Prog.lift (frozenSizes members)
  let ids ← Prog.lift (measureAll [.str sid, .str consumer])
  mutation H (sizes.sum + (ids + 96)) 0 false (freezeRows H consumer sid db.head members sizes)
  return sid

/-! ## Requests -/

/-- The service a command runs in. -/
structure Service where
  /-- `self.repo`. -/
  repo : Text
  /-- `self.generation`. -/
  generation : Text

/-- Source: `validate_target` -/
def validateTarget (s : Service) (r : Object) : Except Exc Unit := do
  if !r.has (lit "repo") && !r.has (lit "generation") then return ()
  if !(r.get (lit "repo")).isText s.repo then
    throw (refusal .wrongRepository (lit "this service serves another repository"))
  if !(r.get (lit "generation")).isText s.generation then
    throw (refusal .notThisInstance (lit "the requested service instance has changed"))

/-- Source: `stop_result` -/
def stopResult (s : Service) (r : Object) : Except Exc Unit := do
  if !(r.get (lit "repo")).isText s.repo then
    throw (refusal .wrongRepository (lit "this service serves another repository"))
  if !(r.get (lit "generation")).isText s.generation then
    throw (refusal .notThisInstance (lit ("this endpoint is served by a different instance than " ++
      "the one you asked to stop; it is still running")))

/-- Source: `MemoryCommands.consumer` -/
def consumerOf (r : Object) : Except Exc Text :=
  match r.get (lit "consumer") with
  | .str key =>
      if (strip key).isEmpty || decide (key.length > 128) then
        .error (refusal .invalidRequest (lit "a stable consumer key is required"))
      else .ok (strip key)
  | _ => .error (refusal .invalidRequest (lit "a stable consumer key is required"))

/-- The result of a command. -/
inductive Reply where
  | recovered (pages : ℕ)
  | hello (storeId : Text) (fts indexed : Bool) (blocked : Option Text)
  | noted (result : Noted)
  | delta (entries : List Entry) (cursor nextCursor head : ℕ) (more : Bool)
  | snapshot (snapshotId : Text) (head : ℕ) (entries : List Entry) (pageToken : ℤ) (total : ℕ)
      (more : Bool)
  | ackedSnapshot (cursor : ℕ) (snapshot : Text) (replayed : Bool)
  | acked (cursor : ℕ)
  | ignored (cursor : ℕ)
  | recalled (entries : List Entry) (more indexed : Bool) (nextBefore : Option ℕ)
  | status (head floor : ℕ) (usage : Usage) (consumers : List Cursor) (more : Bool)
      (nextAfter : Option Text) (blocked : Option Text) (indexed : Bool) (pages : ℕ)
  | stopping

/-! ## Protocol state -/

/-- The row of a new consumer. -/
def Cursor.fresh (consumer : Text) (now : ℚ) : Cursor := ⟨consumer, 0, 0, none, false, false, now⟩

/-- The body of the registering transaction. -/
def insertCursor (consumer : Text) : M Unit := do
  write H
  let now ← time H
  let table ← insertInto (← database).cursors (Cursor.fresh consumer now)
  execute fun db => { db with cursors := table }

/-- Source: `MemoryCommands.register` -/
def register (consumer : Text) : M Cursor := do
  -- The first lookup binds the key, which raises if it does not encode.
  let _ ← Prog.lift (measure consumer)
  let db ← database
  match db.cursors.find consumer with
  | some c => return c
  | none =>
      match db.retired.find consumer with
      | some r =>
          refuse .consumerRetired
            (lit "this consumer was retired after 2592000 seconds idle at cursor "
            ++ decimal r.seq ++ lit ("; re-register under a new consumer key, which will resync " ++
              "from a snapshot"))
      | none =>
          let live := db.cursors.rows.length
          let graves := db.retired.rows.length
          if live ≥ maxConsumers ∨ live + graves ≥ maxConsumers + maxRetired then
            refuse .capacity (decimal live ++ lit " consumers and " ++ decimal graves
              ++ lit " retirement records are held, at the limit of 256 and 1024")
          else
            let reader ← Prog.lift (measureAll [.str consumer])
            let tombstone ← Prog.lift (measureAll [.str consumer])
            mutation H (reader + 64 + (tombstone + 64)) 0 false (insertCursor H consumer)
            return Cursor.fresh consumer 0

/-- `UPDATE cursors SET updated=? WHERE consumer=?`. -/
def Db.touch (consumer : Text) (now : ℚ) (db : Db) : Db :=
  { db with
    cursors := db.cursors.update (fun c => c.consumer == consumer)
      (fun c => { c with updated := now }) fun _ => rfl }

/-- Source: `MemoryCommands.touch` -/
def touch (consumer : Text) : M Unit :=
  progress H do
    write H
    let now ← time H
    execute (Db.touch consumer now)

/-- `UPDATE cursors SET snapshot=NULL,resnapshot=1 WHERE consumer=?`. -/
def Db.clearSnapshot (consumer : Text) (db : Db) : Db :=
  { db with
    cursors := db.cursors.update (fun c => c.consumer == consumer)
      (fun c => { c with snapshot := none, resnapshot := true }) fun _ => rfl }

/-- `UPDATE cursors SET issued=? WHERE consumer=?`. -/
def Db.issueDelta (consumer : Text) (issued : ℕ) (db : Db) : Db :=
  { db with
    cursors := db.cursors.update (fun c => c.consumer == consumer)
      (fun c => { c with issued := issued }) fun _ => rfl }

/-- `UPDATE snapshots SET issued=? WHERE id=?`. -/
def Db.issuePage (sid : Text) (issued : ℕ) (db : Db) : Db :=
  { db with
    snapshots := db.snapshots.update (fun s => s.id == sid)
      (fun s => { s with issued := issued }) fun _ => rfl }

/-- `UPDATE snapshots SET acked=1,acked_at=? WHERE id=?`. -/
def Db.ackSnapshot (sid : Text) (now : ℚ) (db : Db) : Db :=
  { db with
    snapshots := db.snapshots.update (fun s => s.id == sid)
      (fun s => { s with ackedAt := some now }) fun _ => rfl }

/-- `UPDATE cursors SET seq=?,issued=?,snapshot=NULL,bootstrapped=1,resnapshot=0`. -/
def Db.bootstrap (consumer : Text) (seq issued : ℕ) (db : Db) : Db :=
  { db with
    cursors := db.cursors.update (fun c => c.consumer == consumer)
      (fun c => { c with seq := seq, issued := issued, snapshot := none, bootstrapped := true,
                         resnapshot := false }) fun _ => rfl }

/-- `UPDATE cursors SET seq=? WHERE consumer=?`. -/
def Db.advance (consumer : Text) (seq : ℕ) (db : Db) : Db :=
  { db with
    cursors := db.cursors.update (fun c => c.consumer == consumer)
      (fun c => { c with seq := seq }) fun _ => rfl }

/-- Source: `MemoryCommands.snapshot_state`, for an identifier given as a request field. A value of
another SQL type is compared as text. -/
def snapshotState (v : Json) : M (Option Snapshot) := do
  let bound ← Prog.lift (Sql.ofJson v)
  match H.textAffinity bound with
  | none => return none
  | some sid => return (← database).snapshots.find sid

/-- An unacknowledged snapshot past its lifetime. -/
def lapsed (s : Snapshot) : M Bool := do
  if s.ackedAt.isSome then return false
  else
    let now ← time H
    return decide (now - s.created > snapshotTtl)

/-- The token of a request that continues the snapshot `s`, after the checks of
`MemoryCommands.snapshot_page`. -/
def pageToken (consumer : Text) (s : Snapshot) (r : Object) : M ℤ := do
  if s.consumer ≠ consumer then
    refuse .foreignSnapshot (lit "that snapshot belongs to another consumer")
  else if ← lapsed H s then
    refuse .snapshotExpired (lit "restart sync without a page token")
  else
    let token ← Prog.lift (int (r.getD (lit "page_token") (.int 0)))
    let claimed := r.get (lit "snapshot_id")
    if token ≠ 0 ∧ claimed.isNull then
      refuse .stalePageToken (lit "continuing a snapshot requires its snapshot_id")
    else if claimed.isNull = false ∧ claimed.isText s.id = false then
      match ← snapshotState H claimed with
      | some other =>
          if other.consumer ≠ consumer then
            refuse .foreignSnapshot (lit "that snapshot belongs to another consumer")
          else
            refuse .stalePageToken
              (lit "this page token belongs to a different snapshot; restart sync")
      | none =>
          refuse .stalePageToken
            (lit "this page token belongs to a different snapshot; restart sync")
    else if token > s.issued then
      refuse .stalePageToken (lit "pages are issued in order; " ++ decimal s.issued
        ++ lit " were issued")
    else return token

/-- The items of a snapshot from a position on, in order. -/
def Db.pageRows (db : Db) (sid : Text) (token : ℤ) : List Item :=
  (db.items.rows.filter fun i => i.id == sid && decide ((i.position : ℤ) ≥ token)).insertionSort
    fun a b => a.position ≤ b.position

/-- The issuance of a page, recorded if it reaches further than the pages before. -/
def issuePage (s : Snapshot) (next : ℤ) : M Unit := do
  if next > s.issued then
    progress H do
      write H
      execute (Db.issuePage s.id next.toNat)
  else return ()

/-- The page of the snapshot `s` at a checked token. -/
def servePage (s : Snapshot) (token : ℤ) : M Reply := do
  let _ ← Prog.lift (Sql.ofJson (.int token))
  let (page, more) ← Prog.lift
    (bounded (fun i : Item => .ok i.bytes) ((← database).pageRows s.id token))
  let next := token + page.length
  issuePage H s next
  return .snapshot s.id s.head (page.map Item.payload) next s.items
    (more || decide (next < s.items))

/-- Source: `MemoryCommands.snapshot_page` -/
def snapshotPage (consumer sid : Text) (r : Object) : M Reply := do
  match (← database).snapshots.find sid with
  | none => refuse .snapshotExpired (lit "restart sync without a page token")
  | some s =>
      let token ← pageToken H consumer s r
      servePage H s token

/-- The open snapshot can no longer be paged. -/
def unusable (consumer : Text) (state : Option Snapshot) : M Bool := do
  match state with
  | none => return true
  | some s => if s.consumer ≠ consumer then return true else lapsed H s

/-- The entries above a cursor that one read fetches. -/
def Db.deltaRows (db : Db) (seq : ℕ) : List Entry :=
  (bySeq (db.entries.rows.filter fun e => decide (seq < e.seq))).take 500

/-- The issuance of a delta, recorded if it reaches further than the deltas before. -/
def issueDelta (c : Cursor) (last : ℕ) : M Unit := do
  if last > c.issued then
    progress H do
      write H
      execute (Db.issueDelta c.consumer last)
  else return ()

/-- The delta branch of `sync`. -/
def deltaPage (c : Cursor) : M Reply := do
  let db ← database
  let (entries, more) ← Prog.lift (bounded Entry.lenEncode (db.deltaRows c.seq))
  let last := (entries.getLast?.map Entry.seq).getD c.seq
  issueDelta H c last
  return .delta entries c.seq last db.head (more || decide (last < db.head))

/-- The open snapshot of a consumer, cleared with an obligation to take another one if it is no
longer usable: the identifier still open and the obligation. -/
def openSnapshot (consumer : Text) (c : Cursor) : M (Option Text × Bool) := do
  match c.snapshot with
  | none => return (none, c.resnapshot)
  | some sid =>
      if ← unusable H consumer ((← database).snapshots.find sid) then
        progress H do
          write H
          execute (Db.clearSnapshot consumer)
        return (none, true)
      else return (some sid, c.resnapshot)

/-- What `sync` knows when it starts to answer: the caller and its cursor row, the snapshot still
open, and whether a new one is due if none is. -/
structure Session where
  consumer : Text
  cursor : Cursor
  snapshot : Option Text
  due : Bool

/-- The first part of `sync`: registration, activity, and the open snapshot. -/
def beginSync (r : Object) : M Session := do
  let consumer ← Prog.lift (consumerOf r)
  let c ← register H consumer
  touch H consumer
  let (snapshot, resnapshot) ← openSnapshot H consumer c
  let floor := (← database).floor
  return ⟨consumer, c, snapshot, resnapshot || !c.bootstrapped || decide (c.seq < floor)⟩

/-- Source: `MemoryCommands.sync` -/
def sync (r : Object) : M Reply := do
  let s ← beginSync H r
  match s.snapshot with
  | some sid => snapshotPage H s.consumer sid r
  | none =>
      if s.due then
        let sid ← freeze H s.consumer
        snapshotPage H s.consumer sid r
      else deltaPage H s.cursor

/-- The acknowledgement of a snapshot. -/
def ackSnapshot (consumer : Text) (c : Cursor) (sid : Json) : M Reply := do
  match ← snapshotState H sid with
  | none => refuse .snapshotExpired (lit "restart sync without a page token")
  | some s =>
      if s.consumer ≠ consumer then
        refuse .foreignSnapshot (lit "that snapshot belongs to another consumer")
      else if s.ackedAt.isSome then return .ackedSnapshot s.head s.id true
      else if c.snapshot.all (fun own => !sid.isText own) then
        refuse .staleSnapshot (lit "that snapshot is not this consumer's open snapshot")
      else
        let now ← time H
        if now - s.created > snapshotTtl then
          refuse .snapshotExpired (lit "restart sync without a page token")
        else if s.issued < s.items then
          refuse .snapshotIncomplete (decimal s.issued ++ lit " of " ++ decimal s.items
            ++ lit " pages were issued; page to the end before acknowledging")
        else
          progress H do
            write H
            let acked ← time H
            execute (Db.ackSnapshot s.id acked)
            execute (Db.bootstrap consumer s.head (max s.head c.issued))
          return .ackedSnapshot s.head s.id false

/-- The acknowledgement of a sequence. -/
def ackThrough (consumer : Text) (c : Cursor) (r : Object) : M Reply := do
  if c.snapshot.isSome ∨ c.resnapshot then
    refuse .snapshotOpen (lit "acknowledge the open snapshot by its snapshot_id first")
  else if c.bootstrapped = false then
    refuse .notBootstrapped (lit "complete a first snapshot before acknowledging a sequence")
  else
    let through ← Prog.lift (int (r.getD (lit "through") (.int 0)))
    if through < c.seq then return .ignored c.seq
    else if through > c.issued then
      refuse .notIssued (lit "cannot acknowledge " ++ decimalInt through ++ lit "; "
        ++ decimal c.issued ++ lit " was issued")
    else
      progress H do
        write H
        execute (Db.advance consumer through.toNat)
      return .acked through.toNat

/-- Source: `MemoryCommands.ack` -/
def ack (r : Object) : M Reply := do
  let consumer ← Prog.lift (consumerOf r)
  let c ← register H consumer
  touch H consumer
  let sid := r.get (lit "snapshot_id")
  if sid.truthy then ackSnapshot H consumer c sid else ackThrough H consumer c r

/-! ## Reads -/

/-- ASCII case folding, as `LIKE` applies it. -/
def foldCase (c : CodePoint) : CodePoint := if 0x41 ≤ c.val ∧ c.val ≤ 0x5a then c + 0x20 else c

/-- `body LIKE '%' + escaped term + '%' ESCAPE '\'`: the folded term occurs in the folded body. The
engine reads both up to a NUL, and a NUL in the term also cuts off the closing wildcard. -/
def likeMatch (body term : Text) : Bool :=
  let text := (body.takeWhile (· ≠ 0)).map foldCase
  let part := (term.takeWhile (· ≠ 0)).map foldCase
  if term.contains 0 then decide (part <:+ text) else decide (part <:+: text)

/-- The bytes of the pattern `recall` builds: two wildcards, the term, and its escapes. -/
def patternLen (term : Text) : ℕ :=
  2 + utf8Len term + (term.filter fun c => c.val == 0x5c || c.val == 0x25 || c.val == 0x5f).length

/-- Live entries below `before`, newest first. -/
def Db.recallRows (db : Db) (now : ℚ) (before : ℤ) : List Entry :=
  (db.entries.rows.filter fun e => e.live now && decide ((e.seq : ℤ) < before)).insertionSort
    fun a b => b.seq ≤ a.seq

/-- The complete scan. `LIKE` is evaluated on the rows the other terms leave, and the engine refuses
a pattern above its limit there. -/
def scanRows (term : Text) (live : List Entry) : Except Exc (List Entry) :=
  if live ≠ [] ∧ patternLen term > likePatternLimit then .error (.sqlite .other)
  else .ok ((live.filter fun e => likeMatch e.body term).take (rowWindow + 1))

/-- Source: `MemoryCommands.recall` -/
def «recall» (r : Object) : M Reply := do
  match r.get (lit "query") with
  | .str term =>
      if (strip term).isEmpty then
        refuse .invalidRequest (lit "query must be nonempty text")
      else
        let given := r.get (lit "before")
        let before ← Prog.lift (if given.truthy then int given else .ok 0)
        let now ← time H
        let window : ℤ := if before = 0 then 2 ^ 62 else before
        let w ← get
        -- Parameters are bound in order: the term first, then the window.
        let _ ← Prog.lift (measure term)
        let _ ← Prog.lift (Sql.ofJson (.int window))
        let live := w.db.recallRows now window
        let hits := if w.indexUsable then H.search w.db.search term else none
        let rows ← Prog.lift (match hits with
          | some seqs => .ok ((live.filter fun e => seqs.contains e.seq).take (rowWindow + 1))
          | none => scanRows term live)
        let beyond := rows.length > rowWindow
        let rows := rows.take rowWindow
        let (entries, truncated) ← Prog.lift (bounded Entry.lenEncode rows)
        let more := truncated || (decide beyond && entries.length == rows.length)
        return .recalled entries more hits.isSome
          (if more then entries.getLast?.map Entry.seq else none)
  | _ => refuse .invalidRequest (lit "query must be nonempty text")

/-- One consumer as `status` lists it. -/
def Cursor.listing (head : ℕ) (c : Cursor) : Json :=
  .obj [(lit "consumer", .str c.consumer), (lit "cursor", .int c.seq),
    (lit "lag", .int ((head : ℤ) - c.seq)), (lit "snapshot", optText c.snapshot),
    (lit "bootstrapped", .bool c.bootstrapped)]

/-- Source: `MemoryCommands.status` -/
def status (r : Object) : M Reply := do
  let w ← get
  let given := r.get (lit "after")
  let bound ← Prog.lift (Sql.ofJson (if given.truthy then given else .str []))
  let rows : List Cursor := match H.textAffinity bound with
    | none => []
    | some after => (w.db.cursors.rows.filter fun c => decide (after < c.consumer)).insertionSort
        fun a b => a.consumer ≤ b.consumer
  let rows := rows.take (rowWindow + 1)
  let beyond := rows.length > rowWindow
  let rows := rows.take rowWindow
  let (consumers, truncated) ← Prog.lift
    (bounded (fun c : Cursor => lenEncode (c.listing w.db.head)) rows)
  let more := truncated || (decide beyond && consumers.length == rows.length)
  return .status w.db.head w.db.floor w.db.usage consumers more
    (if more then consumers.getLast?.map Cursor.consumer else none) w.blocked w.indexUsable w.pages

/-! ## The dispatcher -/

/-- The arguments `command` passes to `note`. -/
def noteArgs (r : Object) : NoteArgs where
  kind := r.get (lit "type")
  body := r.get (lit "body")
  scope := r.getD (lit "scope") (.str (lit "repo"))
  scopeTarget := r.get (lit "scope_target")
  path := r.get (lit "path")
  supersedes := r.get (lit "supersedes")
  revokes := r.get (lit "revokes")
  expires := r.get (lit "expires")
  key := r.get (lit "key")
  deadline := r.get (lit "deadline")
  author := r.get (lit "author")

/-- Source: `MemoryCommands.READ_ONLY` -/
def readOnly (op : Json) : Bool :=
  op.isText (lit "hello") || op.isText (lit "status") || op.isText (lit "recall")
    || op.isText (lit "stop") || op.isText (lit "recover")

/-- The lifetimes enforced before an operation that may write. -/
def maintain (op : Json) : M Unit := if readOnly op then pure () else maybeExpire H

/-- The operations of `MemoryCommands.command`. -/
def dispatch (s : Service) (r : Object) (pid : ℕ) (op : Json) : M Reply := do
  if op.isText (lit "recover") then
    recover H
    return .recovered (← get).pages
  else if op.isText (lit "hello") then
    let w ← get
    return .hello w.db.storeId w.fts w.indexUsable w.blocked
  else if op.isText (lit "note") then
    let consumer ← Prog.lift (consumerOf r)
    let result ← note H s.repo consumer (noteArgs r) pid
    return .noted result
  else if op.isText (lit "sync") then sync H r
  else if op.isText (lit "ack") then ack H r
  else if op.isText (lit "recall") then «recall» H r
  else if op.isText (lit "status") then status H r
  else if op.isText (lit "stop") then
    Prog.lift (stopResult s r)
    return .stopping
  else refuse .invalidRequest (lit "unknown operation: " ++ H.str op)

/-- Source: `MemoryCommands.command` -/
def command (s : Service) (r : Object) (pid : ℕ) : M Reply := do
  Prog.lift (validateTarget s r)
  maintain H (r.get (lit "op"))
  dispatch H s r pid (r.get (lit "op"))

/-! ## What the worker is told -/

/-- Source: `DatabaseWorker._fault` -/
inductive Fault where
  | storageError | internalError
  deriving DecidableEq

/-- Source: `MemoryError_.database_fault`, `CHAINED_DATABASE_FAULTS` -/
def databaseFault (code : Code) (cause : Option SqliteError) : Option Fault :=
  if cause = some .programming then some .internalError
  else match code with
    | .writeFailed => some .storageError
    | .storageBlocked => some .storageError
    | _ => none

end PeerBridge.Memory
