import PeerBridge.Memory.Schema

/-!
# The memory store: the write boundary, capacity, expiry and `note`

The operations of `Store` in `memory.py`, function by function. Each durable change goes through
`transaction`: it begins from a proved empty log, runs its body, checks the pages allocated and
commits; any exception restores the content and the page count from before. The functions on `Db`
named after a statement (`Db.forget`, `Db.retire`, ...) are the SQL a transaction body executes.

The engine is consulted at the first write of a body (`write`): it grants the pages, reports that it
is full, or fails. A process death is asked for right before and right after each commit.

`Store.note` is cut along its three phases: `noteChecks` validates the request without reading the
store, `noteLookup` settles a retry of an idempotent write, and `noteAppend` is the one transaction
that appends the row.

Source: `memory.py`, class `Store`.
-/

namespace PeerBridge.Memory

open Py Relational Effects

variable (H : Host)

/-! ## Asking the host -/

/-- `time.time()`. -/
def time : M ℚ := fun w => (.ok (H.clock w.tick), { w with tick := w.tick + 1 })

/-- `uuid.uuid4().hex`. -/
def freshId : M Text := fun w => (.ok (H.uuid w.tick), { w with tick := w.tick + 1 })

/-- The process may die here. -/
def interrupt : M Unit := fun w =>
  (if H.killed w.tick then .error .killed else .ok (), { w with tick := w.tick + 1 })

/-- The first write of a transaction. -/
def write : M Unit := fun w =>
  match H.engine w.tick with
  | .ok => (.ok (), { w with pages := w.pages + H.grow w.tick, tick := w.tick + 1 })
  | .full => (.error (.sqlite .full), { w with tick := w.tick + 1 })
  | .broken => (.error (.sqlite .other), { w with tick := w.tick + 1 })

/-- `COMMIT`: the pages the commit itself allocates become visible. -/
def commit : M Unit := fun w =>
  (.ok (), { w with pages := w.pages + H.slack w.tick, tick := w.tick + 1 })

/-- `PRAGMA incremental_vacuum`. -/
def vacuum : M Unit := fun w =>
  match H.vacuum w.tick with
  | some freed => (.ok (), { w with pages := w.pages - freed, tick := w.tick + 1 })
  | none => (.error (.sqlite .other), { w with tick := w.tick + 1 })

/-- Raise a `MemoryError_`. -/
def refuse {α : Type} (code : Code) (detail : Text) : M α := throw (refusal code detail)

/-- The committed content. -/
def database : M Db := do return (← get).db

/-- Statements executed inside a transaction. -/
def execute (f : Db → Db) : M Unit := modify fun w => { w with db := f w.db }

/-! ## The write boundary -/

/-- Source: `Store.block` -/
def block (reason : Text) : M Unit :=
  modify fun w => { w with blocked := some (reason ++
    lit (". Stored data is intact. Reads, status and stop remain " ++
      "available; ask for recovery explicitly with the recover " ++
      "operation before writes resume")) }

/-- `raise MemoryError_('storage_blocked', self.blocked) from exc`. -/
def raiseBlocked {α : Type} (cause : Option SqliteError) : M α := do
  throw (.refused .storageBlocked ((← get).blocked.getD []) cause)

/-- `type(exc).__name__` of a database error. -/
def className (e : SqliteError) : M Text := fun w =>
  (.ok (match e with
    | .full => lit "OperationalError"
    | .programming => lit "ProgrammingError"
    | .other => H.errorClass w.tick), w)

/-- `f'{type(exc).__name__}: {exc}'` of what the log or the vacuum has raised. -/
def errorLine : M Text := fun w =>
  (.ok (H.errorClass w.tick ++ lit ": " ++ H.errorText w.tick), w)

/-- Source: `Store.require_writable` -/
def requireWritable : M Unit := do
  if (← get).blocked.isSome then raiseBlocked none

/-- Source: `Store.log_state` -/
def logState : M (ℕ × ℕ × ℕ) := fun w =>
  match H.log w.tick with
  | .failed => (.error (.sqlite .other), { w with tick := w.tick + 1 })
  | .state busy logPages residual =>
      (.ok (busy, logPages, residual), { w with tick := w.tick + 1 })

/-- Source: `Store.reset_log` -/
def resetLog : M Unit := do
  let (busy, logPages, residual) ← tryCatch (logState H) fun _ => do
    let line ← errorLine H
    block (lit "the write-ahead log could not be proved reset (" ++ line
      ++ lit "). No write was attempted")
    raiseBlocked (some .other)
  if busy ≠ 0 ∨ logPages ≠ 0 ∨ residual ≠ 0 then
    block (lit "the write-ahead log could not be reset (busy=" ++ decimal busy
      ++ lit ", log_pages=" ++ decimal logPages ++ lit ", " ++ decimal residual
      ++ lit " bytes remain), so the bound on a write cannot be held. No write was attempted")
    raiseBlocked none

/-- Source: `Store.page_cap` -/
def pageCap (control : Bool) : ℕ := (if control then maxPages else ordinaryMaxPages) - commitSlack

/-- Source: `Store.enforce_pages` -/
def enforcePages (control : Bool) : M Unit := do
  let actual := (← get).pages
  if actual > pageCap control then
    refuse .capacity (lit "this mutation would leave " ++ decimal actual
      ++ lit " pages allocated, above the " ++ decimal (pageCap control)
      ++ lit " page limit; it was rolled back and stored data is intact")

/-- What an exception inside a transaction becomes: the content is rolled back, and an engine that
refused a page blocks the store or is reported as capacity. -/
def rollback {α : Type} (before : World) (control blocking : Bool) (exc : Exc) : M α := do
  modify fun w => { w with db := before.db, pages := before.pages }
  if exc = .sqlite .full then
    if control && blocking then
      block (lit "the engine refused a page at the " ++ decimal maxPages
        ++ lit " page ceiling during a transition the reserve exists to protect")
      raiseBlocked (some .full)
    else
      throw (.refused .capacity (lit "the engine refused a page at the " ++ decimal maxPages
        ++ lit (" page ceiling; the transaction was rolled back and stored data is " ++
          "intact")) (some .full))
  else throw exc

/-- The single write boundary. Source: `Store.transaction` -/
def transaction {α : Type} (control blocking : Bool) (body : M α) : M α := do
  requireWritable
  resetLog H
  let before ← get
  let a ← tryCatch (do
      let a ← body
      enforcePages control
      interrupt H
      commit H
      return a)
    (rollback before control blocking)
  interrupt H
  return a

/-- Source: `Store.progress` -/
def progress {α : Type} (body : M α) : M α := transaction H true true body

/-- Source: `Store.recover` -/
def recover : M Unit := do
  let (busy, logPages, residual) ← tryCatch (logState H) fun _ => do
    let line ← errorLine H
    block (lit "recovery could not prove the log reset (" ++ line ++ lit "); nothing was written")
    raiseBlocked (some .other)
  if busy ≠ 0 ∨ logPages ≠ 0 ∨ residual ≠ 0 then
    block (lit "recovery could not reset the write-ahead log (busy=" ++ decimal busy
      ++ lit ", log_pages=" ++ decimal logPages ++ lit ", " ++ decimal residual
      ++ lit " bytes remain). Nothing was written")
    raiseBlocked none
  let (busy, logPages, residual) ← tryCatch (do vacuum H; logState H) fun _ => do
    let line ← errorLine H
    block (lit "recovery could not reclaim pages (" ++ line ++ lit ")")
    raiseBlocked (some .other)
  if busy ≠ 0 ∨ logPages ≠ 0 ∨ residual ≠ 0 then
    block (lit "recovery reclaimed pages but could not reset the log afterwards")
    raiseBlocked none
  modify fun w => { w with blocked := none }

/-! ## Capacity -/

/-- Source: `Store.usage`, without the file sizes -/
structure Usage where
  entries : ℕ
  logical : ℕ
  idem : ℕ
  retired : ℕ
  snapshots : ℕ

/-- `length(cast(coalesce(column,"") AS BLOB))`. -/
def optLen (t : Option Text) : ℕ := utf8Len (t.getD [])

/-- Bytes the variable columns of an entry hold. -/
def Entry.textLen (e : Entry) : ℕ :=
  utf8Len e.body + optLen e.path + optLen e.author + optLen e.scopeTarget + utf8Len e.consumer

/-- Source: `Store.usage` -/
def Db.usage (db : Db) : Usage where
  entries := db.entries.rows.length
  logical := (db.entries.rows.map Entry.textLen).sum + db.entries.rows.length * entryOverhead
    + (db.items.rows.map Item.bytes).sum
    + (db.idem.rows.map fun i => utf8Len i.key + 64).sum
    + (db.cursors.rows.map fun c => utf8Len c.consumer + 64).sum
    + (db.retired.rows.map fun r => utf8Len r.consumer + 64).sum
    + (db.snapshots.rows.map fun s => utf8Len s.id + utf8Len s.consumer + 96).sum
  idem := db.idem.rows.length
  retired := db.retired.rows.length
  snapshots := db.snapshots.rows.length

/-- `measure(v or '')`: a falsy value costs nothing, and a truthy value that is not a text has no
`encode`. -/
def measureOr (v : Json) : Except Exc ℕ :=
  match v with
  | .str t => measure t
  | v => if v.truthy then .error .attributeError else .ok 0

/-- `sum(measure(v or '') for v in values)`. -/
def measureAll : List Json → Except Exc ℕ
  | [] => .ok 0
  | v :: rest => do
      let n ← measureOr v
      let m ← measureAll rest
      return n + m

/-- The cap on entries. -/
def entryCap (control : Bool) : ℕ := if control then maxEntries else maxEntries - reservedEntries

/-- The cap on logical bytes. -/
def byteCap (control : Bool) : ℕ :=
  if control then maxLogicalBytes else maxLogicalBytes - reservedBytes

/-- The page count above which nothing is admitted. -/
def admitCap (control : Bool) : ℕ := pageCap control - (if control then 0 else appendAllowance)

/-- The admission condition. Source: `Store.admit` -/
def World.admits (w : World) (need slots : ℕ) (control : Bool) : Bool :=
  w.db.usage.entries + slots ≤ entryCap control && w.db.usage.logical + need ≤ byteCap control
    && w.pages ≤ admitCap control

/-- Source: `Store.enforce_logical` -/
def enforceLogical (control : Bool) : M Unit := do
  let logical := (← database).usage.logical
  if logical > byteCap control then
    refuse .capacity (lit "this mutation would leave " ++ decimal logical
      ++ lit " logical bytes stored, above the " ++ decimal (byteCap control)
      ++ lit " byte limit; it was rolled back and stored data is intact")

/-! ## Expiry -/

/-- Source: `Store.index_usable` -/
def World.indexUsable (w : World) : Bool := w.fts && w.db.indexedThrough == w.db.head

/-- The rows of a table in key order, as `ORDER BY` a numeric key returns them. -/
def bySeq (rows : List Entry) : List Entry := rows.insertionSort fun a b => a.seq ≤ b.seq

/-- One batch of entries past their lifetime, lowest sequences first. -/
def Db.expiredBatch (db : Db) (now : ℚ) : List Entry :=
  (bySeq (db.entries.rows.filter fun e => e.expires.before now)).take expiryBatch

/-- Source: `Store._unindex` -/
def Db.unindex (batch : List Entry) (usable : Bool) (db : Db) : Db :=
  if usable then
    { db with search := db.search.filter fun p => !batch.any fun e =>
      e.seq == p.1 && e.body == p.2 }
  else db

/-- Source: `Store._forget` -/
def Db.forget (batch : List Entry) (fts : Bool) (db : Db) : Db :=
  { db with
    entries := db.entries.remove fun e => batch.any fun b => b.seq == e.seq
    floor := max db.floor ((batch.map Entry.seq).foldr max 0)
    indexedThrough := if fts then db.indexedThrough else -1 }

/-- `self.set_meta('indexed_through', -1)`. -/
def Db.invalidate (db : Db) : Db := { db with indexedThrough := -1 }

/-- A snapshot past its retention at `now`. -/
def Snapshot.stale (now : ℚ) (s : Snapshot) : Bool :=
  match s.ackedAt with
  | none => s.created < now - snapshotTtl
  | some acked => acked < now - ackRetention

/-- `DELETE FROM snapshot_items WHERE id NOT IN (SELECT id FROM snapshots)`. -/
def Db.dropOrphans (db : Db) : Db :=
  { db with items := db.items.remove fun i => !db.snapshots.rows.any fun s => s.id == i.id }

/-- A consumer idle for longer than its lifetime becomes a tombstone. -/
def Db.retireOne (now : ℚ) (db : Db) (c : Cursor) : Db :=
  { db with
    retired := db.retired.put ⟨c.consumer, c.seq, now⟩
    cursors := db.cursors.remove fun d => d.consumer == c.consumer }

/-- The closing transaction of an expiry. Source: `Store.expire` -/
def Db.retire (now : ℚ) (db : Db) : Db :=
  let db := { db with snapshots := db.snapshots.remove (Snapshot.stale now) }
  let db := db.dropOrphans
  let db := { db with idem := db.idem.remove fun i => i.deadline < now }
  let db := { db with retired := db.retired.remove fun r => r.retiredAt < now - retiredTtl }
  (db.cursors.rows.filter fun c => c.updated < now - consumerTtl).foldl (Db.retireOne now) db

/-- One batch: maintained in the index if that fits, otherwise removed after the index was
invalidated durably. -/
def expireBatch (batch : List Entry) : M Unit := do
  let speculative : M Unit := transaction H true false do
    write H
    let w ← get
    execute fun db => Db.forget batch w.fts (Db.unindex batch w.indexUsable db)
  tryCatch speculative fun exc =>
    match exc with
    | .refused .capacity _ _ => do
        transaction H true true do
          write H
          execute Db.invalidate
        transaction H true true do
          write H
          let w ← get
          execute (Db.forget batch w.fts)
    | exc => throw exc

/-- The batch loop. Every round removes at least one row, so the number of rows bounds the
rounds. -/
def expireLoop (now : ℚ) : ℕ → ℕ → M ℕ
  | 0, removed => return removed
  | fuel + 1, removed => do
      let batch := (← database).expiredBatch now
      if batch.isEmpty then return removed
      else
        expireBatch H batch
        expireLoop now fuel (removed + batch.length)

/-- Source: `Store.expire` -/
def expire : M ℕ := do
  let now ← time H
  let removed ← expireLoop H now (← database).entries.rows.length 0
  transaction H true true do
    write H
    execute (Db.retire now)
  modify fun w => { w with expiredAt := now }
  return removed

/-- Source: `Store.maybe_expire` -/
def maybeExpire : M Unit := do
  let now ← time H
  if now - (← get).expiredAt ≥ expiryInterval then
    let _ ← expire H

/-- Idempotency rows beyond the count, among those already past their deadline. -/
def Db.prunable (now : ℚ) (db : Db) : List Idem :=
  ((db.idem.rows.filter fun i => i.deadline < now).insertionSort
    fun a b => a.deadline ≤ b.deadline).drop maxIdemRows

/-- `DELETE FROM idem WHERE key=?` for every prunable key. -/
def Db.prune (now : ℚ) (db : Db) : Db :=
  { db with idem := db.idem.remove fun i => (db.prunable now).any fun p => p.key == i.key }

/-- Source: `Store.reclaim` -/
def reclaim : M ℕ := do
  let removed ← expire H
  let now ← time H
  transaction H true true do
    write H
    execute (Db.prune now)
  resetLog H
  vacuum H
  resetLog H
  return removed

/-- The single admission point. Source: `Store.admit` -/
def admission (need slots : ℕ) (control : Bool) : M Unit := do
  if (← get).admits need slots control then return ()
  else
    let _ ← reclaim H
    let w ← get
    if w.admits need slots control then return ()
    else
      refuse .capacity (decimal w.db.usage.entries ++ lit " entries, "
        ++ decimal w.db.usage.logical ++ lit " logical bytes and " ++ decimal w.pages
        ++ lit " pages are stored, and this mutation needs " ++ decimal need
        ++ lit " more bytes; nothing was written and stored data is intact")

/-- Source: `Store.mutation` -/
def mutation {α : Type} (need slots : ℕ) (control : Bool) (body : M α) : M α := do
  admission H need slots control
  transaction H control true do
    let a ← body
    if need ≠ 0 then enforceLogical control
    return a

/-! ## Opening the store -/

/-- Source: `Store._open_fts` -/
def openFts : M Bool :=
  tryCatch (do
      transaction H true false (write H)
      return true)
    fun exc =>
      match exc with
      | .sqlite _ => return false
      | .refused .capacity _ _ => return false
      | exc => throw exc

/-- The index rebuilt from the entries. -/
def Db.reindex (db : Db) : Db :=
  { db with
    search := (bySeq db.entries.rows).map fun e => (e.seq, e.body)
    indexedThrough := db.head }

/-- The rebuild, given up when it does not fit. -/
def rebuildIndex : M Unit := do
  if (← get).pages > pageCap true - rebuildHeadroom then return ()
  else
    tryCatch (transaction H true false do
        write H
        execute Db.reindex)
      fun exc =>
        match exc with
        | .refused .capacity _ _ => return ()
        | exc => throw exc

/-- Source: `Store._reconcile_index` -/
def reconcileIndex : M Unit := do
  let w ← get
  if w.fts = false then
    transaction H true true do
      write H
      execute Db.invalidate
  else if w.db.indexedThrough = w.db.head then return ()
  else
    transaction H true false do
      write H
      execute Db.invalidate
    rebuildIndex H

/-- `False if fts is False else self._open_fts()`. -/
def openSearch (fts : Bool) : M Bool := if fts then openFts H else pure false

/-- A new process on the same file: the block and the time of the last expiry are not kept.
Source: `Store.__init__` on an initialised store -/
def reopen (fts : Bool) : M Unit := do
  modify fun w => { w with blocked := none, expiredAt := 0, fts := false }
  let usable ← openSearch H fts
  modify fun w => { w with fts := usable }
  reconcileIndex H

/-! ## `note` -/

/-- The arguments of `Store.note` as the request carries them. -/
structure NoteArgs where
  kind : Json
  body : Json
  scope : Json
  scopeTarget : Json
  path : Json
  supersedes : Json
  revokes : Json
  expires : Json
  key : Json
  deadline : Json
  author : Json

/-- What the checks before the first read establish: the decoded type, scope and body. -/
structure Draft where
  kind : Kind
  scope : Scope
  body : Text

/-- The row `note` encodes to decide whether the entry could ever be delivered. -/
def probeRow (consumer : Text) (a : NoteArgs) (pid : ℕ) (d : Draft) : Json :=
  row [.int 0, .float (.fin 0), .str d.kind.text, .str d.scope.text, a.scopeTarget, a.path,
    .str d.body, a.author, .int pid, .str consumer, .int 1, a.supersedes, a.revokes, .null, .null,
    .null, a.expires]

/-- `kind in TYPES`. -/
def checkKind (v : Json) : Except Exc Kind :=
  match Kind.ofJson? v with
  | some k => .ok k
  | none => .error (refusal .invalidRequest (lit "unknown entry type: " ++ H.str v))

/-- `scope in SCOPES`. -/
def checkScope (v : Json) : Except Exc Scope :=
  match Scope.ofJson? v with
  | some s => .ok s
  | none => .error (refusal .invalidRequest (lit "unknown scope: " ++ H.str v))

/-- A scope below the repository names its target. -/
def checkScopeTarget (scope : Scope) (target : Json) : Except Exc Unit :=
  if scope ≠ .repo ∧ target.truthy = false then
    .error (refusal .invalidRequest (lit "scope " ++ scope.text ++ lit " requires a scope target"))
  else .ok ()

/-- The body is nonempty text of at most `MAX_BODY` bytes. -/
def checkBody (v : Json) : Except Exc Text :=
  match v with
  | .str t =>
      if (strip t).isEmpty then
        .error (refusal .invalidRequest (lit "body must be nonempty text"))
      else do
        let size ← measure t
        if size > maxBody then
          .error (refusal .entryTooLarge (lit "body exceeds " ++ decimal maxBody ++ lit " bytes"))
        else return t
  | _ => .error (refusal .invalidRequest (lit "body must be nonempty text"))

/-- The refusal of what could never be delivered. -/
def checkProbe (frame : Json) : Except Exc Unit := do
  let probe ← lenEncode frame
  if probe > frameBudget then
    .error (refusal .entryTooLarge (lit "this entry encodes to " ++ decimal probe
      ++ lit " bytes, above the " ++ decimal frameBudget
      ++ lit " byte page budget, so it could never be delivered"))
  else return ()

/-- A replacement supersedes or revokes. -/
def checkExclusive (a : NoteArgs) : Except Exc Unit :=
  if a.supersedes.truthy ∧ a.revokes.truthy then
    .error (refusal .invalidRequest (lit "an entry supersedes or revokes, never both"))
  else .ok ()

/-- The checks `note` makes before it reads the store. -/
def noteChecks (consumer : Text) (a : NoteArgs) (pid : ℕ) : Except Exc Draft := do
  let kind ← checkKind H a.kind
  let scope ← checkScope H a.scope
  checkScopeTarget scope a.scopeTarget
  let body ← checkBody a.body
  checkProbe (probeRow consumer a pid ⟨kind, scope, body⟩)
  checkExclusive a
  return ⟨kind, scope, body⟩

/-- The content a keyed write is identified by, keys sorted as `sort_keys` writes them. -/
def payload (a : NoteArgs) (d : Draft) : Json :=
  .obj [(lit "author", a.author), (lit "body", .str d.body), (lit "expires", a.expires),
    (lit "path", a.path), (lit "revokes", a.revokes), (lit "scope", .str d.scope.text),
    (lit "scope_target", a.scopeTarget), (lit "supersedes", a.supersedes),
    (lit "type", .str d.kind.text)]

mutual

/-- `sort_keys=True` applied to the containers inside a value. -/
def sortKeys : Json → Json
  | .arr items => .arr (sortItems items)
  | .obj members => .obj ((sortMembers members).insertionSort fun a b => a.1 ≤ b.1)
  | v => v

/-- The items of a list, each with its keys sorted. -/
def sortItems : List Json → List Json
  | [] => []
  | v :: rest => sortKeys v :: sortItems rest

/-- The members of a dict, each value with its keys sorted. -/
def sortMembers : List (Text × Json) → List (Text × Json)
  | [] => []
  | (k, v) :: rest => (k, sortKeys v) :: sortMembers rest

end

/-- Source: `fingerprint` -/
def fingerprint (v : Json) : Text := H.digest (dumps (sortKeys v))

/-- The key an idempotent write is stored under. -/
def scopedKey (repo consumer : Text) (key : Json) : Text :=
  repo ++ [0] ++ consumer ++ [0] ++ H.str key

/-- The retry deadline as a number: `isinstance(deadline, (int, float))` and `math.isfinite`, which
itself overflows on an integer too large for a float. -/
def deadlineValue : Json → Except Exc ℚ
  | .bool b => .ok (if b then 1 else 0)
  | .int n => if n.natAbs < floatOverflow then .ok n else .error .overflowError
  | .float (.fin q) => .ok q
  | .float .negZero => .ok 0
  | _ => .error (refusal .invalidRequest
      (lit "a retry deadline must be a finite number of epoch seconds"))

/-- The result of `note`. -/
structure Noted where
  seq : ℕ
  duplicate : Bool
  conflictsWith : Option ℕ
  deadline : Json

/-- The clock and deduplication checks of a keyed write: `some` result for a retry that finds its
earlier attempt, `none` when the write is new. -/
def noteLookup (idemKey : Text) (mark : Text) (deadline : Json) : M (ℚ × Option Noted) := do
  if deadline.isNull then
    refuse .invalidRequest (lit ("an idempotent write requires a retry deadline in absolute " ++
      "epoch seconds, chosen before the first send"))
  else
    let now ← time H
    let due ← Prog.lift (deadlineValue deadline)
    if due > now + idemTtl then
      refuse .invalidRequest (lit ("a retry deadline may not exceed 86400 seconds ahead, " ++
        "because deduplication state is not retained beyond that"))
    else if due ≤ now then
      refuse .retryDeadlineExpired (lit ("this retry deadline has passed, so deduplication can " ++
        "no longer be guaranteed; establish whether the earlier attempt landed, then resend " ++
        "with a new key and deadline"))
    else
      let _ ← Prog.lift (measure idemKey)
      match (← database).idem.find idemKey with
      | none => return (due, none)
      | some found =>
          if found.fingerprint ≠ mark then
            refuse .idempotencyConflict (lit "this key is already used with different content")
          else if found.deadline ≠ due then
            refuse .idempotencyConflict (lit ("this key was accepted with a different retry " ++
              "deadline; repeat the original deadline or use a new key"))
          else return (due, some ⟨found.seq, true, none, .float (.fin found.deadline)⟩)

/-- The columns of the new row whose values come from the request, bound in statement order. -/
structure Columns where
  scopeTarget : Option Text
  path : Option Text
  author : Option Text
  supersedes : Sql
  revokes : Sql
  expires : Sql

/-- Binding the parameters of the `INSERT`: the first that cannot be bound raises. -/
def bindColumns (consumer : Text) (a : NoteArgs) (d : Draft) : Except Exc Columns := do
  let scopeTarget ← Sql.ofJson a.scopeTarget
  let path ← Sql.ofJson a.path
  let _ ← Sql.ofJson (.str d.body)
  let author ← Sql.ofJson a.author
  let _ ← Sql.ofJson (.str consumer)
  let supersedes ← Sql.ofJson a.supersedes
  let revokes ← Sql.ofJson a.revokes
  let expires ← Sql.ofJson a.expires
  return ⟨H.textAffinity scopeTarget, H.textAffinity path, H.textAffinity author,
    H.integerAffinity supersedes, H.integerAffinity revokes, H.realAffinity expires⟩

/-- The entry a replacement names. -/
def Db.target (db : Db) (v : Sql) : Option Entry := db.entries.rows.find? fun e =>
    H.matchesSeq v e.seq

/-- `UPDATE entries SET superseded_by=? WHERE seq=?`. -/
def Db.linkSuperseded (db : Db) (v : Sql) (seq : ℕ) : Db :=
  { db with
    entries := db.entries.update (fun e => H.matchesSeq v e.seq)
      (fun e => { e with supersededBy := some seq }) fun _ => rfl }

/-- `UPDATE entries SET revoked_by=? WHERE seq=?`. -/
def Db.linkRevoked (db : Db) (v : Sql) (seq : ℕ) : Db :=
  { db with
    entries := db.entries.update (fun e => H.matchesSeq v e.seq)
      (fun e => { e with revokedBy := some seq }) fun _ => rfl }

/-- A statement that fails on a duplicate key. -/
def insertInto {κ α : Type} {key : α → κ} [DecidableEq κ] (t : Table κ α key) (a : α) :
    M (Table κ α key) :=
  match t.insert? a with
  | some u => return u
  | none => throw (.sqlite .other)

/-- What the replaced entry contributes: the new revision and the link it already carries. -/
def replacement (target : Json) : M (ℕ × Option ℕ) := do
  if target.truthy then
    let v ← Prog.lift (Sql.ofJson target)
    match (← database).target H v with
    | none => refuse .noSuchEntry (lit "the replaced entry does not exist")
    | some found => return (found.revision + 1, found.supersededBy <|> found.revokedBy)
  else return (1, none)

/-- `supersedes or revokes`. -/
def NoteArgs.target (a : NoteArgs) : Json := if a.supersedes.truthy then a.supersedes else a.revokes

/-- The links the new row writes onto the entry it replaces; the first replacement owns them. -/
def linkReplaced (a : NoteArgs) (conflict : Option ℕ) (seq : ℕ) : M Unit := do
  if a.supersedes.truthy ∧ conflict = none then
    let v ← Prog.lift (Sql.ofJson a.supersedes)
    execute fun db => db.linkSuperseded H v seq
  if a.revokes.truthy ∧ conflict = none then
    let v ← Prog.lift (Sql.ofJson a.revokes)
    execute fun db => db.linkRevoked H v seq

/-- The posting of the new row. -/
def indexEntry (seq : ℕ) (body : Text) : M Unit := do
  let w ← get
  if w.fts ∧ w.db.indexedThrough ≥ 0 then
    execute fun db => { db with search := db.search ++ [(seq, body)], indexedThrough := seq }

/-- The deduplication row of a keyed write. -/
def recordIdem (idemKey : Option Text) (mark : Text) (due : ℚ) (seq : ℕ) : M Unit := do
  match idemKey with
  | none => return ()
  | some key => do
      let held := (← database).idem.rows.length
      if held ≥ maxIdemRows then
        refuse .idemCapacity (decimal held
          ++ lit (" idempotency keys are retained and none is past " ++
          "its 86400 second horizon"))
      let ts ← time H
      let table ← insertInto (← database).idem ⟨key, mark, seq, ts, due⟩
      execute fun db => { db with idem := table }

/-- The new head and the table with the new row. -/
def Db.appendEntry (seq : ℕ) (table : Table ℕ Entry Entry.seq) (db : Db) : Db :=
  { db with head := seq, entries := table }

/-- The body of the appending transaction. -/
def appendRow (consumer : Text) (a : NoteArgs) (pid : ℕ) (d : Draft) (idemKey : Option Text)
    (mark : Text) (due : ℚ) : M (ℕ × Option ℕ) := do
  let (revision, conflict) ← replacement H a.target
  write H
  let seq := (← database).head + 1
  let ts ← time H
  let c ← Prog.lift (bindColumns H consumer a d)
  let table ← insertInto (← database).entries
    ⟨seq, ts, d.kind, d.scope, c.scopeTarget, c.path, d.body, c.author, pid, consumer, revision,
      c.supersedes, c.revokes, none, none, conflict, c.expires⟩
  execute (Db.appendEntry seq table)
  linkReplaced H a conflict seq
  indexEntry seq d.body
  recordIdem H idemKey mark due seq
  return (seq, conflict)

/-- Source: `Store.charge`, for the two kinds of row `note` writes -/
def noteCharge (consumer : Text) (a : NoteArgs) (d : Draft) (idemKey : Option Text) :
    Except Exc ℕ := do
  let entry ← measureAll [.str d.body, a.path, a.author, a.scopeTarget, .str consumer]
  match idemKey with
  | none => return entry + entryOverhead
  | some key => return entry + entryOverhead + ((← measure key) + 64)

/-- The append under admission; a database error is reported with nothing written. -/
def noteAppend (consumer : Text) (a : NoteArgs) (pid : ℕ) (d : Draft) (idemKey : Option Text)
    (mark : Text) (due : ℚ) : M Noted := do
  let need ← Prog.lift (noteCharge consumer a d idemKey)
  let (seq, conflict) ← tryCatch
    (mutation H need 1 (a.supersedes.truthy || a.revokes.truthy)
      (appendRow H consumer a pid d idemKey mark due))
    fun exc =>
      match exc with
      | .sqlite e => do
          let name ← className H e
          throw (.refused .writeFailed (name ++ lit "; nothing was written") (some e))
      | exc => throw exc
  return ⟨seq, false, conflict, a.deadline⟩

/-- Source: `Store.note` -/
def note (repo consumer : Text) (a : NoteArgs) (pid : ℕ) : M Noted := do
  let d ← Prog.lift (noteChecks H consumer a pid)
  let mark := fingerprint H (payload a d)
  if a.key.isNull then noteAppend H consumer a pid d none mark 0
  else
    let idemKey := scopedKey H repo consumer a.key
    let (due, found) ← noteLookup H idemKey mark a.deadline
    match found with
    | some result => return result
    | none => noteAppend H consumer a pid d (some idemKey) mark due

end PeerBridge.Memory
