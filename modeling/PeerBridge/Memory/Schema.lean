import PeerBridge.Runtime.Json
import PeerBridge.Runtime.Prog
import PeerBridge.Runtime.Table

/-!
# The memory store: limits, rows, exceptions, and the host

The data model of `memory.py`. A `Db` is the committed content of the SQLite file: the six
application tables, the search postings and the metadata row by row. A `World` adds what the
process keeps beside it (the page count, the recorded block, the search switch, the time of the
last expiry) and a counter of the questions already put to the outside.

Everything the store asks of its surroundings is a `Host`: the clock, the state of the write-ahead
log, whether the engine grants a page, how many pages a transaction allocates, whether the process
dies at a commit, fresh identifiers, and the few conversions SQLite and the interpreter perform on
values this program never looks into. Answers are indexed by the number of the question, so a host
fixes one execution and a statement about every host is a statement about every execution.

Times are rational numbers: `time.time()` returns one, and comparisons and differences of times are
exact here. A column keeps the value SQLite would store after its affinity was applied, so an
unvalidated `expires` or `supersedes` field of a request stays representable.

Source: `memory.py`, module constants, `SCHEMA_STATEMENTS`, `MemoryError_`; `peer_transport.py`
`encode`.
-/

namespace PeerBridge.Memory

open Py Relational

/-! ## Limits and lifetimes -/

/-- Bytes of one frame. Source: `peer_transport.LIMIT` -/
def limit : ℕ := 262144

/-- Source: `FRAME_BUDGET` -/
def frameBudget : ℕ := limit - 8192

/-- Source: `ROW_WINDOW` -/
def rowWindow : ℕ := 500

/-- Source: `MAX_BODY` -/
def maxBody : ℕ := 8192

/-- Source: `MAX_ENTRIES` -/
def maxEntries : ℕ := 5000

/-- Source: `MAX_LOGICAL_BYTES` -/
def maxLogicalBytes : ℕ := 32 * 1024 * 1024

/-- Source: `MAX_PHYSICAL_BYTES` -/
def maxPhysicalBytes : ℕ := 128 * 1024 * 1024

/-- Source: `RESERVED_ENTRIES` -/
def reservedEntries : ℕ := 64

/-- Source: `RESERVED_BYTES` -/
def reservedBytes : ℕ := reservedEntries * maxBody

/-- Source: `ENTRY_OVERHEAD` -/
def entryOverhead : ℕ := 512

/-- Source: `PAGE_SIZE` -/
def pageSize : ℕ := 4096

/-- Source: `FRAME_BYTES` -/
def frameBytes : ℕ := 24 + pageSize

/-- Source: `MAX_SECTOR_SIZE` -/
def maxSectorSize : ℕ := 0x10000

/-- Source: `PAD_FRAMES`, a division rounded up -/
def padFrames : ℕ := (maxSectorSize - 1 + (frameBytes - 1)) / frameBytes

/-- Source: `MAX_PAGES` -/
def maxPages : ℕ := (maxPhysicalBytes - 32 - padFrames * frameBytes) / (pageSize + frameBytes)

/-- Source: `RESERVE_PAGES` -/
def reservePages : ℕ := 2048

/-- Source: `REBUILD_HEADROOM` -/
def rebuildHeadroom : ℕ := reservePages / 2

/-- Source: `ORDINARY_MAX_PAGES` -/
def ordinaryMaxPages : ℕ := maxPages - reservePages

/-- Source: `COMMIT_SLACK` -/
def commitSlack : ℕ := 2

/-- Source: `APPEND_ALLOWANCE` -/
def appendAllowance : ℕ := 8

/-- Source: `EXPIRY_BATCH` -/
def expiryBatch : ℕ := 200

/-- Source: `SNAPSHOT_TTL` -/
def snapshotTtl : ℚ := 3600

/-- Source: `ACK_RETENTION` -/
def ackRetention : ℚ := 86400

/-- Source: `IDEM_TTL` -/
def idemTtl : ℚ := 86400

/-- Source: `CONSUMER_TTL` -/
def consumerTtl : ℚ := 30 * 86400

/-- Source: `MAX_SNAPSHOTS_PER_CONSUMER` -/
def maxSnapshotsPerConsumer : ℕ := 4

/-- Source: `MAX_CONSUMERS` -/
def maxConsumers : ℕ := 256

/-- Source: `MAX_IDEM_ROWS` -/
def maxIdemRows : ℕ := 20000

/-- Source: `RETIRED_TTL` -/
def retiredTtl : ℚ := 90 * 86400

/-- Source: `MAX_RETIRED` -/
def maxRetired : ℕ := 1024

/-- Source: `EXPIRY_INTERVAL` -/
def expiryInterval : ℚ := 30

/-- The bytes of a `LIKE` pattern SQLite evaluates (`SQLITE_MAX_LIKE_PATTERN_LENGTH`). -/
def likePatternLimit : ℕ := 50000

/-! ## Entry types and scopes -/

/-- Source: `TYPES` -/
inductive Kind where
  | decision | finding | gotcha | handoff | status | directive
  deriving DecidableEq

namespace Kind

/-- Source: `TYPES` -/
def all : List Kind := [decision, finding, gotcha, handoff, status, directive]

/-- The text of an entry type. -/
def text : Kind → Text
  | decision => lit "decision"
  | finding => lit "finding"
  | gotcha => lit "gotcha"
  | handoff => lit "handoff"
  | status => lit "status"
  | directive => lit "directive"

/-- `kind in TYPES`. -/
def ofJson? (v : Json) : Option Kind := all.find? fun k => v.isText k.text

/-- Source: `SNAPSHOT_ORDER` -/
def order : Kind → ℕ
  | directive => 0
  | decision => 1
  | gotcha => 2
  | handoff => 3
  | finding => 4
  | status => 5

/-- Source: `SNAPSHOT_TAIL` -/
def tail : Kind → Option ℕ
  | finding => some 25
  | handoff => some 25
  | status => some 10
  | _ => none

end Kind

/-- Source: `SCOPES` -/
inductive Scope where
  | repo | task | session
  deriving DecidableEq

namespace Scope

/-- Source: `SCOPES` -/
def all : List Scope := [repo, task, session]

/-- The text of a scope. -/
def text : Scope → Text
  | repo => lit "repo"
  | task => lit "task"
  | session => lit "session"

/-- `scope in SCOPES`. -/
def ofJson? (v : Json) : Option Scope := all.find? fun s => v.isText s.text

end Scope

/-! ## Exceptions -/

/-- The refusal codes of the operations modelled here. Source: `MemoryError_.code` -/
inductive Code where
  | invalidRequest | entryTooLarge | retryDeadlineExpired | idempotencyConflict | noSuchEntry
  | idemCapacity | writeFailed | storageBlocked | capacity | snapshotCapacity | consumerRetired
  | snapshotExpired | foreignSnapshot | stalePageToken | staleSnapshot | snapshotIncomplete
  | snapshotOpen | notBootstrapped | notIssued | wrongRepository | notThisInstance
  deriving DecidableEq

/-- The `sqlite3.Error` subclasses the program tells apart: the engine refusing a page, a
`ProgrammingError` (an unsupported parameter type), and every other database error. -/
inductive SqliteError where
  | full | programming | other
  deriving DecidableEq

/-- What a request can raise. `refused` is `MemoryError_`, a `ValueError`, with the exception it was
raised from; `valueError` is any other `ValueError`, an encoding failure included; `killed` is the
death of the process, which no handler sees. -/
inductive Exc where
  | refused (code : Code) (detail : Text) (cause : Option SqliteError)
  | valueError
  | typeError
  | overflowError
  | attributeError
  | sqlite (e : SqliteError)
  | killed
  deriving DecidableEq

/-- `raise MemoryError_(code, detail)`. -/
def refusal (code : Code) (detail : Text) : Exc := .refused code detail none

/-! ## SQL values -/

/-- A stored or bound SQL value. -/
inductive Sql where
  | null
  | int (n : ℤ)
  | real (q : ℚ)
  | inf
  | negInf
  | text (t : Text)
  deriving DecidableEq

namespace Sql

/-- Binding a Python value as a parameter: integers of more than 64 bits overflow, texts must
encode, containers are not supported, and a NaN is stored as NULL. -/
def ofJson : Json → Except Exc Sql
  | .null => .ok .null
  | .bool b => .ok (.int (if b then 1 else 0))
  | .int n => if -2 ^ 63 ≤ n ∧ n < 2 ^ 63 then .ok (.int n) else .error .overflowError
  | .float (.fin q) => .ok (.real q)
  | .float .negZero => .ok (.real 0)
  | .float .inf => .ok .inf
  | .float .negInf => .ok .negInf
  | .float .nan => .ok .null
  | .str t => if encodable t then .ok (.text t) else .error .valueError
  | .arr _ => .error (.sqlite .programming)
  | .obj _ => .error (.sqlite .programming)

/-- The value read back into Python and encoded. -/
def json : Sql → Json
  | null => .null
  | int n => .int n
  | real q => .float (.fin q)
  | inf => .float .inf
  | negInf => .float .negInf
  | text t => .str t

/-- `value < t` in SQL: false on NULL, and every text is above every number. -/
def before : Sql → ℚ → Bool
  | int n, t => (n : ℚ) < t
  | real q, t => q < t
  | negInf, _ => true
  | _, _ => false

/-- `value IS NULL OR value > t`. -/
def unexpired : Sql → ℚ → Bool
  | null, _ => true
  | int n, t => t < (n : ℚ)
  | real q, t => t < q
  | inf, _ => true
  | negInf, _ => false
  | text _, _ => true

end Sql

/-! ## The host -/

/-- The outcome of a checkpoint and of reading the log file's size: an error, or the busy flag, the
log pages and the residual bytes. Source: `Store.log_state` -/
inductive LogState where
  | failed
  | state (busy logPages residual : ℕ)
  deriving DecidableEq

/-- What the engine answers to the first write of a transaction. -/
inductive Engine where
  | ok | full | broken
  deriving DecidableEq

/-- The surroundings of the store. The functions of a question number answer the question asked at
that point of the execution; the others are fixed conversions. -/
structure Host where
  /-- `time.time()`. -/
  clock : ℕ → ℚ
  /-- The checkpoint result and the log file's size. -/
  log : ℕ → LogState
  /-- Whether the engine grants the writes of a transaction. -/
  engine : ℕ → Engine
  /-- Pages a transaction allocates before its page check. -/
  grow : ℕ → ℕ
  /-- Pages a commit allocates after the page check. -/
  slack : ℕ → ℕ
  /-- Pages an incremental vacuum returns, `none` if it fails. -/
  vacuum : ℕ → Option ℕ
  /-- Whether the process dies at this point. -/
  killed : ℕ → Bool
  /-- `uuid.uuid4().hex`. -/
  uuid : ℕ → Text
  /-- `hashlib.sha256(text.encode()).hexdigest()`. -/
  digest : Text → Text
  /-- The number SQLite reads in a text under a numeric column affinity. -/
  number : Text → Option ℚ
  /-- The text SQLite renders for a REAL under TEXT affinity. -/
  realText : ℚ → Text
  /-- `str(value)` of a list or a dict. -/
  container : Json → Text
  /-- `type(exc).__name__` of an exception of the engine or the file system that is none of those
  `SqliteError` names. -/
  errorClass : ℕ → Text
  /-- `str(exc)` of such an exception. -/
  errorText : ℕ → Text
  /-- The rows an FTS5 query matches among the postings, `none` if the query is an error. -/
  search : List (ℕ × Text) → Text → Option (List ℕ)

namespace Host

variable (H : Host)

/-- INTEGER affinity: a number with an integral 64-bit value becomes an integer. -/
def integerAffinity : Sql → Sql
  | .real q => ofRat q
  | .text t => match H.number t with
    | some q => ofRat q
    | none => .text t
  | v => v
where
  /-- An integral value in range is stored as an integer. -/
  ofRat (q : ℚ) : Sql :=
    if q.den = 1 ∧ -2 ^ 63 ≤ q.num ∧ q.num < 2 ^ 63 then .int q.num else .real q

/-- REAL affinity: an integer becomes a real number. -/
def realAffinity : Sql → Sql
  | .int n => .real n
  | .text t => match H.number t with
    | some q => .real q
    | none => .text t
  | v => v

/-- TEXT affinity: a number becomes its text. -/
def textAffinity : Sql → Option Text
  | .null => none
  | .int n => some (decimalInt n)
  | .real q => some (H.realText q)
  | .inf => some (lit "Inf")
  | .negInf => some (lit "-Inf")
  | .text t => some t

/-- `seq = value` for an INTEGER column. -/
def matchesSeq (v : Sql) (seq : ℕ) : Bool :=
  match v with
  | .int n => n == seq
  | .real q => q == seq
  | .text t => H.number t == some (seq : ℚ)
  | _ => false

/-- `str(value)` inside a formatted string. -/
def str : Json → Text
  | .null => lit "None"
  | .bool true => lit "True"
  | .bool false => lit "False"
  | .int n => decimalInt n
  | .float .inf => lit "inf"
  | .float .negInf => lit "-inf"
  | .float .nan => lit "nan"
  | .float f => floatRepr f
  | .str t => t
  | v => H.container v

end Host

/-! ## Encoding -/

/-- `encode(frame)`: the JSON text and a line feed, refused above one frame.
Source: `peer_transport.encode` -/
def encode (frame : Json) : Except Exc Text :=
  let data := dumps frame ++ lit "\n"
  if data.length > limit then .error .valueError else .ok data

/-- The length `encode` would produce. -/
def encodedLen (frame : Json) : ℕ := dumpsLen frame + 1

/-- `len(encode(frame))`. -/
def lenEncode (frame : Json) : Except Exc ℕ := (encode frame).map List.length

/-- The length of a frame is refused above the limit and counted otherwise. -/
theorem lenEncode_eq (frame : Json) :
    lenEncode frame = if encodedLen frame > limit then .error .valueError
      else .ok (encodedLen frame) := by
  have h : (dumps frame ++ lit "\n").length = encodedLen frame := by
    have hn : (lit "\n").length = 1 := by decide
    simp [encodedLen, dumpsLen, hn]
  unfold lenEncode encode
  simp only [h]
  split
  · rfl
  · exact congrArg Except.ok h

/-- `measure(text)`: the UTF-8 width, or the encoding error. -/
def measure (t : Text) : Except Exc ℕ := if encodable t then .ok (utf8Len t) else .error .valueError

/-- `int(value)`. -/
def int : Json → Except Exc ℤ
  | .null => .error .typeError
  | .bool b => .ok (if b then 1 else 0)
  | .int n => .ok n
  | .float (.fin q) => .ok (q.num.tdiv q.den)
  | .float .negZero => .ok 0
  | .float .inf => .error .overflowError
  | .float .negInf => .error .overflowError
  | .float .nan => .error .valueError
  | .str t => match pyInt t with
    | some n => .ok n
    | none => .error .valueError
  | .arr _ => .error .typeError
  | .obj _ => .error .typeError

/-! ## Rows -/

/-- A row of `entries`. -/
structure Entry where
  seq : ℕ
  ts : ℚ
  kind : Kind
  scope : Scope
  scopeTarget : Option Text
  path : Option Text
  body : Text
  author : Option Text
  authorPid : ℕ
  consumer : Text
  revision : ℕ
  supersedes : Sql
  revokes : Sql
  supersededBy : Option ℕ
  revokedBy : Option ℕ
  conflictsWith : Option ℕ
  expires : Sql

/-- A nullable text column. -/
def optText : Option Text → Json
  | none => .null
  | some t => .str t

/-- A nullable sequence column. -/
def optSeq : Option ℕ → Json
  | none => .null
  | some n => .int n

/-- Source: `Store.FIELDS` -/
def fields : List Text :=
  [lit "seq", lit "ts", lit "type", lit "scope", lit "scope_target", lit "path", lit "body",
   lit "author", lit "author_pid", lit "consumer", lit "revision", lit "supersedes", lit "revokes",
   lit "superseded_by", lit "revoked_by", lit "conflicts_with", lit "expires"]

/-- `dict(zip(FIELDS, values))`. -/
def row (values : List Json) : Json := .obj (fields.zip values)

/-- An entry as `sync`, `snapshot_page` and `recall` encode it. Source: `Store.row` -/
def Entry.json (e : Entry) : Json :=
  row [.int e.seq, .float (.fin e.ts), .str e.kind.text, .str e.scope.text, optText e.scopeTarget,
    optText e.path, .str e.body, optText e.author, .int e.authorPid, .str e.consumer,
    .int e.revision, e.supersedes.json, e.revokes.json, optSeq e.supersededBy, optSeq e.revokedBy,
    optSeq e.conflictsWith, e.expires.json]

/-- A row of `idem`. -/
structure Idem where
  key : Text
  fingerprint : Text
  seq : ℕ
  ts : ℚ
  deadline : ℚ

/-- A row of `cursors`. -/
structure Cursor where
  consumer : Text
  seq : ℕ
  issued : ℕ
  snapshot : Option Text
  bootstrapped : Bool
  resnapshot : Bool
  updated : ℚ

/-- A row of `retired`. -/
structure Retired where
  consumer : Text
  seq : ℕ
  /-- Column `at`. -/
  retiredAt : ℚ

/-- A row of `snapshots`. The columns `acked` and `acked_at` are set together and are one optional
time here. -/
structure Snapshot where
  id : Text
  consumer : Text
  head : ℕ
  created : ℚ
  items : ℕ
  issued : ℕ
  ackedAt : Option ℚ

/-- A row of `snapshot_items`. The payload is the JSON text of the entry and is read back with
`json.loads`; it is kept as the entry. -/
structure Item where
  id : Text
  position : ℕ
  seq : ℕ
  payload : Entry
  bytes : ℕ

/-- The primary key of `snapshot_items`. -/
def Item.key (i : Item) : Text × ℕ := (i.id, i.position)

/-- The committed content of the store. -/
structure Db where
  head : ℕ
  floor : ℕ
  indexedThrough : ℤ
  storeId : Text
  entries : Table ℕ Entry Entry.seq
  idem : Table Text Idem Idem.key
  cursors : Table Text Cursor Cursor.consumer
  retired : Table Text Retired Retired.consumer
  snapshots : Table Text Snapshot Snapshot.id
  items : Table (Text × ℕ) Item Item.key
  search : List (ℕ × Text)

/-- A store as its first start leaves it. Source: `Store.__init__` -/
def Db.initial (storeId : Text) : Db where
  head := 0
  floor := 0
  indexedThrough := 0
  storeId := storeId
  entries := .empty
  idem := .empty
  cursors := .empty
  retired := .empty
  snapshots := .empty
  items := .empty
  search := []

/-- The store and its process. -/
structure World where
  /-- The committed content. -/
  db : Db
  /-- `PRAGMA page_count`. -/
  pages : ℕ
  /-- `Store.blocked`. -/
  blocked : Option Text
  /-- `Store.fts`. -/
  fts : Bool
  /-- `Store.expired_at`. -/
  expiredAt : ℚ
  /-- Questions put to the host so far. -/
  tick : ℕ

/-- A store and its process after a first start. -/
def World.initial (storeId : Text) (pages : ℕ) (fts : Bool) : World where
  db := Db.initial storeId
  pages := pages
  blocked := none
  fts := fts
  expiredAt := 0
  tick := 0

/-- A program of the store. -/
abbrev M := Effects.Prog Exc World

end PeerBridge.Memory
