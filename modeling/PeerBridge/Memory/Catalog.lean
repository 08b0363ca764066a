import PeerBridge.Memory.Commands

/-!
# Judging a file before the first write

`Store.__init__` opens whatever file stands at the path of a store. It reads the catalog and the
identity rows, decides what the file is (`classify`, `inspect`), and only then applies the settings
that write the header (`configure`), creates the schema or migrates the identity. This module models
that sequence on a file with an arbitrary catalog: rows of any type with any name and any
definition, any contents, and an engine that may fail at every read and at every write.

`Opening.writes` counts what was written to the file, the header included. Behind the schema follow
the search index and its reconciliation, which `reopen` models on an initialised store. The texts of
engine errors are left out of the messages.

Source: `memory.py`, `SCHEMA_STATEMENTS`, `normalised_sql`, `Store.__init__`, `classify`,
`identity`, `application_rows`, `inspect`, `configure`, `require_temp_in_memory`.
-/

namespace PeerBridge.Memory.Catalog

open Py Effects

/-! ## Definitions as texts -/

/-- `text.split()`: the words between runs of white space. -/
def splitWords (t : Text) : List Text := (t.splitOnP isSpace).filter fun word => !word.isEmpty

/-- `text.replace(part, '')`; `skip` characters belong to an occurrence already removed. -/
def removeAll (part : Text) : ℕ → Text → Text
  | _, [] => []
  | skip + 1, _ :: rest => removeAll part skip rest
  | 0, c :: rest =>
      if part.isPrefixOf (c :: rest) then removeAll part (part.length - 1) rest
      else c :: removeAll part 0 rest

/-- What follows the first occurrence: `text.split(part, 1)[1]`. -/
def afterFirst (part : Text) : Text → Text
  | [] => []
  | c :: rest => if part.isPrefixOf (c :: rest) then (c :: rest).drop part.length
    else afterFirst part rest

/-- `text.casefold()`: ASCII letters, and a table for the other characters. -/
def casefold (table : CodePoint → Text) (t : Text) : Text :=
  t.flatMap fun c => if c.val < 0x80 then [foldCase c] else table c

/-- Source: `normalised_sql` -/
def normalisedSql (table : CodePoint → Text) (sql : Option Text) : Text :=
  removeAll (lit "if not exists ") 0
  (casefold table ((lit " ").intercalate (splitWords (sql.getD []))))

/-- Source: `SCHEMA_STATEMENTS` -/
def schemaStatements : List Text :=
  [lit "CREATE TABLE IF NOT EXISTS meta(" ++ lit "key TEXT PRIMARY KEY, value TEXT)",
   lit "\nCREATE TABLE IF NOT EXISTS entries(" ++ lit ("\n" ++
    "    seq INTEGER PRIMARY KEY, ts REAL, type TEXT, scope TEXT, scope_target TEXT, path TEXT,\n"
    ++
    "    body TEXT, author TEXT, author_pid INTEGER, consumer TEXT, revision INTEGER,\n" ++
    "    supersedes INTEGER, revokes INTEGER, superseded_by INTEGER, revoked_by INTEGER,\n" ++
    "    conflicts_with INTEGER, expires REAL)"),
   lit "CREATE TABLE IF NOT EXISTS idem(" ++ lit ("\n" ++
    "    key TEXT PRIMARY KEY, fingerprint TEXT, seq INTEGER, ts REAL, deadline REAL)"),
   lit "CREATE TABLE IF NOT EXISTS cursors(" ++ lit ("\n" ++
    "    consumer TEXT PRIMARY KEY, seq INTEGER, issued INTEGER, snapshot TEXT,\n" ++
    "    bootstrapped INTEGER, resnapshot INTEGER, updated REAL)"),
   lit "CREATE TABLE IF NOT EXISTS retired("
   ++ lit "consumer TEXT PRIMARY KEY, seq INTEGER, at REAL)",
   lit "CREATE TABLE IF NOT EXISTS snapshots(" ++ lit ("\n" ++
    "    id TEXT PRIMARY KEY, consumer TEXT, head INTEGER, created REAL, items INTEGER,\n" ++
    "    issued INTEGER, acked INTEGER, acked_at REAL)"),
   lit "CREATE TABLE IF NOT EXISTS snapshot_items(" ++ lit ("\n" ++
    "    id TEXT, position INTEGER, seq INTEGER, payload TEXT, bytes INTEGER,\n" ++
    "    PRIMARY KEY(id, position))"),
   lit "CREATE INDEX IF NOT EXISTS entries_live ON entries("
   ++ lit "superseded_by, revoked_by, expires)"]

/-- `statement.split('EXISTS', 1)[1].split('(', 1)[0].split()[0]`. -/
def statementName (statement : Text) : Text :=
  (splitWords ((afterFirst (lit "EXISTS") statement).takeWhile fun c => c.val ≠ 0x28)).headD []

/-- Source: `DATA_TABLES` -/
def dataTables : List Text :=
  [lit "entries", lit "snapshot_items", lit "snapshots", lit "cursors", lit "retired", lit "idem"]

/-- Source: `FTS_TABLE` -/
def ftsTable : Text := lit "search"

/-- Source: `FTS_TABLE_SQL` -/
def ftsTableSql : Text :=
  lit "CREATE VIRTUAL TABLE IF NOT EXISTS search USING fts5(body, content=\"\")"

/-- Source: `FTS_SHADOWS` -/
def ftsShadows : List Text :=
  [lit "search_config", lit "search_data", lit "search_docsize", lit "search_idx"]

/-- `text LIKE pattern`: `_` stands for one character, `%` for any number of them, and ASCII letters
match in either case. -/
def like : Text → Text → Bool
  | [], t => t.isEmpty
  | c :: pattern, t =>
      if c.val = 0x25 then t.tails.any fun rest => like pattern rest
      else match t with
        | [] => false
        | d :: rest => (c.val = 0x5f || foldCase c = foldCase d) && like pattern rest

/-! ## The file -/

/-- The type of a catalog row. -/
inductive ObjectType where
  | table | index | view | trigger
  deriving DecidableEq

/-- A row of `sqlite_master`. An automatic index has no text. -/
structure CatalogRow where
  type : ObjectType
  name : Text
  sql : Option Text
  deriving DecidableEq

/-- A value read from a column. -/
inductive Cell where
  | null
  | int (n : ℤ)
  | real (q : ℚ)
  | inf
  | text (t : Text)
  | blob (bytes : List (Fin 256))
  deriving DecidableEq

/-- A database file. `identity` is what `SELECT key,value FROM meta WHERE key IN
('repo','schema','protocol')` returns, `storeId` the row for `store_id`, `rows` the number of rows
of a table, and `header` says that the settings of a store are in the header. -/
structure File where
  objects : List CatalogRow
  identity : List (Text × Cell)
  storeId : Option Cell
  rows : Text → ℕ
  header : Bool

/-- Reading and writing at one moment. `locked` is the `OperationalError` that another owner
causes. -/
inductive Access where
  | granted | locked | failed
  deriving DecidableEq

/-- What the engine and the runtime answer. -/
structure Driver where
  /-- Case folding outside ASCII. -/
  fold : CodePoint → Text
  access : ℕ → Access
  compileOptions : List Text
  /-- The value a pragma reads back as. -/
  setting : Text → Cell
  uuid : Text
  /-- `type(exc).__name__` of what a read raised before the given moment. -/
  errorClass : ℕ → Text
  /-- `str(exc)` of it. -/
  errorText : ℕ → Text

/-- The refusal codes of an opening. -/
inductive OpenCode where
  | storeBusy | incompatibleStore | wrongRepository | schemaTooNew | schemaTooOld | storeTooLarge
  | unsupportedRuntime
  deriving DecidableEq

/-- What an opening raises. -/
inductive OpenExc where
  | refused (code : OpenCode) (detail : Text)
  | sqlite (locked : Bool)
  | valueError
  | overflowError
  | typeError
  | keyError
  deriving DecidableEq

/-- The file at one moment of an opening, and how often it was written to. -/
structure Opening where
  file : File
  tick : ℕ
  writes : ℕ

/-- Steps of an opening. -/
abbrev Open := Prog OpenExc Opening

section opening

variable (E : Driver)

/-- A statement that reads. -/
def readFile {α : Type} (f : File → α) : Open α := fun s =>
  match E.access s.tick with
  | .granted => (.ok (f s.file), { s with tick := s.tick + 1 })
  | .locked => (.error (.sqlite true), { s with tick := s.tick + 1 })
  | .failed => (.error (.sqlite false), { s with tick := s.tick + 1 })

/-- A transaction that writes; one that fails leaves the file as it was. -/
def writeFile (f : File → File) : Open Unit := fun s =>
  match E.access s.tick with
  | .granted => (.ok (), { file := f s.file, tick := s.tick + 1, writes := s.writes + 1 })
  | .locked => (.error (.sqlite true), { s with tick := s.tick + 1 })
  | .failed => (.error (.sqlite false), { s with tick := s.tick + 1 })

/-- `type(exc).__name__` of what a read has raised. -/
def className : Open Text := fun s => (.ok (E.errorClass s.tick), s)

/-- `f'{type(exc).__name__}: {exc}'` of what a read has raised. -/
def errorLine : Open Text := fun s =>
  (.ok (E.errorClass s.tick ++ lit ": " ++ E.errorText s.tick), s)

/-- `raise MemoryError_(code, detail)`. -/
def refuseOpen {α : Type} (code : OpenCode) (detail : Text) : Open α := throw (.refused code detail)

/-! ## Classification -/

/-- The rows `classify` looks at: `WHERE name NOT LIKE 'sqlite_%'`. -/
def File.seen (f : File) : List CatalogRow :=
  f.objects.filter fun o => !like (lit "sqlite_%") o.name

/-- The message for a store another owner holds. -/
def busyDetail : Text :=
  lit ("another owner holds this store. The service keeps one exclusive connection so that " ++
  "its storage bound holds, so a second reader is refused rather than admitted; reach it " ++
  "through the control socket. Nothing was written")

/-- The names of the tables among some rows. -/
def tableNames (objects : List CatalogRow) : List Text :=
  (objects.filter fun o => o.type == .table).map CatalogRow.name

/-- Source: `Store.identity` -/
def identityRows (present : List Text) : Open (List (Text × Cell)) :=
  if !present.contains (lit "meta") then return []
  else tryCatch (readFile E File.identity) fun exc =>
    match exc with
    | .sqlite _ => do
      let line ← errorLine E
      refuseOpen .incompatibleStore
        (lit "this file has a metadata table that could not be read (" ++ line
          ++ lit "), so its identity is unknown and it cannot be adopted; it was left untouched")
    | exc => throw exc

/-- Source: `Store.application_rows`, over the tables that are left to look at -/
def applicationRows (present : List Text) : List Text → Open (Option Text)
  | [] => return none
  | table :: rest =>
      if !present.contains table then applicationRows present rest
      else do
        let count ← tryCatch (readFile E fun f => f.rows table) fun exc =>
          match exc with
          | .sqlite _ => do
            let line ← errorLine E
            refuseOpen .incompatibleStore (lit "this file has a " ++ table
              ++ lit " table that could not be read (" ++ line
              ++ lit ("), so whether it holds data is unknown and it cannot be adopted; it was " ++
                "left untouched"))
          | exc => throw exc
        if count ≠ 0 then return some (decimal count ++ lit " row(s) in " ++ table)
        else applicationRows present rest

/-- The definitions of this schema under the names they are compared by. -/
def expectedSql : List (Text × Text) :=
  schemaStatements.map fun s => (statementName s, normalisedSql E.fold (some s))

/-- The virtual table of the index. -/
def CatalogRow.isSearch (o : CatalogRow) : Bool :=
  o.name == ftsTable && normalisedSql E.fold o.sql == normalisedSql E.fold (some ftsTableSql)

/-- What the loop over the rows says about one of them: it is unknown, differently defined, or
ours. -/
inductive Finding where
  | unknown | malformed | ours
  deriving DecidableEq

/-- The body of the loop. -/
def findObject (ftsPresent : Bool) (o : CatalogRow) : Finding :=
  if o.name == ftsTable then if ftsPresent then .ours else .malformed
  else if ftsShadows.contains o.name then if ftsPresent then .ours else .unknown
  else match (expectedSql E).find? fun p => p.1 == o.name with
    | none => .unknown
    | some p => if normalisedSql E.fold o.sql == p.2 then .ours else .malformed

/-- The names the loop collects: `unknown`, `malformed`. -/
def namesFound (kind : Finding) (objects : List CatalogRow) : List Text :=
  (objects.filter fun o => findObject E (objects.any fun o => o.isSearch E) o == kind).map
  CatalogRow.name

/-- `', '.join(sorted(names)[:4])`. -/
def firstNames (names : List Text) : Text :=
  (lit ", ").intercalate ((names.insertionSort fun a b => a ≤ b).take 4)

/-- What a file is. -/
inductive Verdict where
  | empty | unfinished | initialised
  deriving DecidableEq

/-- Source: `Store.classify` -/
def classify : Open Verdict := do
  let objects ← tryCatch (readFile E File.seen) fun exc =>
    match exc with
    | .sqlite true => refuseOpen .storeBusy busyDetail
    | .sqlite false => do
      let line ← errorLine E
      refuseOpen .incompatibleStore (lit "this file's schema could not be read (" ++ line
        ++ lit "), so it cannot be judged; it was left untouched")
    | exc => throw exc
  if objects.isEmpty then return .empty
  else
    let identity ← identityRows E (tableNames objects)
    if !identity.isEmpty then return .initialised
    else if !(namesFound E .unknown objects).isEmpty then
      refuseOpen .incompatibleStore (lit "this file holds objects this store does not own ("
        ++ firstNames (namesFound E .unknown objects)
        ++ lit "), so it belongs to another application; it was left untouched")
    else if !(namesFound E .malformed objects).isEmpty then
      refuseOpen .incompatibleStore (lit "this file defines "
        ++ firstNames (namesFound E .malformed objects)
        ++ lit (" differently from this schema, so it is not an unfinished store of ours; it " ++
          "was left untouched"))
    else
      match ← applicationRows E (tableNames objects) dataTables with
      | some held => refuseOpen .incompatibleStore (lit "this file holds data (" ++ held
          ++ lit (") but records no repository identity, so it cannot be adopted; it was left " ++
            "untouched"))
      | none => return .unfinished

/-! ## Inspection -/

/-- Source: `PROTOCOL` -/
def protocolVersion : ℤ := 1

/-- Source: `SCHEMA` -/
def schemaVersion : ℤ := 4

/-- `dict(rows).get(key)`: the last row for a key counts. -/
def lookupLast (rows : List (Text × Cell)) (key : Text) : Option Cell :=
  (rows.reverse.find? fun p => p.1 == key).map Prod.snd

/-- `int(value)`. -/
def cellInt : Cell → Except OpenExc ℤ
  | .null => .error .typeError
  | .int n => .ok n
  | .real q => .ok (if q < 0 then ⌈q⌉ else ⌊q⌋)
  | .inf => .error .overflowError
  | .text t => match pyInt t with
    | some n => .ok n
    | none => .error .valueError
  | .blob bytes =>
      if bytes.any fun b => b.val ≥ 0x80 then .error .valueError
      else match pyInt (bytes.map fun b => Fin.ofNat _ b.val) with
        | some n => .ok n
        | none => .error .valueError

/-- `int(value or 0)`. -/
def cellIntOr : Option Cell → Except OpenExc ℤ
  | none => .ok 0
  | some .null => .ok 0
  | some (.text []) => .ok 0
  | some (.blob []) => .ok 0
  | some v => cellInt v

/-- The comparison of one version. -/
def checkVersion (rows : List (Text × Cell)) (key : Text) (current : ℤ) : Open Unit := do
  let found ← Prog.lift (cellIntOr (lookupLast rows key))
  if found > current then
    refuseOpen .schemaTooNew (lit "this store declares " ++ key ++ lit " " ++ decimalInt found
      ++ lit "; this runtime supports " ++ decimalInt current
      ++ lit ". Upgrade the runtime rather than downgrading the store. Nothing was written")
  else if found < current ∧ ¬ (key = lit "schema" ∧ found = 3) then
    refuseOpen .schemaTooOld (lit "this store declares " ++ key ++ lit " " ++ decimalInt found
      ++ lit "; this runtime expects " ++ decimalInt current
      ++ lit " and has no migration for it. Nothing was written")

/-- A text of 32 lower-case hexadecimal digits. -/
def validStoreId : Option Cell → Bool
  | some (.text t) => t.length == 32 && t.all fun c => (lit "0123456789abcdef").contains c
  | _ => false

/-- `rows['schema']`. -/
def schemaOf (rows : List (Text × Cell)) : Except OpenExc ℤ :=
  match lookupLast rows (lit "schema") with
  | some v => cellInt v
  | none => .error .keyError

/-- Source: `Store.inspect` -/
def inspect (repo : Text) : Open Unit := do
  let rows ← tryCatch (readFile E File.identity) fun exc =>
    match exc with
    | .sqlite true => refuseOpen .storeBusy busyDetail
    | .sqlite false => do
      let name ← className E
      refuseOpen .incompatibleStore (lit "this file is not a memory store (" ++ name
        ++ lit "); it was left untouched")
    | exc => throw exc
  if lookupLast rows (lit "repo") ≠ some (.text repo) then
    refuseOpen .wrongRepository
      (lit "state directory belongs to another repository; it was left untouched")
  else
    checkVersion rows (lit "schema") schemaVersion
    checkVersion rows (lit "protocol") protocolVersion
    let storeId ← readFile E File.storeId
    let schema ← Prog.lift (schemaOf rows)
    if schema = 3 then
      if (storeId.getD .null) ≠ .null then
        refuseOpen .incompatibleStore (lit "legacy store has unexpected identity metadata")
    else if !validStoreId storeId then
      refuseOpen .incompatibleStore
        (lit "store identity is missing or invalid; it was left untouched")

/-! ## Settings -/

/-- The compile-time setting of temporary storage: the last one reported counts. -/
def tempStore (options : List Text) : ℤ :=
  options.foldl (fun setting option =>
    if (lit "TEMP_STORE=").isPrefixOf option then (pyInt (afterFirst (lit "=") option)).getD (-1)
      else setting) 1

/-- Source: `Store.require_temp_in_memory` -/
def requireTempInMemory : Open Unit := do
  let options ← readFile E fun _ => E.compileOptions
  let setting := tempStore options
  if setting ≠ 1 ∧ setting ≠ 2 ∧ setting ≠ 3 then
    refuseOpen .unsupportedRuntime (lit "this SQLite build reports TEMP_STORE="
      ++ decimalInt setting
      ++ lit (", on which temp_store cannot keep sub-journals in memory, so their size is " ++
        "unbounded and unaccounted. Nothing was written"))

/-- Source: `Store.pragmas`: the name, the value it is set to and the value it must read back as. -/
def pragmas : List (Text × Cell × Cell) :=
  [(lit "locking_mode", .text (lit "EXCLUSIVE"), .text (lit "exclusive")),
   (lit "auto_vacuum", .text (lit "INCREMENTAL"), .int 2),
   (lit "page_size", .int 4096, .int 4096),
   (lit "journal_mode", .text (lit "WAL"), .text (lit "wal")),
   (lit "cache_spill", .text (lit "OFF"), .int 0),
   (lit "temp_store", .text (lit "MEMORY"), .int 2),
   (lit "max_page_count", .int maxPages, .int maxPages)]

/-- `repr(value)` of the values that occur in settings. -/
def reprCell : Cell → Text
  | .int n => decimalInt n
  | .text t => lit "'" ++ t ++ lit "'"
  | _ => lit "None"

/-- Setting a pragma. The journal mode is written to the header. -/
def applyPragma (name : Text) : Open Unit :=
  if name = lit "journal_mode" then writeFile E fun f => { f with header := true }
  else readFile E fun _ => ()

def applyPragmas : List (Text × Cell × Cell) → Open Unit
  | [] => return ()
  | (name, _, _) :: rest => do
      applyPragma E name
      applyPragmas rest

/-- Every setting is read back. A refusal prints the value that was set last, whichever setting it
is about: the source's loop over the values has left it in its variable. -/
def checkPragmas (value : Cell) : List (Text × Cell × Cell) → Open Unit
  | [] => return ()
  | (name, _, expected) :: rest => do
      let got ← readFile E fun _ => E.setting name
      if got = expected then checkPragmas value rest
      else if name = lit "max_page_count" then
        refuseOpen .storeTooLarge (lit "this store holds " ++ reprCell got
          ++ lit " pages and the supported ceiling is "
          ++ reprCell expected
          ++ lit ("; it was left untouched. Export what is needed from it with an older runtime " ++
            "rather than truncating it"))
      else
        refuseOpen .unsupportedRuntime (lit "PRAGMA " ++ name ++ lit " reads back as "
          ++ reprCell got
          ++ lit " after being set to " ++ reprCell value ++ lit "; the storage bound requires "
          ++ reprCell expected
          ++ lit ". Nothing was written")

/-- Source: `Store.configure` -/
def configure : Open Unit := do
  requireTempInMemory E
  applyPragmas E pragmas
  checkPragmas E (.int maxPages) pragmas

/-! ## Opening -/

/-- A statement `CREATE ... IF NOT EXISTS`. -/
def File.create (f : File) (statement : Text) : File :=
  if f.objects.any fun o => o.name == statementName statement then f
  else
    { f with
      objects :=
        f.objects ++ [⟨if (lit "CREATE INDEX").isPrefixOf statement then .index else .table,
        statementName statement, some statement⟩] }

/-- `set_meta` for one of the identity keys. -/
def File.setIdentity (key value : Text) (f : File) : File :=
  { f with identity := f.identity.filter (fun p => p.1 != key) ++ [(key, .text value)] }

/-- The schema and the rows that identify it. -/
def File.initialise (repo uuid : Text) (f : File) : File :=
  let f := schemaStatements.foldl File.create f
  let f := f.setIdentity (lit "repo") repo
  let f := f.setIdentity (lit "protocol") (decimalInt protocolVersion)
  let f := f.setIdentity (lit "schema") (decimalInt schemaVersion)
  { f with storeId := some (.text uuid) }

/-- The identity of a store of the previous schema. -/
def File.migrate (uuid : Text) (f : File) : File :=
  { f.setIdentity (lit "schema") (decimalInt schemaVersion) with storeId := some (.text uuid) }

/-- `int(self.meta('schema'))`: the first row for a key counts. -/
def metaSchema (rows : List (Text × Cell)) : Except OpenExc ℤ :=
  cellInt (((rows.find? fun p => p.1 == lit "schema").map Prod.snd).getD .null)

/-- The steps of an opening, up to the search index. -/
def openSteps (repo : Text) : Open Unit := do
  readFile E fun _ => ()
  let state ← classify E
  if state = .initialised then inspect E repo
  configure E
  if state ≠ .initialised then writeFile E (File.initialise repo E.uuid)
  else
    let rows ← readFile E File.identity
    let schema ← Prog.lift (metaSchema rows)
    if schema = 3 then writeFile E (File.migrate E.uuid)

/-- Source: `Store.__init__` -/
def openStore (repo : Text) : Open Unit :=
  tryCatch (openSteps E repo) fun exc =>
    match exc with
    | .sqlite true =>
      refuseOpen .storeBusy
        (lit ("another owner holds this store. The service keeps one exclusive " ++
        "connection so that its storage bound holds, so a second owner is refused rather than " ++
        "admitted; reach it through the control socket. Nothing was written"))
    | exc => throw exc

end opening

end PeerBridge.Memory.Catalog
