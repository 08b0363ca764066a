import PeerBridge.Service.Worker

/-!
# The bridge's inbox

The committed content of `inbox.sqlite3` and the operations the bridge's database worker runs on it:
storing a peer frame, acknowledging, binding and unbinding a memory service, refreshing a binding
with an observation of that service, and recording the activation of a notification journal. Each is
one transaction: an exception leaves the content as it was.

Hexadecimal keys carry their form in their type, as the table checks do: a binding is named by 64
digits, each lifetime of it by a fresh instance of 32, and a memory pointer holds both. A row is a
peer frame or a pointer, never half of each (`Origin`).

Source: `inbox_schema.py`, `memory_bindings.py`, `bridge.py` `InboxStore`.
-/

namespace PeerBridge.Bridge

open Py Relational PeerBridge.Service

/-! ## Identifiers -/

/-- Source: `MAX_SEQUENCE` -/
def maxSequence : ℕ := 2 ^ 63 - 1

/-- A lower-case hexadecimal digit. -/
def isHexDigit (c : CodePoint) : Bool :=
  (0x30 ≤ c.val && c.val ≤ 0x39) || (0x61 ≤ c.val && c.val ≤ 0x66)

/-- Source: `hex_value`, for a text -/
def hexValue (t : Text) (n : ℕ) : Bool := t.length == n && t.all isHexDigit

/-- A key is written as it is. -/
theorem escapedLen_hex {t : Text} {n : ℕ} (h : hexValue t n = true) : escapedLen t = n := by
  have hwidth : ∀ c : CodePoint, isHexDigit c = true → escapeWidth c = 1 := by
    intro c hc
    simp only [isHexDigit, Bool.or_eq_true, Bool.and_eq_true, decide_eq_true_eq] at hc
    have h1 : (c.val == 0x22) = false := by rw [beq_eq_false_iff_ne]; omega
    have h2 : (c.val == 0x5c) = false := by rw [beq_eq_false_iff_ne]; omega
    have h3 : (0x20 ≤ c.val && c.val ≤ 0x7e) = true := by
      simp only [Bool.and_eq_true, decide_eq_true_eq]
      omega
    rw [escapeWidth, escape, h1, h2, h3]
    rfl
  simp only [hexValue, Bool.and_eq_true, beq_iff_eq, List.all_eq_true] at h
  rw [escapedLen, List.map_congr_left fun c hc => hwidth c (h.2 c hc), List.map_const',
    List.sum_replicate, h.1]
  simp

/-- A text `hex_value` accepts. -/
abbrev Hex (n : ℕ) := { t : Text // hexValue t n = true }

/-- Reading a text of a request as a key. -/
def Hex.of? (n : ℕ) : Json → Option (Hex n)
  | .str t => if h : hexValue t n = true then some ⟨t, h⟩ else none
  | _ => none

/-- One digit repeated. -/
def Hex.ofDigit (n d : ℕ) : Hex n :=
  ⟨List.replicate n (hexDigit (d % 16)), by
    have hdigit : ∀ k < 16, isHexDigit (hexDigit k) = true := by decide
    simp [hexValue, hdigit (d % 16) (Nat.mod_lt d (by decide))]⟩

/-- One lifetime of a binding, never the default of the column. -/
abbrev Instance := { t : Hex 32 // t.val ≠ List.replicate 32 0x30 }

/-- The instance of ones. -/
def Instance.ones : Instance := ⟨.ofDigit 32 1, by decide⟩

/-! ## Rows -/

/-- `kind`, `binding` and `binding_instance` of an inbox row. -/
inductive Origin where
  | peer
  | pointer (binding : Hex 64) (bindingInstance : Instance)
  deriving DecidableEq

/-- A row of `inbox`. -/
structure Row where
  seq : ℕ
  received : ℚ
  pid : ℕ
  frame : Json
  origin : Origin

/-- A row of `memory_binding`. Source: `memory_bindings.FIELDS` -/
structure Binding where
  binding : Hex 64
  repoPath : Text
  repoKey : Hex 16
  memoryStateDir : Text
  bindingInstance : Instance
  /-- `observed_store` and `observed_head`, null together. -/
  observed : Option (Hex 32 × ℕ)
  anomalies : ℕ
  deriving DecidableEq

/-- Source: the value of `journal_activation` -/
structure Activation where
  targetDigest : Hex 64
  nonce : Hex 32
  deriving DecidableEq

/-- The committed content of the inbox database. -/
structure Db where
  inbox : Table ℕ Row Row.seq
  /-- `allocated_head`: the last sequence ever allocated. -/
  head : ℕ
  ackThrough : ℕ
  activation : Option Activation
  bindings : Table (Hex 64) Binding Binding.binding

/-- A database just created. -/
def Db.empty : Db := ⟨.empty, 0, 0, none, .empty⟩

/-- A row that is a peer frame. -/
def Row.isPeer (r : Row) : Bool := r.origin = .peer

/-- A pointer to the given binding. -/
def Row.pointsTo (key : Hex 64) (r : Row) : Bool :=
  match r.origin with
  | .peer => false
  | .pointer k _ => k = key

/-- The binding a row points to. -/
def Row.target? (r : Row) : Option (Hex 64) :=
  match r.origin with
  | .peer => none
  | .pointer k _ => some k

/-- The target of a row is the binding it points to. -/
theorem Row.target?_eq_some {r : Row} {k : Hex 64} : r.target? = some k ↔ r.pointsTo k = true := by
  unfold Row.target? Row.pointsTo
  rcases r.origin with _ | ⟨k', i⟩
  · simp
  · simp

/-- `INSERT INTO inbox`: the key is one above every key ever allocated. -/
def Db.insert (db : Db) (received : ℚ) (pid : ℕ) (frame : Json) (origin : Origin) : Except Exc Db :=
  if maxSequence ≤ db.head then .error (.sqlite false)
  else .ok { db with
    inbox := db.inbox.put ⟨db.head + 1, received, pid, frame, origin⟩
    head := db.head + 1 }

/-! ## Frames and acknowledgements -/

/-- Source: `InboxStore.store`, the limit of one frame -/
def maxFrame : ℕ := 65536

/-- Source: `InboxStore.store`, the limit of peer rows -/
def maxPeerRows : ℕ := 1000

/-- A well-formed `user` frame: its message is an object with content that is not blank. -/
def validUser (frame : Object) : Bool :=
  match frame.get (lit "message") with
  | .obj msg =>
      match Object.get msg (lit "content") with
      | .str content => !(strip content).isEmpty
      | _ => false
  | _ => false

/-- The checks `store` makes on a frame. The frame's encoding ends in a line feed. -/
def acceptFrame (frame : Json) : Except Exc Unit :=
  match frame with
  | .obj f =>
      if maxFrame < dumpsLen frame + 1 then .error .value
      else if (Object.get f (lit "type")).isText (lit "user") then
        if validUser f then .ok () else .error .value
      else if (Object.get f (lit "type")).isText (lit "control") then .ok ()
      else .error .value
  | _ => .error .value

/-- Source: `InboxStore.store` -/
def store (db : Db) (now : ℚ) (pid : ℕ) (frame : Json) : Except Exc Db :=
  match acceptFrame frame with
  | .error e => .error e
  | .ok () =>
      if maxPeerRows ≤ (db.inbox.rows.filter Row.isPeer).length then .error .value
      else db.insert now pid frame .peer

/-- Source: `inbox_schema.acknowledge` -/
def acknowledge (db : Db) (through : ℕ) : Db :=
  let through := min through db.head
  { db with
    inbox := db.inbox.remove fun r => r.seq ≤ through
    ackThrough := max through db.ackThrough }

/-! ## Bindings -/

/-- Source: `MAX_BINDINGS` -/
def maxBindings : ℕ := 16

/-- What `resolve` found: the first four of `FIELDS`. -/
structure Route where
  binding : Hex 64
  repoPath : Text
  repoKey : Hex 16
  memoryStateDir : Text
  deriving DecidableEq

/-- The first four of `FIELDS`. -/
def Binding.route (b : Binding) : Route := ⟨b.binding, b.repoPath, b.repoKey, b.memoryStateDir⟩

/-- Source: `memory_bindings.get` -/
def getBinding (db : Db) (key : Hex 64) : Except Exc Binding :=
  match db.bindings.find key with
  | some b => .ok b
  | none => .error (.binding .bindingNotFound)

/-- Source: `memory_bindings.bind`; `fresh` is `uuid.uuid4().hex` -/
def bind (db : Db) (route : Route) (fresh : Instance) : Except Exc (Binding × Db) :=
  match db.bindings.find route.binding with
  | some b => .ok (b, db)
  | none =>
      if maxBindings ≤ db.bindings.rows.length then .error (.binding .bindingCapacity)
      else
        let b : Binding :=
          ⟨route.binding, route.repoPath, route.repoKey, route.memoryStateDir, fresh, none, 0⟩
        .ok (b, { db with bindings := db.bindings.put b })

/-- Source: `memory_bindings.unbind` -/
def unbind (db : Db) (key : Hex 64) : Db :=
  { db with
    inbox := db.inbox.remove (Row.pointsTo key)
    bindings := db.bindings.remove fun b => b.binding = key }

/-- What `observe` recorded of the bound memory service. -/
structure Observation where
  storeId : Hex 32
  head : ℕ
  pid : ℕ
  deriving DecidableEq

/-- The anomaly bits after an observation: one for a replaced store, one for a head that went
back. -/
def anomaliesAfter (b : Binding) (o : Observation) : ℕ :=
  match b.observed with
  | none => b.anomalies
  | some (storeId, head) =>
      if storeId ≠ o.storeId then b.anomalies ||| 1
      else if o.head < head then b.anomalies ||| 2
      else b.anomalies

/-- The frame of a pointer row. -/
def pointerFrame (key : Hex 64) : Json :=
  .obj [(lit "type", .str (lit "memory-pointer")), (lit "binding", .str key.val)]

/-- `UPDATE memory_binding SET observed_store, observed_head, anomalies` -/
def Db.setObserved (db : Db) (key : Hex 64) (observed : Option (Hex 32 × ℕ)) (anomalies : ℕ) : Db :=
  { db with
    bindings := db.bindings.update (fun b => b.binding = key)
      (fun b => { b with observed := observed, anomalies := anomalies }) (fun _ => rfl) }

/-- Source: `memory_bindings.refresh`; returns whether anything changed -/
def refresh (db : Db) (binding : Binding) (o : Observation) (now : ℚ) : Except Exc (Bool × Db) :=
  match getBinding db binding.binding with
  | .error e => .error e
  | .ok current =>
      if current.route ≠ binding.route then .error (.binding .bindingChanged)
      else if current.bindingInstance ≠ binding.bindingInstance then
        .error (.binding .bindingInstanceChanged)
      else if (current.observed, current.anomalies) ≠ (binding.observed, binding.anomalies) then
        .error (.binding .bindingObservationChanged)
      else if current.observed = some (o.storeId, o.head) then .ok (false, db)
      else
        let cleared := { db with inbox := db.inbox.remove (Row.pointsTo current.binding) }
        match cleared.insert now o.pid (pointerFrame current.binding)
            (.pointer current.binding current.bindingInstance) with
        | .error e => .error e
        | .ok db' =>
            .ok (true, db'.setObserved current.binding (some (o.storeId, o.head))
              (anomaliesAfter current o))

/-- Source: `memory_bindings.acknowledge_health`; returns the cleared bits -/
def acknowledgeHealth (db : Db) (key : Hex 64) : Except Exc (ℕ × Db) :=
  match getBinding db key with
  | .error e => .error e
  | .ok b => .ok (b.anomalies, db.setObserved key b.observed 0)

/-! ## Journal activation -/

/-- A request to record an activation. The rebuilding form names the nonce it replaces. -/
structure ActivationRequest where
  activation : Activation
  /-- `expected_previous_nonce`, in a rebuild. -/
  rebuilding : Option (Hex 32)
  deriving DecidableEq

/-- Source: `inbox_schema.activate`, the transaction -/
def activate (db : Db) (r : ActivationRequest) : Except Exc (Activation × Db) :=
  let recorded : Except Exc (Activation × Db) :=
    .ok (r.activation, { db with activation := some r.activation })
  match db.activation, r.rebuilding with
  | none, none => recorded
  | none, some _ => .error .value
  | some previous, expected =>
      if previous.targetDigest ≠ r.activation.targetDigest then .error .value
      else if previous = r.activation then .ok (r.activation, db)
      else match expected with
        | none => .error .value
        | some nonce => if previous.nonce = nonce then recorded else .error .value

end PeerBridge.Bridge
