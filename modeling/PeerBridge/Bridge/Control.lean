import PeerBridge.Hints.Handshake

/-!
# The bridge's control socket

One request to the control socket of a bridge, from the handler's admission to its reply: which
requests become subscriptions, what each operation asks of the database worker and of the bound
memory service, and which code a failure is reported under.

Everything outside the bridge is a `Host` of the request: whether the worker takes a job, what
SQLite raises inside it, what `resolve`, `observe` and `send` come to, and whether the deadline of
the request passes. A job the worker has accepted is completed even when its caller has stopped
waiting.

Source: `bridge.py` `Bridge.handle`, `Bridge.command`, `InboxStore.command`; `memory_bindings.py`
`page`, `OPERATIONS`.
-/

namespace PeerBridge.Bridge

open Py Relational Effects PeerBridge.Service PeerBridge.Hints
open PeerBridge.Memory (Fault limit)

/-! ## Listing bindings -/

/-- What the bridge has seen last of a binding's service. -/
structure Seen where
  state : Text
  reason : Json

/-- A binding in a reply. -/
def Binding.json (b : Binding) (seen : Seen) : Json :=
  .obj [(lit "binding", .str b.binding.val), (lit "repo_path", .str b.repoPath),
    (lit "repo_key", .str b.repoKey.val), (lit "memory_state_dir", .str b.memoryStateDir),
    (lit "binding_instance", .str b.bindingInstance.val.val),
    (lit "observed_store", match b.observed with | some o => .str o.1.val | none => .null),
    (lit "observed_head", match b.observed with | some o => .int o.2 | none => .null),
    (lit "anomalies", .int b.anomalies), (lit "service_state", .str seen.state),
    (lit "service_reason", seen.reason)]

/-- `len(encode(dict(bindings=items)))` -/
def bindingsSize (items : List Json) : ℕ := dumpsLen (.obj [(lit "bindings", .arr items)]) + 1

/-- The encoded list stays below the limit of a reply. -/
def fits (seen : Binding → Seen) (items : List Binding) : Bool :=
  bindingsSize (items.map fun b => b.json (seen b)) ≤ limit - 1024

/-- The loop of `page`: items are taken while they fit. -/
def takePage (seen : Binding → Seen) : List Binding → List Binding → Except Exc (List Binding)
  | taken, [] => .ok taken
  | taken, b :: rest =>
      if fits seen (taken ++ [b]) then takePage seen (taken ++ [b]) rest
      else if taken.isEmpty then .error (.binding .bindingRowTooLarge)
      else .ok taken

/-- `ORDER BY binding` -/
def orderedBindings (db : Db) : List Binding :=
  db.bindings.rows.mergeSort fun a b => a.binding.val ≤ b.binding.val

/-- The bindings behind a cursor, as many as fit, and `more`. -/
def pageAfter (db : Db) (seen : Binding → Seen) (after : Text) :
    Except Exc (List Binding × Bool) := do
  let pending := (orderedBindings db).filter fun b => after < b.binding.val
  let taken ← takePage seen [] pending
  return (taken, decide (taken.length < pending.length))

/-- Source: `memory_bindings.page`; a false cursor that is not a text cannot be compared with a
key -/
def page (db : Db) (seen : Binding → Seen) (after : Json) : Except Exc (List Binding × Bool) :=
  if after.truthy then
    match Hex.of? 64 after with
    | some key => pageAfter db seen key.val
    | none => .error (.binding .invalidBindingCursor)
  else if after.isText [] then pageAfter db seen []
  else if db.bindings.rows.isEmpty then .ok ([], false)
  else .error .other

/-! ## The request's surroundings -/

/-- What can become of a job before it has a result. -/
inductive Obstacle where
  /-- The worker's queue is full. -/
  | full
  /-- The worker is closing. -/
  | closed
  /-- The job raises, for a reason outside the model of the operation. -/
  | raised (e : Exc)

/-- What the outside answers to one request. -/
structure Host where
  /-- The worker call that looks a binding up. -/
  lookup : Option Obstacle
  /-- The worker call that carries the operation out. -/
  job : Option Obstacle
  resolve : Json → Json → Except Exc Route
  observe : Route → Except Exc Observation
  send : Object → Except Exc Unit
  seen : Binding → Seen
  now : ℚ
  fresh : Instance
  subscription : Hex 32
  /-- The deadline of the request passes before it is answered. -/
  timesOut : Bool

/-- A running bridge. Source: the attributes of `Bridge` -/
structure State where
  generation : Text
  db : Db
  hints : HintHub
  admission : Admission
  closing : Bool
  stop : Bool

abbrev M := Prog Exc State

/-- Source: `DatabaseWorker.call` -/
def call {α : Type} (obstacle : Option Obstacle) (job : Db → Except Exc (α × Db)) : M α := fun b =>
  match obstacle with
  | some .full => (.error .capacity, b)
  | some .closed => (.error .workerClosed, b)
  | some (.raised e) => (.error e.settle, b)
  | none =>
      match job b.db with
      | .ok (a, db) => (.ok a, { b with db := db })
      | .error e => (.error e.settle, b)

/-! ## Operations -/

/-- What an operation returns. The texts of a status reply and of an inbox page are left out. -/
inductive Result where
  | status (state : Option Db)
  | sent
  | rows (after : ℕ)
  | acknowledged
  | activated (a : Activation)
  | bound (b : Binding)
  | removed
  | refreshed (changed : Bool)
  | cleared (anomalies : ℕ)
  | bindings (items : List Binding) (more : Bool)
  | stopping

/-- Source: `memory_bindings.OPERATIONS` -/
def bindingOperations : List Text :=
  [lit "bind-memory", lit "unbind-memory", lit "refresh-memory", lit "memory-bindings",
   lit "ack-binding-health"]

/-- `isinstance(value, str) and value.isascii() and value.isdecimal()` -/
def asciiDecimal (t : Text) : Bool := !t.isEmpty && t.all fun c => 0x30 ≤ c.val && c.val ≤ 0x39

/-- The position of an `inbox` or `ack` request: a nonnegative integer, or its decimal text. -/
def position (v : Json) : Except Exc ℕ :=
  match v with
  | .int n => if 0 ≤ n then .ok n.toNat else .error .value
  | .str t =>
      if asciiDecimal t then
        match pyInt t with
        | some n => .ok n.toNat
        | none => .error .value
      else .error .value
  | _ => .error .value

/-- The fields of an activation request. Source: `inbox_schema.activate` -/
def activationRequest (r : Object) (rebuilding : Bool) : Except Exc ActivationRequest :=
  let allowed := [lit "op", lit "target_digest", lit "nonce"]
    ++ if rebuilding then [lit "expected_previous_nonce", lit "accept_history_loss"] else []
  match Hex.of? 64 (r.get (lit "target_digest")), Hex.of? 32 (r.get (lit "nonce")) with
  | some target, some nonce =>
      let expected := Hex.of? 32 (r.get (lit "expected_previous_nonce"))
      let accepted := match r.get (lit "accept_history_loss") with
        | .bool b => b
        | _ => false
      if rebuilding && (!accepted || expected.isNone) then .error .value
      else if !r.all fun m => allowed.contains m.1 then .error .value
      else .ok ⟨⟨target, nonce⟩, if rebuilding then expected else none⟩
  | _, _ => .error .value

/-- The key of a request on one binding; a value that is none is refused as an invalid binding. -/
def bindingKey (v : Json) : Except Exc (Hex 64) :=
  match Hex.of? 64 v with
  | some key => .ok key
  | none => .error (.binding .invalidBinding)

/-- The operations on one binding. Source: `Bridge.command` -/
def bindingCommand (H : Host) (op : Text) (key : Json) : M Result :=
  if op = lit "ack-binding-health" then do
    let n ← call H.job fun db => do
      let key ← bindingKey key
      acknowledgeHealth db key
    return .cleared n
  else if op = lit "unbind-memory" then do
    call H.job fun db => do
      let key ← bindingKey key
      return ((), unbind db key)
    return .removed
  else do
    let binding ← call H.lookup fun db => do
      let key ← bindingKey key
      let b ← getBinding db key
      return (b, db)
    let observation ← Prog.lift (H.observe binding.route)
    let changed ← call H.job fun db => refresh db binding observation H.now
    return .refreshed changed

/-- Source: `Bridge.command` -/
def command (H : Host) (r : Object) : M Result :=
  match r.get (lit "op") with
  | .str op =>
      if op = lit "status" then do
        let b ← get
        return .status (if H.job.isNone then some b.db else none)
      else if op = lit "send" then do
        Prog.lift (H.send r)
        return .sent
      else if op = lit "inbox" then do
        let after ← Prog.lift (position (r.getD (lit "after") (.int 0)))
        call H.job fun db => .ok ((), db)
        return .rows (min after maxSequence)
      else if op = lit "ack" then do
        if !r.has (lit "through") then throw Exc.value
        let through ← Prog.lift (position (r.get (lit "through")))
        call H.job fun db => .ok ((), acknowledge db through)
        return .acknowledged
      else if op = lit "activate-notification-journal"
          ∨ op = lit "rebuild-notification-journal-activation" then do
        let a ← call H.job fun db => do
          let request ← activationRequest r (op = lit "rebuild-notification-journal-activation")
          activate db request
        return .activated a
      else if op = lit "bind-memory" then do
        if !sameFields r [lit "op", lit "repo_path", lit "memory_state_dir"] then
          throw (Exc.binding .invalidBindingRequest)
        let route ← Prog.lift (H.resolve (r.get (lit "repo_path")) (r.get (lit "memory_state_dir")))
        let _ ← Prog.lift (H.observe route)
        let b ← call H.job fun db => bind db route H.fresh
        return .bound b
      else if op = lit "unbind-memory" ∨ op = lit "refresh-memory"
        ∨ op = lit "ack-binding-health" then
        if !sameFields r [lit "op", lit "binding"] then throw (Exc.binding .invalidBindingRequest)
        else bindingCommand H op (r.get (lit "binding"))
      else if op = lit "memory-bindings" then do
        if !r.all fun m => [lit "op", lit "after"].contains m.1 then
          throw (Exc.binding .invalidBindingRequest)
        let (items, more) ← call H.job fun db => do
          let p ← page db H.seen (r.getD (lit "after") (.str []))
          return (p, db)
        return .bindings items more
      else if op = lit "stop" then do
        modify fun b => { b with stop := true }
        return .stopping
      else throw Exc.value
  | _ => throw Exc.value

/-! ## The handler -/

/-- The code of an error reply. -/
inductive ReplyCode where
  | binding (code : BindingCode)
  | capacity
  | rejected
  | fault (f : Fault)
  deriving DecidableEq

/-- Source: the code chosen in `Bridge.handle` -/
def replyCode : Exc → ReplyCode
  | .binding code => .binding code
  | .capacity => .capacity
  | .workerFailure f _ => .fault f
  | e => if e.isValueError || e.isOSError then .rejected else .fault .internalError

/-- How a control request ends. -/
inductive Handled where
  /-- The connection was handed to `HintHub.serve`, which wrote this reply. -/
  | subscribed (identity : Identity)
  | ok (result : Result)
  | error (code : ReplyCode)

/-- The operation of a request, where it is a text. -/
def operation (request : Json) : Option Text :=
  match request with
  | .obj r =>
      match Object.get r (lit "op") with
      | .str op => some op
      | _ => none
  | _ => none

/-- What a failure is answered with; a request on bindings that runs out of time has its own
code. -/
def failed (op : Option Text) (e : Exc) : Handled :=
  if e = .timeout ∧ op.any bindingOperations.contains then .error (.binding .bindingTimeout)
  else .error (replyCode e)

/-- One control request, on the `i`-th connection. Source: `Bridge.handle` with `control=True` -/
def handle (H : Host) (i : ℕ) (request : Json) (b : State) : Handled × State :=
  if b.closing then (.error .capacity, b)
  else match b.admission.enter .handshake with
  | .error e => (.error (replyCode e), b)
  | .ok _ =>
      match request with
      | .obj r =>
          if operation request = some (lit "subscribe-inbox") then
            match validate r b.generation none with
            | .error e => (.error (replyCode e), b)
            | .ok () =>
                match b.hints.serve i H.subscription with
                | .error e => (.error (replyCode e), b)
                | .ok (hub, identity) => (.subscribed identity, { b with hints := hub })
          else
            let place := if operation request = some (lit "status") ∨ operation request
              = some (lit "stop")
              then Place.control else Place.ordinary
            match b.admission.enter place with
            | .error e => (.error (replyCode e), b)
            | .ok _ =>
                match command H r b with
                | (.ok result, b') =>
                    if H.timesOut then (failed (operation request) .timeout, b')
                      else (.ok result, b')
                | (.error e, b') =>
                    (failed (operation request) (if H.timesOut then .timeout else e), b')
      | _ => (.error .rejected, b)

end PeerBridge.Bridge
