import PeerBridge.Notify.Listing
import PeerBridge.Notify.Ledger
import PeerBridge.Runtime.Transition

/-!
# The notifier beside its bridge

The whole of it as one system: the bridge's database under any operations, the journal, the database
worker that runs one transaction after the other, the delivery loop with its suspension points, an
operator, and a process that may be cancelled or die anywhere.

* A job of the worker is a list of stages, each one transaction on the journal together with the
  snapshot it reads. The bridge may act between two stages. Within a stage the read and the commit
  are one event: the commit touches only the journal and the bridge only its own database, so a
  bridge operation between the two can be taken to come after both.
* The worker's queue is served in order. A job whose caller has stopped waiting is still carried
  out.
* Any stage may raise, before or after its commit; any suspension point may be cancelled; a crash
  loses the queue, the loop and the health, and keeps the journal and the inbox.

`Obs` is what an observer would note down of a run; the newest observation is the head of `trace`.

Source: `notification_state.py`, `notification_delivery.py`, `notification_runtime.py`
`Runtime.scan`, `Runtime.render`, `Runtime.deliver`; `notification_notices.py` `render`;
`database_worker.py`.
-/

namespace PeerBridge.Notify

open Py Relational Effects Transition PeerBridge.Service PeerBridge.Bridge

/-! ## The bridge -/

/-- The bridge's database with its past. -/
structure Inbox where
  db : Db
  /-- Every instance a binding ever had. -/
  used : List Instance
  /-- Every row ever stored. -/
  log : List Row

inductive BridgeOp where
  | store (now : ℚ) (pid : ℕ) (frame : Json)
  | acknowledge (through : ℕ)
  | bind (route : Route) (fresh : Instance)
  | unbind (key : Hex 64)
  | refresh (binding : Binding) (o : Observation) (now : ℚ)
  | acknowledgeHealth (key : Hex 64)

/-- The database after an operation, where it does not raise. -/
def BridgeOp.apply (db : Db) : BridgeOp → Except Exc Db
  | .store now pid frame => Bridge.store db now pid frame
  | .acknowledge through => .ok (Bridge.acknowledge db through)
  | .bind route fresh => (Bridge.bind db route fresh).map Prod.snd
  | .unbind key => .ok (Bridge.unbind db key)
  | .refresh binding o now => (Bridge.refresh db binding o now).map Prod.snd
  | .acknowledgeHealth key => (Bridge.acknowledgeHealth db key).map Prod.snd

/-- Instances are random: a fresh one has never been used. A bridge that keeps no bindings has no
operations on them. -/
def BridgeOp.allowed (caps : Capabilities) (b : Inbox) : BridgeOp → Prop
  | .store .. | .acknowledge _ => True
  | .bind _ fresh => caps.pointers = true ∧ fresh ∉ b.used
  | .unbind _ | .refresh .. | .acknowledgeHealth _ => caps.pointers = true

instance (caps : Capabilities) (b : Inbox) : (op : BridgeOp) → Decidable (op.allowed caps b)
  | .store .. | .acknowledge _ => inferInstanceAs (Decidable True)
  | .bind _ fresh => inferInstanceAs (Decidable (caps.pointers = true ∧ fresh ∉ b.used))
  | .unbind _ | .refresh .. | .acknowledgeHealth _ =>
    inferInstanceAs (Decidable (caps.pointers = true))

/-- The instances in use. -/
def Inbox.instances (b : Inbox) : List Instance := b.db.bindings.rows.map Binding.bindingInstance

/-- The bridge after an operation; one that raises changes nothing. -/
def Inbox.after (b : Inbox) (op : BridgeOp) : Inbox :=
  match op.apply b.db with
  | .ok db =>
      { db := db
        used := db.bindings.rows.map Binding.bindingInstance ++ b.used
        log := b.log ++ db.inbox.rows.filter fun r => b.db.head < r.seq }
  | .error _ => b

/-- A bridge whose database has just been created. -/
def Inbox.empty : Inbox := ⟨.empty, [], []⟩

/-- The bridge alone. -/
def bridge (caps : Capabilities) : System Inbox BridgeOp where
  init b := b = .empty
  next b op := if op.allowed caps b then some (b.after op) else none

/-! ## The worker -/

/-- What an observer notes down. -/
inductive Obs where
  /-- The first seeding admitted these records. -/
  | seeded (records : List Record)
  /-- A scan that was committed went from one position to another and found these rows in
  between. -/
  | scanned (after through : ℕ) (found : List Row)
  /-- A reservation of these rows was committed. -/
  | reserved (sequences : List ℕ)
  /-- The provider was called with a notice for these rows. -/
  | called (sequences : List ℕ)
  /-- The attempt with these members was resolved. -/
  | resolved (outcome : Journal.Outcome) (sequences : List ℕ)
  /-- An operator's retry of these rows was committed. -/
  | retried (sequences : List ℕ)
  /-- This row, as it was last, was removed from the journal. -/
  | folded (row : Work)

/-- One transaction on the journal, with the snapshot it reads. -/
inductive Stage where
  | recover (now : ℕ)
  | seed
  | reconcile
  | ingest (now : ℕ)
  | reserve (now : ℕ)
  | resolve (outcome : Journal.Outcome) (now : ℕ)
  | retry (sequences : List ℕ)
  | acknowledgeHealth
  deriving DecidableEq

/-- What a job returns, as far as its caller looks at it. -/
inductive Value where
  | done
  | due (sequences : List ℕ) (admission : Bool)
  | rows (rows : List Work)

/-- How a stage ends: its result, the journal as committed, and what is noted down. -/
structure Ran where
  result : Except Exc Value
  journal : Journal
  noted : List Obs

/-- A transaction that returns nothing but the new journal. -/
def transacted (j : Journal) (x : Except Exc Journal) (noted : Journal → List Obs) : Ran :=
  match x with
  | .ok j' => ⟨.ok .done, j', noted j'⟩
  | .error e => ⟨.error e, j, []⟩

/-- The rows of a journal in the making that its committed form no longer has. -/
def lost (middle j : Journal) : List Obs :=
  (middle.rows.filter fun r => (j.row r.seq).isNone).map .folded

/-- The end of an attempt. -/
def resolveStage (j : Journal) (a : Attempt) (outcome : Journal.Outcome) (now : ℕ) : Ran :=
  transacted j (j.resolve outcome now) fun j' =>
    lost (j.settleAll a.members outcome now) j' ++ [.resolved outcome a.members]

/-- Reconciliation with what a snapshot retains. -/
def reconcileStage (j : Journal) (x : Except Exc (Snapshot × List Record)) : Ran :=
  match x with
  | .error e => ⟨.error e, j, []⟩
  | .ok (s, records) => transacted j (j.reconcile s records) (lost (j.judgeAll s records))

/-- The first seeding. -/
def seedStage (j : Journal) (x : Except Exc (List Record)) : Ran :=
  match x with
  | .error e => ⟨.error e, j, []⟩
  | .ok records => transacted j (j.seedPointers records) fun _ => [.seeded records]

/-- The end of `prepare`. -/
def dueOf (caps : Capabilities) (j : Journal) (now : ℕ) (admission : Bool) : Except Exc Value :=
  (j.due now caps.pointers).map (.due · admission)

/-- The rows of the inbox a scan has covered. -/
def covered (db : Db) (after through : ℕ) : List Row :=
  db.inbox.rows.filter fun r => after < r.seq && r.seq ≤ through

/-- A scan taken in. Existing work can still complete and free capacity, so a full table is not an
exception here. -/
def ingestStage (caps : Capabilities) (db : Db) (j : Journal) (now : ℕ) (x : Except Exc Scanned) :
    Ran :=
  match x with
  | .error e => ⟨.error e, j, []⟩
  | .ok s =>
      match j.admitAll s, j.ingest s with
      | .ok m, .ok j' =>
          ⟨dueOf caps j' now false, j', lost m j' ++
            [.scanned j.enumeratedThrough s.through (covered db j.enumeratedThrough s.through)]⟩
      | _, .error e =>
          if e = .journal .capacity then ⟨dueOf caps j now true, j, []⟩ else ⟨.error e, j, []⟩
      | .error _, .ok j' => ⟨dueOf caps j' now false, j', []⟩

/-- The reservation of what is due. -/
def reserveStage (caps : Capabilities) (j : Journal) (now : ℕ) : Ran :=
  match j.due now caps.pointers with
  | .error e => ⟨.error e, j, []⟩
  | .ok sequences =>
      if sequences.isEmpty then ⟨.ok (.rows []), j, []⟩
      else match j.reserve sequences now with
        | .ok (rows, j') => ⟨.ok (.rows rows), j', [.reserved sequences]⟩
        | .error e => ⟨.error e, j, []⟩

/-- What a stage does; an exception leaves the journal as far as it was committed. -/
def runStage (caps : Capabilities) (db : Db) (j : Journal) : Stage → Ran
  | .recover now =>
      match j.attempt with
      | none => ⟨.ok .done, j, []⟩
      | some a => resolveStage j a .unknown now
  | .seed =>
      if j.pointersSeeded then ⟨.ok .done, j, []⟩
      else seedStage j (if caps.pointers then readSeed caps db else .ok [])
  | .reconcile => reconcileStage j (retained caps db (j.rows.map Work.seq))
  | .ingest now => ingestStage caps db j now (scan caps db j.enumeratedThrough)
  | .reserve now => reserveStage caps j now
  | .resolve outcome now =>
      match j.attempt with
      | none => ⟨.error (.journal .noAttempt), j, []⟩
      | some a => resolveStage j a outcome now
  | .retry sequences => transacted j (j.retry sequences) fun _ => [.retried sequences]
  | .acknowledgeHealth => transacted j j.acknowledgeHealth fun _ => []

/-- Source: `NotificationState.ready` -/
def readyJob (now : ℕ) : List Stage := [.recover now, .seed]

/-- Source: `NotificationState.prepare` -/
def prepareJob (now : ℕ) : List Stage := [.reconcile, .ingest now]

/-- Source: `NotificationState.reserve_next` -/
def reserveJob (now : ℕ) : List Stage := [.reconcile, .reserve now]

/-- Source: `NotificationState.resolve` -/
def resolveJob (outcome : Journal.Outcome) (now : ℕ) : List Stage := [.resolve outcome now]

/-- Source: `NotificationState.retry` -/
def retryJob (sequences : List ℕ) : List Stage := [.reconcile, .retry sequences]

/-- Source: `NotificationState.acknowledge_health` -/
def acknowledgeJob : List Stage := [.acknowledgeHealth]

/-- Who waits for a job. -/
inductive Owner where
  | loop
  | operator
  | nobody
  deriving DecidableEq

/-- A job the worker has accepted, with the stages it still has to run. -/
structure Entry where
  stages : List Stage
  owner : Owner
  deriving DecidableEq

/-! ## Notices -/

/-- What a notice says; its fixed texts are left out. -/
inductive Notice where
  | peers (count first last : ℕ)
  | pointer (seq : ℕ) (binding : Binding)

/-- Strictly increasing. -/
def increasing : List ℕ → Bool
  | a :: b :: rest => a < b && increasing (b :: rest)
  | _ => true

/-- The checks on a group of rows. -/
def goodGroup (first : Work) (rows : List Work) : Bool :=
  rows.length ≤ maxMembers && rows.all (fun w => 1 ≤ w.seq && w.seq ≤ maxSequence)
    && increasing (rows.map Work.seq) && rows.all (fun w => w.isPeer = first.isPeer)

/-- Source: `notification_notices.render` -/
def render (rows : List Work) (bindings : List Listed) : Except Exc Notice :=
  match rows with
  | [] => .error .value
  | first :: rest =>
      if !goodGroup first rows then .error .value
      else match first.origin with
        | .peer => .ok (.peers rows.length first.seq (rows.getLast?.getD first).seq)
        | .pointer key inst =>
            if !rest.isEmpty then .error .value
            else match bindings.find? (fun l => l.key = key) with
              | some l =>
                  if l.binding.bindingInstance = inst then .ok (.pointer first.seq l.binding)
                  else .error .lookup
              | none => .error .lookup

/-- A group of rows that needs the bindings for its notice. -/
def needsBindings (rows : List Work) : Bool :=
  match rows with
  | [] => false
  | first :: _ => !first.isPeer

/-- Source: `Runtime.render`; requests for pages that were not answered found no bridge -/
def renderWith (rows : List Work) (answers : List PageAnswer) : Except Exc Notice := do
  let bindings ← if needsBindings rows then listBindings fun n => answers.getD n .unreachable
    else .ok []
  render rows bindings

/-! ## The delivery loop -/

/-- Where the delivery loop is suspended. -/
inductive Phase where
  | idle
  /-- Waiting for the worker. -/
  | ready
  | prepare
  | reserve (admission : Bool)
  /-- Listing the bindings; the answers so far. -/
  | render (rows : List Work) (admission : Bool) (answers : List PageAnswer)
  /-- The notice is rendered and the provider not yet called. -/
  | deliver (rows : List Work) (admission : Bool) (notice : Notice)
  /-- The provider has been called. -/
  | calling (rows : List Work) (admission : Bool)
  | resolve (admission : Bool)

/-- Source: the attributes of `DeliveryLoop` -/
structure Loop where
  started : Bool
  unresolved : Bool
  phase : Phase

/-- Source: `DeliveryLoop.__init__` -/
def Loop.new : Loop := ⟨false, false, .idle⟩

/-- The bridge, the notifier and what has been observed. -/
structure World where
  bridge : Inbox
  journal : Journal
  queue : List Entry
  loop : Loop
  health : Health
  trace : List Obs

namespace World

def setPhase (w : World) (p : Phase) : World := { w with loop := { w.loop with phase := p } }

/-- A step of the loop ends with an exception. Source: `Runtime.scan` -/
def raise (w : World) (e : Exc) : World :=
  { w.setPhase .idle with health := w.health.recordFailure e }

/-- A step of the loop ends normally. Source: `Runtime.scan` -/
def finish (w : World) (admission : Bool) : World :=
  { w.setPhase .idle with
    health := { w.health with reason := if admission then some .journalCapacity else none } }

/-- The loop asks the worker for a job, which refuses when its queue is full. -/
def post (w : World) (stages : List Stage) (p : Phase) (full : Bool) : World :=
  if full then w.raise .capacity
  else { w.setPhase p with queue := w.queue ++ [⟨stages, .loop⟩] }

/-- The loop after the result of the job it was waiting for; `now` is the clock at its next request.
Source: `DeliveryLoop.step` -/
def resume (w : World) (r : Except Exc Value) (now : ℕ) (full : Bool) : World :=
  match r with
  | .error e => w.raise e.settle
  | .ok v =>
      match w.loop.phase, v with
      | .ready, _ =>
          { w with loop := { w.loop with started := true, unresolved := false } }.post
            (prepareJob now) .prepare full
      | .prepare, .due sequences admission =>
          if sequences.isEmpty then w.finish admission
          else { w with loop := { w.loop with unresolved := true } }.post
            (reserveJob now) (.reserve admission) full
      | .reserve admission, .rows rows =>
          if rows.isEmpty then
            { w with loop := { w.loop with unresolved := false } }.finish false
          else w.setPhase (.render rows admission [])
      | .resolve admission, _ =>
          { w with loop := { w.loop with unresolved := false } }.finish admission
      | _, _ => w.raise .other

/-- An exception of an operator's request is recorded where it says something about the store.
Source: `Runtime.handle` -/
def refuseOperator (w : World) (e : Exc) : World :=
  let recorded := { w with health := w.health.recordFailure e }
  match e with
  | .journal code =>
      if code.policy.2.isSome || code.policy.1 = .operatorAction || code.policy.1
        = .capacity then recorded
      else w
  | .source _ | .workerFailure .. => recorded
  | _ => if e.isValueError || e.isOSError then w else recorded

/-- The result of a job goes to whoever still waits for it. -/
def answer (w : World) (owner : Owner) (r : Except Exc Value) (now : ℕ) (full : Bool) : World :=
  match owner with
  | .loop => w.resume r now full
  | .operator =>
      match r with
      | .ok _ => w
      | .error e => w.refuseOperator e.settle
  | .nobody => w

/-- The worker's result goes to whoever waits, unless the job has stages left. `failure` is an
exception from outside, before the stage or after its commit. -/
def work (caps : Capabilities) (w : World) (failure : Option (Exc × Bool)) (now : ℕ) (full : Bool) :
    Option World :=
  match w.queue with
  | [] => none
  | ⟨[], _⟩ :: rest => some { w with queue := rest }
  | ⟨stage :: stages, owner⟩ :: rest =>
      let dropped := { w with queue := rest }
      match failure with
      | some (e, false) => some (dropped.answer owner (.error e) now full)
      | failure =>
          let ran := runStage caps w.bridge.db w.journal stage
          let w' := { dropped with
            journal := ran.journal
            trace := ran.noted ++ w.trace }
          match ran.result, failure with
          | .error e, _ => some (w'.answer owner (.error e) now full)
          | .ok _, some (e, _) => some (w'.answer owner (.error e) now full)
          | .ok v, none =>
              if stages.isEmpty then some (w'.answer owner (.ok v) now full)
              else some { w' with queue := ⟨stages, owner⟩ :: rest }

/-- The step of the loop is cancelled; what it has asked for is still carried out. -/
def cancel (w : World) : World :=
  { w.setPhase .idle with
    queue := w.queue.map fun e => if e.owner = .loop then { e with owner := .nobody } else e }

/-- The process dies and another one is started. -/
def crash (w : World) : World :=
  { w with
    queue := []
    loop := .new
    health := .starting }

end World

/-- How a request for a page ends. -/
inductive PageReply where
  | unreachable
  | refused
  | malformed
  /-- It is answered, with what the bridge has seen last of each service. -/
  | answered (seen : Binding → Seen)

/-- The answer when the bridge has this database. -/
def PageReply.answer (db : Db) : PageReply → PageAnswer
  | .unreachable => .unreachable
  | .refused => .refused
  | .malformed => .malformed
  | .answered seen => .database db seen

/-- What can happen next. -/
inductive WorldEvent where
  | bridge (op : BridgeOp)
  /-- A scan begins a step of the loop. -/
  | begin (now : ℕ) (full : Bool)
  /-- The worker runs one stage. -/
  | work (failure : Option (Exc × Bool)) (now : ℕ) (full : Bool)
  /-- A request for a page ends. -/
  | page (reply : PageReply)
  /-- The notice is rendered, or cannot be. -/
  | rendered
  /-- The provider is called. -/
  | call
  /-- The provider returns. -/
  | outcome (o : Journal.Outcome) (now : ℕ) (full : Bool)
  /-- The provider adapter raises. -/
  | providerFails
  | cancel
  | crash
  | operatorRetry (sequences : List ℕ)
  | operatorAcknowledge

/-- What an event does, where it can occur. -/
def World.next (caps : Capabilities) (w : World) : WorldEvent → Option World
  | .bridge op => if op.allowed caps w.bridge then some { w with bridge := w.bridge.after op }
    else none
  | .begin now full =>
      match w.loop.phase with
      | .idle =>
          if w.health.internalFault || w.health.operatorBlocked || maxSequence < now then none
          else if !w.loop.started || w.loop.unresolved then some (w.post (readyJob now) .ready full)
          else some (w.post (prepareJob now) .prepare full)
      | _ => none
  | .work failure now full => if maxSequence < now then none else w.work caps failure now full
  | .page reply =>
      match w.loop.phase with
      | .render rows admission answers =>
          some (w.setPhase (.render rows admission (answers ++ [reply.answer w.bridge.db])))
      | _ => none
  | .rendered =>
      match w.loop.phase with
      | .render rows admission answers =>
          match renderWith rows answers with
          | .ok notice => some (w.setPhase (.deliver rows admission notice))
          | .error e => some (w.raise e)
      | _ => none
  | .call =>
      match w.loop.phase with
      | .deliver rows admission _ =>
          some { w.setPhase (.calling rows admission) with
            trace := .called (rows.map Work.seq) :: w.trace }
      | _ => none
  | .outcome o now full =>
      match w.loop.phase with
      | .calling _ admission =>
          if maxSequence < now then none
          else some (w.post (resolveJob o now) (.resolve admission) full)
      | _ => none
  | .providerFails =>
      match w.loop.phase with
      | .calling .. => some (w.raise .other)
      | _ => none
  | .cancel => some w.cancel
  | .crash => some w.crash
  | .operatorRetry sequences =>
      some { w with queue := w.queue ++ [⟨retryJob sequences, .operator⟩] }
  | .operatorAcknowledge => some { w with queue := w.queue ++ [⟨acknowledgeJob, .operator⟩] }

/-- A notifier that has just activated its journal, beside a bridge with any past. -/
def World.initial (caps : Capabilities) (w : World) : Prop :=
  (Notify.bridge caps).Reachable w.bridge
    ∧ (∃ p nonce through lost, through ≤ maxSequence
      ∧ w.journal = { Journal.initial p nonce through lost with activationConfirmed := true })
    ∧ w.queue = [] ∧ w.loop = .new ∧ w.health = .starting ∧ w.trace = []

/-- The notifier beside its bridge. -/
def notifier (caps : Capabilities) : System World WorldEvent where
  init := World.initial caps
  next := World.next caps

end PeerBridge.Notify
