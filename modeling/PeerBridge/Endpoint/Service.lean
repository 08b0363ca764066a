import PeerBridge.Runtime.Text
import PeerBridge.Runtime.Transition

/-!
# The parties around the control endpoint of a state directory

The processes that start, serve, stop and clean up the memory service of one state directory, as a
system of parties over the directory's three shared objects: the socket files, the record
`owner.json`, and the exclusive lock on `start.lock`.

Each service is named by the generation its `Service` draws, and goes through the statements of
`start`, `bind_exclusive`, `serve` and `release` one by one; each call of `stop_service` goes
through its own. Between any two statements another party may take a step, a process may die (which
drops its lock and nothing else), and unrelated processes may take and leave process ids. The
answers of the outside are part of the event: whether `verify_running` let a start go on, whether
`bind` failed although the path was free, whether `owner_is_dead` could not read a start marker, and
whether the interpreter removes the socket file of a listener it closes (newer versions do, older
ones do not).

A generation is `live` from the construction of its `Service` until its `release` returns, its start
fails or its process ends.

Source: `memory.py`, `write_owner`, `read_owner`, `owner_is_dead`, `bind_exclusive`, `start`,
`serve`, `release`, `stop_service`, and the shutdown of `Service.run`.
-/

namespace PeerBridge.Endpoint

open Py Transition

/-- `Service.generation`, a fresh identifier of each start. -/
abbrev Generation := Text

abbrev Pid := ℕ

/-- Source: `PROTOCOL` -/
def protocol : ℕ := 1

/-- The record `owner.json`. Source: `write_owner` -/
structure Owner where
  pid : Pid
  procStart : Text
  generation : Generation
  repo : Text
  protocol : ℕ
  socket : Text
  deriving DecidableEq

/-! ## The parties -/

/-- How far a service has come. The comment names the statement that comes next. -/
inductive Phase where
  /-- Not started yet. -/
  | absent
  /-- `start`: waiting for `start.lock`. -/
  | waiting
  /-- `start`, lock held: `verify_running` and the construction of the `Service`. -/
  | checking
  /-- `bind_exclusive`: `sock.bind`, first or second attempt. -/
  | binding (retry : Bool)
  /-- `bind_exclusive`: `bind` raised; the record is read. -/
  | refused (retry : Bool)
  /-- `bind_exclusive`: `write_owner`. -/
  | bound
  /-- `start`: the lock is about to be dropped. -/
  | published
  /-- `Service.run`: waiting for the stop event. -/
  | serving
  /-- `Service.run`: the listener is closed, accepted work drains. -/
  | draining
  /-- `release`: waiting for `start.lock`. -/
  | releasing
  /-- `release`, lock held: the record is read and the socket unlinked. -/
  | examining
  /-- `release`, lock held: the record is unlinked. -/
  | forgetting
  /-- `release` returned. -/
  | done
  /-- An exception, or a service already running, ended `start`. -/
  | left
  /-- The process has exited or died. -/
  | gone
  deriving DecidableEq

namespace Phase

/-- The process runs. -/
def alive : Phase → Bool
  | absent | gone => false
  | _ => true

/-- The party holds `start.lock`. -/
def locked : Phase → Bool
  | checking | binding _ | refused _ | bound | published | examining | forgetting => true
  | _ => false

/-- The record was written and its removal has not been completed. -/
def recorded : Phase → Bool
  | published | serving | draining | releasing | examining | forgetting => true
  | _ => false

/-- A generation that runs, whose start has not failed and whose `release` has not returned. -/
def live : Phase → Bool
  | binding _ | refused _ | bound => true
  | p => p.recorded

end Phase

/-- One service process. -/
structure Service where
  phase : Phase
  pid : Pid
  procStart : Text
  repo : Text

/-- How far a call of `stop_service` has come. -/
inductive Stop where
  /-- Not called yet. -/
  | idle
  /-- The record was read; the wait for its generation, without the lock. -/
  | waiting (control : Text) (generation : Generation)
  /-- Lock held: the record is read again and the socket unlinked. -/
  | examining (control : Text) (generation : Generation)
  /-- Lock held: the record is unlinked. -/
  | forgetting (generation : Generation)
  /-- Returned, raised or died. -/
  | done
  deriving DecidableEq

/-- The call holds `start.lock`. -/
def Stop.locked : Stop → Bool
  | examining _ _ | forgetting _ => true
  | _ => false

/-- A party that can hold `start.lock`. -/
inductive Party where
  | service (g : Generation)
  | stop (i : ℕ)
  /-- Processes that have nothing to do with this directory. -/
  | other
  deriving DecidableEq

/-- An entry of the kernel's process table. -/
structure Running where
  procStart : Text
  /-- The service that runs there, if one does. -/
  service : Option Generation
  deriving DecidableEq

/-- The state directory and the processes around it. -/
structure State where
  processes : Pid → Option Running
  services : Generation → Service
  stops : ℕ → Stop
  lock : Option Party
  /-- The socket files, each with the service that bound it. -/
  sockets : Text → Option Generation
  /-- `owner.json` -/
  owner : Option Owner

namespace State

/-- Source: `owner_is_dead`, where the start marker can be read -/
def ownerIsDead (s : State) (r : Owner) : Bool :=
  match s.processes r.pid with
  | none => true
  | some p => p.procStart ≠ r.procStart

def phase (s : State) (g : Generation) : Phase := (s.services g).phase

/-- A service goes on to its next statement. -/
def move (s : State) (g : Generation) (p : Phase) : State :=
  { s with services := Function.update s.services g { s.services g with phase := p } }

def moveStop (s : State) (i : ℕ) (p : Stop) : State :=
  { s with stops := Function.update s.stops i p }

/-- Taking or dropping `start.lock`. -/
def setLock (s : State) (l : Option Party) : State := { s with lock := l }

/-- Creating or unlinking a socket file. -/
def setSocket (s : State) (path : Text) (g : Option Generation) : State :=
  { s with sockets := Function.update s.sockets path g }

/-- Writing or unlinking `owner.json`. -/
def setOwner (s : State) (r : Option Owner) : State := { s with owner := r }

/-- A process id taken or left. -/
def setProcess (s : State) (pid : Pid) (p : Option Running) : State :=
  { s with processes := Function.update s.processes pid p }

/-- The record a service writes. Source: `write_owner` -/
def record (s : State) (g : Generation) (control : Text) : Owner where
  pid := (s.services g).pid
  procStart := (s.services g).procStart
  generation := g
  repo := (s.services g).repo
  protocol := protocol
  socket := control

end State

/-! ## What each statement does -/

/-- One statement of a service. -/
inductive ServiceEvent where
  /-- The process is created. -/
  | spawn (pid : Pid) (procStart repo : Text)
  /-- `start` gets the lock. -/
  | lock
  /-- `verify_running` found no service, and the `Service` was constructed. -/
  | construct
  /-- `verify_running` found a service or raised, or the construction raised. -/
  | leave
  /-- `sock.bind` succeeds. -/
  | bind
  /-- `sock.bind` raises. -/
  | bindRaises
  /-- The recorded owner is proven dead: `control.unlink`, and once more. -/
  | recover
  /-- The socket is left in place. -/
  | refuse
  /-- `write_owner` returns. -/
  | publish
  /-- `listen`, `chmod` or `write_owner` raises. -/
  | publishRaises
  /-- `start` returns. -/
  | started
  /-- `server.close()`; `cleanup` says that the interpreter removes its own socket file. -/
  | drain (cleanup : Bool)
  /-- `sock.close()` after the drain. -/
  | close
  /-- `release` gets the lock. -/
  | lockRelease
  /-- The record is missing or another generation's. -/
  | decline
  /-- The record is this generation's: `control.unlink`. -/
  | unlink
  /-- The record is unlinked and the lock dropped. -/
  | forget
  /-- The process exits. -/
  | exit
  /-- The process dies. -/
  | crash
  deriving DecidableEq

/-- One statement of a call of `stop_service`. -/
inductive StopEvent where
  /-- The record is read; `control` is what `service_path` returned. -/
  | read (repo control : Text)
  | lock
  /-- The record is missing, another generation's, or its owner is not proven dead. -/
  | decline
  /-- The recorded owner is proven dead and the socket is its own: `control.unlink`. -/
  | unlink
  | forget
  /-- The call returns or raises before it takes the lock. -/
  | finish
  | crash
  deriving DecidableEq

inductive Event where
  | service (g : Generation) (e : ServiceEvent)
  | stop (i : ℕ) (e : StopEvent)
  /-- An unrelated process takes a free process id. -/
  | arrive (pid : Pid) (procStart : Text)
  /-- An unrelated process exits. -/
  | depart (pid : Pid)
  deriving DecidableEq

/-- The party that takes the step. -/
def Event.party : Event → Party
  | service g _ => .service g
  | stop i _ => .stop i
  | arrive _ _ | depart _ => .other

/-- `owner_is_dead` and the checks beside it in `bind_exclusive`. -/
def recoverable (s : State) (control : Text) (g : Generation) (r : Owner) : Bool :=
  r.socket == control && r.repo == (s.services g).repo && r.protocol == protocol && s.ownerIsDead r

/-- The process of a service begins. -/
def State.spawn (s : State) (g : Generation) (pid : Pid) (procStart repo : Text) : State :=
  { s.setProcess pid (some ⟨procStart, some g⟩) with
    services := Function.update s.services g ⟨.waiting, pid, procStart, repo⟩ }

/-- The process of a service ends. -/
def State.finish (s : State) (g : Generation) : State :=
  (s.move g .gone).setProcess (s.services g).pid none

/-- The lock dropped by the end of the process that may hold it. -/
def State.dropLock (s : State) (p : Party) : State :=
  s.setLock (if s.lock = some p then none else s.lock)

/-- What a statement of service `g` does, where it comes next.
Source: `start`, `bind_exclusive`, `serve`, `release` -/
def serviceNext (control : Text) (s : State) (g : Generation) : ServiceEvent → Option State
  | .spawn pid procStart repo =>
      if s.phase g = .absent ∧ s.processes pid = none then
        some (s.spawn g pid procStart repo)
      else none
  | .lock =>
      if s.phase g = .waiting ∧ s.lock = none then
        some ((s.move g .checking).setLock (some (.service g)))
      else none
  | .construct => if s.phase g = .checking then some (s.move g (.binding false)) else none
  | .leave => if s.phase g = .checking then some ((s.move g .left).setLock none) else none
  | .bind =>
      match s.phase g with
      | .binding _ =>
          if s.sockets control = none then
            some ((s.move g .bound).setSocket control (some g))
          else none
      | _ => none
  | .bindRaises =>
      match s.phase g with
      | .binding retry => some (s.move g (.refused retry))
      | _ => none
  | .recover =>
      match s.owner with
      | some r =>
          if s.phase g = .refused false ∧ recoverable s control g r then
            some ((s.move g (.binding true)).setSocket control none)
          else none
      | none => none
  | .refuse =>
      match s.phase g with
      | .refused _ => some ((s.move g .left).setLock none)
      | _ => none
  | .publish =>
      if s.phase g = .bound then
        some ((s.move g .published).setOwner (some (s.record g control)))
      else none
  | .publishRaises => if s.phase g = .bound then some ((s.move g .left).setLock none) else none
  | .started => if s.phase g = .published then some ((s.move g .serving).setLock none) else none
  | .drain cleanup =>
      if s.phase g = .serving then
        if cleanup ∧ s.sockets control
          = some g then some ((s.move g .draining).setSocket control none)
        else some (s.move g .draining)
      else none
  | .close => if s.phase g = .draining then some (s.move g .releasing) else none
  | .lockRelease =>
      if s.phase g = .releasing ∧ s.lock = none then
        some ((s.move g .examining).setLock (some (.service g)))
      else none
  | .decline =>
      if s.phase g = .examining ∧ s.owner.map Owner.generation ≠ some g then
        some ((s.move g .done).setLock none)
      else none
  | .unlink =>
      if s.phase g = .examining ∧ s.owner.map Owner.generation = some g then
        some ((s.move g .forgetting).setSocket control none)
      else none
  | .forget => if s.phase g = .forgetting then some (((s.move g .done).setOwner none).setLock none)
    else none
  | .exit =>
      if s.phase g = .done ∨ s.phase g = .left then some (s.finish g) else none
  | .crash =>
      if (s.phase g).alive then some ((s.finish g).dropLock (.service g)) else none

/-- What a statement of the `i`-th call of `stop_service` does. -/
def stopNext (s : State) (i : ℕ) : StopEvent → Option State
  | .read repo control =>
      match s.owner with
      | some r =>
          if s.stops i = .idle ∧ r.repo = repo then
            some (s.moveStop i (.waiting control r.generation))
          else none
      | none => none
  | .lock =>
      match s.stops i with
      | .waiting control g =>
          if s.lock = none then
            some ((s.moveStop i (.examining control g)).setLock (some (.stop i)))
          else none
      | _ => none
  | .decline =>
      match s.stops i with
      | .examining _ _ => some ((s.moveStop i .done).setLock none)
      | _ => none
  | .unlink =>
      match s.stops i, s.owner with
      | .examining control g, some r =>
          if r.generation = g ∧ s.ownerIsDead r ∧ r.socket = control then
            some ((s.moveStop i (.forgetting g)).setSocket control none)
          else none
      | _, _ => none
  | .forget =>
      match s.stops i with
      | .forgetting _ => some (((s.moveStop i .done).setOwner none).setLock none)
      | _ => none
  | .finish =>
      match s.stops i with
      | .idle | .waiting _ _ => some (s.moveStop i .done)
      | _ => none
  | .crash => some ((s.moveStop i .done).dropLock (.stop i))

/-- What an event does. -/
def next (control : Text) (s : State) : Event → Option State
  | .service g e => serviceNext control s g e
  | .stop i e => stopNext s i e
  | .arrive pid procStart =>
      if s.processes pid = none then
        some (s.setProcess pid (some ⟨procStart, none⟩))
      else none
  | .depart pid =>
      match s.processes pid with
      | some ⟨_, none⟩ => some (s.setProcess pid none)
      | _ => none

/-- A directory nobody uses: whatever earlier services left behind, all of them are gone. -/
structure Unused (s : State) : Prop where
  lock : s.lock = none
  stops : ∀ i, s.stops i = .idle
  services : ∀ g, s.phase g = .absent ∨ s.phase g = .gone
  sockets : ∀ path g, s.sockets path = some g → s.phase g = .gone
  owner : ∀ r, s.owner = some r → s.phase r.generation = .gone

/-- The parties around one state directory whose control endpoint is `control`. -/
def system (control : Text) : System State Event := ⟨Unused, next control⟩

end PeerBridge.Endpoint
