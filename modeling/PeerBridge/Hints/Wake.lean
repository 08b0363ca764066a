import PeerBridge.Hints.Hub
import PeerBridge.Runtime.Transition

/-!
# Hints reach every subscriber

A service commits changes on its database thread and tells its event loop; the event loop puts hints
into the queues of its subscriptions; each subscription writes a frame for a hint, and also every
thirty seconds without one; the subscriber turns a frame into an entry of its own queue, and rescans
the durable state when it takes that entry, and also every two seconds without one.

The steps are those between which another thread, task or process can run. On the database thread
the commit and the callback that schedules `publish` are two statements. A queue is read by a task
of its own: the task takes the entry in one step and the coroutine that waits for it goes on in a
later one. When the wait times out first, the task is cancelled; the entry, if one has arrived
meanwhile, stays in the queue. Connections end at any time, and a subscriber may connect again.

Main result `no_lost_wake`: on an established subscription, when nothing is under way between the
last commit and the subscriber, the last completed rescan began after that commit; and a publication
always belongs to a commit already made. The hand-overs from a statement or a task to the next one
count as under way (`quiet_but_stale` shows a state where only such a hand-over is left).

Source: `subscriptions.py`, `HintHub`, `HintConnection.changed`, `watch_changes`; the callbacks
after a commit in `memory.py` `Store.transaction` and `bridge.py` `InboxStore`.
-/

namespace PeerBridge.Hints

open Py Transition

/-! ## The parties -/

/-- How far the service's coroutine for a connection has come. Source: `HintHub.serve` -/
inductive Serve where
  /-- No connection yet. -/
  | absent
  /-- The handshake reply is written and being flushed. -/
  | greeting
  /-- Waiting for the task that reads the queue. -/
  | waiting
  /-- The task has taken a hint from the queue. -/
  | taken
  /-- The task has taken the end mark. -/
  | stopped
  /-- The wait timed out: the task is being cancelled. -/
  | cancelling
  /-- A frame is written and being flushed. -/
  | writing
  /-- Returned; the queue is not the hub's any more. -/
  | ended
  deriving DecidableEq

/-- The connection is being served. -/
def Serve.open : Serve → Bool
  | absent | ended => false
  | _ => true

inductive Frame where
  /-- The reply to the handshake. -/
  | identity
  /-- A change hint. -/
  | changed
  deriving DecidableEq

structure Connection where
  serve : Serve
  /-- The subscriber that opened it. -/
  client : ℕ
  /-- Frames written and not read yet, buffers at both ends included. -/
  wire : List Frame

/-- The subscriber's reading side. Source: `pump` in `watch_changes` -/
inductive Pump where
  | idle
  /-- The request is sent. -/
  | connecting (c : ℕ)
  | listening (c : ℕ)
  deriving DecidableEq

/-- The subscriber's main loop. Source: `watch_changes` -/
inductive Watch where
  /-- Waiting for the task that reads the queue. -/
  | waiting
  /-- The task has taken the entry. -/
  | taken
  /-- The wait timed out: the task is being cancelled. -/
  | cancelling
  /-- `rescan` runs. -/
  | scanning
  deriving DecidableEq

structure Client where
  pump : Pump
  /-- The queue `changed` holds its entry. -/
  changed : Bool
  watch : Watch
  /-- The commits made when the last rescan began. -/
  began : Option ℕ
  /-- The commits made when the last completed rescan began. -/
  completed : Option ℕ

structure State where
  hub : HintHub
  /-- The changes committed so far. -/
  commits : ℕ
  /-- The database thread is between a commit and its callback. -/
  notifying : Bool
  /-- The scheduled calls of `publish`, each with the number of its commit. -/
  scheduled : List ℕ
  /-- The commits whose call of `publish` has run. -/
  published : List ℕ
  connections : ℕ → Connection
  clients : ℕ → Client

namespace State

def setServe (s : State) (c : ℕ) (v : Serve) : State :=
  { s with connections := Function.update s.connections c { s.connections c with serve := v } }

def setWire (s : State) (c : ℕ) (w : List Frame) : State :=
  { s with connections := Function.update s.connections c { s.connections c with wire := w } }

def setHub (s : State) (h : HintHub) : State := { s with hub := h }

def setClient (s : State) (j : ℕ) (v : Client) : State :=
  { s with clients := Function.update s.clients j v }

/-- The end of a connection, and the queue it leaves. -/
def endServe (s : State) (c : ℕ) : State := (s.setServe c .ended).setHub (s.hub.discard c)

/-- A hint frame is written. -/
def write (s : State) (c : ℕ) : State :=
  (s.setServe c .writing).setWire c ((s.connections c).wire ++ [.changed])

end State

/-! ## What each step does -/

inductive Event where
  /-- A commit that moves the head, on the database thread. -/
  | commit
  /-- `notify_committed`, after the commit. -/
  | notify
  /-- The event loop runs a scheduled `publish`. -/
  | publish
  /-- `HintHub.close` -/
  | close
  /-- Subscriber `j` opens connection `c`, and `serve` accepts it. -/
  | connect (j c : ℕ)
  /-- The handshake reply is flushed. -/
  | greeted (c : ℕ)
  /-- The task of connection `c` takes the entry of its queue. -/
  | take (c : ℕ)
  /-- The coroutine goes on after the task. -/
  | resume (c : ℕ)
  /-- The wait for the task times out. -/
  | heartbeat (c : ℕ)
  /-- The cancelled task has ended. -/
  | cancelled (c : ℕ)
  /-- The frame is flushed. -/
  | drained (c : ℕ)
  /-- The connection fails or the subscriber has closed it. -/
  | hangup (c : ℕ)
  /-- The subscriber reads the handshake reply. -/
  | greet (c : ℕ)
  /-- The subscriber reads a hint frame. -/
  | hear (c : ℕ)
  /-- The subscriber's connection fails. -/
  | lose (j : ℕ)
  /-- The subscriber's task takes the entry of its queue. -/
  | clientTake (j : ℕ)
  /-- The subscriber's wait times out. -/
  | clientTimeout (j : ℕ)
  /-- `rescan` begins. -/
  | scan (j : ℕ)
  /-- `rescan` returns. -/
  | scanned (j : ℕ)
  deriving DecidableEq

/-- After a flush: another turn of the loop, unless the hub was closed. -/
def State.again (s : State) (c : ℕ) : State :=
  if s.hub.closed then s.endServe c else s.setServe c .waiting

/-- What an event does. -/
def next (s : State) : Event → Option State
  | .commit =>
      if s.notifying then none else some { s with commits := s.commits + 1, notifying := true }
  | .notify =>
      if s.notifying then
        some { s with
          notifying := false
          scheduled := if s.hub.loop then s.scheduled ++ [s.commits] else s.scheduled }
      else none
  | .publish =>
      match s.scheduled with
      | [] => none
      | v :: rest =>
          some { s.setHub s.hub.publish with scheduled := rest, published := v :: s.published }
  | .close => some (s.setHub s.hub.close)
  | .connect j c =>
      if (s.clients j).pump = .idle ∧ (s.connections c).serve = .absent then
        match s.hub.install c with
        | .ok h =>
            some { s with
              hub := h
              connections := Function.update s.connections c ⟨.greeting, j, [.identity]⟩
              clients := Function.update s.clients j { s.clients j with pump := .connecting c } }
        | .error _ => none
      else none
  | .greeted c =>
      if (s.connections c).serve = .greeting then some ((s.setHub s.hub.flushed).again c) else none
  | .take c =>
      if (s.connections c).serve = .waiting then
        match s.hub.slot c with
        | some .hint => some ((s.setServe c .taken).setHub (s.hub.take c))
        | some .ending => some ((s.setServe c .stopped).setHub (s.hub.take c))
        | _ => none
      else none
  | .resume c =>
      match (s.connections c).serve with
      | .taken => some (s.write c)
      | .stopped => some (s.endServe c)
      | _ => none
  | .heartbeat c =>
      if (s.connections c).serve = .waiting then some (s.setServe c .cancelling) else none
  | .cancelled c => if (s.connections c).serve = .cancelling then some (s.write c) else none
  | .drained c => if (s.connections c).serve = .writing then some (s.again c) else none
  | .hangup c =>
      match (s.connections c).serve with
      | .absent | .ended => none
      | .greeting => some ((s.setHub s.hub.flushed).endServe c)
      | _ => some (s.endServe c)
  | .greet c =>
      match (s.connections c).wire with
      | .identity :: rest =>
          let j := (s.connections c).client
          if (s.clients j).pump = .connecting c then
            some ((s.setWire c rest).setClient j
              { s.clients j with pump := .listening c, changed := true })
          else none
      | _ => none
  | .hear c =>
      match (s.connections c).wire with
      | .changed :: rest =>
          let j := (s.connections c).client
          if (s.clients j).pump = .listening c then
            some ((s.setWire c rest).setClient j { s.clients j with changed := true })
          else none
      | _ => none
  | .lose j => some (s.setClient j { s.clients j with pump := .idle })
  | .clientTake j =>
      if (s.clients j).watch = .waiting ∧ (s.clients j).changed then
        some (s.setClient j { s.clients j with changed := false, watch := .taken })
      else none
  | .clientTimeout j =>
      if (s.clients j).watch = .waiting then
        some (s.setClient j { s.clients j with watch := .cancelling })
      else none
  | .scan j =>
      if (s.clients j).watch = .taken ∨ (s.clients j).watch = .cancelling then
        some (s.setClient j { s.clients j with watch := .scanning, began := some s.commits })
      else none
  | .scanned j =>
      if (s.clients j).watch = .scanning then
        some (s.setClient j { s.clients j with watch := .waiting, completed :=
          (s.clients j).began })
      else none

/-- A service before its first subscription, and subscribers before their first rescan. -/
structure Fresh (s : State) : Prop where
  hub : ∃ generation, s.hub = HintHub.new generation
  notifying : s.notifying = false
  scheduled : s.scheduled = []
  published : s.published = []
  connections : ∀ c, (s.connections c).serve = .absent
  clients : ∀ j, s.clients j = ⟨.idle, false, .waiting, none, none⟩

def system : System State Event := ⟨Fresh, next⟩

/-! ## What is under way -/

/-- Subscriber `j` has completed the handshake on connection `c`, which is being served by a hub
that is not closed. -/
def Established (s : State) (j c : ℕ) : Prop :=
  (s.clients j).pump = .listening c ∧ (s.connections c).serve.open = true ∧ s.hub.closed = false

/-- No publication is scheduled, the queue is empty, no frame is being written or in flight, the
subscriber's queue is empty and no rescan runs. -/
def Quiet (s : State) (j c : ℕ) : Prop :=
  s.scheduled = [] ∧ s.hub.slot c = some .empty ∧ (s.connections c).serve ≠ .writing
    ∧ Frame.changed ∉ (s.connections c).wire ∧ (s.clients j).changed = false
    ∧ (s.clients j).watch ≠ .scanning

/-- No hint is between two statements or tasks: the database thread is not between a commit and its
callback, and neither queue has been read by a task whose coroutine has not gone on yet. -/
def Settled (s : State) (j c : ℕ) : Prop :=
  s.notifying = false ∧ (s.connections c).serve ≠ .taken ∧ (s.clients j).watch ≠ .taken

/-! ## Reading a state after a step -/

section projections

variable (s : State) (c d j k : ℕ) (v : Serve) (w : List Frame) (h : HintHub) (x : Client)

@[simp] theorem serve_setServe :
    ((s.setServe c v).connections d).serve = if d = c then v else (s.connections d).serve := by
  simp only [State.setServe, Function.update_apply]
  split
  · rfl
  · rfl

@[simp] theorem wire_setServe : ((s.setServe c v).connections d).wire = (s.connections d).wire := by
  simp only [State.setServe, Function.update_apply]
  split
  · simp [*]
  · rfl

@[simp] theorem client_setServe :
    ((s.setServe c v).connections d).client = (s.connections d).client := by
  simp only [State.setServe, Function.update_apply]
  split
  · simp [*]
  · rfl

@[simp] theorem serve_setWire : ((s.setWire c w).connections d).serve
    = (s.connections d).serve := by
  simp only [State.setWire, Function.update_apply]
  split
  · simp [*]
  · rfl

@[simp] theorem wire_setWire :
    ((s.setWire c w).connections d).wire = if d = c then w else (s.connections d).wire := by
  simp only [State.setWire, Function.update_apply]
  split
  · rfl
  · rfl

@[simp] theorem client_setWire :
    ((s.setWire c w).connections d).client = (s.connections d).client := by
  simp only [State.setWire, Function.update_apply]
  split
  · simp [*]
  · rfl

@[simp] theorem clients_setClient :
    (s.setClient j x).clients k = if k = j then x else s.clients k := by
  simp only [State.setClient, Function.update_apply]

@[simp] theorem hub_setServe : (s.setServe c v).hub = s.hub := rfl
@[simp] theorem hub_setWire : (s.setWire c w).hub = s.hub := rfl
@[simp] theorem hub_setHub : (s.setHub h).hub = h := rfl
@[simp] theorem hub_setClient : (s.setClient j x).hub = s.hub := rfl
@[simp] theorem connections_setHub : (s.setHub h).connections = s.connections := rfl
@[simp] theorem connections_setClient : (s.setClient j x).connections = s.connections := rfl
@[simp] theorem clients_setServe : (s.setServe c v).clients = s.clients := rfl
@[simp] theorem clients_setWire : (s.setWire c w).clients = s.clients := rfl
@[simp] theorem clients_setHub : (s.setHub h).clients = s.clients := rfl

end projections

/-! ## What a step can do -/

/-- The global part of a state: what neither a connection nor a subscriber changes. -/
def State.clock (s : State) : ℕ × Bool × List ℕ × List ℕ :=
  (s.commits, s.notifying, s.scheduled, s.published)

/-- What the service's coroutine for connection `c` can do: its queue, its progress and the frames
it has written. -/
structure Serves (s t : State) (c : ℕ) : Prop where
  clock : t.clock = s.clock
  clients : t.clients = s.clients
  open_before : (s.connections c).serve.open = true
  other : ∀ d, d ≠ c → t.connections d = s.connections d ∧ t.hub.slot d = s.hub.slot d
  client : (t.connections c).client = (s.connections c).client
  loop : t.hub.loop = s.hub.loop
  closed : t.hub.closed = s.hub.closed
  frames : ∃ more, (t.connections c).wire = (s.connections c).wire ++ more
  progress : (t.connections c).serve = .ended
    ∨ ((t.connections c).serve.open = true ∧ t.hub.slot c = s.hub.slot c
        ∧ ((s.connections c).serve = .taken → Frame.changed ∈ (t.connections c).wire))
    ∨ (s.hub.slot c = some .hint ∧ t.hub.slot c = some .empty ∧ (t.connections c).serve = .taken)
    ∨ (s.hub.slot c = some .ending ∧ t.hub.slot c = some .empty
        ∧ (t.connections c).serve = .stopped)

variable {s t : State} {c j : ℕ}

/-- The end of a connection's service moves that connection only. -/
theorem Serves.endServe (hopen : (s.connections c).serve.open = true) :
    Serves s (s.endServe c) c where
  clock := rfl
  clients := rfl
  open_before := hopen
  other d hd := by
    refine ⟨?_, ?_⟩
    · simp [State.endServe, State.setServe, hd]
    · simp [State.endServe, HintHub.slot_discard_ne _ hd]
  client := by simp [State.endServe]
  loop := rfl
  closed := rfl
  frames := ⟨[], by simp [State.endServe]⟩
  progress := .inl (by simp [State.endServe])

/-- Going on without touching the queue. -/
theorem Serves.setServe {v : Serve} (hopen : (s.connections c).serve.open = true)
    (hv : v.open = true) (ht : (s.connections c).serve ≠ .taken) : Serves s (s.setServe c v) c where
  clock := rfl
  clients := rfl
  open_before := hopen
  other d hd := ⟨by simp [State.setServe, hd], rfl⟩
  client := by simp
  loop := rfl
  closed := rfl
  frames := ⟨[], by simp⟩
  progress := .inr (.inl ⟨by simpa using hv, rfl, fun h => absurd h ht⟩)

/-- Writing a hint moves that connection only. -/
theorem Serves.write (hopen : (s.connections c).serve.open = true) : Serves s (s.write c) c where
  clock := rfl
  clients := rfl
  open_before := hopen
  other d hd := ⟨by simp [State.write, State.setServe, State.setWire, hd], rfl⟩
  client := by simp [State.write]
  loop := rfl
  closed := rfl
  frames := ⟨[.changed], by simp [State.write]⟩
  progress := .inr (.inl ⟨by simp [State.write, Serve.open], rfl, fun _ => by simp [State.write]⟩)

/-- Waiting for the next hint moves that connection only. -/
theorem Serves.again (hopen : (s.connections c).serve.open = true)
    (ht : (s.connections c).serve ≠ .taken) : Serves s (s.again c) c := by
  unfold State.again
  split
  · exact .endServe hopen
  · exact .setServe hopen rfl ht

/-- Taking a hint moves that connection only. -/
theorem Serves.take {v : Serve} {q : Slot} (hopen : (s.connections c).serve.open = true)
    (hq : s.hub.slot c = some q) (hv : (q = .hint ∧ v = .taken) ∨ (q = .ending ∧ v = .stopped)) :
    Serves s ((s.setServe c v).setHub (s.hub.take c)) c where
  clock := rfl
  clients := rfl
  open_before := hopen
  other d hd := ⟨by simp [State.setServe, hd], by simp [HintHub.slot_take_ne _ hd]⟩
  client := by simp
  loop := rfl
  closed := rfl
  frames := ⟨[], by simp⟩
  progress := by
    have hempty := HintHub.slot_take_self hq
    rcases hv with ⟨rfl, rfl⟩ | ⟨rfl, rfl⟩
    · exact .inr (.inr (.inl ⟨hq, hempty, by simp⟩))
    · exact .inr (.inr (.inr ⟨hq, hempty, by simp⟩))

/-- The flush of the handshake reply changes no queue. -/
theorem Serves.of_flushed (h : Serves (s.setHub s.hub.flushed) t c) : Serves s t c :=
  ⟨h.clock, h.clients, h.open_before, h.other, h.client, h.loop, h.closed, h.frames, h.progress⟩

/-- The steps of the service's coroutines. -/
theorem serves_of_next {e : Event} (h : next s e = some t)
    (he : e = .greeted c ∨ e = .take c ∨ e = .resume c ∨ e = .heartbeat c ∨ e = .cancelled c
      ∨ e = .drained c ∨ e = .hangup c) : Serves s t c := by
  rcases he with rfl | rfl | rfl | rfl | rfl | rfl | rfl
  · obtain ⟨hp, rfl⟩ := Option.ite_some_none_eq_some.mp h
    exact .of_flushed (.again (by simp [hp, Serve.open]) (by simp [hp]))
  · obtain ⟨hp, h⟩ := Option.ite_none_right_eq_some.mp h
    split at h
    · next hq =>
      cases h
      exact .take (by simp [hp, Serve.open]) hq (.inl ⟨rfl, rfl⟩)
    · next hq =>
      cases h
      exact .take (by simp [hp, Serve.open]) hq (.inr ⟨rfl, rfl⟩)
    · cases h
  · simp only [next] at h
    split at h
    · next hp =>
      cases h
      exact .write (by simp [hp, Serve.open])
    · next hp =>
      cases h
      exact .endServe (by simp [hp, Serve.open])
    · cases h
  · obtain ⟨hp, rfl⟩ := Option.ite_some_none_eq_some.mp h
    exact .setServe (by simp [hp, Serve.open]) rfl (by simp [hp])
  · obtain ⟨hp, rfl⟩ := Option.ite_some_none_eq_some.mp h
    exact .write (by simp [hp, Serve.open])
  · obtain ⟨hp, rfl⟩ := Option.ite_some_none_eq_some.mp h
    exact .again (by simp [hp, Serve.open]) (by simp [hp])
  · simp only [next] at h
    split at h
    · cases h
    · cases h
    · next hp =>
      cases h
      exact .of_flushed (.endServe (by simp [hp, Serve.open]))
    · next h1 h2 h3 =>
      cases h
      refine .endServe ?_
      rcases hp : (s.connections c).serve <;> simp_all [Serve.open]

/-! ## The invariant -/

/-- Something still leads subscriber `j` to a rescan. -/
def Awaited (s : State) (j c : ℕ) : Prop :=
  s.notifying = true ∨ s.scheduled ≠ [] ∨ s.hub.slot c = some .hint
    ∨ (s.connections c).serve = .taken ∨ Frame.changed ∈ (s.connections c).wire
    ∨ (s.clients j).changed = true ∨ (s.clients j).watch = .taken

/-- The connection a reading side uses. -/
def Pump.on (p : Pump) (c : ℕ) : Prop := p = .connecting c ∨ p = .listening c

/-- What holds between any two steps. -/
structure Inv (s : State) : Prop where
  /-- A connection being served has a queue in the hub, and the hub knows its event loop. -/
  served : ∀ c, (s.connections c).serve.open = true →
    s.hub.loop = true ∧ ∃ v, s.hub.slot c = some v ∧ (s.hub.closed = false → v ≠ .ending)
  /-- A reading side reads the connection it opened. -/
  partner : ∀ j c, (s.clients j).pump.on c →
    (s.connections c).client = j ∧ (s.connections c).serve ≠ .absent
  /-- The last rescan has seen the last commit, or something still leads to another one. -/
  awaited : ∀ j c, Established s j c → (s.clients j).began ≠ some s.commits → Awaited s j c
  /-- Unless a rescan runs, the last one that began is the last one that completed. -/
  finished : ∀ j, (s.clients j).watch ≠ .scanning → (s.clients j).completed = (s.clients j).began
  /-- A publication belongs to a commit already made. -/
  numbered : ∀ v ∈ s.published ++ s.scheduled, 1 ≤ v ∧ v ≤ s.commits
  /-- The callback is that of a commit. -/
  first : s.notifying = true → 1 ≤ s.commits

/-- The invariant holds before anything has happened. -/
theorem Inv.of_fresh (h : Fresh s) : Inv s where
  served c hc := by simp [h.connections c, Serve.open] at hc
  partner j c hj := by simp [h.clients j, Pump.on] at hj
  awaited j c he := by
    have hp := he.1
    simp [h.clients j] at hp
  finished j _ := by simp [h.clients j]
  numbered v hv := by simp [h.published, h.scheduled] at hv
  first hn := by simp [h.notifying] at hn

/-- A step that leaves the clock alone leaves its parts alone. -/
theorem clock_eq (h : t.clock = s.clock) : t.commits = s.commits ∧ t.notifying = s.notifying
    ∧ t.scheduled = s.scheduled ∧ t.published = s.published := by
  simpa [State.clock] using h

/-- **The service's coroutines keep the invariant.** A hint leaves the queue only into the hands of
the task that reads it, and from there only into a frame. -/
theorem Serves.inv (hs : Inv s) (h : Serves s t c) : Inv t := by
  obtain ⟨hcommits, hnotifying, hscheduled, hpublished⟩ := clock_eq h.clock
  constructor
  case served =>
    intro d hd
    by_cases hdc : d = c
    · subst hdc
      obtain ⟨hloop, v, hv, hne⟩ := hs.served d h.open_before
      refine ⟨by rw [h.loop, hloop], ?_⟩
      rw [h.closed]
      rcases h.progress with hend | ⟨-, hslot, -⟩ | ⟨-, hslot, -⟩ | ⟨-, hslot, -⟩
      · simp [hend, Serve.open] at hd
      · exact ⟨v, by rw [hslot, hv], hne⟩
      · exact ⟨.empty, hslot, by simp⟩
      · exact ⟨.empty, hslot, by simp⟩
    · obtain ⟨hconn, hslot⟩ := h.other d hdc
      rw [hconn] at hd
      rw [h.loop, h.closed, hslot]
      exact hs.served d hd
  case partner =>
    intro j d hj
    rw [h.clients] at hj
    obtain ⟨hclient, hne⟩ := hs.partner j d hj
    by_cases hdc : d = c
    · subst hdc
      refine ⟨by rw [h.client, hclient], ?_⟩
      rcases h.progress with hend | ⟨hop, -⟩ | ⟨-, -, ht⟩ | ⟨-, -, ht⟩
      · simp [hend]
      · intro habs
        simp [habs, Serve.open] at hop
      · simp [ht]
      · simp [ht]
    · rw [(h.other d hdc).1]
      exact ⟨hclient, hne⟩
  case awaited =>
    rintro j d ⟨hpump, hop, hclosed⟩ hbegan
    rw [h.clients] at hpump hbegan
    rw [hcommits] at hbegan
    rw [h.closed] at hclosed
    have hold (hop' : (s.connections d).serve.open = true) : Awaited s j d :=
      hs.awaited j d ⟨hpump, hop', hclosed⟩ hbegan
    simp only [Awaited, hnotifying, hscheduled, h.clients]
    by_cases hdc : d = c
    · subst hdc
      obtain ⟨more, hmore⟩ := h.frames
      rcases h.progress with hend | ⟨-, hslot, hframe⟩ | ⟨-, -, ht⟩ | ⟨hending, -, -⟩
      · simp [hend, Serve.open] at hop
      · rcases hold h.open_before with hn | hsc | hq | hta | hw | hch | hwt
        · exact .inl hn
        · exact .inr (.inl hsc)
        · exact .inr (.inr (.inl (by rw [hslot, hq])))
        · exact .inr (.inr (.inr (.inr (.inl (hframe hta)))))
        · exact .inr (.inr (.inr (.inr (.inl (by simp [hmore, hw])))))
        · exact .inr (.inr (.inr (.inr (.inr (.inl hch)))))
        · exact .inr (.inr (.inr (.inr (.inr (.inr hwt)))))
      · exact .inr (.inr (.inr (.inl ht)))
      · obtain ⟨-, v, hv, hne⟩ := hs.served d h.open_before
        rw [hending] at hv
        exact absurd (Option.some.inj hv).symm (hne hclosed)
    · obtain ⟨hconn, hslot⟩ := h.other d hdc
      rw [hconn] at hop ⊢
      rw [hslot]
      exact hold hop
  case finished =>
    intro j hj
    rw [h.clients] at hj ⊢
    exact hs.finished j hj
  case numbered =>
    rw [hpublished, hscheduled, hcommits]
    exact hs.numbered
  case first =>
    rw [hnotifying, hcommits]
    exact hs.first

/-- **The subscriber's loop keeps the invariant.** An entry leaves the queue only into the hands of
the task that reads it, and from there only into a rescan. -/
theorem Inv.setClient (hs : Inv s) {x : Client}
    (hpump : x.pump = (s.clients j).pump ∨ x.pump = .idle)
    (hwait : x.began = some s.commits ∨ (x.began = (s.clients j).began
      ∧ ((s.clients j).changed = true → x.changed = true ∨ x.watch = .taken)
      ∧ ((s.clients j).watch = .taken → x.watch = .taken)))
    (hfinished : x.watch ≠ .scanning → x.completed = x.began) : Inv (s.setClient j x) where
  served := hs.served
  partner k c hk := by
    by_cases hkj : k = j
    · subst hkj
      rw [clients_setClient, if_pos rfl] at hk
      rcases hpump with hp | hp
      · rw [hp] at hk
        exact hs.partner k c hk
      · simp [hp, Pump.on] at hk
    · rw [clients_setClient, if_neg hkj] at hk
      exact hs.partner k c hk
  awaited k c he hbegan := by
    obtain ⟨hp, hop, hclosed⟩ := he
    by_cases hkj : k = j
    · subst hkj
      rw [clients_setClient, if_pos rfl] at hp hbegan
      have hp' : (s.clients k).pump = .listening c := by
        rcases hpump with hpx | hpx
        · rw [← hpx, hp]
        · rw [hpx] at hp
          cases hp
      simp only [Awaited, clients_setClient, if_pos]
      rcases hwait with hnow | ⟨hsame, hch, hwt⟩
      · exact absurd hnow hbegan
      · rw [hsame] at hbegan
        rcases hs.awaited k c ⟨hp', hop, hclosed⟩ hbegan with h | h | h | h | h | h | h
        · exact .inl h
        · exact .inr (.inl h)
        · exact .inr (.inr (.inl h))
        · exact .inr (.inr (.inr (.inl h)))
        · exact .inr (.inr (.inr (.inr (.inl h))))
        · exact .inr (.inr (.inr (.inr (.inr (hch h)))))
        · exact .inr (.inr (.inr (.inr (.inr (.inr (hwt h))))))
    · simp only [Awaited, clients_setClient, if_neg hkj] at hp hbegan ⊢
      exact hs.awaited k c ⟨hp, hop, hclosed⟩ hbegan
  finished k hk := by
    by_cases hkj : k = j
    · subst hkj
      rw [clients_setClient, if_pos rfl] at hk ⊢
      exact hfinished hk
    · rw [clients_setClient, if_neg hkj] at hk ⊢
      exact hs.finished k hk
  numbered := hs.numbered
  first := hs.first

/-- Reading a frame leaves an entry in the subscriber's queue. -/
theorem Inv.hear (hs : Inv s) {f : Frame} {rest : List Frame} {p : Pump}
    (hwire : (s.connections c).wire = f :: rest)
    (hon : (s.clients (s.connections c).client).pump.on c)
    (hp : p.on c) :
    Inv ((s.setWire c rest).setClient (s.connections c).client
      { s.clients (s.connections c).client with pump := p, changed := true }) where
  served d hd := by
    rw [connections_setClient, serve_setWire] at hd
    exact hs.served d hd
  partner k d hk := by
    simp only [connections_setClient, client_setWire, serve_setWire]
    by_cases hkj : k = (s.connections c).client
    · rw [clients_setClient, if_pos hkj] at hk
      have hdc : d = c := by
        rcases hk with hk | hk <;> rcases hp with hp | hp <;> simp_all
      subst hdc
      exact ⟨hkj.symm, (hs.partner _ d hon).2⟩
    · rw [clients_setClient, if_neg hkj] at hk
      exact hs.partner k d hk
  awaited k d he hbegan := by
    obtain ⟨hpk, hop, hclosed⟩ := he
    simp only [Awaited, connections_setClient, serve_setWire, wire_setWire] at hop ⊢
    by_cases hkj : k = (s.connections c).client
    · rw [clients_setClient, if_pos hkj]
      exact .inr (.inr (.inr (.inr (.inr (.inl rfl)))))
    · rw [clients_setClient, if_neg hkj] at hpk hbegan ⊢
      have hdc : d ≠ c := by
        rintro rfl
        exact hkj (hs.partner k d (.inr hpk)).1.symm
      rw [if_neg hdc]
      exact hs.awaited k d ⟨hpk, hop, hclosed⟩ hbegan
  finished k hk := by
    by_cases hkj : k = (s.connections c).client
    · rw [clients_setClient, if_pos hkj] at hk ⊢
      exact hs.finished _ hk
    · rw [clients_setClient, if_neg hkj] at hk ⊢
      exact hs.finished k hk
  numbered := hs.numbered
  first := hs.first

/-- A connection is set up: its queue is in the hub before anything is written. -/
theorem Inv.connect (hs : Inv s) {h : HintHub} (hidle : (s.clients j).pump = .idle)
    (habsent : (s.connections c).serve = .absent) (hh : s.hub.install c = .ok h) :
    Inv { s with
      hub := h
      connections := Function.update s.connections c ⟨.greeting, j, [.identity]⟩
      clients := Function.update s.clients j { s.clients j with pump := .connecting c } } := by
  obtain ⟨hopen, -, -, hk⟩ := HintHub.install_eq_ok.mp hh
  have hclosed : h.closed = s.hub.closed := by rw [hk]
  have hother (k d : ℕ) (hd : (s.clients k).pump.on d) : d ≠ c := by
    rintro rfl
    exact (hs.partner k d hd).2 habsent
  constructor
  case served =>
    intro d hd
    refine ⟨by rw [hk], ?_⟩
    by_cases hdc : d = c
    · subst hdc
      exact ⟨.empty, HintHub.slot_install_self hh, by simp⟩
    · simp only [Function.update_of_ne hdc] at hd
      obtain ⟨-, v, hv, hne⟩ := hs.served d hd
      exact ⟨v, by simpa [HintHub.slot_install_ne hh hdc] using hv, fun _ => hne hopen⟩
  case partner =>
    intro k d hkd
    by_cases hkj : k = j
    · subst hkj
      simp only [Function.update_self, Pump.on, Pump.connecting.injEq, reduceCtorEq,
        or_false] at hkd
      subst hkd
      simp
    · simp only [Function.update_of_ne hkj] at hkd
      simp only [Function.update_of_ne (hother k d hkd)]
      exact hs.partner k d hkd
  case awaited =>
    rintro k d ⟨hpump, hop, -⟩ hbegan
    by_cases hkj : k = j
    · subst hkj
      simp at hpump
    · simp only [Function.update_of_ne hkj] at hpump hbegan
      have hdc := hother k d (.inr hpump)
      simp only [Function.update_of_ne hdc] at hop
      simp only [Awaited, Function.update_of_ne hkj, Function.update_of_ne hdc,
        HintHub.slot_install_ne hh hdc]
      exact hs.awaited k d ⟨hpump, hop, hopen⟩ hbegan
  case finished =>
    intro k hk'
    by_cases hkj : k = j
    · subst hkj
      simp only [Function.update_self] at hk' ⊢
      exact hs.finished k hk'
    · simp only [Function.update_of_ne hkj] at hk' ⊢
      exact hs.finished k hk'
  case numbered => exact hs.numbered
  case first => exact hs.first

/-- A commit keeps the invariant. -/
theorem Inv.commit (hs : Inv s) :
    Inv { s with commits := s.commits + 1, notifying := true } where
  served := hs.served
  partner := hs.partner
  awaited _ _ _ _ := .inl rfl
  finished := hs.finished
  numbered v hv := by
    obtain ⟨h1, h2⟩ := hs.numbered v hv
    exact ⟨h1, Nat.le_succ_of_le h2⟩
  first _ := by simp

/-- The callback of a commit schedules a publication: a subscription exists, so the event loop is
known. -/
theorem Inv.notify (hs : Inv s) (hn : s.notifying = true) :
    Inv { s with
      notifying := false
      scheduled := if s.hub.loop then s.scheduled ++ [s.commits] else s.scheduled } where
  served := hs.served
  partner := hs.partner
  awaited j c he _ := by
    have hloop := (hs.served c he.2.1).1
    right
    left
    simp [hloop]
  finished := hs.finished
  numbered v hv := by
    simp only at hv
    split at hv
    · rw [← List.append_assoc, List.mem_append, List.mem_singleton] at hv
      rcases hv with hv | rfl
      · exact hs.numbered v hv
      · exact ⟨hs.first hn, le_rfl⟩
    · exact hs.numbered v hv
  first h := by cases h

/-- A publication puts a hint into the queue of every connection being served. -/
theorem Inv.publish (hs : Inv s) {v : ℕ} {rest : List ℕ} (hv : s.scheduled = v :: rest) :
    Inv { s.setHub s.hub.publish with scheduled := rest, published := v :: s.published } := by
  have hclosed : s.hub.publish.closed = s.hub.closed := by
    unfold HintHub.publish
    split <;> rfl
  have hloop : s.hub.publish.loop = s.hub.loop := by
    unfold HintHub.publish
    split <;> rfl
  constructor
  case served =>
    intro c hc
    obtain ⟨hl, q, hq, hne⟩ := hs.served c hc
    refine ⟨by rw [hub_setHub, hloop, hl], ?_⟩
    rw [hub_setHub, hclosed]
    rcases ho : s.hub.closed with _ | _
    · refine ⟨_, HintHub.slot_publish ho hq, fun _ => ?_⟩
      split
      · simp
      · exact hne ho
    · exact ⟨q, by rw [HintHub.slot_publish_of_closed ho, hq], by simp⟩
  case partner => exact hs.partner
  case awaited =>
    rintro j c ⟨-, hop, hopen⟩ -
    rw [hub_setHub, hclosed] at hopen
    obtain ⟨-, q, hq, hne⟩ := hs.served c hop
    have hslot := HintHub.slot_publish hopen hq
    right; right; left
    rw [hub_setHub, hslot]
    have hne := hne hopen
    cases q <;> simp_all
  case finished => exact hs.finished
  case numbered =>
    intro w hw
    refine hs.numbered w ?_
    simp only [List.cons_append, List.mem_cons, List.mem_append] at hw ⊢
    rw [hv, List.mem_cons]
    rcases hw with h | h | h
    · exact .inr (.inl h)
    · exact .inl h
    · exact .inr (.inr h)
  case first => exact hs.first

/-- The end of the hub keeps the invariant. -/
theorem Inv.close (hs : Inv s) : Inv (s.setHub s.hub.close) where
  served c hc := by
    obtain ⟨hl, q, hq, -⟩ := hs.served c hc
    obtain ⟨r, hr, -⟩ := Option.map_eq_some_iff.mp hq
    refine ⟨hl, .ending, ?_, by simp [HintHub.close]⟩
    have hfill := HintHub.slot_fill s.hub (fun _ => true) .ending c
    rw [hr] at hfill
    exact hfill
  partner := hs.partner
  awaited j c he := by
    have hopen := he.2.2
    simp [HintHub.close] at hopen
  finished := hs.finished
  numbered := hs.numbered
  first := hs.first

/-! ## Every run -/

/-- Every step keeps the invariant. -/
theorem next_inv (hs : Inv s) {e : Event} (h : next s e = some t) : Inv t := by
  cases e with
  | commit =>
    obtain ⟨-, h⟩ := Option.ite_none_left_eq_some.mp h
    cases h
    exact hs.commit
  | notify =>
    obtain ⟨hn, rfl⟩ := Option.ite_some_none_eq_some.mp h
    exact hs.notify hn
  | publish =>
    simp only [next] at h
    split at h
    · cases h
    · next hv =>
      cases h
      exact hs.publish hv
  | close =>
    cases h
    exact hs.close
  | connect j c =>
    obtain ⟨⟨hidle, habsent⟩, h⟩ := Option.ite_none_right_eq_some.mp h
    split at h
    · next hh =>
      cases h
      exact hs.connect hidle habsent hh
    · cases h
  | greeted c => exact (serves_of_next h (.inl rfl)).inv hs
  | take c => exact (serves_of_next h (.inr (.inl rfl))).inv hs
  | resume c => exact (serves_of_next h (.inr (.inr (.inl rfl)))).inv hs
  | heartbeat c => exact (serves_of_next h (.inr (.inr (.inr (.inl rfl))))).inv hs
  | cancelled c => exact (serves_of_next h (.inr (.inr (.inr (.inr (.inl rfl)))))).inv hs
  | drained c => exact (serves_of_next h (.inr (.inr (.inr (.inr (.inr (.inl rfl))))))).inv hs
  | hangup c => exact (serves_of_next h (.inr (.inr (.inr (.inr (.inr (.inr rfl))))))).inv hs
  | greet c =>
    simp only [next] at h
    split at h
    · next hwire =>
      obtain ⟨hp, rfl⟩ := Option.ite_some_none_eq_some.mp h
      exact hs.hear hwire (.inl hp) (.inr rfl)
    · cases h
  | hear c =>
    simp only [next] at h
    split at h
    · next hwire =>
      obtain ⟨hp, rfl⟩ := Option.ite_some_none_eq_some.mp h
      exact hs.hear hwire (.inr hp) (.inr hp)
    · cases h
  | lose j =>
    cases h
    exact hs.setClient (.inr rfl) (.inr ⟨rfl, .inl, id⟩) (hs.finished j)
  | clientTake j =>
    obtain ⟨⟨hw, -⟩, rfl⟩ := Option.ite_some_none_eq_some.mp h
    exact hs.setClient (.inl rfl) (.inr ⟨rfl, fun _ => .inr rfl, fun _ => rfl⟩)
      fun _ => hs.finished j (by simp [hw])
  | clientTimeout j =>
    obtain ⟨hw, rfl⟩ := Option.ite_some_none_eq_some.mp h
    exact hs.setClient (.inl rfl) (.inr ⟨rfl, .inl, by simp [hw]⟩)
      fun _ => hs.finished j (by simp [hw])
  | scan j =>
    obtain ⟨-, rfl⟩ := Option.ite_some_none_eq_some.mp h
    exact hs.setClient (.inl rfl) (.inl rfl) (by simp)
  | scanned j =>
    obtain ⟨hw, rfl⟩ := Option.ite_some_none_eq_some.mp h
    exact hs.setClient (.inl rfl) (.inr ⟨rfl, .inl, by simp [hw]⟩) fun _ => rfl

/-- The invariant holds in every reachable state. -/
theorem reachable_inv (h : system.Reachable s) : Inv s :=
  h.invariant (I := Inv) (fun _ => Inv.of_fresh) fun _ _ _ hs ht => next_inv hs ht

/-- **No wake is lost.** On an established subscription, when no publication is scheduled, both
queues are empty, no frame is being written or in flight, no rescan runs, and no hint is being
handed over, the last completed rescan began after the last commit. Every publication, scheduled or
run, belongs to a commit already made. -/
theorem no_lost_wake (s : State) (hs : system.Reachable s) :
    (∀ j c, Established s j c → Quiet s j c → Settled s j c →
        (s.clients j).completed = some s.commits)
      ∧ ∀ v ∈ s.published ++ s.scheduled, 1 ≤ v ∧ v ≤ s.commits := by
  have hinv := reachable_inv hs
  refine ⟨?_, hinv.numbered⟩
  rintro j c he ⟨hsched, hslot, -, hwire, hchanged, hscan⟩ ⟨hnotifying, htaken, hwatch⟩
  rw [hinv.finished j hscan]
  by_contra hbegan
  rcases hinv.awaited j c he hbegan with h | h | h | h | h | h | h
  · simp [hnotifying] at h
  · exact h hsched
  · simp [hslot] at h
  · exact htaken h
  · exact hwire h
  · simp [hchanged] at h
  · exact hwatch h

/-- A service that has committed nothing, and subscribers that have not connected. -/
def first : State where
  hub := .new []
  commits := 0
  notifying := false
  scheduled := []
  published := []
  connections _ := ⟨.absent, 0, []⟩
  clients _ := ⟨.idle, false, .waiting, none, none⟩

/-- Nothing has happened in the first state. -/
theorem first_fresh : Fresh first where
  hub := ⟨[], rfl⟩
  notifying := rfl
  scheduled := rfl
  published := rfl
  connections _ := rfl
  clients _ := rfl

/-- A subscriber connects and rescans. -/
def subscribe : List Event :=
  [.connect 0 0, .greeted 0, .greet 0, .clientTake 0, .scan 0, .scanned 0]

/-- A commit goes all the way to a rescan. -/
def delivery : List Event :=
  [.commit, .notify, .publish, .take 0, .resume 0, .drained 0, .hear 0, .clientTake 0, .scan 0,
   .scanned 0]

/-- The conditions of `no_lost_wake`, as a test. -/
def atRest (s : State) : Bool :=
  (s.clients 0).pump = .listening 0 ∧ (s.connections 0).serve.open = true ∧ s.hub.closed = false
    ∧ s.scheduled = [] ∧ s.hub.slot 0 = some .empty ∧ (s.connections 0).serve ≠ .writing
    ∧ Frame.changed ∉ (s.connections 0).wire ∧ (s.clients 0).changed = false
    ∧ (s.clients 0).watch ≠ .scanning

/-- A commit, a delivery, and the rescan that saw it. -/
theorem no_lost_wake_delivered :
    ∃ s, system.Reachable s ∧ s.commits = 1 ∧ (s.clients 0).completed = some 1 := by
  have hrun : (system.run first (subscribe ++ delivery)).map
      (fun s => (atRest s, s.commits, s.notifying, (s.connections 0).serve, (s.clients 0).watch))
        = some (true, 1, false, .waiting, .waiting) := by decide +kernel
  obtain ⟨s, hs, hfacts⟩ := Option.map_eq_some_iff.mp hrun
  simp only [Prod.mk.injEq] at hfacts
  obtain ⟨hrest, hcommits, hnotifying, hserve, hwatch⟩ := hfacts
  have hreach : system.Reachable s := System.Reachable.run (.init first_fresh) hs
  simp only [atRest, decide_eq_true_eq] at hrest
  obtain ⟨hp, hop, hcl, hq⟩ := hrest
  have hdone := (no_lost_wake s hreach).1 0 0 ⟨hp, hop, hcl⟩ hq
    ⟨hnotifying, by simp [hserve], by simp [hwatch]⟩
  exact ⟨s, hreach, hcommits, by rw [hdone, hcommits]⟩

/-- Between a commit and its callback, between the read of the subscription's queue and the frame,
and between the read of the subscriber's queue and the rescan, nothing is scheduled, queued,
written, in flight or running, and the last completed rescan began before the last commit. -/
theorem quiet_but_stale :
    ¬ (∀ s, system.Reachable s → ∀ j c, Established s j c → Quiet s j c →
        (s.clients j).completed = some s.commits)
      ∧ ∀ n ∈ [1, 4, 8], ∃ s, system.Reachable s
          ∧ system.run first (subscribe ++ delivery.take n) = some s
          ∧ Established s 0 0 ∧ Quiet s 0 0 ∧ (s.clients 0).completed = some 0 ∧ s.commits = 1 := by
  have hstates : ∀ n ∈ [1, 4, 8], ∃ s, system.Reachable s
      ∧ system.run first (subscribe ++ delivery.take n) = some s
      ∧ Established s 0 0 ∧ Quiet s 0 0 ∧ (s.clients 0).completed = some 0 ∧ s.commits = 1 := by
    intro n hn
    have hrun : (system.run first (subscribe ++ delivery.take n)).map
        (fun s => (atRest s, (s.clients 0).completed, s.commits)) = some (true, some 0, 1) := by
      revert n
      decide +kernel
    obtain ⟨s, hs, hfacts⟩ := Option.map_eq_some_iff.mp hrun
    simp only [Prod.mk.injEq] at hfacts
    obtain ⟨hrest, hcompleted, hcommits⟩ := hfacts
    simp only [atRest, decide_eq_true_eq] at hrest
    obtain ⟨hp, hop, hcl, hq⟩ := hrest
    exact ⟨s, System.Reachable.run (.init first_fresh) hs, hs, ⟨hp, hop, hcl⟩, hq,
      hcompleted, hcommits⟩
  refine ⟨fun hall => ?_, hstates⟩
  obtain ⟨s, hreach, -, he, hq, hcompleted, hcommits⟩ := hstates 1 (by simp)
  have := hall s hreach 0 0 he hq
  simp [hcompleted, hcommits] at this

end PeerBridge.Hints
