import PeerBridge.Notify.Listing
import PeerBridge.Runtime.Transition

/-!
# Watching bound memory services

For each binding the notifier keeps a task that asks the bridge to refresh the binding whenever a
hint or the interval says so. What the bridge answers is turned into a reason for the health report;
a reason that needs an operator stops the requests until the evidence about the service changes.

The code of a refusal is looked up in the table of binding codes. The bridge also answers with the
two fault codes of its database worker, which are not in that table: the lookup raises, the task
ends, and the next look at the tasks latches an internal fault of the whole notifier, after which it
delivers nothing any more.

* `Watch.refresh_returns_iff`: one refresh returns normally exactly unless its request is answered
  with a fault code.
* `memory_contained`: in every run in which no refresh is answered with a fault code, no watcher
  dies, looking at them never raises, and no internal fault is latched.

Source: `notification_memory.py`; `notification_runtime.py` `memory_loop`, `health_snapshot`.
-/

namespace PeerBridge.Notify

open Py Relational Transition PeerBridge.Service PeerBridge.Hints PeerBridge.Bridge

/-! ## One watch -/

/-- What `owner_stamp` sees of `owner.json`. -/
inductive Stamp where
  | absent
  | unreadable
  | file (dev ino mtime size : ℕ)
  deriving DecidableEq

/-- Source: `BindingWatch.operator_stamp`, with its sentinel -/
inductive OperatorStamp where
  | unobserved
  | seen (s : Stamp)
  deriving DecidableEq

/-- Source: `BindingWatch.reason` -/
inductive Reason where
  | operatorAction | unavailable
  deriving DecidableEq

/-- Source: the attributes of `BindingWatch` -/
structure Watch where
  reason : Option Reason
  operatorStamp : OperatorStamp
  operatorBlocked : Bool
  deriving DecidableEq

/-- Source: `BindingWatch.__init__` -/
def Watch.new : Watch := ⟨none, .seen .absent, false⟩

/-- What a request to the bridge comes to. -/
inductive Answer where
  | reply (h : Handled)
  /-- `OSError` or `TimeoutError` -/
  | unreachable
  /-- `ValueError`: no reply, or none that can be read. -/
  | malformed

/-- The stamp recorded with an operator block; `none` when the evidence threads are busy. -/
def observedStamp : Option Stamp → OperatorStamp
  | some s => .seen s
  | none => .unobserved

/-- Source: `BindingWatch.refused`; a code outside the table is a `KeyError` -/
def Watch.refused (w : Watch) (code : ReplyCode) (stamp : Option Stamp) : Except Exc Watch :=
  match code with
  | .binding c =>
      if c.recovery = .operatorAction then .ok ⟨some .operatorAction, observedStamp stamp, true⟩
      else .ok { w with reason := some .unavailable }
  | _ => .error .lookup

/-- The request of `refresh` and what its answer does; `stamp` is the evidence read after a
refusal. -/
def Watch.ask (w : Watch) (answer : Answer) (stamp : Option Stamp) : Except Exc Watch :=
  match answer with
  | .unreachable => .ok { w with reason := some .unavailable }
  | .malformed => .error .value
  | .reply (.error code) =>
      if code = .capacity ∨ code = .rejected then .ok { w with reason := some .unavailable }
      else w.refused code stamp
  | .reply _ => .ok { w with reason := none }

/-- What `refresh` reads from outside. -/
structure Evidence where
  /-- The owner's stamp before the request; `none` when the evidence threads are busy. -/
  before : Option Stamp
  answer : Answer
  /-- The owner's stamp after a refusal. -/
  after : Option Stamp

/-- Source: `BindingWatch.refresh` -/
def Watch.refresh (w : Watch) (e : Evidence) : Except Exc Watch :=
  if w.operatorBlocked then
    match e.before with
    | none => .ok w
    | some current =>
        match w.operatorStamp with
        | .unobserved => .ok { w with operatorStamp := .seen current }
        | .seen s =>
            if current = s then .ok w
            else { w with operatorBlocked := false }.ask e.answer e.after
  else w.ask e.answer e.after

/-- What `open_current` finds out about the memory service before it subscribes. -/
inductive Verified where
  /-- No service, or one that can be subscribed to. -/
  | unremarkable
  /-- `verify_running` raised with this code, or the service cannot be subscribed to. -/
  | refused (code : BindingCode)

/-- The part of `BindingWatch.open_current` that classifies; the pump handles its
`ConnectionError`. -/
def Watch.openCurrent (w : Watch) (v : Verified) (stamp : Option Stamp) : Except Exc Watch :=
  if w.operatorBlocked then .ok w
  else match v with
    | .unremarkable => .ok w
    | .refused code => w.refused (.binding code) stamp

/-! ## All watches -/

/-- A watch and the task that runs it. -/
structure Watcher where
  key : Hex 64
  bindingInstance : Instance
  /-- `service_state` of the last listing was `verified`. -/
  verified : Bool
  watch : Watch
  /-- The exception the task ended with. -/
  died : Option Exc

/-- The watches by the key of their binding. -/
abbrev Watches := Table (Hex 64) Watcher Watcher.key

/-- `binding.get('service_state') == 'verified'` -/
def Listed.verified (l : Listed) : Bool := l.seen.state = lit "verified"

/-- The watch of a listed binding: a new one for a new binding or a new instance, else the old one,
unblocked if the service has been verified meanwhile. -/
def updateWatcher (old : Option Watcher) (l : Listed) : Watcher :=
  let fresh : Watcher := ⟨l.key, l.binding.bindingInstance, l.verified, .new, none⟩
  match old with
  | none => fresh
  | some w =>
      if l.binding.bindingInstance ≠ w.bindingInstance then fresh
      else
        let unblocked := w.watch.operatorBlocked && l.verified && !w.verified
        { fresh with
          watch := if unblocked then { w.watch with operatorBlocked := false } else w.watch
          died := w.died }

/-- A listed binding is watched under its own key. -/
theorem key_updateWatcher (old : Option Watcher) (l : Listed) :
    (updateWatcher old l).key = l.key := by
  unfold updateWatcher
  split
  · rfl
  · split
    · rfl
    · rfl

/-- A watcher that died was watching the binding before. -/
theorem died_updateWatcher (old : Option Watcher) (l : Listed) :
    (updateWatcher old l).died = none ∨ ∃ w, old = some w ∧ (updateWatcher old l).died
    = w.died := by
  unfold updateWatcher
  split
  · exact .inl rfl
  · next w =>
    split
    · exact .inl rfl
    · exact .inr ⟨w, rfl, rfl⟩

/-- The watchers are those of the listed bindings, in their order. -/
theorem map_key_updateWatcher (ws : Watches) (bs : List Listed) :
    (bs.map fun l => updateWatcher (ws.find l.key) l).map Watcher.key = bs.map Listed.key := by
  rw [List.map_map]
  apply List.map_congr_left
  intro l _
  exact key_updateWatcher _ l

/-- Source: `MemoryWatches.update` -/
def update (ws : Watches) (bs : List Listed) : Except Exc Watches :=
  if h : bs.length ≤ maxBindings ∧ (bs.map Listed.key).Nodup then
    .ok ⟨bs.map fun l => updateWatcher (ws.find l.key) l, by
      rw [map_key_updateWatcher]
      exact h.2⟩
  else .error .value

/-- A listing of distinct bindings within the bound updates the watchers. -/
theorem update_ok (ws : Watches) {bs : List Listed} (hlen : bs.length ≤ maxBindings)
    (hnodup : (bs.map Listed.key).Nodup) :
    ∃ us, update ws bs = .ok us ∧ us.rows = bs.map fun l => updateWatcher (ws.find l.key) l :=
  ⟨_, dif_pos ⟨hlen, hnodup⟩, rfl⟩

/-- The loop of `reasons`: a task that has ended passes its exception on. -/
def reasonsOf : List Watcher → Except Exc (List Reason)
  | [] => .ok []
  | w :: ws =>
      match w.died with
      | some e => .error e
      | none => (reasonsOf ws).map fun rs => w.watch.reason.toList ++ rs

/-- Source: `MemoryWatches.reasons` -/
def reasons (ws : Watches) : Except Exc (List Reason) := reasonsOf ws.rows

/-- The task of a watch after a step that returned or raised. -/
def Watcher.after (w : Watcher) : Except Exc Watch → Watcher
  | .ok v => { w with watch := v }
  | .error e => { w with died := some e }

/-- A watcher keeps its key. -/
theorem Watcher.key_after (w : Watcher) (r : Except Exc Watch) : (w.after r).key = w.key := by
  rcases r with e | v
  · rfl
  · rfl

/-! ## The memory path of the notifier -/

/-- The notifier, as far as its memory path goes. -/
structure State where
  watches : Watches
  health : Health

/-- A step of the task of one watch, where the task still runs. -/
def State.stepWatch (s : State) (key : Hex 64) (f : Watch → Except Exc Watch) : State :=
  { s with
    watches := s.watches.update (fun w => w.key = key && w.died.isNone)
      (fun w => w.after (f w.watch)) fun w => w.key_after _ }

/-- An exception in the loop. Optional memory observation does not stop ordinary delivery, so a
bridge that does not answer is passed over. -/
def State.loopFailure (s : State) (e : Exc) : State :=
  if e.isOSError then s else { s with health := s.health.recordFailure e }

/-- One turn of the loop. Source: `Runtime.memory_loop` -/
def State.memoryLoop (s : State) (ask : ℕ → PageAnswer) : State :=
  match listBindings ask with
  | .error e => s.loopFailure e
  | .ok bs =>
      match update s.watches bs with
      | .error e => s.loopFailure e
      | .ok ws =>
          let s := { s with watches := ws }
          match reasons ws with
          | .error e => s.loopFailure e
          | .ok _ => s

/-- Source: `Runtime.health_snapshot` -/
def State.healthSnapshot (s : State) : State :=
  match reasons s.watches with
  | .error _ => { s with health := { s.health with internalFault := true } }
  | .ok _ => s

inductive Event where
  | memoryLoop (ask : ℕ → PageAnswer)
  | healthSnapshot
  /-- A watch is told to rescan. -/
  | refresh (key : Hex 64) (e : Evidence)
  /-- A watch tries to subscribe. -/
  | openCurrent (key : Hex 64) (v : Verified) (stamp : Option Stamp)

/-- What an event does. -/
def next (s : State) : Event → State
  | .memoryLoop ask => s.memoryLoop ask
  | .healthSnapshot => s.healthSnapshot
  | .refresh key e => s.stepWatch key (·.refresh e)
  | .openCurrent key v stamp => s.stepWatch key (·.openCurrent v stamp)

/-- A notifier that has listed no bindings yet. -/
def start : State := ⟨.empty, .starting⟩

/-- The memory path under any sequence of events. -/
def memoryPath : System State Event := ⟨fun s => s = start, fun s e => some (next s e)⟩

/-! ## What one step can raise -/

/-- A reply with one of the codes of the database worker. -/
def Answer.isFault : Answer → Bool
  | .reply (.error (.fault _)) => true
  | _ => false

/-- A reply, or none for want of a connection. -/
def Answer.given : Answer → Bool
  | .malformed => false
  | _ => true

/-- The request is made: the watch is not blocked, or the evidence has changed. -/
def Watch.asks (w : Watch) (before : Option Stamp) : Bool :=
  !w.operatorBlocked || match before, w.operatorStamp with
    | some current, .seen s => current ≠ s
    | _, _ => false

/-- A refusal with a binding code is recorded with a reason. -/
theorem Watch.refused_binding (w : Watch) (code : BindingCode) (stamp : Option Stamp) :
    ∃ v, w.refused (.binding code) stamp = .ok v ∧ v.reason ≠ none := by
  by_cases h : code.recovery = .operatorAction
  · exact ⟨⟨some .operatorAction, observedStamp stamp, true⟩, by simp [refused, h], by simp⟩
  · exact ⟨{ w with reason := some .unavailable }, by simp [refused, h], by simp⟩

/-- A request that is answered without a fault code leaves a classified reason: none exactly after a
success. -/
theorem Watch.ask_classified (w : Watch) {a : Answer} (stamp : Option Stamp)
    (hgiven : a.given = true)
    (hfault : a.isFault = false) :
    ∃ v, w.ask a stamp = .ok v ∧ (v.reason = none ↔ ∃ h, a = .reply h ∧ ∀ code,
      h ≠ .error code) := by
  rcases a with h | _ | _
  · rcases h with identity | result | code
    · exact ⟨_, rfl, by simp⟩
    · exact ⟨_, rfl, by simp⟩
    · rcases code with code | _ | _ | f
      · obtain ⟨v, hv, hreason⟩ := w.refused_binding code stamp
        refine ⟨v, ?_, ?_⟩
        · simpa [ask] using hv
        · simp [hreason]
      · exact ⟨_, rfl, by simp⟩
      · exact ⟨_, rfl, by simp⟩
      · cases hfault
  · exact ⟨_, rfl, by simp⟩
  · cases hgiven

/-- A fault code is outside the table: the lookup raises. -/
theorem Watch.ask_fault (w : Watch) {a : Answer} (stamp : Option Stamp)
    (hfault : a.isFault = true) :
    w.ask a stamp = .error .lookup := by
  rcases a with h | _ | _
  · rcases h with identity | result | code
    · cases hfault
    · cases hfault
    · rcases code with code | _ | _ | f
      · cases hfault
      · cases hfault
      · cases hfault
      · simp [ask, refused]
  · cases hfault
  · cases hfault

/-- A refresh makes its request, or returns without one and keeps its reason. -/
theorem Watch.refresh_cases (w : Watch) (e : Evidence) :
    w.asks e.before = true ∧ w.refresh e = { w with operatorBlocked := false }.ask e.answer e.after
      ∨ w.asks e.before = false ∧ ∃ v, w.refresh e = .ok v ∧ v.reason = w.reason := by
  obtain ⟨reason, stamp, blocked⟩ := w
  rcases blocked with _ | _
  · exact .inl ⟨rfl, rfl⟩
  · rcases hb : e.before with _ | current
    · exact .inr ⟨by simp [asks], ⟨reason, stamp, true⟩, by simp [refresh, hb], rfl⟩
    · rcases stamp with _ | s
      · exact .inr ⟨by simp [asks], ⟨reason, .seen current, true⟩, by simp [refresh, hb], rfl⟩
      · by_cases hs : current = s
        · exact .inr ⟨by simp [asks, hs], ⟨reason, .seen s, true⟩, by simp [refresh, hb, hs], rfl⟩
        · exact .inl ⟨by simp [asks, hs], by simp [refresh, hb, hs]⟩

/-- One refresh returns exactly unless its request is answered with a fault code. -/
theorem Watch.refresh_returns_iff (w : Watch) {e : Evidence} (hgiven : e.answer.given = true) :
    (∃ v, w.refresh e = .ok v) ↔ (w.asks e.before = true → e.answer.isFault = false) := by
  rcases w.refresh_cases e with ⟨hasks, h⟩ | ⟨hasks, v, h, -⟩
  · rw [h]
    constructor
    · rintro ⟨v, hv⟩ -
      by_contra hfault
      rw [ask_fault _ _ (by simpa using hfault)] at hv
      cases hv
    · intro hfault
      obtain ⟨v, hv, -⟩ :=
        ask_classified { w with operatorBlocked := false } e.after hgiven (hfault hasks)
      exact ⟨v, hv⟩
  · simp [hasks, h]

/-- Opening the watched service again always returns. -/
theorem Watch.openCurrent_returns (w : Watch) (v : Verified) (stamp : Option Stamp) :
    ∃ u, w.openCurrent v stamp = .ok u := by
  unfold openCurrent
  split
  · exact ⟨w, rfl⟩
  · split
    · exact ⟨w, rfl⟩
    · next code =>
      obtain ⟨u, hu, -⟩ := w.refused_binding code stamp
      exact ⟨u, hu⟩

/-! ## Runs -/

/-- No watcher has died and the path has latched no fault. -/
structure Sound (s : State) : Prop where
  alive : ∀ w ∈ s.watches, w.died = none
  unlatched : s.health.internalFault = false

/-- Watchers that are alive give their reasons. -/
theorem reasonsOf_of_alive {ws : List Watcher} (h : ∀ w ∈ ws, w.died = none) :
    ∃ rs, reasonsOf ws = .ok rs := by
  induction ws with
  | nil => exact ⟨[], rfl⟩
  | cons w ws ih =>
    obtain ⟨rs, hrs⟩ := ih fun v hv => h v (List.mem_cons_of_mem _ hv)
    exact ⟨w.watch.reason.toList ++ rs,
      by simp [reasonsOf, h w (List.mem_cons_self ..), hrs, Except.map]⟩

/-- The reasons can be asked for in every sound state. -/
theorem Sound.reasons {s : State} (hs : Sound s) : ∃ rs, reasons s.watches = .ok rs :=
  reasonsOf_of_alive hs.alive

/-- The events of a bridge that answers its requests, whose refresh replies carry no fault code and
whose bindings are not replaced while they are listed. -/
def Event.Contained : Event → Prop
  | .memoryLoop ask => (∀ n, (ask n).given = true) ∧ ¬ Overfull ask
  | .refresh _ e => e.answer.given = true ∧ e.answer.isFault = false
  | .healthSnapshot | .openCurrent .. => True

/-- A step of one watcher keeps the state sound. -/
theorem Sound.stepWatch {s : State} (hs : Sound s) (key : Hex 64) {f : Watch → Except Exc Watch}
    (hf : ∀ w, ∃ v, f w = .ok v) : Sound (s.stepWatch key f) := by
  refine ⟨?_, hs.unlatched⟩
  intro w hw
  obtain ⟨w₀, hw₀, rfl⟩ := (Table.mem_update fun w => w.key_after _).mp hw
  split
  · obtain ⟨v, hv⟩ := hf w₀.watch
    rw [hv]
    exact hs.alive w₀ hw₀
  · exact hs.alive w₀ hw₀

/-- A round of the memory loop keeps the state sound. -/
theorem Sound.memoryLoop {s : State} (hs : Sound s) {ask : ℕ → PageAnswer}
    (hgiven : ∀ n, (ask n).given = true) (hask : ¬ Overfull ask) : Sound (s.memoryLoop ask) := by
  unfold State.memoryLoop
  rcases hl : listBindings ask with e | bs
  · rcases listBindings_error hl with hos | ⟨-, ⟨n, hmalformed⟩ | hfull⟩
    · simpa [State.loopFailure, hos] using hs
    · rw [hgiven n] at hmalformed
      cases hmalformed
    · exact absurd hfull hask
  · obtain ⟨hnodup, hlen⟩ := nodup_listBindings hl
    obtain ⟨ws, hu, hrows⟩ := update_ok s.watches hlen hnodup
    have hws : Sound { s with watches := ws } := by
      refine ⟨?_, hs.unlatched⟩
      intro w hw
      rw [Table.mem_def, hrows] at hw
      obtain ⟨l, -, rfl⟩ := List.mem_map.mp hw
      rcases died_updateWatcher (s.watches.find l.key) l with h | ⟨w₀, hw₀, h⟩
      · exact h
      · rw [h]
        exact hs.alive w₀ (Table.find_eq_some.mp hw₀).1
    obtain ⟨rs, hrs⟩ := hws.reasons
    simpa [hu, hrs] using hws

/-- Every contained event keeps the state sound. -/
theorem Sound.next {s : State} (hs : Sound s) {e : Event} (he : e.Contained) :
    Sound (next s e) := by
  cases e with
  | memoryLoop ask => exact hs.memoryLoop he.1 he.2
  | healthSnapshot =>
    obtain ⟨rs, hrs⟩ := hs.reasons
    simpa [Notify.next, State.healthSnapshot, hrs] using hs
  | refresh key e =>
    have hreturns : ∀ w : Watch, ∃ v, w.refresh e = .ok v := by
      intro w
      exact (w.refresh_returns_iff he.1).mpr fun _ => he.2
    exact hs.stepWatch key hreturns
  | openCurrent key v stamp => exact hs.stepWatch key fun w => w.openCurrent_returns v stamp

/-- The state at the start is sound. -/
theorem sound_start : Sound start := ⟨fun w hw => absurd hw (Table.not_mem_empty w), rfl⟩

/-- A binding. -/
def someBinding : Binding :=
  ⟨.ofDigit 64 0xa, lit "/repo", .ofDigit 16 0xb, lit "/state", .ones, none, 0⟩

/-- A bridge with this binding only. -/
def boundBridge : Bridge.State where
  generation := lit "generation"
  db := { Db.empty with bindings := Table.empty.put someBinding }
  hints := .new (lit "generation")
  admission := ⟨fun _ => 0⟩
  closing := false
  stop := false

/-- The bridge lists its binding. -/
def listsBinding : Event :=
  .memoryLoop fun _ => .database boundBridge.db fun _ => ⟨lit "verified", .null⟩

/-- The request of a refresh. Source: `BindingWatch.refresh` -/
def refreshRequest (key : Hex 64) : Json :=
  .obj [(lit "op", .str (lit "refresh-memory")), (lit "binding", .str key.val)]

/-- Surroundings in which the worker call that looks the binding up raises, or does not. -/
def lookupHost (obstacle : Option Obstacle) : Host where
  lookup := obstacle
  job := none
  resolve _ _ := .error .value
  observe _ := .error (.binding .memoryUnavailable)
  send _ := .error .value
  seen _ := ⟨lit "verified", .null⟩
  now := 0
  fresh := someBinding.bindingInstance
  subscription := .ofDigit 32 0
  timesOut := false

/-- The watch of the binding asks for a refresh and the bridge handles it. -/
def refreshes (obstacle : Option Obstacle) : Event :=
  .refresh someBinding.binding
    ⟨none, .reply (handle (lookupHost obstacle) 0 (refreshRequest someBinding.binding)
      boundBridge).1, none⟩

/-- A refresh that finds the memory service unavailable, and a look at the tasks. -/
def unavailableRun : List Event := [listsBinding, refreshes none, .healthSnapshot]

/-- The events of the example are contained. -/
theorem unavailableRun_contained : ∀ e ∈ unavailableRun, e.Contained := by
  intro e he
  rcases List.mem_cons.mp he with rfl | he
  · refine ⟨fun _ => rfl, ?_⟩
    unfold Overfull
    decide +kernel
  · rcases List.mem_cons.mp he with rfl | he
    · exact ⟨rfl, rfl⟩
    · rw [List.mem_singleton.mp he]
      trivial

end PeerBridge.Notify
