import PeerBridge.Runtime.Table
import PeerBridge.Runtime.Text

/-!
# The hint hub

`HintHub` keeps one queue of capacity one for each subscription of a service. A committed change
schedules `publish` on the service's event loop; `publish` puts a hint into every empty queue and
leaves the others alone, so hints coalesce. `close` replaces whatever a queue holds by the end mark.

A subscription that is set up is in `queues` from before its handshake reply is written until its
connection ends, and takes one of the eight handshake places until the reply was flushed.

Source: `subscriptions.py`, `HintHub`.
-/

namespace PeerBridge.Hints

open Py Relational

/-- Source: `MAX_SUBSCRIPTIONS` -/
def maxSubscriptions : ℕ := 32

/-- Handshakes whose reply is not flushed yet. Source: the literal of `HintHub.serve` -/
def maxHandshakes : ℕ := 8

/-- What an `asyncio.Queue(maxsize=1)` of hints holds: nothing, `True`, or `None`. -/
inductive Slot where
  | empty | hint | ending
  deriving DecidableEq

/-- The queue of one subscription. -/
structure Queue where
  id : ℕ
  slot : Slot
  deriving DecidableEq

/-- Source: `HintHub` -/
structure HintHub where
  generation : Text
  queues : Table ℕ Queue Queue.id
  /-- The event loop is known, because a subscription was set up. -/
  loop : Bool
  closed : Bool
  pending : ℕ

/-- Why a subscription is not set up; each is a `CapacityError`. -/
inductive Busy where
  /-- "service is stopping" -/
  | stopping
  /-- "subscription handshake capacity reached" -/
  | handshakes
  /-- "subscription capacity reached" -/
  | subscriptions
  deriving DecidableEq

namespace HintHub

/-- Source: `HintHub.__init__` -/
def new (generation : Text) : HintHub := ⟨generation, .empty, false, false, 0⟩

/-- The queue of a subscription, while it is one of the hub's. -/
def slot (h : HintHub) (i : ℕ) : Option Slot := (h.queues.find i).map Queue.slot

/-- Rewriting the slot of the queues a test selects. -/
def fill (h : HintHub) (p : Queue → Bool) (v : Slot) : HintHub :=
  { h with queues := h.queues.update p (fun q => { q with slot := v }) (fun _ => rfl) }

/-- Source: `HintHub.publish` -/
def publish (h : HintHub) : HintHub :=
  if h.closed then h else h.fill (fun q => q.slot = .empty) .hint

/-- Source: `HintHub.close` -/
def close (h : HintHub) : HintHub := { h.fill (fun _ => true) .ending with closed := true }

/-- The checks of `serve` and what it sets up before it writes the handshake reply.
Source: `HintHub.serve` -/
def install (h : HintHub) (i : ℕ) : Except Busy HintHub :=
  if h.closed then .error .stopping
  else if maxHandshakes ≤ h.pending then .error .handshakes
  else if maxSubscriptions ≤ h.queues.rows.length then .error .subscriptions
  else .ok { h with
    loop := true
    queues := h.queues.put ⟨i, .empty⟩
    pending := h.pending + 1 }

/-- The handshake reply was flushed. -/
def flushed (h : HintHub) : HintHub := { h with pending := h.pending - 1 }

/-- `queue.get_nowait()` on the queue of a subscription. -/
def take (h : HintHub) (i : ℕ) : HintHub := h.fill (fun q => q.id = i) .empty

/-- The connection has ended. Source: the `finally` of `HintHub.serve` -/
def discard (h : HintHub) (i : ℕ) : HintHub :=
  { h with queues := h.queues.remove fun q => q.id = i }

/-! ## What each operation does to one queue -/

/-- Filling sets the slots of the queues the condition holds of. -/
theorem slot_fill (h : HintHub) (p : Queue → Bool) (v : Slot) (i : ℕ) :
    (h.fill p v).slot i = (h.queues.find i).map fun q => if p q then v else q.slot := by
  simp only [slot, fill, Table.find_update, Option.map_map]
  congr 1
  funext q
  simp only [Function.comp_apply]
  split
  · rfl
  · rfl

/-- A publication puts a hint into every empty slot. -/
theorem slot_publish {h : HintHub} (hopen : h.closed = false) {i : ℕ} {v : Slot}
    (hi : h.slot i = some v) : h.publish.slot i = some (if v = .empty then .hint else v) := by
  obtain ⟨q, hq, rfl⟩ := Option.map_eq_some_iff.mp hi
  simp [publish, hopen, slot_fill, hq]

/-- A hub that is closed publishes nothing. -/
theorem slot_publish_of_closed {h : HintHub} (hclosed : h.closed = true) (i : ℕ) :
    h.publish.slot i = h.slot i := by
  simp [publish, hclosed]

/-- A taken slot is empty. -/
theorem slot_take_self {h : HintHub} {i : ℕ} {v : Slot} (hi : h.slot i = some v) :
    (h.take i).slot i = some .empty := by
  obtain ⟨q, hq, -⟩ := Option.map_eq_some_iff.mp hi
  have hid := (Table.find_eq_some.mp hq).2
  simp [take, slot_fill, hq, hid]

/-- Taking leaves the other slots alone. -/
theorem slot_take_ne (h : HintHub) {i j : ℕ} (hij : j ≠ i) : (h.take i).slot j = h.slot j := by
  rw [take, slot_fill, slot]
  rcases hq : h.queues.find j with _ | q
  · rfl
  · have hid := (Table.find_eq_some.mp hq).2
    simp [hid, hij]

/-- Discarding a queue leaves the other slots alone. -/
theorem slot_discard_ne (h : HintHub) {i j : ℕ} (hij : j ≠ i) :
    (h.discard i).slot j = h.slot j := by
  simp only [slot, discard, Table.find_remove]
  rcases hq : h.queues.find j with _ | q
  · rfl
  · have hid := (Table.find_eq_some.mp hq).2
    simp [Option.filter, hid, hij]

/-- A queue is installed while the hub is open and has room. -/
theorem install_eq_ok {h k : HintHub} {i : ℕ} :
    h.install i = .ok k ↔ h.closed = false ∧ h.pending < maxHandshakes
      ∧ h.queues.rows.length < maxSubscriptions
      ∧ k = { h with loop := true, queues := h.queues.put ⟨i, .empty⟩, pending :=
        h.pending + 1 } := by
  simp only [install]
  split
  · next hc => simp [hc]
  · next hc =>
    split
    · next hp => simp [hc]; omega
    · next hp =>
      split
      · next hq => simp [hc]; omega
      · next hq =>
        simp only [Except.ok.injEq]
        constructor
        · rintro rfl
          exact ⟨by simpa using hc, by omega, by omega, rfl⟩
        · rintro ⟨-, -, -, rfl⟩
          rfl

/-- An installed queue starts empty. -/
theorem slot_install_self {h k : HintHub} {i : ℕ} (hk : h.install i = .ok k) :
    k.slot i = some .empty := by
  obtain ⟨-, -, -, rfl⟩ := install_eq_ok.mp hk
  simp only [slot]
  rw [Table.find_put_self rfl]
  rfl

/-- An installation leaves the other slots alone. -/
theorem slot_install_ne {h k : HintHub} {i j : ℕ} (hk : h.install i = .ok k) (hij : j ≠ i) :
    k.slot j = h.slot j := by
  obtain ⟨-, -, -, rfl⟩ := install_eq_ok.mp hk
  simp only [slot]
  rw [Table.find_put_ne hij]

end HintHub

end PeerBridge.Hints
