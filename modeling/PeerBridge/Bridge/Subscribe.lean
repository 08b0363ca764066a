import PeerBridge.Bridge.Control

/-!
# Which subscriptions are established

The two subscribers against the two services. A binding watch asks a memory service for `subscribe`,
which is the operation that service hands to its hint hub; the notifier asks its bridge for
`subscribe` too, where the bridge's operation is called `subscribe-inbox`. So the notifier's request
is taken for an ordinary one and refused as unknown, whatever the state of the bridge
(`inbox_never_subscribed`), and its rescans are driven by their two-second interval alone.

Main result `established_iff`: with the memory service up and places free there, a subscription is
established exactly when the subscriber is a binding watch.

Source: `bridge.py` `Bridge.handle`; `memory.py` `Service.handle`; `subscriptions.py`.
-/

namespace PeerBridge.Bridge

open Py Effects PeerBridge.Service PeerBridge.Hints

/-! ## The memory service's handler -/

/-- What the handler of a memory service looks at. Source: the attributes of `memory.Service` -/
structure MemoryService where
  generation : Text
  repo : Hex 16
  hints : HintHub
  admission : Admission
  closing : Bool

/-- How the handler of a memory service ends. -/
inductive MemoryHandled where
  /-- The connection was handed to `HintHub.serve`, which wrote this reply. -/
  | subscribed (identity : Identity)
  /-- An error reply with this code. -/
  | refused (code : Text)
  /-- The request goes to `Service.command`. -/
  | command

/-- Source: `memory.Service.handle` -/
def MemoryService.handle (m : MemoryService) (i : ℕ) (subscription : Hex 32) (request : Json) :
    MemoryHandled × MemoryService :=
  if m.closing then (.refused (lit "stopping"), m)
  else match m.admission.enter .handshake with
  | .error _ => (.refused (lit "capacity"), m)
  | .ok _ =>
      match request with
      | .obj r =>
          if operation request = some (lit "subscribe") then
            match validate r m.generation (some m.repo.val) with
            | .error _ => (.refused (lit "rejected"), m)
            | .ok () =>
                match m.hints.serve i subscription with
                | .error _ => (.refused (lit "capacity"), m)
                | .ok (hub, identity) => (.subscribed identity, { m with hints := hub })
          else (.command, m)
      | _ => (.refused (lit "invalid_request"), m)

/-! ## The binding watch's request -/

/-- A memory service accepts the request a binding watch builds for its generation and
repository. -/
theorem validate_memoryRequest (sha256 : Text → Hex 64) (p : Participant) (generation : Text)
    (repo : Hex 16) :
    validate (memoryRequest generation repo (consumerKey sha256 p repo)) generation (some repo.val)
      = .ok () := by
  have hconsumer := stableConsumer_consumerKey sha256 p repo
  generalize consumerKey sha256 p repo = consumer at hconsumer
  have hfields : sameFields (memoryRequest generation repo consumer)
      [lit "op", lit "protocol", lit "generation", lit "repo", lit "consumer"] = true := rfl
  have hrepo : Object.get (memoryRequest generation repo consumer) (lit "repo") = .str repo.val :=
    rfl
  have hcons : Object.get (memoryRequest generation repo consumer) (lit "consumer")
      = .str consumer := rfl
  have hprotocol : Object.get (memoryRequest generation repo consumer) (lit "protocol")
      = .int 1 := rfl
  have hgen : Object.get (memoryRequest generation repo consumer) (lit "generation")
      = .str generation := rfl
  simp [validate, hfields, hrepo, hcons, hprotocol, hgen, hconsumer, isInt, Json.isText]

/-- A service that is up, with a free place for a handshake and for a subscription. -/
structure Ready (closing : Bool) (admission : Admission) (hints : HintHub) (generation : Text) :
    Prop where
  up : closing = false
  handshake : admission.counts .handshake < Place.handshake.limit
  hub : hints.closed = false
  pending : hints.pending < maxHandshakes
  free : hints.queues.rows.length < maxSubscriptions
  /-- The hub was made for this generation. -/
  generation : hints.generation = generation

/-- A binding watch is subscribed by every memory service that is ready. -/
theorem memory_subscribed (sha256 : Text → Hex 64) (p : Participant) (m : MemoryService)
    (hm : Ready m.closing m.admission m.hints m.generation) (i : ℕ) (subscription : Hex 32) :
    (m.handle i subscription
        (.obj (memoryRequest m.generation m.repo (consumerKey sha256 p m.repo)))).1
      = .subscribed ⟨1, m.generation, subscription⟩ := by
  obtain ⟨a, ha⟩ : ∃ a, m.admission.enter .handshake = .ok a :=
    ⟨_, Admission.enter_eq_ok.mpr ⟨hm.handshake, rfl⟩⟩
  obtain ⟨hub, hserve, -⟩ := HintHub.serve_of_free hm.hub hm.pending hm.free i subscription
  have hop : operation (.obj (memoryRequest m.generation m.repo (consumerKey sha256 p m.repo)))
      = some (lit "subscribe") := rfl
  simp only [MemoryService.handle, hm.up, ha, hop, validate_memoryRequest, hserve, hm.generation]
  simp

/-! ## The notifier's request -/

/-- The bridge knows no operation `subscribe`. -/
theorem command_subscribe (H : Host) (generation : Text) (b : State) :
    command H (inboxRequest generation) b = (.error .value, b) := rfl

/-- A refusal is no subscription. -/
theorem failed_ne_subscribed (op : Option Text) (e : Exc) (identity : Identity) :
    failed op e ≠ .subscribed identity := by
  unfold failed
  split
  · simp
  · simp

/-- The bridge never hands the notifier's request to its hint hub. -/
theorem inbox_never_subscribed (H : Host) (i : ℕ) (generation : Text) (b : State)
    (identity : Identity) :
    (handle H i (.obj (inboxRequest generation)) b).1 ≠ .subscribed identity := by
  have hop : operation (.obj (inboxRequest generation)) = some (lit "subscribe") := rfl
  have hne : lit "subscribe" ≠ lit "subscribe-inbox" := by decide
  unfold handle
  split
  · simp
  · split
    · simp
    · simp only [hop, Option.some.injEq, hne, if_false]
      split
      · simp
      · rw [command_subscribe]
        exact failed_ne_subscribed _ _ _

/-- With places free and time left, the reply is that of an unknown operation. -/
theorem inbox_rejected (H : Host) (hH : H.timesOut = false) (i : ℕ) (generation : Text) (b : State)
    (hb : Ready b.closing b.admission b.hints b.generation)
    (hordinary : b.admission.counts .ordinary < Place.ordinary.limit) :
    (handle H i (.obj (inboxRequest generation)) b).1 = .error .rejected := by
  obtain ⟨a, ha⟩ : ∃ a, b.admission.enter .handshake = .ok a :=
    ⟨_, Admission.enter_eq_ok.mpr ⟨hb.handshake, rfl⟩⟩
  obtain ⟨a', ha'⟩ : ∃ a, b.admission.enter .ordinary = .ok a :=
    ⟨_, Admission.enter_eq_ok.mpr ⟨hordinary, rfl⟩⟩
  have hop : operation (.obj (inboxRequest generation)) = some (lit "subscribe") := rfl
  have h1 : lit "subscribe" ≠ lit "subscribe-inbox" := by decide
  have h2 : lit "subscribe" ≠ lit "status" := by decide
  have h3 : lit "subscribe" ≠ lit "stop" := by decide
  simp only [handle, hb.up, ha, hop, Option.some.injEq, h1, h2, h3, if_false, or_self, ha',
    command_subscribe, hH, failed]
  simp [replyCode, Exc.isValueError]

/-! ## The subscribers -/

/-- Who subscribes. -/
inductive Subscriber where
  /-- The notifier, to the inbox of its bridge. -/
  | notifier
  /-- A binding watch for this participant, to its memory service. -/
  | bindingWatch (p : Participant)

/-- The handshake request is handed to the hint hub, accepted there, and its reply is accepted by
the subscriber. -/
def Connects (sha256 : Text → Hex 64) (H : Host) (i : ℕ) (b : State) (m : MemoryService) :
    Subscriber → Prop
  | .notifier => ∃ identity,
      (handle H i (.obj (inboxRequest b.generation)) b).1 = .subscribed identity
        ∧ acceptIdentity b.generation identity = true
  | .bindingWatch p => ∃ identity,
      (m.handle i H.subscription
          (.obj (memoryRequest m.generation m.repo (consumerKey sha256 p m.repo)))).1
        = .subscribed identity
        ∧ acceptIdentity m.generation identity = true

/-- **A subscription is established exactly when the subscriber is a binding watch.** For every
generation, repository key and participant, every bridge in any state, and every memory service that
is up with places free. -/
theorem established_iff (sha256 : Text → Hex 64) (H : Host) (i : ℕ) (b : State) (m : MemoryService)
    (hm : Ready m.closing m.admission m.hints m.generation) (w : Subscriber) :
    Connects sha256 H i b m w ↔ ∃ p, w = .bindingWatch p := by
  cases w with
  | notifier =>
    constructor
    · rintro ⟨identity, hidentity, -⟩
      exact absurd hidentity (inbox_never_subscribed H i b.generation b identity)
    · rintro ⟨p, hp⟩
      cases hp
  | bindingWatch p =>
    refine ⟨fun _ => ⟨p, rfl⟩, fun _ => ?_⟩
    exact ⟨_, memory_subscribed sha256 p m hm i H.subscription, by simp [acceptIdentity]⟩

/-! ### A fresh pair of services -/

/-- Thirty-two hexadecimal digits. -/
def zeros (n : ℕ) : Hex n := ⟨List.replicate n 0x30, by simp [hexValue, isHexDigit]⟩

/-- Surroundings in which nothing goes wrong. -/
def quietHost : Host where
  lookup := none
  job := none
  resolve _ _ := .error .value
  observe _ := .error (.binding .memoryUnavailable)
  send _ := .error .value
  seen _ := ⟨lit "unknown", .null⟩
  now := 0
  fresh := .ones
  subscription := zeros 32
  timesOut := false

/-- A bridge that has just been started. -/
def freshBridge : State where
  generation := (zeros 32).val
  db := .empty
  hints := .new (zeros 32).val
  admission := ⟨fun _ => 0⟩
  closing := false
  stop := false

/-- A memory service that has just been started. -/
def freshMemory : MemoryService where
  generation := (zeros 32).val
  repo := zeros 16
  hints := .new (zeros 32).val
  admission := ⟨fun _ => 0⟩
  closing := false

/-- The fresh bridge is ready. -/
theorem freshBridge_ready :
    Ready freshBridge.closing freshBridge.admission freshBridge.hints freshBridge.generation := by
  constructor <;> decide

/-- The fresh memory service is ready. -/
theorem freshMemory_ready :
    Ready freshMemory.closing freshMemory.admission freshMemory.hints freshMemory.generation := by
  constructor <;> decide

/-- A participant. -/
def someone : Participant := .codex (zeros 64)

/-- The SHA-256 digest of this participant's identity for the fresh memory service. -/
def someoneDigest : Hex 64 :=
  ⟨lit "cdf13bafe4f5f155f511108f34e4449a85bd23e9caf751971ae0a36a358dce79", by decide⟩

/-- Fresh services: the binding watch is subscribed, the notifier is not. -/
theorem established_iff_fresh :
    Connects (fun _ => someoneDigest) quietHost 0 freshBridge freshMemory (.bindingWatch someone)
      ∧ ¬ Connects (fun _ => someoneDigest) quietHost 0 freshBridge freshMemory .notifier := by
  have h := established_iff (fun _ => someoneDigest) quietHost 0 freshBridge freshMemory
    freshMemory_ready
  exact ⟨(h _).mpr ⟨someone, rfl⟩, fun hn => by simpa using (h _).mp hn⟩

/-- A bridge that has just been started, all places free, refuses the notifier's subscription as an
unknown operation. -/
theorem inbox_subscription_refused :
    Ready freshBridge.closing freshBridge.admission freshBridge.hints freshBridge.generation
      ∧ (handle quietHost 0 (.obj (inboxRequest freshBridge.generation)) freshBridge).1
        = .error .rejected
      ∧ ¬ Connects (fun _ => someoneDigest) quietHost 0 freshBridge freshMemory .notifier := by
  refine ⟨freshBridge_ready, ?_, ?_⟩
  · exact inbox_rejected quietHost rfl 0 _ freshBridge freshBridge_ready (by decide)
  · rintro ⟨identity, hidentity, -⟩
    exact inbox_never_subscribed quietHost 0 freshBridge.generation freshBridge identity hidentity

end PeerBridge.Bridge
