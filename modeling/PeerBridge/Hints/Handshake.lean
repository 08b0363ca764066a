import PeerBridge.Bridge.Inbox
import PeerBridge.Hints.Hub

/-!
# The subscription handshake

The request a subscriber sends, the check a service makes on it, the reply `HintHub.serve` writes,
and what the subscriber accepts as a reply. A request and a reply cross the socket as one line of
JSON each; the decoder returns what the encoder was given, so both sides see the same object here.

The two subscribers are the notifier, which watches the inbox of its bridge, and a binding watch,
which watches a memory service under the consumer key of its participant.

Source: `subscriptions.py` `validate`, `open_hints`; `notification_runtime.py`
`Runtime.open_current`; `notification_memory.py` `BindingWatch.open_current`;
`notification_notices.py` `consumer_key`.
-/

namespace PeerBridge.Hints

open Py PeerBridge.Service PeerBridge.Bridge

/-! ## Checks on a request -/

/-- `set(request) == fields` -/
def sameFields (r : Object) (fields : List Text) : Bool :=
  (r.all fun m => fields.contains m.1) && fields.all fun k => r.has k

/-- `type(value) is int and value == n` -/
def isInt (v : Json) (n : ℤ) : Bool :=
  match v with
  | .int m => m = n
  | _ => false

/-- `isinstance(consumer, str) and consumer.strip() and len(consumer) <= 128` -/
def stableConsumer : Json → Bool
  | .str t => !(strip t).isEmpty && t.length ≤ 128
  | _ => false

/-- Source: `subscriptions.validate` -/
def validate (r : Object) (generation : Text) (repo : Option Text) : Except Exc Unit :=
  let fields := [lit "op", lit "protocol", lit "generation"]
  let common (fields : List Text) : Except Exc Unit :=
    if !sameFields r fields || !isInt (r.get (lit "protocol")) 1 then .error .value
    else if !(r.get (lit "generation")).isText generation then .error .value
    else .ok ()
  match repo with
  | none => common fields
  | some repo =>
      if !(r.get (lit "repo")).isText repo || !stableConsumer (r.get (lit "consumer")) then
        .error .value
      else common (fields ++ [lit "repo", lit "consumer"])

/-! ## The reply -/

/-- Source: `identity` in `HintHub.serve` -/
structure Identity where
  protocol : ℕ
  generation : Text
  subscription : Hex 32
  deriving DecidableEq

/-- What `HintHub.serve` does first: the checks, the queue, and the reply it writes; `subscription`
is `uuid.uuid4().hex`. A refusal is a `CapacityError`. -/
def HintHub.serve (h : HintHub) (i : ℕ) (subscription : Hex 32) : Except Exc (HintHub × Identity) :=
  match h.install i with
  | .ok k => .ok (k, ⟨1, h.generation, subscription⟩)
  | .error _ => .error .capacity

/-- A subscription is accepted while the hub is open and has a free place of each kind. -/
theorem HintHub.serve_of_free {h : HintHub} (hopen : h.closed = false)
    (hpending : h.pending < maxHandshakes) (hfree : h.queues.rows.length < maxSubscriptions) (i : ℕ)
    (subscription : Hex 32) :
    ∃ k, h.serve i subscription = .ok (k, ⟨1, h.generation, subscription⟩)
    ∧ k.slot i = some .empty := by
  obtain ⟨k, hk⟩ : ∃ k, h.install i = .ok k := ⟨_, install_eq_ok.mpr ⟨hopen, hpending, hfree, rfl⟩⟩
  exact ⟨k, by simp [serve, hk], slot_install_self hk⟩

/-- What the subscriber checks on a reply it got to its request. Source: `open_hints` -/
def acceptIdentity (requested : Text) (identity : Identity) : Bool :=
  identity.protocol = 1 && identity.generation = requested

/-! ## The subscribers' requests -/

/-- Source: `Runtime.open_current` -/
def inboxRequest (generation : Text) : Object :=
  [(lit "op", .str (lit "subscribe")), (lit "protocol", .int 1),
    (lit "generation", .str generation)]

/-- A participant `consumer_key` accepts. -/
structure Participant where
  provider : Text
  hprovider : provider = lit "codex" ∨ provider = lit "deepseek"
  digest : Hex 64

/-- A Codex session, by its digest. -/
def Participant.codex (digest : Hex 64) : Participant := ⟨lit "codex", .inl rfl, digest⟩

/-- The text `consumer_key` hashes: `json.dumps` with compact separators. -/
def consumerIdentity (p : Participant) (repo : Hex 16) : Text :=
  lit "[" ++ quote p.provider ++ lit "," ++ quote (lit "account-local") ++ lit ","
    ++ quote p.digest.val ++ lit "," ++ quote repo.val ++ lit "]"

/-- Source: `notification_notices.consumer_key`; `sha256` is `hashlib.sha256(...).hexdigest()` -/
def consumerKey (sha256 : Text → Hex 64) (p : Participant) (repo : Hex 16) : Text :=
  lit "koinon-" ++ (sha256 (consumerIdentity p repo)).val

/-- Source: `BindingWatch.open_current` -/
def memoryRequest (generation : Text) (repo : Hex 16) (consumer : Text) : Object :=
  [(lit "op", .str (lit "subscribe")), (lit "protocol", .int 1),
    (lit "generation", .str generation),
   (lit "repo", .str repo.val), (lit "consumer", .str consumer)]

/-- A consumer key is not blank and has seventy-one characters. -/
theorem stableConsumer_consumerKey (sha256 : Text → Hex 64) (p : Participant) (repo : Hex 16) :
    stableConsumer (.str (consumerKey sha256 p repo)) = true := by
  have hk : strip (consumerKey sha256 p repo) ≠ [] :=
    strip_ne_nil (c := 0x6b) (List.mem_append_left _ (by decide)) (by decide)
  have hdigest := (sha256 (consumerIdentity p repo)).property
  simp only [hexValue, Bool.and_eq_true, beq_iff_eq] at hdigest
  have hlen : (consumerKey sha256 p repo).length = 71 := by
    have hp : (lit "koinon-").length = 7 := by decide
    simp [consumerKey, hp, hdigest.1]
  simp [stableConsumer, hk, hlen]

end PeerBridge.Hints
