import PeerBridge.Memory.Commands

/-!
# Exceptions at the service boundary

The exception classes the bridge and the notifier tell apart, with the codes they carry and the
policy each code has, and what a database worker makes of an exception: the fault it records and
what the caller of the job sees. An exception class stands for its subclasses that no handler names.

* `Exc.settle`: a `ValueError` without an internal fault reaches the caller as it is; everything
  else becomes a `WorkerFailure` with the recorded fault.
* `BindingCode.recovery`, `JournalCode.policy`: the tables `RECOVERY` and `ERROR_POLICY`, total on
  the codes because an exception with a code outside its table cannot be built.
* `Admission`: the bounded places for handshakes, ordinary requests and control requests.

Source: `database_worker.py`, `service_runtime.py`, `memory_bindings.RECOVERY`,
`notification_journal.ERROR_POLICY`, `notification_source.SourceError`.
-/

namespace PeerBridge.Service

open PeerBridge.Memory (Fault)

/-! ## Codes and policies -/

/-- What a refusal asks for. -/
inductive Recovery where
  | operatorAction | retry | capacity | internalError | invalidRequest
  deriving DecidableEq

/-- The keys of `memory_bindings.RECOVERY`. -/
inductive BindingCode where
  | bindingCapacity | bindingChanged | bindingInstanceChanged | bindingNotFound
  | bindingObservationChanged | bindingRowTooLarge | bindingTimeout | foreignService
    | invalidBinding
  | invalidBindingCursor | invalidBindingPath | invalidBindingRequest | invalidServiceResponse
  | memoryIdentityChanged | memoryObservationInvalid | memoryResponseInvalid | memoryUnavailable
  | memoryUnhealthy | memoryUpgradeRequired | memoryVersionInvalid | memoryVersionUnsupported
  | ownershipMismatch | repositoryUnresolved | serviceBusy | serviceRefused | serviceUnavailable
  | serviceUnresponsive | unhealthyService | unknownOwner | unsafeServiceEndpoint
  deriving DecidableEq

/-- Source: `memory_bindings.RECOVERY` -/
def BindingCode.recovery : BindingCode → Recovery
  | bindingInstanceChanged | bindingObservationChanged | bindingTimeout | memoryIdentityChanged
  | memoryUnavailable | memoryUnhealthy | ownershipMismatch | serviceBusy | serviceUnavailable
  | serviceUnresponsive | unhealthyService => .retry
  | bindingCapacity | bindingChanged | bindingNotFound | bindingRowTooLarge | foreignService
  | invalidBinding | invalidBindingCursor | invalidBindingPath | invalidBindingRequest
  | invalidServiceResponse | memoryObservationInvalid | memoryResponseInvalid
    | memoryUpgradeRequired
  | memoryVersionInvalid | memoryVersionUnsupported | repositoryUnresolved | serviceRefused
  | unknownOwner | unsafeServiceEndpoint => .operatorAction

/-- The keys of `notification_journal.ERROR_POLICY`. -/
inductive JournalCode where
  | activationMismatch | attemptInProgress | capacity | checkpointFailed | identityInvalid
  | identityMismatch | invalidActivation | invalidCapability | invalidCounter | invalidOutcome
  | invalidReservation | invalidRetry | noAttempt | notReady | preserveExistingFiles
  | rebuildRefused | recoveryRequired | sourceChanged | sourceMissing | unsafeState
  | unsupportedRuntime | upgradeRequired
  deriving DecidableEq

/-- Source: `notification_journal.ERROR_POLICY` -/
def JournalCode.policy : JournalCode → Recovery × Option Fault
  | activationMismatch | identityMismatch | preserveExistingFiles | rebuildRefused
  | recoveryRequired | sourceChanged | sourceMissing | unsafeState | unsupportedRuntime
  | upgradeRequired => (.operatorAction, none)
  | attemptInProgress => (.retry, none)
  | capacity => (.capacity, none)
  | checkpointFailed => (.retry, some .storageError)
  | identityInvalid | invalidActivation | invalidCapability | invalidCounter | invalidOutcome
  | invalidReservation | noAttempt | notReady => (.internalError, some .internalError)
  | invalidRetry => (.invalidRequest, none)

/-- The codes of `SourceError`. -/
inductive SourceCode where
  | invalidSequence | versionMismatch | readOnlyUnavailable | bindingCapacity | pointerCapacity
  | pointerInvalid | recordInvalid | frameInvalid
  deriving DecidableEq

/-! ## Exceptions -/

/-- What `WorkerFailure.__cause__` tells a handler. -/
inductive Cause where
  /-- An `InboxSchemaError`. -/
  | schema
  /-- SQLite reported a busy or locked database. -/
  | busy
  | other
  deriving DecidableEq

/-- An exception, by the class and the fields handlers look at. -/
inductive Exc where
  | value
  /-- `CapacityError`, a `ValueError`. -/
  | capacity
  /-- `BindingError`, a `ValueError`. -/
  | binding (code : BindingCode)
  /-- `JournalError`, a `ValueError`. -/
  | journal (code : JournalCode)
  /-- `SourceError`, a `ValueError`. -/
  | source (code : SourceCode)
  /-- `InboxSchemaError`, a `sqlite3.DatabaseError`. -/
  | schema
  /-- Any other `sqlite3.Error`, busy or not. -/
  | sqlite (busy : Bool)
  /-- `sqlite3.ProgrammingError` -/
  | programming
  /-- `OSError` -/
  | os
  /-- `TimeoutError`, an `OSError`. -/
  | timeout
  /-- `BridgeUnavailable`, a `ConnectionError`. -/
  | bridgeUnavailable
  | workerFailure (code : Fault) (cause : Cause)
  /-- `WorkerClosed`, a `RuntimeError`. -/
  | workerClosed
  /-- `LookupError` -/
  | lookup
  /-- Any other `RuntimeError`, `TypeError` and so on. -/
  | other
  deriving DecidableEq

namespace Exc

/-- `isinstance(exc, ValueError)` -/
def isValueError : Exc → Bool
  | value | capacity | binding _ | journal _ | source _ => true
  | _ => false

/-- `isinstance(exc, OSError)` -/
def isOSError : Exc → Bool
  | os | timeout | bridgeUnavailable => true
  | _ => false

/-- `exc.database_fault`, where the class has one. -/
def domainFault : Exc → Option Fault
  | journal code => code.policy.2
  | _ => none

/-- The fault a worker records for an exception of a job. Source: `DatabaseWorker._run` -/
def observed (e : Exc) : Option Fault :=
  match e.domainFault with
  | some f => some f
  | none =>
      match e with
      | programming => some .internalError
      | schema | sqlite _ | os | timeout | bridgeUnavailable => some .storageError
      | _ => if e.isValueError then none else some .internalError

/-- What the cause of a `WorkerFailure` says about itself. -/
def asCause : Exc → Cause
  | schema => .schema
  | sqlite true => .busy
  | _ => .other

/-- What the caller of a job sees. Source: `DatabaseWorker._run` -/
def settle (e : Exc) : Exc :=
  if e.isValueError && e.domainFault ≠ some .internalError then e
  else workerFailure (e.observed.getD .internalError) e.asCause

end Exc

/-! ## Admission -/

/-- The kinds of places. Source: `Admission.limits` -/
inductive Place where
  | handshake | ordinary | control
  deriving DecidableEq

/-- Source: `Admission.limits` -/
def Place.limit : Place → ℕ
  | handshake => 8
  | ordinary => 16
  | control => 2

/-- Source: `Admission.counts` -/
structure Admission where
  counts : Place → ℕ

namespace Admission

/-- Source: `Admission.enter` -/
def enter (a : Admission) (p : Place) : Except Exc Admission :=
  if p.limit ≤ a.counts p then .error .capacity
  else .ok ⟨Function.update a.counts p (a.counts p + 1)⟩

/-- Source: `Admission.leave` -/
def leave (a : Admission) (p : Place) : Admission :=
  ⟨Function.update a.counts p (a.counts p - 1)⟩

/-- A place is entered while it has room, and counted. -/
theorem enter_eq_ok {a b : Admission} {p : Place} :
    a.enter p = .ok b ↔ a.counts p < p.limit
    ∧ b = ⟨Function.update a.counts p (a.counts p + 1)⟩ := by
  unfold enter
  split
  · next h => simp; omega
  · next h =>
    simp only [Except.ok.injEq]
    constructor
    · rintro rfl
      exact ⟨by omega, rfl⟩
    · rintro ⟨-, rfl⟩
      rfl

end Admission

end PeerBridge.Service
