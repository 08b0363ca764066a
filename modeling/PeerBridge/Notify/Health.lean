import PeerBridge.Service.Worker

/-!
# How the notifier takes a failure

What the notifier keeps about its own state of health, and what an exception that ends a scan or a
look at the watchers does to it. An internal fault is permanent: nothing is scanned or delivered
after it. An operator block suspends delivery. Every other exception leaves a reason and is tried
again.

Source: `notification_runtime.py` `Runtime.record_failure`; `notification_health.py` `REASONS`.
-/

namespace PeerBridge.Notify

open PeerBridge.Service
open PeerBridge.Memory (Fault)

/-- The values of `Runtime.reason`. Source: `notification_health.REASONS` -/
inductive HealthReason where
  | starting | bridgeUnavailable | storageWait | storageError | internalError | sourceFault
  | journalCapacity | journalRecoveryRequired | journalUpgradeRequired | journalUnsafeState
  | journalUnsupportedRuntime
  deriving DecidableEq

/-- Source: the attributes of `Runtime` that `record_failure` sets -/
structure Health where
  reason : Option HealthReason
  operatorBlocked : Bool
  internalFault : Bool
  deriving DecidableEq

/-- Source: `Runtime.__init__` -/
def Health.starting : Health := ⟨some .starting, false, false⟩

/-- `exc.code in health.REASONS` -/
def ownReason : JournalCode → Option HealthReason
  | .capacity => some .journalCapacity
  | .recoveryRequired => some .journalRecoveryRequired
  | .upgradeRequired => some .journalUpgradeRequired
  | .unsafeState => some .journalUnsafeState
  | .unsupportedRuntime => some .journalUnsupportedRuntime
  | _ => none

/-- The reason a worker's fault is reported under. -/
def faultReason : Fault → HealthReason
  | .storageError => .storageError
  | .internalError => .internalError

namespace Health

/-- A permanent stop. -/
def latch (h : Health) : Health := { h with reason := some .internalError, internalFault := true }

/-- Source: `Runtime.record_failure`, on a `JournalError` -/
def recordJournal (h : Health) (code : JournalCode) : Health :=
  let h := if code.policy.1 = .operatorAction then { h with operatorBlocked := true } else h
  if code.policy.1 = .internalError then h.latch
  else if code.policy.2 = some .storageError then { h with reason := some .storageError }
  else if code.policy.1 = .retry then { h with reason := some .storageWait }
  else match ownReason code with
    | some r => { h with reason := some r }
    | none =>
        if code = .sourceChanged ∨ code = .sourceMissing then { h with reason := some .sourceFault }
        else if code.policy.1 = .operatorAction then
          { h with reason := some .journalRecoveryRequired }
        else h.latch

/-- Source: `Runtime.record_failure` -/
def recordFailure (h : Health) (e : Exc) : Health :=
  if h.internalFault then { h with reason := some .internalError }
  else match e with
    | .journal code => h.recordJournal code
    | .source _ | .schema => { h with reason := some .sourceFault, operatorBlocked := true }
    | .workerFailure f cause =>
        let h := { h with internalFault := decide (f = Fault.internalError) }
        match cause with
        | .schema => { h with reason := some .sourceFault, operatorBlocked := true }
        | .busy => { h with reason := some .storageWait }
        | .other => { h with reason := some (faultReason f) }
    | .programming => h.latch
    | .bridgeUnavailable => { h with reason := some .bridgeUnavailable }
    | .sqlite true | .capacity => { h with reason := some .storageWait }
    | .sqlite false | .os | .timeout => { h with reason := some .storageError }
    | .value | .binding _ | .workerClosed | .lookup | .other => h.latch

end Health

end PeerBridge.Notify
