import PeerBridge.Runtime.Transition
import PeerBridge.Service.Worker

/-!
# The database worker: every accepted job is settled once

One thread owns the database object and takes jobs from two bounded queues under a condition
variable. Clients call, are cancelled and close from other threads. A block under the lock is one
event; so is everything the thread does between two such blocks that another thread can observe.

The state keeps, beside the fields of `DatabaseWorker`, the history the statements are about: what
was accepted and refused, the method calls begun and ended, and every `set_result` or
`set_exception` on a job's future, in order.

* `Settles`: the invariant that ties the queues and the thread's position to that history;
* `measure_step`: every event of the thread shortens what is left to do, and `awake`: it is never
  left waiting while there is something to do, so no notification is lost;
* `memory_refusal_passes` and `toExc_translate`: what the worker makes of the exceptions of the two
  databases it runs is what their clients are told.
* `jobs_settled`: every accepted job runs and is resolved exactly once before the object is closed.

Source: `database_worker.py`, `DatabaseWorker`, `settled`.
-/

namespace PeerBridge.Service

open PeerBridge.Memory (Fault)
open Transition

/-! ## Exceptions of a job -/

/-- What the worker reads of an exception of a job. -/
structure Classes (ε : Type) where
  /-- `isinstance(exc, ValueError)` -/
  valueError : ε → Bool
  /-- `isinstance(exc, sqlite3.ProgrammingError)` -/
  programming : ε → Bool
  /-- `isinstance(exc, (sqlite3.Error, OSError))` -/
  storage : ε → Bool
  /-- `exc.database_fault`, where it is one of the two faults. -/
  domain : ε → Option Fault

/-- The recorded fault after an exception. Source: `DatabaseWorker._run` -/
def Classes.record {ε : Type} (C : Classes ε) (fault : Option Fault) (e : ε) : Option Fault :=
  match C.domain e with
  | some f => some f
  | none =>
      if C.programming e then some .internalError
      else if C.storage e then some .storageError
      else if C.valueError e then fault
      else some .internalError

/-- What a job's future is resolved with. -/
inductive Outcome (ν ε : Type) where
  | value (v : ν)
  | raised (e : ε)
  /-- `WorkerFailure(self.fault)`, caused by the exception. -/
  | failure (fault : Option Fault) (cause : ε)
  /-- `WorkerClosed('database worker stopped')` -/
  | closed
  deriving DecidableEq

/-- The exception set on a future. Source: `DatabaseWorker._run` -/
def Classes.translate {ε ν : Type} (C : Classes ε) (fault : Option Fault) (e : ε) : Outcome ν ε :=
  if C.valueError e && C.domain e ≠ some .internalError then .raised e else .failure fault e

/-- The exceptions of a memory command. `MemoryError_` is a `ValueError`. -/
def memoryClasses : Classes Memory.Exc where
  valueError
    | .refused _ _ _ | .valueError => true
    | _ => false
  programming e := decide (e = .sqlite .programming)
  storage
    | .sqlite _ => true
    | _ => false
  domain
    | .refused code _ cause => Memory.databaseFault code cause
    | _ => none

/-- **A refusal of the store keeps its code.** It reaches the caller as it is unless a misuse of the
database caused it; the worker has then recorded the storage failure behind it, if there is one. -/
theorem memory_refusal_passes {ν : Type} (fault : Option Fault) {code : Memory.Code}
    {detail : Py.Text}
    {cause : Option Memory.SqliteError} (hcause : cause ≠ some .programming) :
    memoryClasses.translate (ν := ν) (memoryClasses.record fault (.refused code detail cause))
        (.refused code detail cause) = .raised (.refused code detail cause)
      ∧ memoryClasses.record fault (.refused code detail cause)
        = if code = .writeFailed ∨ code = .storageBlocked then some .storageError else fault := by
  have hdomain : memoryClasses.domain (.refused code detail cause)
      = if code = .writeFailed ∨ code = .storageBlocked then some .storageError else none := by
    change Memory.databaseFault code cause = _
    unfold Memory.databaseFault
    rw [if_neg hcause]
    cases code <;> simp
  have hkept : memoryClasses.valueError (.refused code detail cause) = true := rfl
  by_cases hstorage : code = .writeFailed ∨ code = .storageBlocked
  · rw [if_pos hstorage] at hdomain
    simp [Classes.translate, Classes.record, hdomain, hkept, hstorage]
  · rw [if_neg hstorage] at hdomain
    have hprogramming : memoryClasses.programming (.refused code detail cause) = false := rfl
    have hengine : memoryClasses.storage (.refused code detail cause) = false := rfl
    simp [Classes.translate, Classes.record, hdomain, hkept, hprogramming, hengine, hstorage]

/-- The exceptions of the bridge's and the notifier's jobs. -/
def serviceClasses : Classes Exc where
  valueError := Exc.isValueError
  programming e := decide (e = .programming)
  storage
    | .schema | .sqlite _ => true
    | e => e.isOSError
  domain := Exc.domainFault

/-- `Exc.observed` is what these workers record. -/
theorem record_eq_observed (fault : Option Fault) (e : Exc) :
    serviceClasses.record fault e = e.observed.or fault := by
  cases e with
  | journal code =>
    unfold Classes.record Exc.observed
    change (match code.policy.2 with
      | some f => some f
      | none => fault) = (match code.policy.2 with
        | some f => some f
        | none => none).or fault
    cases code.policy.2 <;> rfl
  | _ => rfl

/-- The exception that awaiting a job raises. -/
def Outcome.toExc {ν : Type} : Outcome ν Exc → Option Exc
  | .value _ => none
  | .raised e => some e
  | .failure fault cause => fault.map fun f => .workerFailure f cause.asCause
  | .closed => some .workerClosed

/-- **`Exc.settle` is what the caller of these workers sees**: whatever the worker has recorded
before. -/
theorem toExc_translate {ν : Type} (fault : Option Fault) (e : Exc) :
    (serviceClasses.translate (ν := ν) (serviceClasses.record fault e) e).toExc
    = some e.settle := by
  rw [record_eq_observed, Classes.translate, Exc.settle]
  change (if e.isValueError && decide (e.domainFault ≠ some .internalError) then _ else _ :
    Outcome ν Exc).toExc = _
  split
  · rfl
  · next h =>
    obtain ⟨f, hf⟩ : ∃ f, e.observed = some f := by
      rcases hd : e.domainFault with _ | f
      · have hv : e.isValueError = false := by simpa [hd] using h
        cases e <;> simp_all [Exc.observed, Exc.isValueError]
      · refine ⟨f, ?_⟩
        unfold Exc.observed
        rw [hd]
    rw [hf]
    rfl

/-! ## The worker -/

/-- A call of a client, by its number and its queue. -/
structure Job where
  id : ℕ
  priority : Bool
  deriving DecidableEq

/-- Where the thread is in `DatabaseWorker._run`. -/
inductive Phase (ν ε : Type) where
  /-- Before the lock at the head of the loop. -/
  | idle
  /-- In `self._condition.wait()`, not notified. -/
  | waiting
  /-- In the method of a job. -/
  | running (job : Job)
  /-- The method raised; the fault is not recorded yet. -/
  | raised (job : Job) (e : ε)
  /-- Before the future of the job is set. -/
  | settling (job : Job) (result : Except ε ν)
  /-- Before `self._running = False`. -/
  | resolved
  /-- Out of the loop, before the lock of the `finally` block. -/
  | stopping (failed : Bool)
  /-- Before `owner.close()`. -/
  | closing (failed : Bool)
  /-- `self._done` is set. -/
  | finished (failed : Bool)
  deriving DecidableEq

/-- The worker, its clients and the history. -/
structure WorkerState (ν ε : Type) where
  /-- `self._control` -/
  control : List Job
  /-- `self._ordinary` -/
  ordinary : List Job
  /-- `self._closing` -/
  closing : Bool
  /-- `self._fault` -/
  fault : Option Fault
  /-- `self._running` -/
  running : Bool
  phase : Phase ν ε
  /-- Calls made so far. -/
  calls : ℕ
  accepted : List Job
  refused : List Job
  /-- Method calls begun, in order. -/
  started : List Job
  /-- Method calls that returned or raised, in order. -/
  completed : List (Job × Except ε ν)
  /-- Every `set_result` and `set_exception` on a job's future, in order. -/
  futures : List (Job × Outcome ν ε)
  /-- Clients in `await settled(result)`. -/
  awaiting : List Job
  /-- `owner.close()` was called. -/
  closed : Bool

/-- What happens next. -/
inductive WorkerEvent (ν ε : Type) where
  /-- A client calls a method. -/
  | call (priority : Bool)
  /-- `stop_accepting`, by `close` or `close_sync`. -/
  | stop
  /-- The client of a job is cancelled while it awaits. -/
  | cancel (job : Job)
  /-- The client of a job receives its outcome. -/
  | receive (job : Job)
  /-- The thread goes on. -/
  | work
  /-- The method of the current job returns or raises. -/
  | finish (result : Except ε ν)
  /-- `owner.close()` returns, or raises. -/
  | close (fails : Bool)

/-- The thread goes on by itself. -/
def WorkerEvent.ofThread {ν ε : Type} : WorkerEvent ν ε → Bool
  | work | finish _ | close _ => true
  | _ => false

namespace WorkerState

variable {ν ε : Type}

/-- The worker when its constructor returns: the factory has made the object. -/
def start : WorkerState ν ε where
  control := []
  ordinary := []
  closing := false
  fault := none
  running := false
  phase := .idle
  calls := 0
  accepted := []
  refused := []
  started := []
  completed := []
  futures := []
  awaiting := []
  closed := false

/-- `self._condition.notify()`: a waiting thread goes back to the test of its loop. -/
def notify (s : WorkerState ν ε) : WorkerState ν ε :=
  match s.phase with
  | .waiting => { s with phase := .idle }
  | _ => s

/-- The queue of a class and its limit. -/
def queue (s : WorkerState ν ε) (priority : Bool) : List Job :=
  if priority then s.control else s.ordinary

/-- The limit of a queue. -/
def limit (priority : Bool) : ℕ := if priority then 2 else 16

/-- `queue.append(...)` -/
def append (s : WorkerState ν ε) (job : Job) : WorkerState ν ε :=
  if job.priority then { s with control := s.control ++ [job] }
  else { s with ordinary := s.ordinary ++ [job] }

/-- Source: `DatabaseWorker.call` -/
def call (s : WorkerState ν ε) (priority : Bool) : WorkerState ν ε :=
  let job : Job := ⟨s.calls, priority⟩
  let s := { s with calls := s.calls + 1 }
  if s.closing then { s with refused := s.refused ++ [job] }
  else if (s.queue priority).length ≥ limit priority then { s with refused := s.refused ++ [job] }
  else
    { s.append job with accepted := s.accepted ++ [job], awaiting := s.awaiting ++ [job] }.notify

/-- Source: `DatabaseWorker.stop_accepting` -/
def stopAccepting (s : WorkerState ν ε) : WorkerState ν ε := { s with closing := true }.notify

/-- `set_result` or `set_exception` on the future of a job. A future that is already resolved
raises, and the thread leaves its loop. -/
def resolve (s : WorkerState ν ε) (job : Job) (o : Outcome ν ε) : WorkerState ν ε :=
  if job ∈ s.futures.map Prod.fst then { s with phase := .stopping true }
  else { s with futures := s.futures ++ [(job, o)], phase := .resolved }

/-- The method of a job taken from its queue begins. -/
def begin (s : WorkerState ν ε) (job : Job) : WorkerState ν ε :=
  { s with running := true, started := s.started ++ [job], phase := .running job }

/-- The block under the lock at the head of the loop. -/
def take (s : WorkerState ν ε) : WorkerState ν ε :=
  match s.control, s.ordinary with
  | job :: rest, _ => { s with control := rest }.begin job
  | [], job :: rest => { s with ordinary := rest }.begin job
  | [], [] =>
      if s.closing then { s with phase := .stopping false } else { s with phase := .waiting }

/-- The jobs left when the loop is left. -/
def drain (s : WorkerState ν ε) : WorkerState ν ε :=
  { s with
    closing := true
    futures := s.futures ++ (s.control ++ s.ordinary).map fun job => (job, .closed)
    control := []
    ordinary := [] }

variable (C : Classes ε)

/-- The thread goes on. Source: `DatabaseWorker._run` -/
def work (s : WorkerState ν ε) : Option (WorkerState ν ε) :=
  match s.phase with
  | .idle => some s.take
  | .raised job e => some { s with fault := C.record s.fault e, phase := .settling job (.error e) }
  | .settling job (.ok v) => some (s.resolve job (.value v))
  | .settling job (.error e) => some (s.resolve job (C.translate s.fault e))
  | .resolved => some { s with running := false, phase := .idle }
  | .stopping failed => some { s.drain with phase := .closing failed }
  | _ => none

/-- The method of the current job returns or raises. -/
def finish (s : WorkerState ν ε) (result : Except ε ν) : Option (WorkerState ν ε) :=
  match s.phase, result with
  | .running job, .ok v =>
      some { s with completed := s.completed ++ [(job, .ok v)], phase := .settling job (.ok v) }
  | .running job, .error e =>
      some { s with completed := s.completed ++ [(job, .error e)], phase := .raised job e }
  | _, _ => none

/-- `owner.close()`, then `self._done` is set. -/
def closeOwner (s : WorkerState ν ε) (fails : Bool) : Option (WorkerState ν ε) :=
  match s.phase with
  | .closing failed => some { s with closed := true, phase := .finished (failed || fails) }
  | _ => none

/-- The caller of a shielded job stops waiting; the job's future is not touched. Source:
`settled` -/
def cancel (s : WorkerState ν ε) (job : Job) : Option (WorkerState ν ε) :=
  if job ∈ s.awaiting then some { s with awaiting := s.awaiting.erase job } else none

/-- The caller of a resolved job goes on. -/
def receive (s : WorkerState ν ε) (job : Job) : Option (WorkerState ν ε) :=
  if job ∈ s.awaiting ∧ job ∈ s.futures.map Prod.fst then
    some { s with awaiting := s.awaiting.erase job }
  else none

/-- What an event does. -/
def next (s : WorkerState ν ε) : WorkerEvent ν ε → Option (WorkerState ν ε)
  | .call priority => some (s.call priority)
  | .stop => some s.stopAccepting
  | .cancel job => s.cancel job
  | .receive job => s.receive job
  | .work => s.work C
  | .finish result => s.finish result
  | .close fails => s.closeOwner fails

end WorkerState

/-- The worker among its clients. -/
def databaseWorker {ν ε : Type} (C : Classes ε) : System (WorkerState ν ε) (WorkerEvent ν ε) where
  init s := s = .start
  next := WorkerState.next C

/-! ## The invariant -/

section invariant

variable {ν ε : Type} {C : Classes ε}

/-- The job whose future is not set yet. -/
def Phase.current : Phase ν ε → List Job
  | .running job | .raised job _ | .settling job _ => [job]
  | _ => []

/-- The job whose method has not ended yet. -/
def Phase.unfinished : Phase ν ε → List Job
  | .running job => [job]
  | _ => []

/-- The loop was left. -/
def Phase.over : Phase ν ε → Bool
  | .stopping _ | .closing _ | .finished _ => true
  | _ => false

/-- An outcome is that of the method call: its value, its exception where the code passes it on, or
a failure with a fault. -/
def Classes.Reports (C : Classes ε) : Except ε ν → Outcome ν ε → Prop
  | .ok v, o => o = .value v
  | .error e, o => o = .raised e ∧ C.valueError e = true ∨ ∃ f, o = .failure (some f) e

/-- What the thread knows about its current job. -/
def WorkerState.Pending (C : Classes ε) (s : WorkerState ν ε) : Prop :=
  match s.phase with
  | .raised job e => (job, .error e) ∈ s.completed
  | .settling job (.ok v) => (job, .ok v) ∈ s.completed
  | .settling job (.error e) =>
      (job, .error e) ∈ s.completed ∧ C.Reports (ν := ν) (.error e) (C.translate s.fault e)
  | _ => True

/-- The queues and the thread against the history. -/
structure Settles (C : Classes ε) (s : WorkerState ν ε) : Prop where
  limits : ∀ p, (s.queue p).length ≤ WorkerState.limit p
  ids : ((s.accepted ++ s.refused).map Job.id).Nodup ∧ ∀ j ∈ s.accepted ++ s.refused, j.id < s.calls
  fifo : ∀ p, s.started.filter (·.priority == p) ++ s.queue p = s.accepted.filter (·.priority == p)
  ran : s.completed.map Prod.fst ++ s.phase.unfinished = s.started
  set : s.futures.map Prod.fst ++ s.phase.current = s.started
  reported : ∀ f ∈ s.futures, ∃ r, (f.1, r) ∈ s.completed ∧ C.Reports r f.2
  pending : s.Pending C
  rest : s.phase = .waiting → (∀ p, s.queue p = []) ∧ s.closing = false
  ended : s.phase.over = true → (∀ p, s.queue p = []) ∧ s.closing = true
  owner : s.closed = true ↔ ∃ f, s.phase = .finished f

/-- A recorded fault is what an exception that is not passed on is reported with. -/
theorem Classes.reports_translate (fault : Option Fault) (e : ε) :
    C.Reports (ν := ν) (.error e) (C.translate (C.record fault e) e) := by
  unfold translate
  split
  · next h => exact .inl ⟨rfl, (Bool.and_eq_true_iff.mp h).1⟩
  · next h =>
    right
    have hsome : (C.record fault e).isSome = true := by
      unfold record
      rcases hd : C.domain e with _ | f
      · have hv : C.valueError e = false := by simpa [hd] using h
        simp only [hv]
        split
        · rfl
        · split
          · rfl
          · rfl
      · rfl
    obtain ⟨f, hf⟩ := Option.isSome_iff_exists.mp hsome
    exact ⟨f, by rw [hf]⟩

/-- Jobs without repetition in each priority are without repetition. -/
theorem nodup_of_filter {l : List Job} (h : ∀ p, (l.filter (·.priority == p)).Nodup) : l.Nodup := by
  rw [List.nodup_iff_count_le_one]
  intro j
  have hj := List.nodup_iff_count_le_one.mp (h j.priority) j
  rwa [List.count_filter (by simp)] at hj

namespace Settles

variable {s : WorkerState ν ε}

/-- No job is accepted twice. -/
theorem accepted_nodup (h : Settles C s) : s.accepted.Nodup := by
  have hids := h.ids.1
  rw [List.map_append] at hids
  exact (List.nodup_append.mp hids).1.of_map

/-- No method call is begun twice. -/
theorem started_nodup (h : Settles C s) : s.started.Nodup := by
  apply nodup_of_filter
  intro p
  have hp := h.accepted_nodup.filter (·.priority == p)
  rw [← h.fifo p] at hp
  exact (List.nodup_append.mp hp).1

/-- What was begun was accepted. -/
theorem started_subset (h : Settles C s) : s.started ⊆ s.accepted := by
  intro j hj
  have hmem : j ∈ s.started.filter (·.priority == j.priority) ++ s.queue j.priority :=
    List.mem_append_left _ (List.mem_filter.mpr ⟨hj, by simp⟩)
  rw [h.fifo] at hmem
  exact (List.mem_filter.mp hmem).1

/-- A queued job is in the queue of its class. -/
theorem priority_of_mem (h : Settles C s) {p : Bool} {j : Job} (hj : j ∈ s.queue p) :
    j.priority = p := by
  have hmem := List.mem_append_right (s.started.filter (·.priority == p)) hj
  rw [h.fifo] at hmem
  simpa using (List.mem_filter.mp hmem).2

/-- The future of the current job is not set. -/
theorem current_not_mem (h : Settles C s) {j : Job} (hj : s.phase.current = [j]) :
    j ∉ s.futures.map Prod.fst := by
  have hset := h.set
  rw [hj] at hset
  have hnd := h.started_nodup
  rw [← hset] at hnd
  intro hmem
  exact (List.nodup_append.mp hnd).2.2 j hmem j (by simp) rfl

/-! ## One event keeps it -/

/-- A worker starts with every promise kept. -/
theorem start : Settles C (.start : WorkerState ν ε) where
  limits p := by cases p <;> simp [WorkerState.queue, WorkerState.start]
  ids := by simp [WorkerState.start]
  fifo p := by cases p <;> rfl
  ran := rfl
  set := rfl
  reported f hf := by cases hf
  pending := trivial
  rest hp := by cases hp
  ended hp := by cases hp
  owner := ⟨nofun, fun ⟨_, h⟩ => by cases h⟩

/-- Waking the thread changes nothing else, and ends its wait. -/
theorem notify_cases (s : WorkerState ν ε) :
    s.notify = s ∧ s.phase ≠ .waiting ∨
      s.phase = .waiting ∧ s.notify = { s with phase := .idle } := by
  unfold WorkerState.notify
  rcases hp : s.phase
  case waiting => exact .inr ⟨rfl, by simp⟩
  all_goals exact .inl ⟨by simp, by simp⟩

/-- A notified thread keeps whatever does not depend on its waiting. -/
theorem of_notify (limits : ∀ p, (s.queue p).length ≤ WorkerState.limit p)
    (ids : ((s.accepted ++ s.refused).map Job.id).Nodup ∧ ∀ j ∈ s.accepted ++ s.refused,
      j.id < s.calls)
    (fifo : ∀ p, s.started.filter (·.priority == p) ++ s.queue p
      = s.accepted.filter (·.priority == p))
    (ran : s.completed.map Prod.fst ++ s.phase.unfinished = s.started)
    (set : s.futures.map Prod.fst ++ s.phase.current = s.started)
    (reported : ∀ f ∈ s.futures, ∃ r, (f.1, r) ∈ s.completed ∧ C.Reports r f.2)
    (pending : s.Pending C) (ended : s.phase.over = true → (∀ p, s.queue p = []) ∧ s.closing = true)
    (owner : s.closed = true ↔ ∃ f, s.phase = .finished f) : Settles C s.notify := by
  rcases notify_cases s with ⟨he, hne⟩ | ⟨hw, he⟩
  · rw [he]
    exact ⟨limits, ids, fifo, ran, set, reported, pending, fun hw => absurd hw hne, ended, owner⟩
  · rw [hw] at ran set owner
    rw [he]
    refine ⟨limits, ids, fifo, ran, set, reported, trivial, nofun, nofun, owner.trans ?_⟩
    simp

/-- The number of a new call is not in use. -/
theorem ids_call (h : Settles C s) (p : Bool) {l : List Job}
    (hl : l.Perm (⟨s.calls, p⟩ :: (s.accepted ++ s.refused))) :
    (l.map Job.id).Nodup ∧ ∀ j ∈ l, j.id < s.calls + 1 := by
  constructor
  · rw [(hl.map Job.id).nodup_iff, List.map_cons, List.nodup_cons]
    refine ⟨?_, h.ids.1⟩
    intro hmem
    obtain ⟨j, hj, heq⟩ := List.mem_map.mp hmem
    have hlt := h.ids.2 j hj
    rw [heq] at hlt
    exact lt_irrefl _ hlt
  · intro j hj
    rcases List.mem_cons.mp (hl.mem_iff.mp hj) with rfl | hj
    · exact Nat.lt_succ_self _
    · exact Nat.lt_succ_of_lt (h.ids.2 j hj)

/-- A refused call breaks no promise. -/
theorem refuse (h : Settles C s) (p : Bool) :
    Settles C { s with calls := s.calls + 1, refused := s.refused ++ [⟨s.calls, p⟩] } where
  limits := h.limits
  ids := by
    apply h.ids_call p
    rw [← List.append_assoc]
    exact List.perm_append_singleton _ _
  fifo := h.fifo
  ran := h.ran
  set := h.set
  reported := h.reported
  pending := h.pending
  rest := h.rest
  ended := h.ended
  owner := h.owner

/-- A job is queued behind those of its priority. -/
theorem queue_append (s : WorkerState ν ε) (job : Job) (p : Bool) :
    (s.append job).queue p = s.queue p ++ if job.priority = p then [job] else [] := by
  unfold WorkerState.append WorkerState.queue
  rcases hj : job.priority <;> cases p <;> simp

/-- A job goes to the end of its queue and wakes the thread. -/
theorem accept (h : Settles C s) {p : Bool} (hc : s.closing = false)
    (hroom : (s.queue p).length < WorkerState.limit p) (t : WorkerState ν ε)
    (ht : t = { ({ s with calls := s.calls + 1 } : WorkerState ν ε).append ⟨s.calls, p⟩ with
      accepted := s.accepted ++ [⟨s.calls, p⟩], awaiting := s.awaiting ++ [⟨s.calls, p⟩] }) :
    Settles C t.notify := by
  have hq : ∀ q, t.queue q = s.queue q ++ if p = q then [⟨s.calls, p⟩] else [] := by
    intro q
    subst ht
    exact queue_append { s with calls := s.calls + 1 } ⟨s.calls, p⟩ q
  have hrest : t.accepted = s.accepted ++ [⟨s.calls, p⟩] ∧ t.refused = s.refused
    ∧ t.calls = s.calls + 1
      ∧ t.started = s.started ∧ t.completed = s.completed ∧ t.futures = s.futures
      ∧ t.phase = s.phase
      ∧ t.closing = s.closing ∧ t.closed = s.closed ∧ t.fault = s.fault := by
    subst ht
    unfold WorkerState.append
    cases p <;> simp
  obtain ⟨hacc, href, hcalls, hstart, hcomp, hfut, hphase, hclosing, hclosed, hfault⟩ := hrest
  clear ht
  apply of_notify
  · intro q
    rw [hq]
    split
    · next hpq =>
      subst hpq
      rw [List.length_append]
      exact hroom
    · simpa using h.limits q
  · rw [hacc, href, hcalls]
    apply h.ids_call p
    rw [List.append_assoc]
    exact List.perm_middle
  · intro q
    rw [hq, hacc, hstart, List.filter_append, ← h.fifo q, List.append_assoc]
    by_cases hpq : p = q <;> simp [hpq]
  · rw [hcomp, hphase, hstart]
    exact h.ran
  · rw [hfut, hphase, hstart]
    exact h.set
  · rw [hfut, hcomp]
    exact h.reported
  · unfold WorkerState.Pending
    rw [hphase, hcomp, hfault]
    exact h.pending
  · intro hover
    rw [hphase] at hover
    exact absurd (h.ended hover).2 (by simp [hc])
  · rw [hclosed, hphase]
    exact h.owner

/-- A call keeps every promise. -/
theorem call (h : Settles C s) (p : Bool) : Settles C (s.call p) := by
  unfold WorkerState.call
  dsimp only
  split
  · exact h.refuse p
  · next hc =>
    split
    · exact h.refuse p
    · next hroom =>
      exact h.accept (by simpa using hc) (Nat.lt_of_not_le hroom) _ rfl

/-- No longer accepting keeps every promise. -/
theorem stopAccepting (h : Settles C s) : Settles C s.stopAccepting :=
  of_notify h.limits h.ids h.fifo h.ran h.set h.reported h.pending (fun ho => ⟨(h.ended ho).1, rfl⟩)
    h.owner

/-- The next job of a queue begins. -/
theorem begin (h : Settles C s) (hp : s.phase = .idle) {p : Bool} {job : Job} {rest : List Job}
    (hq : s.queue p = job :: rest) {t : WorkerState ν ε} (htq : t.queue p = rest)
    (hother : t.queue (!p) = s.queue (!p))
    (ht : t = { s with control := t.control, ordinary := t.ordinary }) :
    Settles C (t.begin job) := by
  have hjob : job.priority = p := h.priority_of_mem (by rw [hq]; simp)
  have hnd := h.fifo p
  rw [hq] at hnd
  have hran := h.ran
  have hset := h.set
  rw [hp] at hran hset
  have hqueue : ∀ q, q = p ∧ t.queue q = rest ∨ q ≠ p ∧ t.queue q = s.queue q := by
    intro q
    by_cases hqp : q = p
    · exact .inl ⟨hqp, by rw [hqp, htq]⟩
    · have hq' : q = !p := Bool.eq_not_of_ne hqp
      exact .inr ⟨hqp, by rw [hq', hother]⟩
  rw [ht]
  refine ⟨fun q => ?_, h.ids, fun q => ?_, ?_, ?_, h.reported, trivial, nofun, nofun, ?_⟩
  · change (t.queue q).length ≤ _
    rcases hqueue q with ⟨rfl, hr⟩ | ⟨-, hr⟩
    · have hl := h.limits q
      rw [hq, List.length_cons] at hl
      rw [hr]
      omega
    · rw [hr]
      exact h.limits q
  · change (s.started ++ [job]).filter _ ++ t.queue q = s.accepted.filter _
    rw [List.filter_append, List.append_assoc]
    rcases hqueue q with ⟨rfl, hr⟩ | ⟨hne, hr⟩
    · rw [hr, ← hnd]
      simp [hjob]
    · rw [hr, ← h.fifo q]
      have hjq : (job.priority == q) = false := by simpa [hjob] using Ne.symm hne
      simp [hjq]
  · change s.completed.map Prod.fst ++ [job] = s.started ++ [job]
    rw [← hran]
    simp [Phase.unfinished]
  · change s.futures.map Prod.fst ++ [job] = s.started ++ [job]
    rw [← hset]
    simp [Phase.current]
  · refine h.owner.trans ?_
    rw [hp]
    simp [WorkerState.begin]

/-- The loop head: a priority job is taken, or an ordinary one if there is none, or the loop is
left, or the thread waits. -/
theorem take_cases (s : WorkerState ν ε) :
    (∃ job rest, s.control = job :: rest ∧ s.take = { s with control := rest }.begin job)
      ∨ (∃ job rest, s.control = [] ∧ s.ordinary = job :: rest ∧
          s.take = { s with ordinary := rest }.begin job)
      ∨ (∀ p, s.queue p = []) ∧
        (s.closing = true ∧ s.take = { s with phase := .stopping false }
          ∨ s.closing = false ∧ s.take = { s with phase := .waiting }) := by
  unfold WorkerState.take
  split
  · next job rest hc => exact .inl ⟨job, rest, hc, rfl⟩
  · next job rest hc ho => exact .inr (.inl ⟨job, rest, hc, ho, rfl⟩)
  · next hc ho =>
    have hempty : ∀ p, s.queue p = [] := by
      intro p
      cases p
      · exact ho
      · exact hc
    refine .inr (.inr ⟨hempty, ?_⟩)
    split
    · next hcl => exact .inl ⟨hcl, rfl⟩
    · next hcl => exact .inr ⟨by simpa using hcl, rfl⟩

/-- Taking a job keeps every promise. -/
theorem take (h : Settles C s) (hp : s.phase = .idle) : Settles C s.take := by
  have hran := h.ran
  have hset := h.set
  have howner := h.owner
  rw [hp] at hran hset howner
  rcases take_cases s with ⟨job, rest, hc, he⟩ | ⟨job, rest, hc, ho, he⟩ |
    ⟨hempty, ⟨hcl, he⟩ | ⟨hcl, he⟩⟩
  · rw [he]
    exact h.begin hp (p := true) hc rfl rfl rfl
  · rw [he]
    exact h.begin hp (p := false) ho rfl rfl rfl
  · rw [he]
    exact ⟨h.limits, h.ids, h.fifo, hran, hset, h.reported, trivial, nofun, fun _ => ⟨hempty, hcl⟩,
      howner.trans (by simp)⟩
  · rw [he]
    exact ⟨h.limits, h.ids, h.fifo, hran, hset, h.reported, trivial, fun _ => ⟨hempty, hcl⟩, nofun,
      howner.trans (by simp)⟩

/-- Settling the job in hand keeps every promise. -/
theorem resolve (h : Settles C s) {job : Job} {r : Except ε ν} {o : Outcome ν ε}
    (hp : s.phase = .settling job r) (hr : (job, r) ∈ s.completed) (ho : C.Reports r o) :
    Settles C (s.resolve job o) := by
  have hnot := h.current_not_mem (j := job) (by rw [hp]; rfl)
  have hran := h.ran
  have hset := h.set
  have howner := h.owner
  rw [hp] at hran hset howner
  unfold WorkerState.resolve
  rw [if_neg hnot]
  refine ⟨h.limits, h.ids, h.fifo, hran, ?_, ?_, trivial, nofun, nofun, howner.trans (by simp)⟩
  · rw [← hset]
    simp [Phase.current]
  · intro f hf
    rcases List.mem_append.mp hf with hf | hf
    · exact h.reported f hf
    · obtain rfl := List.mem_singleton.mp hf
      exact ⟨r, hr, ho⟩

/-- Nothing is left to drain. -/
theorem drain (h : Settles C s) {failed : Bool} (hp : s.phase = .stopping failed) :
    Settles C { s.drain with phase := .closing failed } := by
  obtain ⟨hempty, hcl⟩ := h.ended (by rw [hp]; rfl)
  have hc : s.control = [] := hempty true
  have ho : s.ordinary = [] := hempty false
  have hdrain : { s.drain with phase := .closing failed }
      = { s with phase := .closing failed } := by
    unfold WorkerState.drain
    simp [hc, ho, hcl]
  have hran := h.ran
  have hset := h.set
  have howner := h.owner
  rw [hp] at hran hset howner
  rw [hdrain]
  exact ⟨h.limits, h.ids, h.fifo, hran, hset, h.reported, trivial, nofun, fun _ => ⟨hempty, hcl⟩,
    howner.trans (by simp)⟩

/-- A step of the worker keeps every promise. -/
theorem work (h : Settles C s) {t : WorkerState ν ε} (hw : s.work C = some t) : Settles C t := by
  have hran := h.ran
  have hset := h.set
  have howner := h.owner
  have hpend := h.pending
  unfold WorkerState.Pending at hpend
  unfold WorkerState.work at hw
  rcases hp : s.phase with _ | _ | job | ⟨job, e⟩ | ⟨job, e | v⟩ | _ | failed | failed | failed
  all_goals
    simp only [hp] at hw hpend hran hset howner
  · obtain rfl := Option.some.inj hw
    exact h.take hp
  · cases hw
  · cases hw
  · obtain rfl := Option.some.inj hw
    exact ⟨h.limits, h.ids, h.fifo, hran, hset, h.reported, ⟨hpend, C.reports_translate _ _⟩,
      nofun, nofun,
      howner.trans (by simp)⟩
  · obtain rfl := Option.some.inj hw
    exact h.resolve hp hpend.1 hpend.2
  · obtain rfl := Option.some.inj hw
    exact h.resolve hp hpend rfl
  · obtain rfl := Option.some.inj hw
    exact ⟨h.limits, h.ids, h.fifo, hran, hset, h.reported, trivial, nofun, nofun,
      howner.trans (by simp)⟩
  · obtain rfl := Option.some.inj hw
    exact h.drain hp
  · cases hw
  · cases hw

/-- The end of the job in hand keeps every promise. -/
theorem finish (h : Settles C s) {r : Except ε ν} {t : WorkerState ν ε} (hw : s.finish r = some t) :
    Settles C t := by
  have hran := h.ran
  have hset := h.set
  have howner := h.owner
  unfold WorkerState.finish at hw
  rcases hp : s.phase
  case running job =>
    rw [hp] at hran hset howner
    have hcomp : ∀ r, (s.completed ++ [(job, r)]).map Prod.fst ++ [] = s.started := by
      intro r
      rw [← hran]
      simp [Phase.unfinished]
    have hrep : ∀ r, ∀ f ∈ s.futures, ∃ r', (f.1, r') ∈ s.completed ++ [(job, r)]
        ∧ C.Reports r' f.2 := by
      intro r f hf
      obtain ⟨r', hr', hf'⟩ := h.reported f hf
      exact ⟨r', List.mem_append_left _ hr', hf'⟩
    rcases r with e | v
    · simp only [hp] at hw
      obtain rfl := Option.some.inj hw
      exact ⟨h.limits, h.ids, h.fifo, hcomp _, hset, hrep _,
        List.mem_append_right _ (List.mem_singleton_self _), nofun, nofun, howner.trans (by simp)⟩
    · simp only [hp] at hw
      obtain rfl := Option.some.inj hw
      exact ⟨h.limits, h.ids, h.fifo, hcomp _, hset, hrep _,
        List.mem_append_right _ (List.mem_singleton_self _), nofun, nofun, howner.trans (by simp)⟩
  all_goals
    simp only [hp] at hw
    cases hw

/-- The end of the owner keeps every promise. -/
theorem closeOwner (h : Settles C s) {fails : Bool} {t : WorkerState ν ε}
    (hw : s.closeOwner fails = some t) : Settles C t := by
  have hran := h.ran
  have hset := h.set
  unfold WorkerState.closeOwner at hw
  rcases hp : s.phase
  case closing failed =>
    rw [hp] at hran hset
    simp only [hp] at hw
    obtain rfl := Option.some.inj hw
    exact ⟨h.limits, h.ids, h.fifo, hran, hset, h.reported, trivial, nofun,
      fun _ => h.ended (by rw [hp]; rfl), by simp⟩
  all_goals
    simp only [hp] at hw
    cases hw

/-- **Every event keeps the invariant.** -/
theorem next (h : Settles C s) {e : WorkerEvent ν ε} {t : WorkerState ν ε}
    (hn : s.next C e = some t) : Settles C t := by
  rcases e with p | _ | job | job | _ | r | fails
  · obtain rfl := Option.some.inj hn
    exact h.call p
  · obtain rfl := Option.some.inj hn
    exact h.stopAccepting
  · obtain ⟨-, rfl⟩ := Option.ite_some_none_eq_some.mp hn
    exact { h with }
  · obtain ⟨-, rfl⟩ := Option.ite_some_none_eq_some.mp hn
    exact { h with }
  · exact h.work hn
  · exact h.finish hn
  · exact h.closeOwner hn

/-! ## What the history says -/

/-- In every reachable state every promise is kept. -/
theorem of_reachable (h : (databaseWorker C).Reachable s) : Settles C s := by
  apply h.invariant
  · rintro s rfl
    exact start
  · intro s e t hs hn
    exact hs.next hn

/-- A job is resolved at most as often as its method ended, and that at most once. -/
theorem at_most_once (h : Settles C s) (j : Job) :
    (s.futures.map Prod.fst).count j ≤ (s.completed.map Prod.fst).count j ∧
      (s.completed.map Prod.fst).count j ≤ s.started.count j ∧ s.started.count j ≤ 1 := by
  have hran := congrArg (List.count j) h.ran
  have hset := congrArg (List.count j) h.set
  rw [List.count_append] at hran hset
  have hle : s.phase.unfinished.count j ≤ s.phase.current.count j := by
    rcases s.phase <;> simp [Phase.unfinished, Phase.current]
  exact ⟨by omega, by omega, List.nodup_iff_count_le_one.mp h.started_nodup j⟩

/-- With empty queues and no current job, every accepted job ran and was resolved. -/
theorem all_settled (h : Settles C s) (hq : ∀ p, s.queue p = []) (hc : s.phase.current = [])
    {j : Job}
    (hj : j ∈ s.accepted) : (s.futures.map Prod.fst).count j = 1 ∧
      (s.completed.map Prod.fst).count j = 1 ∧ s.started.count j = 1 := by
  have hstarted : j ∈ s.started := by
    have hf := h.fifo j.priority
    rw [hq, List.append_nil] at hf
    have hmem : j ∈ s.accepted.filter (·.priority == j.priority) :=
      List.mem_filter.mpr ⟨hj, by simp⟩
    rw [← hf] at hmem
    exact (List.mem_filter.mp hmem).1
  have hset := h.set
  rw [hc, List.append_nil] at hset
  have hpos : 0 < (s.futures.map Prod.fst).count j := by
    rw [hset]
    exact List.count_pos_iff.mpr hstarted
  obtain ⟨h1, h2, h3⟩ := h.at_most_once j
  exact ⟨by omega, by omega, by omega⟩

/-- A refused call has no method call and no future. -/
theorem refused_never (h : Settles C s) {j : Job} (hj : j ∈ s.refused) :
    j ∉ s.started ∧ j ∉ s.futures.map Prod.fst := by
  have hacc : j ∉ s.accepted := by
    intro ha
    have hids := h.ids.1
    rw [List.map_append] at hids
    exact (List.nodup_append.mp hids).2.2 _ (List.mem_map_of_mem ha) _ (List.mem_map_of_mem hj) rfl
  refine ⟨fun hs => hacc (h.started_subset hs), fun hf => hacc (h.started_subset ?_)⟩
  rw [← h.set]
  exact List.mem_append_left _ hf

/-- Waking the worker starts no job. -/
theorem notify_started (s : WorkerState ν ε) : s.notify.started = s.started := by
  rcases notify_cases s with ⟨he, -⟩ | ⟨-, he⟩
  · rw [he]
  · rw [he]

/-- A call starts no job. -/
theorem call_started (s : WorkerState ν ε) (p : Bool) : (s.call p).started = s.started := by
  unfold WorkerState.call
  dsimp only
  split
  · rfl
  · split
    · rfl
    · rw [notify_started]
      unfold WorkerState.append
      cases p <;> rfl

/-- Method calls begin at the loop head only. -/
theorem next_started {e : WorkerEvent ν ε} {t : WorkerState ν ε} (hn : s.next C e = some t) :
    t.started = s.started ∨ s.phase = .idle ∧ t = s.take := by
  rcases e with p | _ | job | job | _ | r | fails
  · obtain rfl := Option.some.inj hn
    exact .inl (call_started s p)
  · obtain rfl := Option.some.inj hn
    exact .inl (notify_started _)
  · obtain ⟨-, rfl⟩ := Option.ite_some_none_eq_some.mp hn
    exact .inl rfl
  · obtain ⟨-, rfl⟩ := Option.ite_some_none_eq_some.mp hn
    exact .inl rfl
  · change s.work C = some t at hn
    unfold WorkerState.work at hn
    split at hn
    · next hp =>
      obtain rfl := Option.some.inj hn
      exact .inr ⟨hp, rfl⟩
    case h_7 => cases hn
    all_goals
      obtain rfl := Option.some.inj hn
      left
    · rfl
    · unfold WorkerState.resolve
      split <;> rfl
    · unfold WorkerState.resolve
      split <;> rfl
    · rfl
    · rfl
  · change s.finish r = some t at hn
    unfold WorkerState.finish at hn
    split at hn
    · obtain rfl := Option.some.inj hn
      exact .inl rfl
    · obtain rfl := Option.some.inj hn
      exact .inl rfl
    · cases hn
  · change s.closeOwner fails = some t at hn
    unfold WorkerState.closeOwner at hn
    split at hn
    · obtain rfl := Option.some.inj hn
      exact .inl rfl
    · cases hn

/-- An ordinary job begins only while no priority job is queued. -/
theorem priority_first (h : Settles C s) {e : WorkerEvent ν ε} {t : WorkerState ν ε} {job : Job}
    (hn : s.next C e = some t) (hb : t.started = s.started ++ [job]) (hj : job.priority = false) :
    s.control = [] := by
  rcases next_started hn with hsame | ⟨hp, rfl⟩
  · rw [hsame] at hb
    simp at hb
  · rcases take_cases s with ⟨first, rest, hc, he⟩ | ⟨first, rest, hc, -⟩ | ⟨hempty, -⟩
    · rw [he] at hb
      obtain rfl : first = job := by simpa [WorkerState.begin] using hb
      have hpri := h.priority_of_mem (p := true) (j := first) (by
        change first ∈ s.control
        rw [hc]
        exact List.mem_cons_self ..)
      rw [hpri] at hj
      cases hj
    · exact hc
    · exact hempty true

end Settles

/-! ## Progress -/

/-- How far the thread is from the end of its loop. -/
def Phase.weight : Phase ν ε → ℕ
  | .finished _ => 0
  | .closing _ => 1
  | .stopping _ => 2
  | .waiting => 3
  | .idle => 4
  | .resolved => 5
  | .settling _ _ => 6
  | .raised _ _ => 7
  | .running _ => 8

/-- What is left to do, in events of the thread. -/
def WorkerState.left (s : WorkerState ν ε) : ℕ :=
  s.phase.weight + 5 * (s.control.length + s.ordinary.length)

section progress

variable {s t : WorkerState ν ε} {e : WorkerEvent ν ε}

/-- Waking the worker leaves one more step to do at most. -/
theorem left_notify (s : WorkerState ν ε) : s.notify.left ≤ s.left + 1 ∧
    (s.phase ≠ .waiting → s.notify.left = s.left) := by
  rcases Settles.notify_cases s with ⟨he, hne⟩ | ⟨hw, he⟩
  · rw [he]
    exact ⟨Nat.le_succ _, fun _ => rfl⟩
  · rw [he]
    simp only [WorkerState.left, hw, Phase.weight]
    exact ⟨by omega, fun h => absurd rfl h⟩

/-- Taking a job leaves fewer steps to do. -/
theorem left_take (hp : s.phase = .idle) : s.take.left < s.left := by
  rcases Settles.take_cases s with ⟨job, rest, hc, he⟩ | ⟨job, rest, hc, ho, he⟩ |
    ⟨hempty, ⟨hcl, he⟩ | ⟨hcl, he⟩⟩
  · rw [he]
    simp only [WorkerState.left, WorkerState.begin, Phase.weight, hp, hc, List.length_cons]
    omega
  · rw [he]
    simp only [WorkerState.left, WorkerState.begin, Phase.weight, hp, hc, ho, List.length_cons,
      List.length_nil]
    omega
  · rw [he]
    simp only [WorkerState.left, Phase.weight, hp]
    omega
  · rw [he]
    simp only [WorkerState.left, Phase.weight, hp]
    omega

/-- Settling a job leaves fewer steps to do. -/
theorem left_resolve {job : Job} {r : Except ε ν} (hp : s.phase = .settling job r)
    (o : Outcome ν ε) :
    (s.resolve job o).left < s.left := by
  unfold WorkerState.resolve
  split
  · simp [WorkerState.left, Phase.weight, hp]
  · simp [WorkerState.left, Phase.weight, hp]

/-- **Every event of the thread shortens what is left.** -/
theorem left_thread (he : e.ofThread = true) (hn : s.next C e = some t) : t.left < s.left := by
  rcases e with p | _ | job | job | _ | r | fails
  case work =>
    change s.work C = some t at hn
    unfold WorkerState.work at hn
    split at hn
    case h_1 hp =>
      obtain rfl := Option.some.inj hn
      exact left_take hp
    case h_3 hp =>
      obtain rfl := Option.some.inj hn
      exact left_resolve hp _
    case h_4 hp =>
      obtain rfl := Option.some.inj hn
      exact left_resolve hp _
    case h_7 => cases hn
    all_goals
      next hp =>
      obtain rfl := Option.some.inj hn
      simp only [WorkerState.left, WorkerState.drain, Phase.weight, hp, List.length_nil]
      omega
  case finish =>
    change s.finish r = some t at hn
    unfold WorkerState.finish at hn
    split at hn
    case h_3 => cases hn
    all_goals
      next hp =>
      obtain rfl := Option.some.inj hn
      simp [WorkerState.left, Phase.weight, hp]
  case close =>
    change s.closeOwner fails = some t at hn
    unfold WorkerState.closeOwner at hn
    split at hn
    · next hp =>
      obtain rfl := Option.some.inj hn
      simp [WorkerState.left, Phase.weight, hp]
    · cases hn
  all_goals cases he

/-- A client adds at most one job. -/
theorem left_client (he : e.ofThread = false) (hn : s.next C e = some t) : t.left ≤ s.left + 6 := by
  rcases e with p | _ | job | job | _ | r | fails
  case call =>
    obtain rfl := Option.some.inj hn
    unfold WorkerState.call
    dsimp only
    split
    · exact Nat.le_add_right _ _
    · split
      · exact Nat.le_add_right _ _
      · refine (left_notify _).1.trans ?_
        unfold WorkerState.append
        cases p <;> simp [WorkerState.left] <;> omega
  case stop =>
    obtain rfl := Option.some.inj hn
    refine (left_notify _).1.trans ?_
    exact Nat.add_le_add_left (by decide) _
  case cancel =>
    obtain ⟨-, rfl⟩ := Option.ite_some_none_eq_some.mp hn
    exact Nat.le_add_right _ _
  case receive =>
    obtain ⟨-, rfl⟩ := Option.ite_some_none_eq_some.mp hn
    exact Nat.le_add_right _ _
  all_goals cases he

/-- Once the worker is closing, a client changes neither what is accepted nor what is left. -/
theorem closing_client (h : Settles C s) (hc : s.closing = true) (he : e.ofThread = false)
    (hn : s.next C e = some t) : t.closing = true ∧ t.accepted = s.accepted ∧ t.left = s.left := by
  rcases e with p | _ | job | job | _ | r | fails
  case call =>
    obtain rfl := Option.some.inj hn
    unfold WorkerState.call
    dsimp only
    rw [if_pos hc]
    exact ⟨hc, rfl, rfl⟩
  case stop =>
    obtain rfl := Option.some.inj hn
    have hne : ({ s with closing := true } : WorkerState ν ε).phase ≠ .waiting := by
      intro hw
      have hrest := (h.rest hw).2
      rw [hc] at hrest
      cases hrest
    change ({ s with closing := true } : WorkerState ν ε).notify.closing = true ∧ _ ∧ _
    rcases Settles.notify_cases ({ s with closing := true } : WorkerState ν ε) with ⟨hsame,
      -⟩ | ⟨hw, -⟩
    · unfold WorkerState.stopAccepting
      rw [hsame]
      exact ⟨rfl, rfl, rfl⟩
    · exact absurd hw hne
  case cancel =>
    obtain ⟨-, rfl⟩ := Option.ite_some_none_eq_some.mp hn
    exact ⟨hc, rfl, rfl⟩
  case receive =>
    obtain ⟨-, rfl⟩ := Option.ite_some_none_eq_some.mp hn
    exact ⟨hc, rfl, rfl⟩
  all_goals cases he

/-- The thread accepts nothing, and never reopens. -/
theorem thread_accepted (he : e.ofThread = true) (hn : s.next C e = some t) :
    t.accepted = s.accepted ∧ (s.closing = true → t.closing = true) := by
  rcases e with p | _ | job | job | _ | r | fails
  case work =>
    change s.work C = some t at hn
    unfold WorkerState.work at hn
    split at hn
    case h_1 hp =>
      obtain rfl := Option.some.inj hn
      rcases Settles.take_cases s with ⟨job, rest, -, he⟩ | ⟨job, rest, -, -, he⟩ |
        ⟨-, ⟨-, he⟩ | ⟨-, he⟩⟩
      all_goals
        rw [he]
        exact ⟨rfl, id⟩
    case h_7 => cases hn
    all_goals
      obtain rfl := Option.some.inj hn
      first
        | exact ⟨rfl, id⟩
        | exact ⟨rfl, fun _ => rfl⟩
        | unfold WorkerState.resolve
          split <;> exact ⟨rfl, id⟩
  case finish =>
    change s.finish r = some t at hn
    unfold WorkerState.finish at hn
    split at hn
    case h_3 => cases hn
    all_goals
      obtain rfl := Option.some.inj hn
      exact ⟨rfl, id⟩
  case close =>
    change s.closeOwner fails = some t at hn
    unfold WorkerState.closeOwner at hn
    split at hn
    · obtain rfl := Option.some.inj hn
      exact ⟨rfl, id⟩
    · cases hn
  all_goals cases he

/-- Along a run the thread takes no more steps than the clients give it. -/
theorem left_run {es : List (WorkerEvent ν ε)} (h : (databaseWorker C).run s es = some t) :
    es.countP (·.ofThread) + t.left ≤ s.left + 6 * es.countP (!·.ofThread) := by
  induction es generalizing s with
  | nil =>
    cases h
    simp
  | cons e es ih =>
    obtain ⟨u, hu, ht⟩ := Option.bind_eq_some_iff.mp h
    have hrest := ih ht
    rcases he : e.ofThread with _ | _
    · have hstep := left_client he hu
      simp only [List.countP_cons, he]
      simp
      omega
    · have hstep := left_thread he hu
      simp only [List.countP_cons, he]
      simp
      omega

/-- **After close begins nothing more is accepted, and the thread ends within what was left.** -/
theorem closing_run {es : List (WorkerEvent ν ε)} (hs : Settles C s) (hc : s.closing = true)
    (h : (databaseWorker C).run s es = some t) :
    t.closing = true ∧ t.accepted = s.accepted ∧ es.countP (·.ofThread) + t.left ≤ s.left := by
  induction es generalizing s with
  | nil =>
    cases h
    exact ⟨hc, rfl, by simp⟩
  | cons e es ih =>
    obtain ⟨u, hu, ht⟩ := Option.bind_eq_some_iff.mp h
    have hsu := hs.next hu
    rcases he : e.ofThread with _ | _
    · obtain ⟨hcu, hau, hlu⟩ := closing_client hs hc he hu
      obtain ⟨h1, h2, h3⟩ := ih hsu hcu ht
      refine ⟨h1, h2.trans hau, ?_⟩
      simp only [List.countP_cons, he]
      simp
      omega
    · obtain ⟨hau, hcu⟩ := thread_accepted he hu
      have hlu := left_thread he hu
      obtain ⟨h1, h2, h3⟩ := ih hsu (hcu hc) ht
      refine ⟨h1, h2.trans hau, ?_⟩
      simp only [List.countP_cons, he]
      simp
      omega

/-- **No notification is lost**: the thread can go on, or it has ended, or it waits with nothing to
do and every accepted job settled. -/
theorem awake (h : Settles C s) :
    (s.work C).isSome = true ∨ (∃ job, s.phase = .running job ∧ ∀ r, (s.finish r).isSome = true)
      ∨ (∃ failed, s.phase = .closing failed ∧ ∀ fails, (s.closeOwner fails).isSome = true)
      ∨ (∃ failed, s.phase = .finished failed)
      ∨ s.phase = .waiting ∧ (∀ p, s.queue p = []) ∧ s.closing = false := by
  rcases hp : s.phase with _ | _ | job | ⟨job, e⟩ | ⟨job, e | v⟩ | _ | failed | failed | failed
  case waiting => exact .inr (.inr (.inr (.inr ⟨rfl, h.rest hp⟩)))
  case running =>
    refine .inr (.inl ⟨job, rfl, fun r => ?_⟩)
    rcases r with e | v <;> simp [WorkerState.finish, hp]
  case closing =>
    exact .inr (.inr (.inl ⟨failed, rfl, fun fails => by simp [WorkerState.closeOwner, hp]⟩))
  case finished => exact .inr (.inr (.inr (.inl ⟨failed, rfl⟩)))
  all_goals
    left
    simp [WorkerState.work, hp]

end progress

end invariant

/-! ## The result -/

/-- **The database worker settles every accepted job exactly once.** In every state any interleaving
of calls, completions, failures, cancellations and closing leads to:

* the queues keep their limits, each queue is served in the order of acceptance, and an ordinary job
  begins only while no priority job is queued;
* no method call begins twice; a future is set at most once, after its method ended and with what
  the method did; from the moment before the owned object is closed on, every accepted job's method
  has run once and its future was set once;
* a refused call never runs, and once closing has begun nothing more is accepted;
* the thread can always go on unless it has ended or waits with every accepted job settled, and each
  of its events uses up some of the work left: while closing, within the work left at that
moment. -/
theorem jobs_settled {ν ε : Type} (C : Classes ε) {s : WorkerState ν ε}
    (hs : (databaseWorker C).Reachable s) :
    (s.control.length ≤ 2 ∧ s.ordinary.length ≤ 16) ∧
    (∀ p, s.started.filter (·.priority == p) ++ s.queue p = s.accepted.filter (·.priority == p)) ∧
    (∀ e t job, (databaseWorker C).next s e = some t → t.started = s.started ++ [job] →
      job.priority = false → s.control = []) ∧
    (∀ j, (s.futures.map Prod.fst).count j ≤ (s.completed.map Prod.fst).count j ∧
      (s.completed.map Prod.fst).count j ≤ s.started.count j ∧ s.started.count j ≤ 1) ∧
    (∀ f ∈ s.futures, ∃ r, (f.1, r) ∈ s.completed ∧ C.Reports r f.2) ∧
    (s.phase.over = true → ∀ j ∈ s.accepted, (s.futures.map Prod.fst).count j = 1 ∧
      (s.completed.map Prod.fst).count j = 1 ∧ s.started.count j = 1) ∧
    (s.closed = true → s.phase.over = true) ∧
    (∀ j ∈ s.refused, j ∉ s.started ∧ j ∉ s.futures.map Prod.fst) ∧
    (s.closing = true → ∀ es t, (databaseWorker C).run s es = some t →
      t.closing = true ∧ t.accepted = s.accepted ∧ es.countP (·.ofThread) + t.left ≤ s.left) ∧
    (∀ es t, (databaseWorker C).run s es = some t →
      es.countP (·.ofThread) + t.left ≤ s.left + 6 * es.countP (!·.ofThread)) ∧
    ((s.work C).isSome = true ∨ (∃ job, s.phase = .running job ∧ ∀ r, (s.finish r).isSome = true)
      ∨ (∃ failed, s.phase = .closing failed ∧ ∀ fails, (s.closeOwner fails).isSome = true)
      ∨ (∃ failed, s.phase = .finished failed)
      ∨ s.phase = .waiting ∧ s.closing = false ∧ ∀ j ∈ s.accepted,
        (s.futures.map Prod.fst).count j = 1) := by
  have h := Settles.of_reachable hs
  have hempty : s.phase.over = true → s.phase.current = [] := by
    rcases s.phase <;> simp [Phase.over, Phase.current]
  refine ⟨⟨h.limits true, h.limits false⟩, h.fifo, fun e t job => h.priority_first, h.at_most_once,
    h.reported, fun ho j hj => h.all_settled (h.ended ho).1 (hempty ho) hj, fun hc => ?_,
    fun j hj => h.refused_never hj, fun hc es t => closing_run h hc, fun es t => left_run, ?_⟩
  · obtain ⟨failed, hp⟩ := h.owner.mp hc
    rw [hp]
    rfl
  · rcases awake h with hw | hr | hcl | hf | ⟨hw, hq, hc⟩
    · exact .inl hw
    · exact .inr (.inl hr)
    · exact .inr (.inr (.inl hcl))
    · exact .inr (.inr (.inr (.inl hf)))
    · refine .inr (.inr (.inr (.inr ⟨hw, hc, fun j hj => ?_⟩)))
      exact (h.all_settled hq (by rw [hw]; rfl) hj).1

/-- Classes under which every exception is an unexpected one. -/
def unexpected : Classes Unit := ⟨fun _ => false, fun _ => false, fun _ => false, fun _ => none⟩

/-- Two calls and a close: the priority job returns, the ordinary one raises, a third call is
refused. -/
def closingRun : List (WorkerEvent ℕ Unit) :=
  [.call false, .call true, .cancel ⟨0, false⟩, .stop, .call true, .work, .finish (.ok 1),
    .work, .work,
    .work, .finish (.error ()), .work, .work, .work, .work, .work, .close false]

/-- Two calls of different priority, a closing and a call too late, run to the end. -/
theorem jobs_settled_closing : ∃ s : WorkerState ℕ Unit,
    (databaseWorker unexpected).run .start closingRun = some s ∧ s.closed = true ∧
      s.started = [⟨1, true⟩, ⟨0, false⟩] ∧ s.refused = [⟨2, true⟩] ∧
      ∀ j ∈ s.accepted, (s.futures.map Prod.fst).count j = 1 ∧
        (s.completed.map Prod.fst).count j = 1 ∧ s.started.count j = 1 := by
  have hrun : ((databaseWorker unexpected).run .start closingRun).map
      (fun s => (s.closed, s.started, s.refused)) = some (true, [⟨1, true⟩, ⟨0, false⟩],
        [⟨2, true⟩]) := by
    decide +kernel
  obtain ⟨s, hs, hfields⟩ := Option.map_eq_some_iff.mp hrun
  obtain ⟨hclosed, hrest⟩ := Prod.mk.inj hfields
  obtain ⟨hstarted, hrefused⟩ := Prod.mk.inj hrest
  have hreach : (databaseWorker unexpected).Reachable s := System.Reachable.run (.init rfl) hs
  obtain ⟨-, -, -, -, -, hall, hover, -⟩ := jobs_settled unexpected hreach
  exact ⟨s, hs, hclosed, hstarted, hrefused, hall (hover hclosed)⟩

end PeerBridge.Service
