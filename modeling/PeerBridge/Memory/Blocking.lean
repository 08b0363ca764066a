import PeerBridge.Memory.Composition

/-!
# Blocked means blocked

The write boundary asks for the state of the log right before it begins a transaction, and records a
block when the log cannot be proved empty or the engine refuses a page to a transition the reserve
protects. Here a request is read as a chain of moments:

* `Still` moments: nothing durable changes, and a block is not lifted;
* `Guard.begun`: a transaction, or the vacuum of a reclamation, that began at the very next question
  after a log check that succeeded, in a store that was not blocked.

Every operation but `recover` is a chain of those (`command_guarded`), so from a blocked store on
nothing durable changes. `recover` is described exactly (`recover_cases`), and the operations that
only read do not look at the block (`command_unblocked`).

Source: `memory.py`, `Store.transaction`, `Store.block`, `Store.require_writable`, `Store.recover`,
`Store.reset_log`, `Store.log_state`, `Store.expire`, `Store.reclaim`, `MemoryCommands.command`.
-/

namespace PeerBridge.Memory

open Py Relational Effects Effects.Prog Relation

variable {H : Host}

/-! ## Moments of an execution -/

/-- Inside a transaction time passes, and the block is not touched. -/
structure Calm (w w' : World) : Prop where
  tick : w.tick ≤ w'.tick
  blocked : w'.blocked = w.blocked

instance : Std.Refl Calm := ⟨fun _ => ⟨le_rfl, rfl⟩⟩

instance : IsTrans World Calm :=
  ⟨fun _ _ _ h h' => ⟨h.tick.trans h'.tick, h'.blocked.trans h.blocked⟩⟩

/-- The log check at a question succeeded: not busy, no pages and no bytes left. -/
def Host.clean (H : Host) (tick : ℕ) : Prop := H.log tick = .state 0 0 0

instance (tick : ℕ) : Decidable (H.clean tick) := inferInstanceAs (Decidable (_ = _))

/-- One moment to the next: nothing durable, or something that began right after a log check that
succeeded, in a store that was not blocked. If it ends blocked it was rolled back. -/
inductive Guard (H : Host) (w w' : World) : Prop
  | still (h : Still w w')
  | begun (hopen : w.blocked = none) (hlog : H.clean w.tick) (hl : w.tick < w'.tick)
      (hkept : w'.blocked.isSome = true → w'.db = w.db ∧ w'.pages = w.pages)

/-- A chain of such moments. -/
abbrev Guards (H : Host) : World → World → Prop := ReflTransGen (Guard H)

/-- A stretch that leaves content and pages alone needs no open gate. -/
theorem Guards.still {w w' : World} (h : Still w w') : Guards H w w' := .single (.still h)

/-! ## The primitives -/

/-- The clock does not touch the block. -/
theorem calm_time : Keeps Calm (time H) := fun _ => ⟨Nat.le_succ _, rfl⟩

/-- Asking the engine for a write does not touch the block. -/
theorem calm_write : Keeps Calm (write H) := by
  intro w
  unfold write
  split
  · exact ⟨Nat.le_succ _, rfl⟩
  · exact ⟨Nat.le_succ _, rfl⟩
  · exact ⟨Nat.le_succ _, rfl⟩

/-- A statement does not touch the block. -/
theorem calm_execute (f : Db → Db) : Keeps Calm (execute f) := fun _ => ⟨le_rfl, rfl⟩

/-- Reading the content does not touch the block. -/
theorem calm_database : Keeps Calm database := Keeps.bind Keeps.get fun _ => Keeps.pure _

/-- An interruption does not touch the block. -/
theorem calm_interrupt : Keeps Calm (interrupt H) := fun _ => ⟨Nat.le_succ _, rfl⟩

/-- A commit does not touch the block. -/
theorem calm_commit : Keeps Calm (commit H) := fun _ => ⟨Nat.le_succ _, rfl⟩

/-- An insertion does not touch the block. -/
theorem calm_insertInto {κ α : Type} {key : α → κ} [DecidableEq κ] (t : Table κ α key) (a : α) :
    Keeps Calm (insertInto t a) := by
  unfold insertInto
  split
  · exact Keeps.pure _
  · exact Keeps.throw _

/-- The page check does not touch the block. -/
theorem calm_enforcePages (control : Bool) : Keeps Calm (enforcePages control) :=
  Keeps.bind Keeps.get fun _ => Keeps.ite (Keeps.throw _) (Keeps.pure _)

/-- The check of the logical bytes does not touch the block. -/
theorem calm_enforceLogical (control : Bool) : Keeps Calm (enforceLogical control) :=
  Keeps.bind calm_database fun _ => Keeps.ite (Keeps.throw _) (Keeps.pure _)

/-! ## The log and the boundary -/

/-- **The log check before a write**: it succeeds, or the block is recorded. -/
theorem resetLog_cases (w : World) :
    H.clean w.tick ∧ resetLog H w = (.ok (), { w with tick := w.tick + 1 }) ∨
      ¬ H.clean w.tick ∧ ∃ reason d c, resetLog H w
        = (.error (.refused .storageBlocked d c),
            { w with tick := w.tick + 1, blocked := some reason }) := by
  rcases hlog : H.log w.tick with _ | ⟨busy, logPages, residual⟩
  · refine .inr ⟨fun hc => ?_, ?_⟩
    · rw [Host.clean, hlog] at hc
      cases hc
    · have hfail : logState H w = (.error (.sqlite .other), { w with tick := w.tick + 1 }) := by
        unfold logState
        rw [hlog]
      exact ⟨_, _, _, bind_error ((tryCatch_error hfail).trans rfl)⟩
  · have hok : logState H w = (.ok (busy, logPages, residual), { w with tick := w.tick + 1 }) := by
      unfold logState
      rw [hlog]
    have hrun : resetLog H w = (if busy ≠ 0 ∨ logPages ≠ 0 ∨ residual ≠ 0 then (do
        block (lit "the write-ahead log could not be reset (busy=" ++ decimal busy
          ++ lit ", log_pages=" ++ decimal logPages ++ lit ", " ++ decimal residual
          ++ lit " bytes remain), so the bound on a write cannot be held. No write was attempted")
        raiseBlocked none) else pure () : M Unit) { w with tick := w.tick + 1 } := by
      unfold resetLog
      rw [bind_ok (tryCatch_ok hok)]
    by_cases hz : busy ≠ 0 ∨ logPages ≠ 0 ∨ residual ≠ 0
    · refine .inr ⟨fun hc => ?_, ?_⟩
      · rw [Host.clean, hlog] at hc
        simp only [LogState.state.injEq] at hc
        omega
      · rw [hrun, if_pos hz]
        exact ⟨_, _, _, rfl⟩
    · obtain ⟨rfl, rfl, rfl⟩ : busy = 0 ∧ logPages = 0 ∧ residual = 0 := by omega
      refine .inl ⟨hlog, ?_⟩
      rw [hrun, if_neg hz]
      rfl

/-- The log check leaves content and pages alone and lifts no block. -/
theorem still_resetLog : Keeps Still (resetLog H) := by
  intro w
  rcases resetLog_cases (H := H) w with ⟨-, h⟩ | ⟨-, reason, d, c, h⟩
  · rw [h]
    exact ⟨Nat.le_succ _, rfl, rfl, id⟩
  · rw [h]
    exact ⟨Nat.le_succ _, rfl, rfl, fun _ => rfl⟩

/-- The part of a transaction behind the log check. -/
def begun {α : Type} (H : Host) (control blocking : Bool) (body : M α) : M α := do
  let before ← get
  let a ← tryCatch (do
      let a ← body
      enforcePages control
      interrupt H
      commit H
      return a)
    (rollback before control blocking)
  interrupt H
  return a

/-- **No transaction begins unless the log check right before it succeeded** and the store was not
blocked; otherwise the body plays no part in what happens. -/
theorem transaction_gate {α : Type} (control blocking : Bool) (body : M α) (w : World) :
    w.blocked = none ∧ H.clean w.tick ∧
        transaction H control blocking body w
          = begun H control blocking body { w with tick := w.tick + 1 } ∨
      ¬ (w.blocked = none ∧ H.clean w.tick) ∧ ∃ t reason d c, w.tick ≤ t ∧
        ∀ body : M α, transaction H control blocking body w
          = (.error (.refused .storageBlocked d c),
              { w with tick := t, blocked := some reason }) := by
  by_cases hb : w.blocked = none
  · have hopen : requireWritable w = (.ok (), w) := by
      unfold requireWritable
      rw [get_bind, hb]
      rfl
    rcases resetLog_cases (H := H) w with ⟨hc, h⟩ | ⟨hc, reason, d, c, h⟩
    · refine .inl ⟨hb, hc, ?_⟩
      unfold transaction
      rw [bind_ok hopen, bind_ok h]
      rfl
    · refine .inr ⟨fun hn => hc hn.2, w.tick + 1, reason, d, c, Nat.le_succ _, fun body => ?_⟩
      unfold transaction
      rw [bind_ok hopen, bind_error h]
  · obtain ⟨reason, hreason⟩ := Option.ne_none_iff_exists'.mp hb
    refine .inr ⟨fun hn => hb hn.1, w.tick, reason, reason, none, le_rfl, fun body => ?_⟩
    have hclosed : requireWritable w = (.error (.refused .storageBlocked reason none), w) := by
      unfold requireWritable
      rw [get_bind, hreason]
      change (raiseBlocked none : M Unit) w = _
      unfold raiseBlocked
      rw [get_bind, hreason]
      rfl
    unfold transaction
    rw [bind_error hclosed, ← hreason]

/-- What a transaction that began leaves: the block as it was, or the content as it was. -/
theorem begun_kept {α : Type} {control blocking : Bool} {body : M α} (hb : Keeps Calm body)
    {w w' : World} {r : Except Exc α} (hw : w.blocked = none)
    (h : begun H control blocking body w = (r, w')) :
    w.tick ≤ w'.tick ∧ (w'.blocked.isSome = true → w'.db = w.db ∧ w'.pages = w.pages) ∧
      (∀ a, r = .ok a → w'.blocked = none) := by
  have hbody : Keeps Calm (do
      let a ← body
      enforcePages control
      interrupt H
      commit H
      return a) :=
    Keeps.bind hb fun _ => Keeps.bind (calm_enforcePages _) fun _ =>
      Keeps.bind calm_interrupt fun _ => Keeps.bind calm_commit fun _ => Keeps.pure _
  unfold begun at h
  rw [get_bind] at h
  obtain ⟨e, h1, rfl⟩ | ⟨a, u, h1, h2⟩ := bind_inv h
  · obtain ⟨_, _, he⟩ | ⟨e0, v, h2, h3⟩ := tryCatch_inv h1
    · cases he
    have hv := hbody.run h2
    unfold rollback at h3
    rw [modify_bind] at h3
    have hrest : w'.tick = v.tick ∧ w'.db = w.db ∧ w'.pages = w.pages := by
      split at h3
      · split at h3
        · cases h3
          exact ⟨rfl, rfl, rfl⟩
        · cases h3
          exact ⟨rfl, rfl, rfl⟩
      · cases h3
        exact ⟨rfl, rfl, rfl⟩
    exact ⟨hrest.1 ▸ hv.tick, fun _ => hrest.2, nofun⟩
  · obtain ⟨a', h3, -⟩ | ⟨e0, v, h3, h4⟩ := tryCatch_inv h1
    · have hu := hbody.run h3
      have hlast : Keeps Calm (do interrupt H; return a) :=
        Keeps.bind calm_interrupt fun _ => Keeps.pure _
      have hw' : Calm u w' := hlast.run h2
      have hopen : w'.blocked = none := by rw [hw'.blocked, hu.blocked, hw]
      exact ⟨hu.tick.trans hw'.tick, fun hs => by simp [hopen] at hs, fun _ _ => hopen⟩
    · -- A rollback always raises.
      exfalso
      unfold rollback at h4
      rw [modify_bind] at h4
      split at h4
      · split at h4
        · cases h4
        · cases h4
      · cases h4

/-- The write boundary is guarded, and returns in a store that is not blocked. -/
theorem transaction_guarded {α : Type} {control blocking : Bool} {body : M α} (hb : Keeps Calm body)
    {w w' : World} {r : Except Exc α} (h : transaction H control blocking body w = (r, w')) :
    Guards H w w' ∧ ∀ a, r = .ok a → w'.blocked = none := by
  rcases transaction_gate (H := H) control blocking body w with
    ⟨hopen, hc, he⟩ | ⟨-, t, reason, d, c, ht, he⟩
  · rw [he] at h
    obtain ⟨h1, h2, h3⟩ := begun_kept hb (w := { w with tick := w.tick + 1 }) hopen h
    exact ⟨.single (.begun hopen hc h1 h2), h3⟩
  · rw [he] at h
    obtain ⟨rfl, rfl⟩ := Prod.mk.inj h
    exact ⟨.still ⟨ht, rfl, rfl, fun _ => rfl⟩, nofun⟩

/-- A transaction goes through the gate when its body does not touch the block. -/
theorem guards_transaction {α : Type} {control blocking : Bool} {body : M α}
    (hb : Keeps Calm body) : Keeps (Guards H) (transaction H control blocking body) := by
  intro w
  rcases h : transaction H control blocking body w with ⟨r, w'⟩
  exact (transaction_guarded hb h).1

/-! ## Maintenance -/

/-- One statement does not touch the block. -/
theorem calm_statement (f : Db → Db) : Keeps Calm (do write H; execute f) :=
  Keeps.bind calm_write fun _ => calm_execute f

/-- The same of a statement that looks at the state first. -/
theorem calm_statement_at (g : World → Db → Db) : Keeps Calm (do
    write H
    let v ← get
    execute (g v)) :=
  Keeps.bind calm_write fun _ => Keeps.bind Keeps.get fun _ => calm_execute _

/-- A batch of expiry goes through the gate. -/
theorem guards_expireBatch (batch : List Entry) : Keeps (Guards H) (expireBatch H batch) := by
  refine Keeps.tryCatch (guards_transaction (calm_statement_at _)) fun e => ?_
  split
  · exact Keeps.bind (guards_transaction (calm_statement _)) fun _ =>
      guards_transaction (calm_statement_at _)
  · exact Keeps.throw _

/-- The vacuum of a reclamation begins right after a log check that succeeded. -/
theorem guards_vacuum {removed : ℕ} {w w' : World} {r : Except Exc ℕ} (hopen : w.blocked = none)
    (h : (do resetLog H; vacuum H; resetLog H; return removed) w = (r, w')) : Guards H w w' := by
  rcases resetLog_cases (H := H) w with ⟨hc, hlog⟩ | ⟨-, reason, d, c, hlog⟩
  · rw [bind_ok hlog] at h
    obtain ⟨e, h1, rfl⟩ | ⟨_, u, h1, h2⟩ := bind_inv h
    · unfold vacuum at h1
      split at h1
      · cases h1
      · cases h1
        exact .still ⟨by simp; omega, rfl, rfl, id⟩
    · have hu : Guard H w u := by
        unfold vacuum at h1
        split at h1
        · cases h1
          exact .begun hopen hc (Nat.lt_add_of_pos_right (Nat.succ_pos _)) fun hs => by
            simp [hopen] at hs
        · cases h1
      have hlast : Keeps Still (do resetLog H; return removed) :=
        Keeps.bind still_resetLog fun _ => Keeps.pure _
      exact .head hu (Guards.still (hlast.run h2))
  · rw [bind_error hlog] at h
    cases h
    exact .still ⟨Nat.le_succ _, rfl, rfl, fun _ => rfl⟩

/-- Maintenance goes through the gate. -/
theorem maintains_guards : Maintains H (Guards H) where
  still := Guards.still
  batch := guards_expireBatch
  retire _ := guards_transaction (calm_statement _)
  prune now removed := by
    intro w
    unfold pruneAndVacuum
    rcases h : transaction H true true (do write H; execute (Db.prune now)) w with ⟨e | _, u⟩
    · rw [bind_error h]
      exact (transaction_guarded (calm_statement _) h).1
    · obtain ⟨hg, hopen⟩ := transaction_guarded (calm_statement _) h
      rw [bind_ok h]
      exact hg.trans (guards_vacuum (hopen _ rfl) rfl)

/-- A mutation goes through the gate. -/
theorem guards_mutate {α : Type} (need : ℕ) (control : Bool) {body : M α} (hb : Keeps Calm body) :
    Keeps (Guards H) (mutate H need control body) := by
  refine guards_transaction (Keeps.bind hb fun a => ?_)
  have hpure : Keeps Calm (pure a : M α) := Keeps.pure a
  exact Keeps.ite (Keeps.bind (calm_enforceLogical _) fun _ => hpure) hpure

/-! ## The operations -/

/-- The body of an append does not touch the block. -/
theorem calm_appendRow (consumer : Text) (a : NoteArgs) (pid : ℕ) (d : Draft) (key : Option Text)
    (mark : Text) (due : ℚ) : Keeps Calm (appendRow H consumer a pid d key mark due) :=
  appendRow_keeps calm_write calm_time (fun f _ => calm_execute f) consumer a pid d key mark due

/-- A registration goes through the gate. -/
theorem guards_register (consumer : Text) : Keeps (Guards H) (register H consumer) := by
  refine Keeps.bind (Keeps.lift _) fun _ => ?_
  refine Keeps.bind (maintains_guards.of_still still_database) fun db => ?_
  split
  · exact Keeps.pure _
  · split
    · exact Keeps.throw _
    · refine Keeps.ite (Keeps.throw _) (Keeps.bind (Keeps.lift _) fun _ => ?_)
      refine Keeps.bind (Keeps.lift _) fun _ => Keeps.bind ?_ fun _ => Keeps.pure _
      refine Keeps.bind (maintains_guards.admission _ _ _) fun _ => guards_mutate _ _ ?_
      exact Keeps.bind calm_write fun _ => Keeps.bind calm_time fun _ =>
        Keeps.bind calm_database fun _ => Keeps.bind (calm_insertInto _ _) fun _ => calm_execute _

/-- The insertion of items does not touch the block. -/
theorem calm_insertItems (l : List Item) : Keeps Calm (insertItems l) := by
  induction l with
  | nil => exact Keeps.pure _
  | cons i rest ih =>
    refine Keeps.bind calm_database fun _ => ?_
    exact Keeps.bind (calm_insertInto _ _) fun _ => Keeps.bind (calm_execute _) fun _ => ih

/-- The body of a freeze does not touch the block. -/
theorem calm_freezeRows (consumer sid : Text) (head : ℕ) (members : List Entry) (sizes : List ℕ) :
    Keeps Calm (freezeRows H consumer sid head members sizes) := by
  refine Keeps.bind calm_write fun _ => Keeps.bind calm_time fun _ => ?_
  refine Keeps.bind calm_database fun _ => Keeps.bind (calm_insertInto _ _) fun _ => ?_
  refine Keeps.bind (calm_execute _) fun _ => Keeps.bind (calm_insertItems _) fun _ => ?_
  refine Keeps.bind calm_time fun _ => Keeps.bind (calm_execute _) fun _ => ?_
  exact Keeps.bind calm_time fun _ => calm_execute _

/-- Every operation that writes goes through the gate. -/
theorem respects_guards : Respects H (Guards H) where
  toMaintains := maintains_guards
  append _ _ _ _ _ _ _ _ _ := guards_mutate _ _ (calm_appendRow _ _ _ _ _ _ _)
  freeze _ _ _ _ _ _ _ := guards_mutate _ _ (calm_freezeRows _ _ _ _ _)
  register := guards_register
  touch _ := guards_transaction
    (Keeps.bind calm_write fun _ => Keeps.bind calm_time fun _ => calm_execute _)
  clear _ := guards_transaction (calm_statement _)
  issueDelta _ _ := guards_transaction (calm_statement _)
  issuePage _ _ := guards_transaction (calm_statement _)
  ack _ _ _ _ := guards_transaction (Keeps.bind calm_write fun _ => Keeps.bind calm_time fun _ =>
    Keeps.bind (calm_execute _) fun _ => calm_execute _)
  advance _ _ := guards_transaction (calm_statement _)

/-- **Every request but `recover` is guarded.** -/
theorem command_guarded (s : Service) (r : Object) (pid : ℕ)
    (hop : (r.get (lit "op")).isText (lit "recover") = false) :
    Keeps (Guards H) (command H s r pid) := respects_guards.command s r pid hop

/-! ## Recovery -/

/-- A checkpoint answers what the log is in, or fails. -/
theorem logState_cases (w : World) :
    (∃ busy logPages residual, H.log w.tick = .state busy logPages residual ∧
        logState H w = (.ok (busy, logPages, residual), { w with tick := w.tick + 1 })) ∨
      H.log w.tick = .failed ∧ logState H w = (.error (.sqlite .other),
        { w with tick := w.tick + 1 }) := by
  unfold logState
  rcases hlog : H.log w.tick with _ | ⟨busy, logPages, residual⟩
  · exact .inr ⟨rfl, rfl⟩
  · exact .inl ⟨busy, logPages, residual, rfl, rfl⟩

/-- A vacuum frees pages, or fails. -/
theorem vacuum_cases (w : World) :
    (∃ freed, H.vacuum w.tick = some freed ∧
        vacuum H w = (.ok (), { w with pages := w.pages - freed, tick := w.tick + 1 })) ∨
      H.vacuum w.tick = none ∧ vacuum H w = (.error (.sqlite .other),
        { w with tick := w.tick + 1 }) := by
  unfold vacuum
  rcases hv : H.vacuum w.tick with _ | freed
  · exact .inr ⟨rfl, rfl⟩
  · exact .inl ⟨freed, rfl, rfl⟩

/-- What is behind the first log check of a recovery. -/
def reclaiming (H : Host) : M Unit := do
  let (busy, logPages, residual) ← tryCatch (do vacuum H; logState H) fun _ => do
    let line ← errorLine H
    block (lit "recovery could not reclaim pages (" ++ line ++ lit ")")
    raiseBlocked (some .other)
  if busy ≠ 0 ∨ logPages ≠ 0 ∨ residual ≠ 0 then
    block (lit "recovery reclaimed pages but could not reset the log afterwards")
    raiseBlocked none
  modify fun w => { w with blocked := none }

/-- The second half of a recovery: it lifts the block after a clean vacuum, or raises and blocks. -/
theorem reclaiming_cases (w : World) :
    (∃ freed, H.vacuum w.tick = some freed ∧ H.clean (w.tick + 1) ∧ reclaiming H w = (.ok (),
        { w with pages := w.pages - freed, blocked := none, tick := w.tick + 2 })) ∨
      ∃ d c w', reclaiming H w = (.error (.refused .storageBlocked d c), w') ∧
        w'.blocked.isSome = true ∧ w'.db = w.db := by
  rcases vacuum_cases (H := H) w with ⟨freed, hv, hvac⟩ | ⟨-, hvac⟩
  · rcases logState_cases (H := H) { w with pages := w.pages - freed, tick := w.tick + 1 } with
      ⟨busy, logPages, residual, hl, hlog⟩ | ⟨-, hlog⟩
    · have hboth : (do vacuum H; logState H) w = (.ok (busy, logPages, residual),
          { w with pages := w.pages - freed, tick := w.tick + 2 }) := (bind_ok hvac).trans hlog
      unfold reclaiming
      rw [bind_ok (tryCatch_ok hboth)]
      dsimp only
      by_cases hz : busy ≠ 0 ∨ logPages ≠ 0 ∨ residual ≠ 0
      · rw [if_pos hz]
        exact .inr ⟨_, _, _, rfl, rfl, rfl⟩
      · obtain ⟨rfl, rfl, rfl⟩ : busy = 0 ∧ logPages = 0 ∧ residual = 0 := by omega
        rw [if_neg hz]
        exact .inl ⟨freed, hv, hl, rfl⟩
    · have hboth := (bind_ok (f := fun _ => logState H) hvac).trans hlog
      exact .inr ⟨_, _, _, bind_error ((tryCatch_error hboth).trans rfl), rfl, rfl⟩
  · have hboth := bind_error (f := fun _ => logState H) hvac
    exact .inr ⟨_, _, _, bind_error ((tryCatch_error hboth).trans rfl), rfl, rfl⟩

/-- **One recovery.** It lifts the block after a log check that succeeded on both sides of its
vacuum; otherwise it raises, the store is blocked, and no page was returned unless the first check
succeeded. -/
theorem recover_cases (w : World) :
    (H.clean w.tick ∧ ∃ freed, H.vacuum (w.tick + 1) = some freed ∧ H.clean (w.tick + 2) ∧
        recover H w
          = (.ok (), { w with pages := w.pages - freed, blocked := none, tick := w.tick + 3 })) ∨
      ∃ d c w', recover H w = (.error (.refused .storageBlocked d c), w') ∧
        w'.blocked.isSome = true ∧ w'.db = w.db ∧ (w'.pages = w.pages ∨ H.clean w.tick) := by
  rcases logState_cases (H := H) w with ⟨busy, logPages, residual, hl, hlog⟩ | ⟨-, hlog⟩
  · have hrun : recover H w = (if busy ≠ 0 ∨ logPages ≠ 0 ∨ residual ≠ 0 then (do
        block (lit "recovery could not reset the write-ahead log (busy=" ++ decimal busy
          ++ lit ", log_pages=" ++ decimal logPages ++ lit ", " ++ decimal residual
          ++ lit " bytes remain). Nothing was written")
        let _ ← (raiseBlocked none : M Unit)
        reclaiming H) else reclaiming H) { w with tick := w.tick + 1 } := by
      unfold recover
      rw [bind_ok (tryCatch_ok hlog)]
      rfl
    by_cases hz : busy ≠ 0 ∨ logPages ≠ 0 ∨ residual ≠ 0
    · rw [hrun, if_pos hz]
      exact .inr ⟨_, _, _, rfl, rfl, rfl, .inl rfl⟩
    · obtain ⟨rfl, rfl, rfl⟩ : busy = 0 ∧ logPages = 0 ∧ residual = 0 := by omega
      rw [hrun, if_neg hz]
      rcases reclaiming_cases (H := H) { w with tick := w.tick + 1 } with
        ⟨freed, hv, hc, h⟩ | ⟨d, c, w', h, hb, hd⟩
      · exact .inl ⟨hl, freed, hv, hc, h⟩
      · exact .inr ⟨d, c, w', h, hb, hd, .inr hl⟩
  · exact .inr ⟨_, _, _, bind_error ((tryCatch_error hlog).trans rfl), rfl, rfl, .inl rfl⟩

/-! ## What a block does not touch -/

/-- Two moments that differ in the block at most. -/
def SameBut (w w' : World) : Prop := ∃ b, w' = { w with blocked := b }

/-- A program that answers without looking at the block. -/
def Blind {α : Type} (p : M α) : Prop :=
  ∀ w w', SameBut w w' → (p w').1 = (p w).1 ∧ SameBut (p w).2 (p w').2

section blind

variable {α β : Type}

/-- A value does not look at the block. -/
theorem Blind.pure (a : α) : Blind (pure a : M α) := fun _ _ h => ⟨rfl, h⟩

/-- An exception does not look at the block. -/
theorem Blind.throw (e : Exc) : Blind (throw e : M α) := fun _ _ h => ⟨rfl, h⟩

/-- A computation without state does not look at the block. -/
theorem Blind.lift (x : Except Exc α) : Blind (Prog.lift x : M α) := fun _ _ h => ⟨rfl, h⟩

/-- A branch looks at the block as little as its sides do. -/
theorem Blind.ite {c : Prop} [Decidable c] {p q : M α} (hp : Blind p) (hq : Blind q) :
    Blind (if c then p else q) := by
  split
  · exact hp
  · exact hq

/-- Two programs in a row look at the block as little as each of them does. -/
theorem Blind.bind {p : M α} {f : α → M β} (hp : Blind p) (hf : ∀ a, Blind (f a)) :
    Blind (p >>= f) := by
  intro w w' h
  obtain ⟨h1, h2⟩ := hp w w' h
  rcases hw : p w with ⟨e | a, u⟩
  · rcases hw' : p w' with ⟨r, u'⟩
    rw [hw, hw'] at h1 h2
    obtain rfl : r = .error e := h1
    rw [bind_error hw, bind_error hw']
    exact ⟨rfl, h2⟩
  · rcases hw' : p w' with ⟨r, u'⟩
    rw [hw, hw'] at h1 h2
    obtain rfl : r = .ok a := h1
    rw [bind_ok hw, bind_ok hw']
    exact hf a u u' h2

/-- A program under a handler looks at the block as little as both do. -/
theorem Blind.tryCatch {p : M α} {handler : Exc → M α} (hp : Blind p)
    (hh : ∀ e, Blind (handler e)) :
    Blind (tryCatch p handler) := by
  intro w w' h
  obtain ⟨h1, h2⟩ := hp w w' h
  rcases hw : p w with ⟨e | a, u⟩
  · rcases hw' : p w' with ⟨r, u'⟩
    rw [hw, hw'] at h1 h2
    obtain rfl : r = .error e := h1
    rw [tryCatch_error hw, tryCatch_error hw']
    exact hh e u u' h2
  · rcases hw' : p w' with ⟨r, u'⟩
    rw [hw, hw'] at h1 h2
    obtain rfl : r = .ok a := h1
    rw [tryCatch_ok hw, tryCatch_ok hw']
    exact ⟨rfl, h2⟩

/-- A program that reads other fields than the block. -/
theorem Blind.get {f : World → M α} (hf : ∀ w b, f { w with blocked := b } = f w)
    (h : ∀ w, Blind (f w)) : Blind (get >>= f) := by
  rintro w _ ⟨b, rfl⟩
  rw [get_bind, get_bind, hf]
  exact h w w _ ⟨b, rfl⟩

/-- Raising a block that was recorded right before does not look at an earlier one. -/
theorem Blind.raise (reason : Text) (cause : Option SqliteError) :
    Blind (block reason >>= fun _ => (raiseBlocked cause : M α)) := by
  rintro w _ ⟨b, rfl⟩
  exact ⟨rfl, _, rfl⟩

end blind

/-- The clock does not look at the block. -/
theorem blind_time : Blind (time H) := by
  rintro w _ ⟨b, rfl⟩
  exact ⟨rfl, b, rfl⟩

/-- A checkpoint does not look at the block. -/
theorem blind_logState : Blind (logState H) := by
  rintro w _ ⟨b, rfl⟩
  unfold logState
  dsimp only
  split
  · exact ⟨rfl, b, rfl⟩
  · exact ⟨rfl, b, rfl⟩

/-- A vacuum does not look at the block. -/
theorem blind_vacuum : Blind (vacuum H) := by
  rintro w _ ⟨b, rfl⟩
  unfold vacuum
  dsimp only
  split
  · exact ⟨rfl, b, rfl⟩
  · exact ⟨rfl, b, rfl⟩

/-- The line about what the engine has raised does not read the block. -/
theorem blind_errorLine : Blind (errorLine H) := by
  rintro w _ ⟨b, rfl⟩
  exact ⟨rfl, b, rfl⟩

/-- A recovery does not look at the block. -/
theorem blind_recover : Blind (recover H) := by
  have hclear : Blind (modify fun w : World => { w with blocked := none } : M Unit) := by
    rintro w _ ⟨b, rfl⟩
    exact ⟨rfl, none, rfl⟩
  have hraise {α β : Type} (reason : Text) (c : Option SqliteError) (f : α → M β) :
      Blind (block reason >>= fun _ => (raiseBlocked c : M α) >>= f) := by
    rintro w _ ⟨b, rfl⟩
    exact ⟨rfl, _, rfl⟩
  have hnamed {α : Type} (reason : Text → Text) (c : Option SqliteError) :
      Blind (errorLine H >>= fun line => block (reason line) >>= fun _ => (raiseBlocked c : M α)) :=
    Blind.bind blind_errorLine fun _ => Blind.raise _ _
  refine Blind.bind (Blind.tryCatch blind_logState fun _ => hnamed _ _) fun p => ?_
  refine Blind.ite (hraise _ _ _) ?_
  refine Blind.bind (Blind.tryCatch (Blind.bind blind_vacuum fun _ => blind_logState) fun _ =>
    hnamed _ _) fun p => Blind.ite (hraise _ _ _) hclear

/-- A search does not look at the block. -/
theorem blind_recall (r : Object) : Blind («recall» H r) := by
  unfold «recall»
  split
  · refine Blind.ite (Blind.throw _) (Blind.bind (Blind.lift _) fun before => ?_)
    refine Blind.bind blind_time fun now => Blind.get (fun w b => rfl) fun w => ?_
    refine Blind.bind (Blind.lift _) fun _ => Blind.bind (Blind.lift _) fun _ => ?_
    exact Blind.bind (Blind.lift _) fun _ => Blind.bind (Blind.lift _) fun _ => Blind.pure _
  · exact Blind.throw _

/-- The reply without the block it reports. -/
def Reply.unblocked : Reply → Reply
  | .hello storeId fts indexed _ => .hello storeId fts indexed none
  | .status head floor usage consumers more nextAfter _ indexed pages =>
      .status head floor usage consumers more nextAfter none indexed pages
  | reply => reply

/-- A status differs in the block it reports at most. -/
theorem status_unblocked (r : Object) {w w' : World} (h : SameBut w w') :
    (status H r w').1.map Reply.unblocked = (status H r w).1.map Reply.unblocked := by
  obtain ⟨b, rfl⟩ := h
  unfold status
  rw [get_bind, get_bind]
  dsimp only
  rw [lift_bind, lift_bind]
  rcases Sql.ofJson (if (Object.get r (lit "after")).truthy then Object.get r (lit "after")
    else .str [])
    with e | bound
  · rfl
  · dsimp only
    rw [lift_bind, lift_bind]
    split
    · rfl
    · rfl

/-- The five operations that are read-only. -/
theorem readOnly_cases {op : Json} (h : readOnly op = true) :
    op = .str (lit "hello") ∨ op = .str (lit "status") ∨ op = .str (lit "recall")
      ∨ op = .str (lit "stop") ∨ op = .str (lit "recover") := by
  simp only [readOnly, Bool.or_eq_true, Json.isText_iff] at h
  tauto

/-- **The operations that must stay reachable answer as if the store were not blocked**, but for the
block that `hello` and `status` report. -/
theorem command_unblocked (s : Service) (r : Object) (pid : ℕ)
    (hop : readOnly (r.get (lit "op")) = true) {w w' : World} (h : SameBut w w') :
    (command H s r pid w').1.map Reply.unblocked = (command H s r pid w).1.map Reply.unblocked := by
  have hmaintain : maintain H (r.get (lit "op")) = pure () := if_pos hop
  unfold command
  rw [hmaintain, lift_bind, lift_bind]
  rcases validateTarget s r with e | _
  · rfl
  change (dispatch H s r pid (r.get (lit "op")) w').1.map _
    = (dispatch H s r pid (r.get (lit "op")) w).1.map _
  rcases readOnly_cases hop with h1 | h1 | h1 | h1 | h1
  · rw [h1]
    obtain ⟨b, rfl⟩ := h
    rfl
  · rw [h1]
    exact status_unblocked r h
  · rw [h1]
    exact congrArg _ (blind_recall r w w' h).1
  · rw [h1]
    exact congrArg _ (Blind.bind (Blind.lift _) (fun _ => Blind.pure _) w w' h).1
  · rw [h1]
    refine congrArg _ (Blind.bind blind_recover (fun _ => ?_) w w' h).1
    exact Blind.get (fun w b => rfl) fun w => Blind.pure _

/-! ## Sequences of requests -/

/-- The store after a sequence of requests, each with its reported process. -/
def serve (H : Host) (s : Service) : List (Object × ℕ) → World → World
  | [], w => w
  | (r, pid) :: rest, w => serve H s rest (command H s r pid w).2

/-- A request for recovery. -/
def asksRecovery (r : Object) : Bool := (r.get (lit "op")).isText (lit "recover")

/-- From a blocked store on, guarded moments change nothing durable. -/
theorem Guards.blocked {w w' : World} (hw : w.blocked.isSome = true) (h : Guards H w w') :
    w'.db = w.db ∧ w'.pages = w.pages ∧ w'.blocked.isSome = true := by
  refine keeps_of_reflTransGen (I := fun v => v.db = w.db ∧ v.pages = w.pages
    ∧ v.blocked.isSome = true)
    ?_ h ⟨rfl, rfl, hw⟩
  rintro u v (hs | ⟨hopen, -⟩) ⟨h1, h2, h3⟩
  · exact ⟨hs.db.trans h1, hs.pages.trans h2, hs.blocked h3⟩
  · rw [hopen] at h3
    cases h3

/-- A request for recovery is refused for its target, or it is one recovery. -/
theorem command_recover (s : Service) {r : Object} (pid : ℕ) (hop : asksRecovery r = true)
    (w : World) :
    (command H s r pid w).2 = w ∨ (command H s r pid w).2 = (recover H w).2 := by
  have hrecover : r.get (lit "op") = .str (lit "recover") := Json.isText_iff.mp hop
  unfold command
  rw [lift_bind, hrecover]
  rcases validateTarget s r with e | _
  · exact .inl rfl
  · right
    change ((recover H >>= fun _ => get >>= fun v : World => pure (Reply.recovered v.pages)) w).2
      = _
    rcases h : recover H w with ⟨e | _, u⟩
    · rw [bind_error h]
    · rw [bind_ok h]
      rfl

/-- The block is lifted by a recovery whose log check succeeded before and after its vacuum. -/
theorem command_lifts (s : Service) (r : Object) (pid : ℕ) {w : World}
    (hw : w.blocked.isSome = true)
    (h : (command H s r pid w).2.blocked = none) : asksRecovery r = true ∧ H.clean w.tick ∧
      (∃ freed, H.vacuum (w.tick + 1) = some freed) ∧ H.clean (w.tick + 2) := by
  rcases hop : asksRecovery r with _ | _
  · have hb := (Guards.blocked hw (command_guarded (H := H) s r pid hop w)).2.2
    rw [h] at hb
    cases hb
  · refine ⟨rfl, ?_⟩
    rcases command_recover (H := H) s pid hop w with he | he
    · rw [he] at h
      rw [h] at hw
      cases hw
    · rw [he] at h
      rcases recover_cases (H := H) w with ⟨h1, freed, h2, h3, -⟩ | ⟨d, c, w', h1, hb, -⟩
      · exact ⟨h1, ⟨freed, h2⟩, h3⟩
      · rw [h1] at h
        rw [h] at hb
        cases hb

/-- Without a recovery a blocked store keeps its content, its pages and its block. -/
theorem serve_blocked (s : Service) {reqs : List (Object × ℕ)} {w : World}
    (hw : w.blocked.isSome = true) (hreqs : ∀ q ∈ reqs, asksRecovery q.1 = false) :
    (serve H s reqs w).db = w.db ∧ (serve H s reqs w).pages = w.pages ∧
      (serve H s reqs w).blocked.isSome = true := by
  induction reqs generalizing w with
  | nil => exact ⟨rfl, rfl, hw⟩
  | cons q rest ih =>
    obtain ⟨h1, h2, h3⟩ := Guards.blocked hw
      (command_guarded (H := H) s q.1 q.2 (hreqs q (by simp)) w)
    obtain ⟨h4, h5, h6⟩ := ih h3 fun x hx => hreqs x (by simp [hx])
    exact ⟨h4.trans h1, h5.trans h2, h6⟩

/-- A list of requests that lifts the block contains the recovery that did, after a clean log check.
-/
theorem serve_lifts (s : Service) {reqs : List (Object × ℕ)} {w : World}
    (hw : w.blocked.isSome = true) (h : (serve H s reqs w).blocked = none) :
    ∃ first q rest, reqs = first ++ q :: rest ∧ asksRecovery q.1 = true ∧
      (serve H s first w).blocked.isSome = true ∧ H.clean (serve H s first w).tick ∧
      (∃ freed, H.vacuum ((serve H s first w).tick + 1) = some freed) ∧
      H.clean ((serve H s first w).tick + 2) := by
  induction reqs generalizing w with
  | nil =>
    change w.blocked = none at h
    rw [h] at hw
    cases hw
  | cons q rest ih =>
    by_cases hu : (command H s q.1 q.2 w).2.blocked = none
    · obtain ⟨hop, h1, h2, h3⟩ := command_lifts s q.1 q.2 hw hu
      exact ⟨[], q, rest, rfl, hop, hw, h1, h2, h3⟩
    · obtain ⟨first, q', rest', hreqs, hrest⟩ := ih (Option.isSome_iff_ne_none.mpr hu) h
      exact ⟨q :: first, q', rest', by rw [hreqs]; rfl, hrest⟩

/-- **Blocked means blocked**, for every sequence of requests and whatever the log and the engine
answer:

* a transaction begins only in a store that is not blocked and right after a log check that
  succeeded; otherwise it raises `storage_blocked` whatever its body is;
* every request but `recover` is a chain of moments that change nothing durable or begin in that
  way, so nothing durable changes from the moment the block is set;
* in a sequence of requests the block is lifted only by a `recover` whose log check succeeded before
  and after its vacuum; without one the content, the pages and the block stay;
* `hello`, `status`, `recall`, `stop` and `recover` answer as if the store were not blocked. -/
theorem blocked_means_blocked (H : Host) (s : Service) :
    (∀ {α : Type} (control blocking : Bool) (body : M α) (w : World),
      w.blocked = none ∧ H.clean w.tick ∧
          transaction H control blocking body w
            = begun H control blocking body { w with tick := w.tick + 1 } ∨
        ¬ (w.blocked = none ∧ H.clean w.tick) ∧ ∃ t reason d c, w.tick ≤ t ∧
          ∀ body : M α, transaction H control blocking body w
            = (.error (.refused .storageBlocked d c),
                { w with tick := t, blocked := some reason })) ∧
    (∀ r pid w, asksRecovery r = false → Guards H w (command H s r pid w).2) ∧
    (∀ w w', w.blocked.isSome = true → Guards H w w' →
      w'.db = w.db ∧ w'.pages = w.pages ∧ w'.blocked.isSome = true) ∧
    (∀ reqs w, w.blocked.isSome = true → (∀ q ∈ reqs, asksRecovery q.1 = false) →
      (serve H s reqs w).db = w.db ∧ (serve H s reqs w).pages = w.pages ∧
        (serve H s reqs w).blocked.isSome = true) ∧
    (∀ reqs w, w.blocked.isSome = true → (serve H s reqs w).blocked = none →
      ∃ first q rest, reqs = first ++ q :: rest ∧ asksRecovery q.1 = true ∧
        (serve H s first w).blocked.isSome = true ∧ H.clean (serve H s first w).tick ∧
        (∃ freed, H.vacuum ((serve H s first w).tick + 1) = some freed) ∧
        H.clean ((serve H s first w).tick + 2)) ∧
    (∀ r pid w b, readOnly (r.get (lit "op")) = true →
      (command H s r pid { w with blocked := b }).1.map Reply.unblocked
        = (command H s r pid w).1.map Reply.unblocked) :=
  ⟨fun control blocking body w => transaction_gate control blocking body w,
    fun r pid w hop => command_guarded s r pid hop w, fun _ _ => Guards.blocked,
    fun _ _ => serve_blocked s, fun _ _ => serve_lifts s,
    fun r pid _ b hop => command_unblocked s r pid hop ⟨b, rfl⟩⟩

/-- A blocked store, and the requests to write and to recover. -/
def blockedWorld : World :=
  { World.initial (lit "store") 1 false with blocked := some (lit "the log could not be reset") }

def writeRequest : Object :=
  [(lit "op", .str (lit "note")), (lit "consumer", .str (lit "writer")),
    (lit "type", .str (lit "status")),
    (lit "body", .str (lit "x"))]

def recoverRequest : Object := [(lit "op", .str (lit "recover"))]

/-- A write on a blocked store changes nothing; the recovery after it lifts the block. -/
theorem blocked_means_blocked_recovered :
    (serve Host.steady ⟨[], []⟩ [(writeRequest, 7)] blockedWorld).db = blockedWorld.db ∧
      ∃ first q rest, [(writeRequest, 7), (recoverRequest, 7)] = first ++ q :: rest ∧
        asksRecovery q.1 = true ∧
        Host.steady.clean (serve Host.steady ⟨[], []⟩ first blockedWorld).tick := by
  obtain ⟨-, -, -, hkept, hlifted, -⟩ := blocked_means_blocked Host.steady ⟨[], []⟩
  have hnote : ∀ q ∈ [(writeRequest, 7)], asksRecovery q.1 = false := by decide
  have hopen :
    (serve Host.steady ⟨[], []⟩ [(writeRequest, 7), (recoverRequest, 7)] blockedWorld).blocked
      = none := by decide +kernel
  obtain ⟨first, q, rest, hreqs, hop, -, hclean, -⟩ := hlifted _ _ rfl hopen
  exact ⟨(hkept _ _ rfl hnote).1, first, q, rest, hreqs, hop, hclean⟩

end PeerBridge.Memory
