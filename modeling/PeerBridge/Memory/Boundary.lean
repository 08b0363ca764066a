import PeerBridge.Memory.Commands

/-!
# The write boundary: what a transaction and a maintenance run can do

Every durable change of the store goes through `transaction`. This module says once what a run of it
amounts to (`transaction_inv`): either it failed and the committed content is what it was, or its
body ran to the end and what the body left is committed, even if the process died right after.

Over it stands maintenance. `Maint H k` is one committed maintenance transaction of a request that
began at question `k`: a batch of expired entries removed, the index invalidated, the closing
transaction of an expiry, a pruning of idempotency rows, or nothing. Expiry, reclamation and
admission are chains of such steps (`expire_maint`, `reclaim_maint`, `admission_maint`), so what a
step keeps, every run of them keeps.

Source: `memory.py`, `Store.transaction`, `Store.expire`, `Store.reclaim`, `Store.admit`.
-/

namespace PeerBridge.Memory

open Py Relational Effects Effects.Prog Relation

variable {H : Host}

/-! ## Later moments of an execution -/

/-- `w'` is a later moment of the execution of `w`, in the same process. -/
structure Later (w w' : World) : Prop where
  tick : w.tick ≤ w'.tick
  fts : w'.fts = w.fts

instance : Std.Refl Later := ⟨fun _ => ⟨le_rfl, rfl⟩⟩

instance : IsTrans World Later := ⟨fun _ _ _ h h' => ⟨h.tick.trans h'.tick, h'.fts.trans h.fts⟩⟩

/-- `w'` is a later moment with the same committed content. -/
structure Idle (w w' : World) : Prop extends Later w w' where
  db : w'.db = w.db

instance : Std.Refl Idle := ⟨fun w => ⟨refl_of Later w, rfl⟩⟩

instance : IsTrans World Idle :=
  ⟨fun _ _ _ h h' => ⟨trans_of Later h.toLater h'.toLater, h'.db.trans h.db⟩⟩

/-- `t` is the answer of the clock to a question asked since question `k` and before `w`. -/
def Reading (H : Host) (k : ℕ) (w : World) (t : ℚ) : Prop :=
  ∃ i, k ≤ i ∧ i < w.tick ∧ H.clock i = t

/-- A clock reading of a stretch is a reading of every longer stretch. -/
theorem Reading.mono {k k' : ℕ} {w w' : World} {t : ℚ} (h : Reading H k w t) (hk : k' ≤ k)
    (hw : w.tick ≤ w'.tick) : Reading H k' w' t := by
  obtain ⟨i, h1, h2, h3⟩ := h
  exact ⟨i, by omega, by omega, h3⟩

/-! ## Running the primitives -/

/-- A look at the clock takes one moment. -/
@[simp] theorem time_apply (w : World) :
    time H w = (.ok (H.clock w.tick), { w with tick := w.tick + 1 }) := rfl

/-- What follows a look at the clock goes on with its reading. -/
@[simp] theorem time_bind {α : Type} (f : ℚ → M α) (w : World) :
    (time H >>= f) w = f (H.clock w.tick) { w with tick := w.tick + 1 } := rfl

/-- What follows the drawing of an identifier goes on with it. -/
@[simp] theorem freshId_bind {α : Type} (f : Text → M α) (w : World) :
    (freshId H >>= f) w = f (H.uuid w.tick) { w with tick := w.tick + 1 } := rfl

/-- What follows a read of the content goes on with the committed content. -/
@[simp] theorem database_bind {α : Type} (f : Db → M α) (w : World) :
    (database >>= f) w = f w.db w := rfl

/-- A statement changes the content and takes no moment of its own. -/
@[simp] theorem execute_apply (f : Db → Db) (w : World) :
    execute f w = (.ok (), { w with db := f w.db }) := rfl

/-- What follows a statement sees its effect. -/
@[simp] theorem execute_bind {α : Type} (g : Db → Db) (f : Unit → M α) (w : World) :
    (execute g >>= f) w = f () { w with db := g w.db } := rfl

/-- A refusal raises its code and leaves everything as it was. -/
@[simp] theorem refuse_apply {α : Type} (code : Code) (detail : Text) (w : World) :
    (refuse code detail : M α) w = (.error (refusal code detail), w) := rfl

/-- The line about what the engine has raised is the engine's class and text; it changes nothing. -/
@[simp] theorem errorLine_bind {α : Type} (f : Text → M α) (w : World) :
    (errorLine H >>= f) w = f (H.errorClass w.tick ++ lit ": " ++ H.errorText w.tick) w := rfl

/-- A commit only allocates its own pages. -/
@[simp] theorem commit_bind {α : Type} (f : Unit → M α) (w : World) :
    (commit H >>= f) w
      = f () { w with pages := w.pages + H.slack w.tick, tick := w.tick + 1 } := rfl

/-- The clock leaves the content alone. -/
theorem keeps_time : Keeps Idle (time H) := fun _ => ⟨⟨Nat.le_succ _, rfl⟩, rfl⟩

/-- Surviving an interruption, or dying in it, leaves the content alone. -/
theorem keeps_interrupt : Keeps Idle (interrupt H) := fun _ => ⟨⟨Nat.le_succ _, rfl⟩, rfl⟩

/-- A commit leaves the content alone: it is what the statements have made of it. -/
theorem keeps_commit : Keeps Idle (commit H) := fun _ => ⟨⟨Nat.le_succ _, rfl⟩, rfl⟩

/-- Asking the engine for a write leaves the content alone. -/
theorem keeps_write : Keeps Idle (write H) := by
  intro w
  unfold write
  split <;> exact ⟨⟨Nat.le_succ _, rfl⟩, rfl⟩

/-- A vacuum frees pages only. -/
theorem keeps_vacuum : Keeps Idle (vacuum H) := by
  intro w
  unfold vacuum
  split <;> exact ⟨⟨Nat.le_succ _, rfl⟩, rfl⟩

/-- A checkpoint leaves the content alone. -/
theorem keeps_logState : Keeps Idle (logState H) := by
  intro w
  unfold logState
  split <;> exact ⟨⟨Nat.le_succ _, rfl⟩, rfl⟩

/-- A refusal leaves the content alone. -/
theorem keeps_refuse {α : Type} (code : Code) (detail : Text) :
    Keeps Idle (refuse code detail : M α) := Keeps.throw _

/-- Reading the content leaves it alone. -/
theorem keeps_database : Keeps Idle database := Keeps.bind Keeps.get fun _ => Keeps.pure _

/-- Naming an error changes nothing. -/
theorem keeps_errorLine : Keeps Idle (errorLine H) := fun w => refl_of Idle w

/-- Recording a block leaves the content alone. -/
theorem keeps_block (reason : Text) : Keeps Idle (block reason) := fun _ => ⟨⟨le_rfl, rfl⟩, rfl⟩

/-- Raising the recorded block leaves the content alone. -/
theorem keeps_raiseBlocked {α : Type} (cause : Option SqliteError) :
    Keeps Idle (raiseBlocked cause : M α) := Keeps.bind Keeps.get fun _ => Keeps.throw _

/-- A statement does not turn the time back. -/
theorem keeps_execute (f : Db → Db) : Keeps Later (execute f) := fun _ => ⟨le_rfl, rfl⟩

/-- The insertion of a row computes the new table and stores nothing yet. -/
theorem keeps_insertInto {κ α : Type} {key : α → κ} [DecidableEq κ] (t : Table κ α key) (a : α) :
    Keeps Idle (insertInto t a) := by
  unfold insertInto
  split
  · exact Keeps.pure _
  · exact Keeps.throw _

/-- A program that leaves the content alone goes to a later moment. -/
theorem Keeps.later {α : Type} {p : M α} (h : Keeps Idle p) : Keeps Later p :=
  Keeps.mono (fun _ _ => Idle.toLater) h

/-! ## The log -/

/-- The gate passes exactly on a store that is not blocked. -/
theorem requireWritable_inv {w w' : World} {r : Except Exc Unit}
    (h : requireWritable w = (r, w')) :
    w' = w ∧ ((w.blocked = none ∧ r = .ok ()) ∨
      ∃ d, r = .error (.refused .storageBlocked d none)) := by
  unfold requireWritable at h
  rw [get_bind] at h
  split at h
  · cases h
    exact ⟨rfl, .inr ⟨_, rfl⟩⟩
  · rename_i hb
    cases h
    exact ⟨rfl, .inl ⟨by simpa using hb, rfl⟩⟩

/-- Recording a block and raising it. -/
theorem block_raise_inv {α : Type} {reason : Text} {cause : Option SqliteError} {w w' : World}
    {r : Except Exc α} (h : (block reason >>= fun _ => raiseBlocked cause) w = (r, w')) :
    Idle w w' ∧ ∃ d, r = .error (.refused .storageBlocked d cause) := by
  refine ⟨(Keeps.bind (keeps_block reason) fun _ => keeps_raiseBlocked cause).run h, ?_⟩
  cases h
  exact ⟨_, rfl⟩

/-- The log check succeeds or raises the block, and never touches the content. -/
theorem resetLog_inv {w w' : World} {r : Except Exc Unit} (h : resetLog H w = (r, w')) :
    Idle w w' ∧ (r = .ok () ∨ ∃ d c, r = .error (.refused .storageBlocked d c)) := by
  unfold resetLog at h
  obtain ⟨e, h1, rfl⟩ | ⟨⟨busy, logPages, residual⟩, u, h1, h2⟩ := bind_inv h
  · obtain ⟨_, _, hr⟩ | ⟨_, v, h2, h3⟩ := tryCatch_inv h1
    · cases hr
    · rw [errorLine_bind] at h3
      obtain ⟨hi, d, hd⟩ := block_raise_inv h3
      exact ⟨trans_of Idle (keeps_logState.run h2) hi, .inr ⟨d, _, by cases hd; rfl⟩⟩
  · have hu : Idle w u := by
      obtain ⟨_, h3, _⟩ | ⟨_, v, _, h3⟩ := tryCatch_inv h1
      · exact keeps_logState.run h3
      · rw [errorLine_bind] at h3
        obtain ⟨-, d, hd⟩ := block_raise_inv h3
        cases hd
    dsimp only at h2
    split at h2
    · obtain ⟨hi, d, hd⟩ := block_raise_inv h2
      exact ⟨trans_of Idle hu hi, .inr ⟨d, _, hd⟩⟩
    · cases h2
      exact ⟨hu, .inl rfl⟩

/-- The page check passes exactly when the allocated pages are within the cap. -/
theorem enforcePages_inv {control : Bool} {w w' : World} {r : Except Exc Unit}
    (h : enforcePages control w = (r, w')) :
    w' = w ∧ ((r = .ok () ∧ w.pages ≤ pageCap control) ∨
      ∃ d, r = .error (.refused .capacity d none)) := by
  unfold enforcePages at h
  rw [get_bind] at h
  split at h
  · cases h
    exact ⟨rfl, .inr ⟨_, rfl⟩⟩
  · cases h
    exact ⟨rfl, .inl ⟨rfl, by omega⟩⟩

/-! ## Transactions -/

/-- Why a transaction with this body did not commit: the log, the engine or the page check refused,
the process died, or the body raised. -/
inductive Failed {α : Type} (body : M α) (w : World) (e : Exc) : Prop
  | blocked (d : Text) (c : Option SqliteError) (h : e = .refused .storageBlocked d c)
  | capacity (d : Text) (c : Option SqliteError) (h : e = .refused .capacity d c)
  | killed (h : e = .killed)
  | raised (w1 w2 : World) (hi : Idle w w1) (h : body w1 = (.error e, w2)) (hf : e ≠ .sqlite .full)

/-- A rollback restores the content and always raises: the exception itself, a block or a capacity
refusal. -/
theorem rollback_inv {α : Type} {before : World} {control blocking : Bool} {exc : Exc}
    {w w' : World} {r : Except Exc α} (hw : Later before w)
    (h : rollback before control blocking exc w = (r, w')) :
    Idle before w' ∧ ∃ e, r = .error e ∧ ((exc ≠ .sqlite .full ∧ e = exc) ∨
      (∃ d c, e = .refused .storageBlocked d c) ∨ ∃ d c, e = .refused .capacity d c) := by
  have hi : Idle before { w with db := before.db, pages := before.pages } :=
    ⟨⟨hw.tick, hw.fts⟩, rfl⟩
  unfold rollback at h
  rw [modify_bind] at h
  split at h
  · split at h
    · obtain ⟨h1, d, rfl⟩ := block_raise_inv h
      exact ⟨trans_of Idle hi h1, _, rfl, .inr (.inl ⟨d, _, rfl⟩)⟩
    · cases h
      exact ⟨hi, _, rfl, .inr (.inr ⟨_, _, rfl⟩)⟩
  · rename_i hf
    cases h
    exact ⟨hi, _, rfl, .inl ⟨hf, rfl⟩⟩

/-- An interruption passes or is the death of the process. -/
theorem interrupt_inv {w w' : World} {r : Except Exc Unit} (h : interrupt H w = (r, w')) :
    Idle w w' ∧ (r = .ok () ∨ r = .error .killed) := by
  refine ⟨keeps_interrupt.run h, ?_⟩
  unfold interrupt at h
  split at h
  · cases h
    exact .inr rfl
  · cases h
    exact .inl rfl

/-- The guarded part of a transaction: the body, the page check and the commit. -/
theorem committing_inv {α : Type} {control : Bool} {body : M α} {w w' : World} {r : Except Exc α}
    (hb : Keeps Later body)
    (h : (do
      let a ← body
      enforcePages control
      interrupt H
      commit H
      return a) w = (r, w')) :
    (Later w w' ∧ ∃ e, r = .error e ∧ (body w = (.error e, w') ∨
      (∃ d, e = .refused .capacity d none) ∨ e = .killed)) ∨
      ∃ a w2, body w = (.ok a, w2) ∧ w2.pages ≤ pageCap control ∧ Idle w2 w' ∧ r = .ok a := by
  obtain ⟨e, h1, rfl⟩ | ⟨a, w2, h1, h2⟩ := bind_inv h
  · exact .inl ⟨hb.run h1, e, rfl, .inl h1⟩
  obtain ⟨e, h3, rfl⟩ | ⟨_, w3, h3, h4⟩ := bind_inv h2
  · obtain ⟨rfl, ⟨he, -⟩ | ⟨d, hd⟩⟩ := enforcePages_inv h3
    · cases he
    · cases hd
      exact .inl ⟨hb.run h1, _, rfl, .inr (.inl ⟨d, rfl⟩)⟩
  obtain ⟨rfl, ⟨-, hp⟩ | ⟨d, hd⟩⟩ := enforcePages_inv h3
  swap
  · cases hd
  obtain ⟨e, h5, rfl⟩ | ⟨_, w4, h5, h6⟩ := bind_inv h4
  · obtain ⟨hi, he | he⟩ := interrupt_inv h5
    · cases he
    · cases he
      exact .inl ⟨trans_of Later (hb.run h1) hi.toLater, _, rfl, .inr (.inr rfl)⟩
  · have hi : Idle w4 w' := (Keeps.bind keeps_commit fun _ => Keeps.pure a).run h6
    cases h6
    exact .inr ⟨a, w3, h1, hp, trans_of Idle (interrupt_inv h5).1 hi, rfl⟩

/-- **One run of the write boundary.** Either nothing was committed, or the body ran to its end from
a moment with the content of `w`, and what it left is the committed content. -/
theorem transaction_inv {α : Type} {control blocking : Bool} {body : M α} {w w' : World}
    {r : Except Exc α} (hb : Keeps Later body) (h : transaction H control blocking body w
      = (r, w')) :
    (Idle w w' ∧ ∃ e, r = .error e ∧ Failed body w e) ∨
      ∃ w1 a w2, Idle w w1 ∧ body w1 = (.ok a, w2) ∧ Idle w2 w' ∧
        w2.pages ≤ pageCap control ∧ (r = .ok a ∨ r = .error .killed) := by
  unfold transaction at h
  obtain ⟨e, h1, rfl⟩ | ⟨_, u, h1, h2⟩ := bind_inv h
  · obtain ⟨rfl, ⟨-, he⟩ | ⟨d, he⟩⟩ := requireWritable_inv h1
    · cases he
    · cases he
      exact .inl ⟨refl_of Idle _, _, rfl, .blocked _ _ rfl⟩
  obtain ⟨rfl, -⟩ := requireWritable_inv h1
  obtain ⟨e, h3, rfl⟩ | ⟨_, v, h3, h4⟩ := bind_inv h2
  · obtain ⟨hi, he | ⟨d, c, he⟩⟩ := resetLog_inv h3
    · cases he
    · cases he
      exact .inl ⟨hi, _, rfl, .blocked _ _ rfl⟩
  have hv : Idle u v := (resetLog_inv h3).1
  rw [get_bind] at h4
  obtain ⟨e, h5, rfl⟩ | ⟨a, x, h5, h6⟩ := bind_inv h4
  · -- Something raised before the commit: the handler restores the content.
    obtain ⟨_, _, he⟩ | ⟨e0, y, h7, h8⟩ := tryCatch_inv h5
    · cases he
    obtain ⟨hy, e1, he1, hraised⟩ | ⟨_, _, _, _, _, he⟩ := committing_inv hb h7
    swap
    · cases he
    cases he1
    obtain ⟨hi, e2, he2, hcase⟩ := rollback_inv hy h8
    refine .inl ⟨trans_of Idle hv hi, e2, he2, ?_⟩
    obtain ⟨hf, rfl⟩ | ⟨d, c, rfl⟩ | ⟨d, c, rfl⟩ := hcase
    · obtain h9 | ⟨d, rfl⟩ | rfl := hraised
      · exact .raised v y hv h9 hf
      · exact .capacity _ _ rfl
      · exact .killed rfl
    · exact .blocked _ _ rfl
    · exact .capacity _ _ rfl
  · -- The commit happened; only the last possible death follows it.
    obtain ⟨a', h7, he⟩ | ⟨e0, y, h7, h8⟩ := tryCatch_inv h5
    · cases he
      obtain ⟨_, _, he, _⟩ | ⟨a2, z, h9, hp, hz, he⟩ := committing_inv hb h7
      · cases he
      cases he
      obtain ⟨e, h10, rfl⟩ | ⟨_, y, h10, h11⟩ := bind_inv h6
      · obtain ⟨hi, he | he⟩ := interrupt_inv h10
        · cases he
        · cases he
          exact .inr ⟨v, a, z, hv, h9, trans_of Idle hz hi, hp, .inr rfl⟩
      · have hi := (interrupt_inv h10).1
        cases h11
        exact .inr ⟨v, a, z, hv, h9, trans_of Idle hz hi, hp, .inl rfl⟩
    · obtain ⟨hy, _, _, -⟩ | ⟨_, _, _, _, _, he⟩ := committing_inv hb h7
      · obtain ⟨-, e1, he1, -⟩ := rollback_inv hy h8
        cases he1
      · cases he

/-- A transaction that executes one statement, which may look at the moment it runs at. -/
theorem statement_at_inv {control blocking : Bool} {g : World → Db → Db} {w w' : World}
    {r : Except Exc Unit}
    (h : transaction H control blocking (do
      write H
      let v ← get
      execute (g v)) w = (r, w')) :
    (Idle w w' ∧ ∃ e, r = .error e ∧ Failed (do
        write H
        let v ← get
        execute (g v)) w e) ∨
      ∃ v, Idle w v ∧ Later v w' ∧ w'.db = g v w.db ∧ (r = .ok () ∨ r = .error .killed) := by
  have hb : Keeps Later (do
      write H
      let v ← get
      execute (g v)) :=
    Keeps.bind (Keeps.later keeps_write) fun _ => Keeps.bind Keeps.get fun _ => keeps_execute _
  obtain h | ⟨w1, a, w2, h1, h2, h3, -, hr⟩ := transaction_inv hb h
  · exact .inl h
  · obtain ⟨_, v, h4, h5⟩ := bind_ok_inv h2
    have hv : Idle w v := trans_of Idle h1 (keeps_write.run h4)
    cases h5
    exact .inr ⟨v, hv, ⟨h3.tick, h3.fts⟩, by rw [h3.db, ← hv.db], hr⟩

/-- A transaction that executes one fixed statement. -/
theorem statement_inv {control blocking : Bool} {f : Db → Db} {w w' : World} {r : Except Exc Unit}
    (h : transaction H control blocking (do write H; execute f) w = (r, w')) :
    (Idle w w' ∧ ∃ e, r = .error e ∧ Failed (do write H; execute f) w e) ∨
      (Later w w' ∧ w'.db = f w.db ∧ (r = .ok () ∨ r = .error .killed)) := by
  obtain h | ⟨v, hv, hl, hd, hr⟩ := statement_at_inv (g := fun _ => f) h
  · exact .inl h
  · exact .inr ⟨trans_of Later hv.toLater hl, hd, hr⟩

/-! ## Maintenance -/

/-- One committed removal of expired entries, or of the index, in a request that began at question
`k`. -/
inductive Trim (H : Host) (k : ℕ) (w w' : World) : Prop
  | idle (h : Idle w w')
  | forget (batch : List Entry) (usable : Bool) (t : ℚ) (hl : Later w w') (ht : Reading H k w' t)
      (hb : ∀ e ∈ batch, e ∈ w.db.entries ∧ e.expires.before t = true)
      (hu : usable = w.indexUsable ∨ (usable = false ∧ w.db.indexedThrough = -1))
      (hd : w'.db = Db.forget batch w.fts (Db.unindex batch usable w.db))
  | invalidate (hl : Later w w') (hd : w'.db = w.db.invalidate)

/-- One committed maintenance transaction of a request that began at question `k`. -/
inductive Maint (H : Host) (k : ℕ) (w w' : World) : Prop
  | trim (h : Trim H k w w')
  | retire (t : ℚ) (hl : Later w w') (ht : Reading H k w' t) (hd : w'.db = w.db.retire t)
  | prune (t : ℚ) (hl : Later w w') (ht : Reading H k w' t) (hd : w'.db = w.db.prune t)

/-- A step of expiry takes time. -/
theorem Trim.later {k : ℕ} {w w' : World} (h : Trim H k w w') : Later w w' := by
  cases h with
  | idle h => exact h.toLater
  | forget _ _ _ hl => exact hl
  | invalidate hl => exact hl

/-- A trim touches the log, its floor and the index only, and stores nothing new. -/
theorem Trim.frame {k : ℕ} {w w' : World} (h : Trim H k w w') :
    ∃ es fl ix se,
      w'.db = { w.db with entries := es, floor := fl, indexedThrough := ix, search := se } ∧
      (∀ e ∈ es, e ∈ w.db.entries) ∧ es.rows.length ≤ w.db.entries.rows.length := by
  rcases h with hi | ⟨batch, usable, t, hl, ht, hb, hu, hd⟩ | ⟨hl, hd⟩
  · exact ⟨w.db.entries, w.db.floor, w.db.indexedThrough, w.db.search, hi.db, fun _ he => he,
      le_rfl⟩
  · have hsub : ∀ e ∈ (Db.forget batch w.fts (Db.unindex batch usable w.db)).entries,
        e ∈ w.db.entries := by
      intro e he
      cases usable <;> exact (Table.mem_remove.mp he).1
    have hlen : (Db.forget batch w.fts (Db.unindex batch usable w.db)).entries.rows.length
        ≤ w.db.entries.rows.length := by
      cases usable <;> exact List.length_filter_le _ _
    rw [← hd] at hsub hlen
    refine ⟨w'.db.entries, w'.db.floor, w'.db.indexedThrough, w'.db.search, ?_, hsub, hlen⟩
    rw [hd]
    cases usable <;> rfl
  · exact ⟨w.db.entries, w.db.floor, -1, w.db.search, hd, fun _ he => he, le_rfl⟩

/-- A step of maintenance takes time. -/
theorem Maint.later {k : ℕ} {w w' : World} (h : Maint H k w w') : Later w w' := by
  cases h with
  | trim h => exact h.later
  | retire _ hl => exact hl
  | prune _ hl => exact hl

/-- A step that leaves the content alone is a step of maintenance. -/
theorem Maint.idle {k : ℕ} {w w' : World} (h : Idle w w') : Maint H k w w' := .trim (.idle h)

/-- A step of expiry counted from a moment counts from every earlier one. -/
theorem Trim.mono {k k' : ℕ} (hk : k' ≤ k) {w w' : World} (h : Trim H k w w') : Trim H k' w w' := by
  cases h with
  | idle h => exact .idle h
  | forget b u t hl ht hb hu hd => exact .forget b u t hl (ht.mono hk le_rfl) hb hu hd
  | invalidate hl hd => exact .invalidate hl hd

/-- A step of maintenance counted from a moment counts from every earlier one. -/
theorem Maint.mono {k k' : ℕ} (hk : k' ≤ k) {w w' : World} (h : Maint H k w w') :
    Maint H k' w w' := by
  cases h with
  | trim h => exact .trim (h.mono hk)
  | retire t hl ht hd => exact .retire t hl (ht.mono hk le_rfl) hd
  | prune t hl ht hd => exact .prune t hl (ht.mono hk le_rfl) hd

/-- Steps of expiry take time. -/
theorem Trims.later {k : ℕ} {w w' : World} (h : ReflTransGen (Trim H k) w w') : Later w w' := by
  induction h with
  | refl => exact refl_of Later _
  | tail _ h ih => exact trans_of Later ih h.later

/-- A chain of maintenance steps. -/
abbrev Maints (H : Host) (k : ℕ) : World → World → Prop := ReflTransGen (Maint H k)

/-- Maintenance counted from a moment counts from every earlier one. -/
theorem Maints.mono {k k' : ℕ} (hk : k' ≤ k) {w w' : World} (h : Maints H k w w') :
    Maints H k' w w' := ReflTransGen.mono (fun _ _ => Maint.mono hk) _ _ h

/-- Maintenance takes time. -/
theorem Maints.later {k : ℕ} {w w' : World} (h : Maints H k w w') : Later w w' := by
  induction h with
  | refl => exact refl_of Later _
  | tail _ h ih => exact trans_of Later ih h.later

/-- A stretch that leaves the content alone is maintenance. -/
theorem Maints.idle {k : ℕ} {w w' : World} (h : Idle w w') : Maints H k w w' :=
  .single (.idle h)

/-- Whether the index can be used depends on the content only. -/
theorem indexUsable_congr {w w' : World} (h : Idle w w') : w'.indexUsable = w.indexUsable := by
  unfold World.indexUsable
  rw [h.db, h.fts]

/-- What a batch of expiry deletes is stored and past its lifetime. -/
theorem mem_expiredBatch {db : Db} {now : ℚ} {e : Entry} (h : e ∈ db.expiredBatch now) :
    e ∈ db.entries ∧ e.expires.before now = true := by
  have := List.mem_of_mem_take h
  rw [bySeq, List.mem_insertionSort] at this
  exact List.mem_filter.mp this

/-- The transaction that removes a batch together with its postings. -/
theorem speculative_trim {k : ℕ} {control blocking : Bool} {batch : List Entry} {t : ℚ}
    {w w' : World} {r : Except Exc Unit} (ht : Reading H k w t)
    (hb : ∀ e ∈ batch, e ∈ w.db.entries ∧ e.expires.before t = true)
    (h : transaction H control blocking (do
      write H
      let v ← get
      execute fun db => Db.forget batch v.fts (Db.unindex batch v.indexUsable db)) w = (r, w')) :
    Trim H k w w' ∧ ((∃ e, r = .error e ∧ Idle w w') ∨ r = .ok () ∨ r = .error .killed) := by
  obtain ⟨hi, e, he, -⟩ | ⟨v, hv, hl, hd, hr⟩ := statement_at_inv h
  · exact ⟨.idle hi, .inl ⟨e, he, hi⟩⟩
  · have hl' : Later w w' := trans_of Later hv.toLater hl
    rw [indexUsable_congr hv, hv.fts] at hd
    exact ⟨.forget batch w.indexUsable t hl' (ht.mono le_rfl hl'.tick) hb (.inl rfl) hd, .inr hr⟩

/-- The transaction that removes a batch after the index was invalidated. -/
theorem forgetting_trim {k : ℕ} {control blocking : Bool} {batch : List Entry} {t : ℚ}
    {w w' : World} {r : Except Exc Unit} (ht : Reading H k w t)
    (hb : ∀ e ∈ batch, e ∈ w.db.entries ∧ e.expires.before t = true)
    (hx : w.db.indexedThrough = -1)
    (h : transaction H control blocking (do
      write H
      let v ← get
      execute (Db.forget batch v.fts)) w = (r, w')) : Trim H k w w' := by
  obtain ⟨hi, -⟩ | ⟨v, hv, hl, hd, -⟩ := statement_at_inv h
  · exact .idle hi
  · have hl' : Later w w' := trans_of Later hv.toLater hl
    rw [hv.fts] at hd
    exact .forget batch false t hl' (ht.mono le_rfl hl'.tick) hb (.inr ⟨rfl, hx⟩) hd

/-- One batch of an expiry. -/
theorem expireBatch_trim {k : ℕ} {batch : List Entry} {t : ℚ} {w w' : World}
    {r : Except Exc Unit} (ht : Reading H k w t)
    (hb : ∀ e ∈ batch, e ∈ w.db.entries ∧ e.expires.before t = true)
    (h : expireBatch H batch w = (r, w')) : ReflTransGen (Trim H k) w w' := by
  unfold expireBatch at h
  obtain ⟨a, h1, -⟩ | ⟨e, u, h1, h2⟩ := tryCatch_inv h
  · exact .single (speculative_trim ht hb h1).1
  have hs := speculative_trim ht hb h1
  split at h2
  · -- The fallback: the speculative attempt was rolled back.
    have hu : Idle w u := by
      obtain ⟨-, ⟨_, _, hi⟩ | he | he⟩ := hs
      · exact hi
      · cases he
      · cases he
    have hub : ∀ e ∈ batch, e ∈ u.db.entries ∧ e.expires.before t = true := by
      rwa [hu.db]
    obtain ⟨e, h3, -⟩ | ⟨_, v, h3, h4⟩ := bind_inv h2
    · obtain ⟨hi, -⟩ | ⟨hl, hd, -⟩ := statement_inv h3
      · exact .single (.idle (trans_of Idle hu hi))
      · exact (ReflTransGen.single (.idle hu)).tail (.invalidate hl hd)
    · obtain ⟨-, _, he, -⟩ | ⟨hl, hd, -⟩ := statement_inv h3
      · cases he
      have hvb : ∀ e ∈ batch, e ∈ v.db.entries ∧ e.expires.before t = true := by
        rw [hd]
        exact hub
      have htv : Reading H k v t := ht.mono le_rfl (hu.tick.trans hl.tick)
      have hv : v.db.indexedThrough = -1 := by rw [hd]; rfl
      exact ((ReflTransGen.single (.idle hu)).tail (.invalidate hl hd)).tail
        (forgetting_trim htv hvb hv h4)
  · cases h2
    exact .single hs.1

/-- The loop of expiry is a chain of its steps, each with the one clock reading the loop starts
from. -/
theorem expireLoop_trim {k : ℕ} {t : ℚ} (fuel removed : ℕ) {w w' : World} {r : Except Exc ℕ}
    (ht : Reading H k w t) (h : expireLoop H t fuel removed w = (r, w')) :
    ReflTransGen (Trim H k) w w' := by
  induction fuel generalizing removed w with
  | zero =>
    cases h
    exact .refl
  | succ fuel ih =>
    unfold expireLoop at h
    rw [database_bind] at h
    split at h
    · cases h
      exact .refl
    · obtain ⟨e, h1, -⟩ | ⟨_, u, h1, h2⟩ := bind_inv h
      · exact expireBatch_trim ht (fun _ => mem_expiredBatch) h1
      · have hu := expireBatch_trim ht (fun _ => mem_expiredBatch) h1
        exact hu.trans (ih _ (ht.mono le_rfl (Trims.later hu).tick) h2)

/-- **One run of an expiry.** Trimming steps, and at most one closing transaction after them. -/
theorem expire_inv {w w' : World} {r : Except Exc ℕ} (h : expire H w = (r, w')) :
    ∃ t u, Reading H w.tick u t ∧ ReflTransGen (Trim H w.tick) w u ∧
      (Idle u w' ∨ (Later u w' ∧ w'.db = u.db.retire t)) := by
  unfold expire at h
  rw [time_bind, database_bind] at h
  have hr : Reading H w.tick { w with tick := w.tick + 1 } (H.clock w.tick) :=
    ⟨w.tick, le_rfl, Nat.lt_succ_self _, rfl⟩
  have h0 : Trim H w.tick w { w with tick := w.tick + 1 } :=
    .idle ⟨⟨Nat.le_succ _, rfl⟩, rfl⟩
  obtain ⟨e, h1, -⟩ | ⟨n, u, h1, h2⟩ := bind_inv h
  · have hc := expireLoop_trim _ _ hr h1
    exact ⟨_, w', hr.mono le_rfl (Trims.later hc).tick, (ReflTransGen.single h0).trans hc,
      .inl (refl_of Idle _)⟩
  · have hc := expireLoop_trim _ _ hr h1
    refine ⟨_, u, hr.mono le_rfl (Trims.later hc).tick, (ReflTransGen.single h0).trans hc, ?_⟩
    obtain ⟨e, h3, -⟩ | ⟨_, v, h3, h4⟩ := bind_inv h2
    · obtain ⟨hi, -⟩ | ⟨hl, hd, -⟩ := statement_inv h3
      · exact .inl hi
      · exact .inr ⟨hl, hd⟩
    · cases h4
      obtain ⟨hi, -⟩ | ⟨hl, hd, -⟩ := statement_inv h3
      · exact .inl ⟨⟨hi.tick, hi.fts⟩, hi.db⟩
      · exact .inr ⟨⟨hl.tick, hl.fts⟩, hd⟩

/-- A chain of expiry steps is maintenance. -/
theorem Trims.maints {k : ℕ} {w w' : World} (h : ReflTransGen (Trim H k) w w') : Maints H k w w' :=
  ReflTransGen.mono (fun _ _ => Maint.trim) _ _ h

/-- An expiry is maintenance. -/
theorem expire_maint {w w' : World} {r : Except Exc ℕ} (h : expire H w = (r, w')) :
    Maints H w.tick w w' := by
  obtain ⟨t, u, ht, hc, hi | ⟨hl, hd⟩⟩ := expire_inv h
  · exact (Trims.maints hc).tail (.idle hi)
  · exact (Trims.maints hc).tail (.retire t hl (ht.mono le_rfl hl.tick) hd)

/-- The expiry at a request boundary: skipped, or run. -/
theorem maybeExpire_inv {w w' : World} {r : Except Exc Unit} (h : maybeExpire H w = (r, w')) :
    Idle w w' ∨ ∃ u n, Idle w u ∧ expire H u = (n, w') := by
  unfold maybeExpire at h
  rw [time_bind, get_bind] at h
  have hi : Idle w { w with tick := w.tick + 1 } := ⟨⟨Nat.le_succ _, rfl⟩, rfl⟩
  split at h
  · obtain ⟨e, h1, -⟩ | ⟨n, u, h1, h2⟩ := bind_inv h
    · exact .inr ⟨_, _, hi, h1⟩
    · cases h2
      exact .inr ⟨_, _, hi, h1⟩
  · cases h
    exact .inl hi

/-- The expiry on a schedule is maintenance. -/
theorem maybeExpire_maint {w w' : World} {r : Except Exc Unit} (h : maybeExpire H w = (r, w')) :
    Maints H w.tick w w' := by
  obtain hi | ⟨u, n, hi, h1⟩ := maybeExpire_inv h
  · exact .idle hi
  · exact (Maints.idle hi).trans ((expire_maint h1).mono hi.tick)

/-- A reclamation is maintenance: an expiry, retired consumers, old keys and a vacuum. -/
theorem reclaim_maint {w w' : World} {r : Except Exc ℕ} (h : reclaim H w = (r, w')) :
    Maints H w.tick w w' := by
  unfold reclaim at h
  obtain ⟨e, h1, -⟩ | ⟨n, u, h1, h2⟩ := bind_inv h
  · exact expire_maint h1
  have hu := expire_maint h1
  rw [time_bind] at h2
  have hr : Reading H w.tick { u with tick := u.tick + 1 } (H.clock u.tick) :=
    ⟨u.tick, hu.later.tick, Nat.lt_succ_self _, rfl⟩
  have hc : Maints H w.tick w { u with tick := u.tick + 1 } :=
    hu.tail (.idle ⟨⟨Nat.le_succ _, rfl⟩, rfl⟩)
  have htail : Keeps Idle (do
      resetLog H
      vacuum H
      resetLog H
      return n) :=
    have hlog : Keeps Idle (resetLog H) := fun s => (resetLog_inv rfl).1
    Keeps.bind hlog fun _ => Keeps.bind keeps_vacuum fun _ => Keeps.bind hlog fun _ => Keeps.pure n
  obtain ⟨e, h3, -⟩ | ⟨_, v, h3, h4⟩ := bind_inv h2
  · obtain ⟨hi, -⟩ | ⟨hl, hd, -⟩ := statement_inv h3
    · exact hc.tail (.idle hi)
    · exact hc.tail (.prune _ hl (hr.mono le_rfl hl.tick) hd)
  · have hi := htail.run h4
    obtain ⟨-, _, he, -⟩ | ⟨hl, hd, -⟩ := statement_inv h3
    · cases he
    · exact (hc.tail (.prune _ hl (hr.mono le_rfl hl.tick) hd)).tail (.idle hi)

/-- An admission changes the content by its reclamation only. -/
theorem admission_maint {need slots : ℕ} {control : Bool} {w w' : World} {r : Except Exc Unit}
    (h : admission H need slots control w = (r, w')) : Maints H w.tick w w' := by
  unfold admission at h
  rw [get_bind] at h
  split at h
  · cases h
    exact .refl
  · obtain ⟨e, h1, -⟩ | ⟨n, u, h1, h2⟩ := bind_inv h
    · exact reclaim_maint h1
    · rw [get_bind] at h2
      split at h2 <;> cases h2 <;> exact reclaim_maint h1

/-- The stored content leaves room for a mutation. -/
structure Room (db : Db) (need slots : ℕ) (control : Bool) : Prop where
  entries : db.usage.entries + slots ≤ entryCap control
  logical : db.usage.logical + need ≤ byteCap control

/-- The test of an admission is that the need fits beside the reserve. -/
theorem World.admits.room {w : World} {need slots : ℕ} {control : Bool}
    (h : w.admits need slots control = true) : Room w.db need slots control := by
  simp only [World.admits, Bool.and_eq_true, decide_eq_true_eq] at h
  exact ⟨h.1.1, h.1.2⟩

/-- After an admission the need fits beside the reserve. -/
theorem admission_room {need slots : ℕ} {control : Bool} {w w' : World}
    (h : admission H need slots control w = (.ok (), w')) : Room w'.db need slots control := by
  unfold admission at h
  rw [get_bind] at h
  split at h
  · rename_i ha
    cases h
    exact World.admits.room ha
  · obtain ⟨n, u, -, h2⟩ := bind_ok_inv h
    rw [get_bind] at h2
    split at h2
    · rename_i ha
      cases h2
      exact World.admits.room ha
    · cases h2

/-! ## The closing transaction of an expiry -/

/-- Retiring consumers one by one changes the cursors and the retirements only. -/
theorem foldl_retireOne (now : ℚ) (l : List Cursor) (db : Db) :
    ∃ cs rs, l.foldl (Db.retireOne now) db = { db with cursors := cs, retired := rs } ∧
      (∀ c, c ∈ cs ↔ c ∈ db.cursors ∧ ∀ d ∈ l, d.consumer ≠ c.consumer) ∧
      (∀ d ∈ l, ∃ r ∈ rs, r.consumer = d.consumer) ∧
      ∀ r ∈ db.retired, ∃ r' ∈ rs, r'.consumer = r.consumer := by
  induction l generalizing db with
  | nil => exact ⟨db.cursors, db.retired, rfl, by simp, by simp, fun r hr => ⟨r, hr, rfl⟩⟩
  | cons d rest ih =>
    obtain ⟨cs, rs, h1, h2, h3, h4⟩ := ih (db.retireOne now d)
    have hput : ∀ r, r ∈ (db.retireOne now d).retired ↔
        (r ∈ db.retired ∧ r.consumer ≠ d.consumer) ∨ r = ⟨d.consumer, d.seq, now⟩ :=
      fun r => Table.mem_put
    refine ⟨cs, rs, h1, fun c => ?_, fun x hx => ?_, fun r hr => ?_⟩
    · rw [h2, Db.retireOne, Table.mem_remove]
      simp only [beq_eq_false_iff_ne, ne_eq, List.mem_cons, forall_eq_or_imp, and_assoc]
      exact and_congr_right fun _ => and_congr_left fun _ => by rw [eq_comm]
    · obtain rfl | hx := List.mem_cons.mp hx
      · exact h4 _ ((hput _).mpr (.inr rfl))
      · exact h3 x hx
    · by_cases hr' : r.consumer = d.consumer
      · obtain ⟨r', hr1, hr2⟩ := h4 _ ((hput _).mpr (.inr rfl))
        exact ⟨r', hr1, hr2.trans hr'.symm⟩
      · exact h4 r ((hput r).mpr (.inl ⟨hr, hr'⟩))

/-- What the closing transaction leaves of each table. -/
theorem retire_spec (now : ℚ) (db : Db) :
    ∃ cs rs, db.retire now = { db with
        snapshots := db.snapshots.remove (Snapshot.stale now)
        items := db.items.remove fun i =>
          !(db.snapshots.remove (Snapshot.stale now)).rows.any fun s => s.id == i.id
        idem := db.idem.remove fun i => i.deadline < now
        cursors := cs
        retired := rs } ∧
      (∀ c, c ∈ cs ↔ c ∈ db.cursors ∧ ¬ c.updated < now - consumerTtl) ∧
      ∀ c ∈ db.cursors, c.updated < now - consumerTtl → ∃ r ∈ rs, r.consumer = c.consumer := by
  obtain ⟨cs, rs, h1, h2, h3, -⟩ := foldl_retireOne now
    (db.cursors.rows.filter fun c => c.updated < now - consumerTtl)
    { db with
      snapshots := db.snapshots.remove (Snapshot.stale now)
      items := db.items.remove fun i =>
        !(db.snapshots.remove (Snapshot.stale now)).rows.any fun s => s.id == i.id
      idem := db.idem.remove fun i => i.deadline < now
      retired := db.retired.remove fun r => r.retiredAt < now - retiredTtl }
  refine ⟨cs, rs, h1, fun c => ?_, fun c hc hx => ?_⟩
  · rw [h2]
    refine and_congr_right fun hc => ?_
    constructor
    · intro h hx
      exact h c (List.mem_filter.mpr ⟨hc, by simpa using hx⟩) rfl
    · intro hx d hd he
      obtain ⟨hd1, hd2⟩ := List.mem_filter.mp hd
      have hcd : d = c := Table.eq_of_key (t := db.cursors) hd1 hc he
      exact hx (by simpa [hcd] using hd2)
  · exact h3 c (List.mem_filter.mpr ⟨hc, by simpa using hx⟩)

/-- A tombstone that was not there before is one of a retired reader. -/
theorem foldl_retireOne_origin (now : ℚ) (l : List Cursor) (db : Db) {r : Retired}
    (h : r ∈ (l.foldl (Db.retireOne now) db).retired) :
    r ∈ db.retired ∨ ∃ d ∈ l, d.consumer = r.consumer := by
  induction l generalizing db with
  | nil => exact .inl h
  | cons d rest ih =>
    rcases ih (db.retireOne now d) h with h1 | ⟨d', hd', he⟩
    · rcases Table.mem_put.mp h1 with ⟨h2, -⟩ | rfl
      · exact .inl h2
      · exact .inr ⟨d, by simp, rfl⟩
    · exact .inr ⟨d', by simp [hd'], he⟩

/-- A retirement was stored before, or is that of a consumer not seen for its lifetime. -/
theorem retire_origin (now : ℚ) (db : Db) {r : Retired} (h : r ∈ (db.retire now).retired) :
    r ∈ db.retired ∨ ∃ c ∈ db.cursors, c.updated < now - consumerTtl ∧ c.consumer = r.consumer := by
  unfold Db.retire at h
  rcases foldl_retireOne_origin now _ _ h with h1 | ⟨d, hd, he⟩
  · exact .inl (Table.mem_remove.mp h1).1
  · obtain ⟨hd1, hd2⟩ := List.mem_filter.mp hd
    exact .inr ⟨d, hd1, by simpa using hd2, he⟩

/-- A consumer without a cursor leaves no tombstone. -/
theorem Maint.ungraved {k : ℕ} {w w' : World} (h : Maint H k w w') {consumer : Text}
    (hu : (∀ c ∈ w.db.cursors, c.consumer ≠ consumer) ∧ ∀ g ∈ w.db.retired, g.consumer ≠ consumer) :
    (∀ c ∈ w'.db.cursors, c.consumer ≠ consumer) ∧ ∀ g ∈ w'.db.retired, g.consumer ≠ consumer := by
  rcases h with ht | ⟨t, -, -, hd⟩ | ⟨t, -, -, hd⟩
  · obtain ⟨es, fl, ix, se, hd, -⟩ := ht.frame
    rw [hd]
    exact hu
  · constructor
    · intro c hc
      obtain ⟨cs, rs, hr, hcs, -⟩ := retire_spec t w.db
      rw [hd, hr] at hc
      exact hu.1 c ((hcs c).mp hc).1
    · intro g hg
      rw [hd] at hg
      rcases retire_origin t w.db hg with h1 | ⟨c, hc, -, he⟩
      · exact hu.2 g h1
      · rw [← he]
        exact hu.1 c hc
  · rw [hd]
    exact hu

/-! ## What the boundary raises -/

/-- What the storage layer itself raises: a blocked store, a refusal for space, the death of the
process, or a database error. -/
inductive Storage : Exc → Prop
  | blocked (d : Text) (c : Option SqliteError) : Storage (.refused .storageBlocked d c)
  | capacity (d : Text) (c : Option SqliteError) : Storage (.refused .capacity d c)
  | killed : Storage .killed
  | sqlite (e : SqliteError) : Storage (.sqlite e)

/-- The refusal of a transaction that may use the reserve and would leave too many pages. -/
def overPages (actual : ℕ) : Text :=
  lit "this mutation would leave " ++ decimal actual ++ lit " pages allocated, above the "
    ++ decimal (pageCap true) ++ lit " page limit; it was rolled back and stored data is intact"

/-- What maintenance raises: it is never refused for anything but pages. -/
inductive Upkeep : Exc → Prop
  | blocked (d : Text) (c : Option SqliteError) : Upkeep (.refused .storageBlocked d c)
  | engine (d : Text) : Upkeep (.refused .capacity d (some .full))
  | pages (n : ℕ) (h : pageCap true < n) : Upkeep (.refused .capacity (overPages n) none)
  | killed : Upkeep .killed
  | sqlite (e : SqliteError) : Upkeep (.sqlite e)

/-- What upkeep raises is a storage error. -/
theorem Upkeep.storage {e : Exc} (h : Upkeep e) : Storage e := by
  cases h with
  | blocked d c => exact .blocked d c
  | engine d => exact .capacity d _
  | pages n h => exact .capacity _ _
  | killed => exact .killed
  | sqlite e => exact .sqlite e

/-- The engine's refusal of a write is an error of upkeep. -/
theorem upkeep_write : Raises Upkeep (write H) := by
  intro w e w' h
  unfold write at h
  split at h <;> cases h <;> exact .sqlite _

/-- The engine's refusal of a write is a storage error. -/
theorem raises_write : Raises Storage (write H) := upkeep_write.mono fun _ => Upkeep.storage

/-- An insertion raises an integrity error at most. -/
theorem raises_insertInto {κ α : Type} {key : α → κ} [DecidableEq κ] (t : Table κ α key) (a : α) :
    Raises Storage (insertInto t a) := by
  unfold insertInto
  split
  · exact Raises.pure _
  · exact Raises.throw (.sqlite _)

/-- The log check raises a block at most. -/
theorem upkeep_resetLog : Raises Upkeep (resetLog H) := by
  intro w e w' h
  obtain ⟨-, he | ⟨d, c, he⟩⟩ := resetLog_inv h
  · cases he
  · cases he
    exact .blocked _ _

/-- A vacuum raises an error of the engine at most. -/
theorem upkeep_vacuum : Raises Upkeep (vacuum H) := by
  intro w e w' h
  unfold vacuum at h
  split at h
  · cases h
  · cases h
    exact .sqlite _

/-- The clock raises nothing. -/
theorem raises_time {P : Exc → Prop} : Raises P (time H) := by
  intro w e w' h
  cases h

/-- A statement of the model raises nothing: the engine's refusal is asked for by `write`. -/
theorem raises_execute {P : Exc → Prop} (f : Db → Db) : Raises P (execute f) := Raises.modify _

/-- Reading the content raises nothing. -/
theorem raises_database {P : Exc → Prop} : Raises P database :=
  Raises.bind Raises.get fun _ => Raises.pure _

/-- A transaction raises what its body raises or a storage error. -/
theorem raises_transaction {α : Type} {P : Exc → Prop} (hP : ∀ e, Storage e → P e)
    {control blocking : Bool} {body : M α} (hl : Keeps Later body) (hb : Raises P body) :
    Raises P (transaction H control blocking body) := by
  intro w e w' h
  obtain ⟨-, e', he, hf⟩ | ⟨_, a, _, _, _, _, _, he | he⟩ := transaction_inv hl h
  · cases he
    cases hf with
    | blocked d c h => exact hP _ (h ▸ .blocked d c)
    | capacity d c h => exact hP _ (h ▸ .capacity d c)
    | killed h => exact hP _ (h ▸ .killed)
    | raised w1 w2 _ h => exact hb _ _ _ h
  · cases he
  · cases he
    exact hP _ .killed

/-- A transaction that may use the reserve raises what its body raises, and is refused for pages
only. -/
theorem raises_controlled {α : Type} {P : Exc → Prop} (hP : ∀ e, Upkeep e → P e) {blocking : Bool}
    {body : M α} (hb : Raises P body) : Raises P (transaction H true blocking body) := by
  have hwritable : Raises P requireWritable := by
    intro w e w' h
    obtain ⟨-, ⟨-, he⟩ | ⟨d, he⟩⟩ := requireWritable_inv h
    · cases he
    · cases he
      exact hP _ (.blocked d none)
  have hpages : Raises P (enforcePages true) := by
    refine Raises.bind Raises.get fun w => Raises.ite (fun hlt => ?_) fun _ => Raises.pure _
    exact Raises.throw (hP _ (.pages _ hlt))
  have hinterrupt : Raises P (interrupt H) := by
    intro w e w' h
    obtain ⟨-, he | he⟩ := interrupt_inv h
    · cases he
    · cases he
      exact hP _ .killed
  have hcommit : Raises P (commit H) := by
    intro w e w' h
    cases h
  have hrollback (before : World) (e : Exc) (he : P e) :
      Raises P (rollback before true blocking e : M α) := by
    refine Raises.bind (Raises.modify _) fun _ => Raises.ite (fun _ => ?_) fun _ => Raises.throw he
    refine Raises.ite (fun _ => ?_) fun _ => Raises.throw (hP _ (.engine _))
    exact Raises.bind (Raises.modify _) fun _ => Raises.bind Raises.get fun _ =>
      Raises.throw (hP _ (.blocked _ _))
  refine Raises.bind hwritable fun _ => Raises.bind (upkeep_resetLog.mono hP) fun _ =>
    Raises.bind Raises.get fun before => Raises.bind ?_ fun _ => Raises.bind hinterrupt fun _ =>
      Raises.pure _
  refine Raises.tryCatch (Q := P) ?_ (hrollback before)
  exact Raises.bind hb fun _ => Raises.bind hpages fun _ => Raises.bind hinterrupt fun _ =>
    Raises.bind hcommit fun _ => Raises.pure _

/-- A transaction of one statement raises an error of upkeep at most. -/
theorem upkeep_statement {blocking : Bool} (g : World → Db → Db) :
    Raises Upkeep (transaction H true blocking (do
      write H
      let v ← get
      execute (g v))) :=
  raises_controlled (fun _ => id)
    (Raises.bind upkeep_write fun _ => Raises.bind Raises.get fun _ => raises_execute _)

/-- The same of a statement that does not look at the state first. -/
theorem upkeep_fixed {blocking : Bool} (f : Db → Db) :
    Raises Upkeep (transaction H true blocking (do write H; execute f)) :=
  raises_controlled (fun _ => id) (Raises.bind upkeep_write fun _ => raises_execute f)

/-- A batch of expiry raises an error of upkeep at most. -/
theorem upkeep_expireBatch (batch : List Entry) : Raises Upkeep (expireBatch H batch) := by
  refine Raises.tryCatch (upkeep_statement fun v db =>
    Db.forget batch v.fts (Db.unindex batch v.indexUsable db)) fun e he => ?_
  split
  · exact Raises.bind (upkeep_fixed _) fun _ => upkeep_statement fun v => Db.forget batch v.fts
  · exact Raises.throw he

/-- The loop of expiry raises an error of upkeep at most. -/
theorem upkeep_expireLoop (t : ℚ) (fuel removed : ℕ) :
    Raises Upkeep (expireLoop H t fuel removed) := by
  induction fuel generalizing removed with
  | zero => exact Raises.pure _
  | succ fuel ih =>
    unfold expireLoop
    refine Raises.bind raises_database fun db => Raises.ite (fun _ => Raises.pure _) fun _ => ?_
    exact Raises.bind (upkeep_expireBatch _) fun _ => ih _

/-- An expiry raises an error of upkeep at most. -/
theorem upkeep_expire : Raises Upkeep (expire H) :=
  Raises.bind raises_time fun t => Raises.bind raises_database fun _ =>
    Raises.bind (upkeep_expireLoop t _ _) fun _ =>
      Raises.bind (upkeep_fixed _) fun _ => Raises.bind (Raises.modify _) fun _ => Raises.pure _

/-- The expiry on a schedule raises an error of upkeep at most. -/
theorem upkeep_maybeExpire : Raises Upkeep (maybeExpire H) := by
  refine Raises.bind raises_time fun t => Raises.bind Raises.get fun w => ?_
  split
  · exact Raises.bind upkeep_expire fun _ => Raises.pure _
  · exact Raises.pure _

/-- The expiry on a schedule raises a storage error at most. -/
theorem raises_maybeExpire : Raises Storage (maybeExpire H) :=
  upkeep_maybeExpire.mono fun _ => Upkeep.storage

/-- A reclamation raises an error of upkeep at most. -/
theorem upkeep_reclaim : Raises Upkeep (reclaim H) :=
  Raises.bind upkeep_expire fun _ => Raises.bind raises_time fun _ =>
    Raises.bind (upkeep_fixed _) fun _ => Raises.bind upkeep_resetLog fun _ =>
      Raises.bind upkeep_vacuum fun _ => Raises.bind upkeep_resetLog fun _ => Raises.pure _

/-- A reclamation raises a storage error at most. -/
theorem raises_reclaim : Raises Storage (reclaim H) := upkeep_reclaim.mono fun _ => Upkeep.storage

/-- An admission raises a storage error at most. -/
theorem raises_admission (need slots : ℕ) (control : Bool) :
    Raises Storage (admission H need slots control) := by
  refine Raises.bind Raises.get fun w => ?_
  split
  · exact Raises.pure _
  · refine Raises.bind raises_reclaim fun _ => Raises.bind Raises.get fun w' => ?_
    split
    · exact Raises.pure _
    · exact Raises.throw (.capacity _ _)

/-- The check of the logical bytes passes exactly when they are within the cap. -/
theorem enforceLogical_inv {control : Bool} {w w' : World} {r : Except Exc Unit}
    (h : enforceLogical control w = (r, w')) :
    w' = w ∧ ((r = .ok () ∧ w.db.usage.logical ≤ byteCap control) ∨
      ∃ d, r = .error (.refused .capacity d none)) := by
  unfold enforceLogical at h
  rw [database_bind] at h
  split at h
  · cases h
    exact ⟨rfl, .inr ⟨_, rfl⟩⟩
  · rename_i hle
    cases h
    exact ⟨rfl, .inl ⟨rfl, not_lt.mp hle⟩⟩

/-- **One run of a durable change under admission.** Maintenance, and the body committed after it or
not at all. -/
theorem mutation_inv {α : Type} {need slots : ℕ} {control : Bool} {body : M α} {w w' : World}
    {r : Except Exc α} (hb : Keeps Later body)
    (h : mutation H need slots control body w = (r, w')) :
    (Maints H w.tick w w' ∧ ∃ e, r = .error e ∧ (Storage e ∨
      ∃ w1 w2, Maints H w.tick w w1 ∧ body w1 = (.error e, w2))) ∨
      ∃ w1 a w2, Maints H w.tick w w1 ∧ Room w1.db need slots control ∧ body w1 = (.ok a, w2) ∧
        (need ≠ 0 → w2.db.usage.logical ≤ byteCap control) ∧ Idle w2 w' ∧
        (r = .ok a ∨ r = .error .killed) := by
  unfold mutation at h
  obtain ⟨e, h1, rfl⟩ | ⟨_, u, h1, h2⟩ := bind_inv h
  · exact .inl ⟨admission_maint h1, e, rfl, .inl (raises_admission _ _ _ _ _ _ h1)⟩
  have hu := admission_maint h1
  have hlog : Keeps Idle (enforceLogical control) :=
    fun s => (enforceLogical_inv rfl).1 ▸ refl_of Idle s
  have hk : ∀ a : α, Keeps Idle (do
      if need ≠ 0 then enforceLogical control
      return a) := by
    intro a
    by_cases hn : need ≠ 0
    · simp only [if_pos hn]
      exact Keeps.bind hlog fun _ => Keeps.pure a
    · simp only [if_neg hn]
      exact Keeps.pure a
  obtain ⟨hi, e, he, hf⟩ | ⟨w1, a, w2, hi, h3, h4, -, hr⟩ :=
    transaction_inv (Keeps.bind hb fun a => Keeps.later (hk a)) h2
  · refine .inl ⟨hu.tail (.idle hi), e, he, ?_⟩
    cases hf with
    | blocked d c h => exact .inl (h ▸ .blocked d c)
    | capacity d c h => exact .inl (h ▸ .capacity d c)
    | killed h => exact .inl (h ▸ .killed)
    | raised w1 w2 hi' h5 =>
      obtain ⟨e', h6, he'⟩ | ⟨a, v, h6, h7⟩ := bind_inv h5
      · cases he'
        exact .inr ⟨w1, w2, hu.tail (.idle hi'), h6⟩
      · refine .inl ?_
        by_cases hn : need ≠ 0
        · simp only [if_pos hn] at h7
          obtain ⟨e', h8, he'⟩ | ⟨_, _, _, h9⟩ := bind_inv h7
          · cases he'
            obtain ⟨-, ⟨hok, -⟩ | ⟨d, hd⟩⟩ := enforceLogical_inv h8
            · cases hok
            · cases hd
              exact .capacity _ _
          · cases h9
        · simp only [if_neg hn] at h7
          cases h7
  · obtain ⟨a', v, h5, h6⟩ := bind_ok_inv h3
    have hv := (hk a').run h6
    have ha : a' = a ∧ (need ≠ 0 → v.db.usage.logical ≤ byteCap control) := by
      by_cases hn : need ≠ 0
      · simp only [if_pos hn] at h6
        obtain ⟨_, _, h7, h8⟩ := bind_ok_inv h6
        cases h8
        obtain ⟨-, ⟨-, hle⟩ | ⟨_, hd⟩⟩ := enforceLogical_inv h7
        · exact ⟨rfl, fun _ => hle⟩
        · cases hd
      · simp only [if_neg hn] at h6
        cases h6
        exact ⟨rfl, fun h => absurd h hn⟩
    obtain ⟨rfl, hkept⟩ := ha
    exact .inr ⟨w1, a', v, hu.tail (.idle hi), hi.db ▸ admission_room h1, h5, hkept,
      trans_of Idle hv h4, hr⟩

end PeerBridge.Memory
