import PeerBridge.Memory.Runs

/-!
# What a request is composed of

A request is a sequence of programs that change nothing durable and of a fixed list of programs that
may: the maintenance steps, and the transactions of the protocol operations. A preorder on moments
that each of these keeps is kept by every request. `Maintains`, `Attends` (the requests of a reader)
and `Respects` are that list, and `Attends.sync`, `Attends.acking` and `Respects.command` are the
rules; later modules instantiate them with a relation of their own. For a relation on the contents
alone it is enough to look at the single statements (`Statements`).

Source: `memory.py`, `Store.expire`, `Store.reclaim`, `Store.admit`, `Store.note`, `freeze`, class
`MemoryCommands`.
-/

namespace PeerBridge.Memory

open Py Relational Effects Effects.Prog

variable {H : Host}

/-! ## Nothing durable -/

/-- Nothing durable changes, and a block is not lifted. -/
structure Still (w w' : World) : Prop where
  tick : w.tick ≤ w'.tick
  db : w'.db = w.db
  pages : w'.pages = w.pages
  blocked : w.blocked.isSome = true → w'.blocked.isSome = true

instance : Std.Refl Still := ⟨fun _ => ⟨le_rfl, rfl, rfl, id⟩⟩

instance : IsTrans World Still :=
  ⟨fun _ _ _ h h' => ⟨h.tick.trans h'.tick, h'.db.trans h.db, h'.pages.trans h.pages,
    fun hb => h'.blocked (h.blocked hb)⟩⟩

/-- The clock leaves the store as it is. -/
theorem still_time : Keeps Still (time H) := fun _ => ⟨Nat.le_succ _, rfl, rfl, id⟩

/-- Naming the class of an error changes nothing. -/
theorem still_className {e : SqliteError} : Keeps Still (className H e) := fun w => refl_of Still w

/-- Drawing an identifier leaves the store as it is. -/
theorem still_freshId : Keeps Still (freshId H) := fun _ => ⟨Nat.le_succ _, rfl, rfl, id⟩

/-- Reading the content leaves the store as it is. -/
theorem still_database : Keeps Still database := Keeps.bind Keeps.get fun _ => Keeps.pure _

/-- Looking up a key leaves the store as it is. -/
theorem still_noteLookup (idemKey mark : Text) (deadline : Json) :
    Keeps Still (noteLookup H idemKey mark deadline) := by
  refine Keeps.ite (Keeps.throw _) (Keeps.bind still_time fun now => ?_)
  refine Keeps.bind (Keeps.lift _) fun due => Keeps.ite (Keeps.throw _)
    (Keeps.ite (Keeps.throw _) ?_)
  refine Keeps.bind (Keeps.lift _) fun _ => Keeps.bind still_database fun db => ?_
  split
  · exact Keeps.pure _
  · exact Keeps.ite (Keeps.throw _) (Keeps.ite (Keeps.throw _) (Keeps.pure _))

/-- Looking up a snapshot leaves the store as it is. -/
theorem still_snapshotState (v : Json) : Keeps Still (snapshotState H v) := by
  refine Keeps.bind (Keeps.lift _) fun bound => ?_
  split
  · exact Keeps.pure _
  · exact Keeps.bind still_database fun _ => Keeps.pure _

/-- The test of a snapshot's age leaves the store as it is. -/
theorem still_lapsed (s : Snapshot) : Keeps Still (lapsed H s) :=
  Keeps.ite (Keeps.pure _) (Keeps.bind still_time fun _ => Keeps.pure _)

/-- The checks of a page token leave the store as it is. -/
theorem still_pageToken (consumer : Text) (s : Snapshot) (r : Object) :
    Keeps Still (pageToken H consumer s r) := by
  refine Keeps.ite (Keeps.throw _) (Keeps.bind (still_lapsed s) fun gone =>
    Keeps.ite (Keeps.throw _) ?_)
  refine Keeps.bind (Keeps.lift _) fun token => Keeps.ite (Keeps.throw _) (Keeps.ite ?_ ?_)
  · refine Keeps.bind (still_snapshotState _) fun found => ?_
    split
    · exact Keeps.ite (Keeps.throw _) (Keeps.throw _)
    · exact Keeps.throw _
  · exact Keeps.ite (Keeps.throw _) (Keeps.pure _)

/-- The test of a bootstrap leaves the store as it is. -/
theorem still_unusable (consumer : Text) (state : Option Snapshot) :
    Keeps Still (unusable H consumer state) := by
  unfold unusable
  split
  · exact Keeps.pure _
  · exact Keeps.ite (Keeps.pure _) (still_lapsed _)

/-- A search leaves the store as it is. -/
theorem still_recall (r : Object) : Keeps Still («recall» H r) := by
  unfold «recall»
  split
  · refine Keeps.ite (Keeps.throw _) ?_
    refine Keeps.bind (Keeps.lift _) fun _ => Keeps.bind still_time fun _ => ?_
    refine Keeps.bind Keeps.get fun w => Keeps.bind (Keeps.lift _) fun _ => ?_
    refine Keeps.bind (Keeps.lift _) fun _ => Keeps.bind (Keeps.lift _) fun _ => ?_
    exact Keeps.bind (Keeps.lift _) fun _ => Keeps.pure _
  · exact Keeps.throw _

/-- A status leaves the store as it is. -/
theorem still_status (r : Object) : Keeps Still (status H r) :=
  Keeps.bind Keeps.get fun _ => Keeps.bind (Keeps.lift _) fun _ =>
    Keeps.bind (Keeps.lift _) fun _ => Keeps.pure _

/-! ## Maintenance -/

/-- The last part of a reclamation. -/
def pruneAndVacuum (H : Host) (now : ℚ) (removed : ℕ) : M ℕ := do
  transaction H true true do
    write H
    execute (Db.prune now)
  resetLog H
  vacuum H
  resetLog H
  return removed

/-- A relation that maintenance keeps. -/
structure Maintains (H : Host) (R : World → World → Prop) : Prop where
  still : ∀ {w w'}, Still w w' → R w w'
  batch : ∀ batch, Keeps R (expireBatch H batch)
  retire : ∀ now, Keeps R (transaction H true true (do write H; execute (Db.retire now)))
  prune : ∀ now removed, Keeps R (pruneAndVacuum H now removed)

namespace Maintains

variable {R : World → World → Prop} [Std.Refl R] [IsTrans World R] (h : Maintains H R)
include h

omit [Std.Refl R] [IsTrans World R] in
/-- Maintenance keeps what a program that leaves the store as it is keeps. -/
theorem of_still {α : Type} {p : M α} (hp : Keeps Still p) : Keeps R p :=
  Keeps.mono (fun _ _ => h.still) hp

/-- The loop of expiry keeps what its batches keep. -/
theorem expireLoop (now : ℚ) (fuel removed : ℕ) : Keeps R (expireLoop H now fuel removed) := by
  induction fuel generalizing removed with
  | zero => exact Keeps.pure _
  | succ fuel ih =>
    refine Keeps.bind (h.of_still still_database) fun db => Keeps.ite (Keeps.pure _) ?_
    exact Keeps.bind (h.batch _) fun _ => ih _

/-- An expiry keeps what its batches and the retirement keep. -/
theorem expire : Keeps R (expire H) := by
  refine Keeps.bind (h.of_still still_time) fun now => ?_
  refine Keeps.bind (h.of_still still_database) fun db => ?_
  refine Keeps.bind (h.expireLoop _ _ _) fun removed => Keeps.bind (h.retire now) fun _ => ?_
  have hmark : Keeps Still (modify fun w : World => { w with expiredAt := now } : M Unit) :=
    fun _ => ⟨le_rfl, rfl, rfl, id⟩
  exact Keeps.bind (h.of_still hmark) fun _ => Keeps.pure _

/-- The expiry on a schedule keeps what an expiry keeps. -/
theorem maybeExpire : Keeps R (maybeExpire H) :=
  Keeps.bind (h.of_still still_time) fun _ => Keeps.bind Keeps.get fun _ =>
    Keeps.ite (Keeps.bind h.expire fun _ => Keeps.pure _) (Keeps.pure _)

/-- A reclamation keeps what maintenance keeps. -/
theorem reclaim : Keeps R (reclaim H) :=
  Keeps.bind h.expire fun removed => Keeps.bind (h.of_still still_time) fun now =>
    h.prune now removed

/-- An admission keeps what its reclamation keeps. -/
theorem admission (need slots : ℕ) (control : Bool) : Keeps R (admission H need slots control) := by
  refine Keeps.bind Keeps.get fun w => Keeps.ite (Keeps.pure _) ?_
  refine Keeps.bind h.reclaim fun _ => Keeps.bind Keeps.get fun w => ?_
  exact Keeps.ite (Keeps.pure _) (Keeps.throw _)

end Maintains

/-! ## Requests -/

/-- The transaction of a mutation. -/
def mutate {α : Type} (H : Host) (need : ℕ) (control : Bool) (body : M α) : M α :=
  transaction H control true do
    let a ← body
    if need ≠ 0 then enforceLogical control
    return a

/-- A relation that the durable steps of a reader's requests keep. -/
structure Attends (H : Host) (R : World → World → Prop) : Prop extends Maintains H R where
  freeze : ∀ need consumer sid head members sizes, need ≠ 0 →
    Keeps R (mutate H need false (freezeRows H consumer sid head members sizes))
  register : ∀ consumer, Keeps R (register H consumer)
  touch : ∀ consumer, Keeps R (touch H consumer)
  clear : ∀ consumer, Keeps R (progress H (do write H; execute (Db.clearSnapshot consumer)))
  issueDelta : ∀ consumer issued,
    Keeps R (progress H (do write H; execute (Db.issueDelta consumer issued)))
  issuePage : ∀ sid issued, Keeps R (progress H (do write H; execute (Db.issuePage sid issued)))
  ack : ∀ sid consumer seq issued, Keeps R (progress H do
    write H
    let acked ← time H
    execute (Db.ackSnapshot sid acked)
    execute (Db.bootstrap consumer seq issued))
  advance : ∀ consumer seq, Keeps R (progress H (do write H; execute (Db.advance consumer seq)))

/-- A relation that every durable step of a request keeps. -/
structure Respects (H : Host) (R : World → World → Prop) : Prop extends Attends H R where
  append : ∀ need control consumer a pid d key mark due,
    Keeps R (mutate H need control (appendRow H consumer a pid d key mark due))

namespace Attends

variable {R : World → World → Prop} [Std.Refl R] [IsTrans World R] (h : Attends H R)
include h

/-- A freeze keeps what its admission and its insertions keep. -/
theorem freezing (consumer : Text) : Keeps R (Memory.freeze H consumer) := by
  have htime : Keeps R (time H) := h.of_still still_time
  refine Keeps.bind (h.of_still still_database) fun db => Keeps.bind htime fun now => ?_
  refine Keeps.bind htime fun t1 => Keeps.bind htime fun t2 => ?_
  refine Keeps.ite (Keeps.bind (Keeps.throw _) fun _ => ?_) ?_
  all_goals
    refine Keeps.bind (h.of_still still_freshId) fun sid => Keeps.bind (Keeps.lift _) fun sizes =>
      ?_
    refine Keeps.bind (Keeps.lift _) fun ids => Keeps.bind ?_ fun _ => Keeps.pure _
    exact Keeps.bind (h.admission _ _ _) fun _ => h.freeze _ _ _ _ _ _ (by omega)

/-- A snapshot page keeps what the issue of a token keeps. -/
theorem snapshotPage (consumer sid : Text) (r : Object) :
    Keeps R (snapshotPage H consumer sid r) := by
  refine Keeps.bind (h.of_still still_database) fun db => ?_
  split
  · exact Keeps.throw _
  · refine Keeps.bind (h.of_still (still_pageToken _ _ _)) fun token => ?_
    refine Keeps.bind (Keeps.lift _) fun _ => Keeps.bind (h.of_still still_database) fun db => ?_
    refine Keeps.bind (Keeps.lift _) fun p => Keeps.bind (Keeps.ite ?_ (Keeps.pure _)) fun _ =>
      Keeps.pure _
    exact h.issuePage _ _

/-- A delta page keeps what the issue of a position keeps. -/
theorem deltaPage (c : Cursor) : Keeps R (deltaPage H c) := by
  refine Keeps.bind (h.of_still still_database) fun db => Keeps.bind (Keeps.lift _) fun p => ?_
  exact Keeps.bind (Keeps.ite (h.issueDelta _ _) (Keeps.pure _)) fun _ => Keeps.pure _

/-- Opening a snapshot keeps what giving up an unusable one keeps. -/
theorem openSnapshot (consumer : Text) (c : Cursor) : Keeps R (openSnapshot H consumer c) := by
  unfold Memory.openSnapshot
  split
  · exact Keeps.pure _
  · refine Keeps.bind (h.of_still still_database) fun db => ?_
    refine Keeps.bind (h.of_still (still_unusable _ _)) fun gone => Keeps.ite ?_ (Keeps.pure _)
    exact Keeps.bind (h.clear _) fun _ => Keeps.pure _

/-- A `sync` keeps what its pages and its freeze keep. -/
theorem sync (r : Object) : Keeps R (sync H r) := by
  have hbegin : Keeps R (beginSync H r) := by
    refine Keeps.bind (Keeps.lift _) fun consumer => Keeps.bind (h.register _) fun c => ?_
    refine Keeps.bind (h.touch _) fun _ => Keeps.bind (h.openSnapshot _ _) fun p => ?_
    exact Keeps.bind (h.of_still still_database) fun _ => Keeps.pure _
  refine Keeps.bind hbegin fun s => ?_
  split
  · exact h.snapshotPage _ _ _
  · refine Keeps.ite (Keeps.bind (h.freezing _) fun sid => h.snapshotPage _ _ _) ?_
    exact h.deltaPage _

/-- An `ack` keeps what its acknowledgements keep. -/
theorem acking (r : Object) : Keeps R (Memory.ack H r) := by
  refine Keeps.bind (Keeps.lift _) fun consumer => Keeps.bind (h.register _) fun c => ?_
  refine Keeps.bind (h.touch _) fun _ => Keeps.ite ?_ ?_
  · refine Keeps.bind (h.of_still (still_snapshotState _)) fun found => ?_
    split
    · exact Keeps.throw _
    · refine Keeps.ite (Keeps.throw _) (Keeps.ite (Keeps.pure _) (Keeps.ite (Keeps.throw _) ?_))
      refine Keeps.bind (h.of_still still_time) fun now => Keeps.ite (Keeps.throw _) ?_
      refine Keeps.ite (Keeps.throw _) (Keeps.bind (h.ack _ _ _ _) fun _ => Keeps.pure _)
  · refine Keeps.ite (Keeps.throw _) (Keeps.ite (Keeps.throw _) ?_)
    refine Keeps.bind (Keeps.lift _) fun through => Keeps.ite (Keeps.pure _)
      (Keeps.ite (Keeps.throw _) ?_)
    exact Keeps.bind (h.advance _ _) fun _ => Keeps.pure _

/-- A request other than a recovery keeps what its durable steps keep, given it of the note it asks
for. -/
theorem command (s : Service) (r : Object) (pid : ℕ)
    (hop : (r.get (lit "op")).isText (lit "recover") = false)
    (hnote : ∀ consumer, (r.get (lit "op")).isText (lit "note") = true → consumerOf r
      = .ok consumer →
      Keeps R (note H s.repo consumer (noteArgs r) pid)) : Keeps R (command H s r pid) := by
  refine Keeps.bind (Keeps.lift _) fun _ => Keeps.bind (Keeps.ite (Keeps.pure _) h.maybeExpire)
    fun _ => ?_
  unfold dispatch
  rw [if_neg (by simp [hop])]
  refine Keeps.ite (Keeps.bind Keeps.get fun _ => Keeps.pure _) ?_
  split
  · rename_i hnoted
    exact Keeps.lift_bind fun consumer hc => Keeps.bind (hnote consumer hnoted hc) fun _ =>
      Keeps.pure _
  · refine Keeps.ite (h.sync _) (Keeps.ite (h.acking _) ?_)
    refine Keeps.ite (h.of_still (still_recall _)) (Keeps.ite (h.of_still (still_status _)) ?_)
    exact Keeps.ite (Keeps.bind (Keeps.lift _) fun _ => Keeps.pure _) (Keeps.throw _)

end Attends

namespace Respects

variable {R : World → World → Prop} [Std.Refl R] [IsTrans World R] (h : Respects H R)
include h

/-- An append keeps what its admission and its row keep. -/
theorem noteAppend (consumer : Text) (a : NoteArgs) (pid : ℕ) (d : Draft) (key : Option Text)
    (mark : Text) (due : ℚ) : Keeps R (noteAppend H consumer a pid d key mark due) := by
  refine Keeps.bind (Keeps.lift _) fun need => Keeps.bind (Keeps.tryCatch ?_ fun e => ?_) fun p =>
    ?_
  · exact Keeps.bind (h.admission _ _ _) fun _ => h.append need _ consumer a pid d key mark due
  · split
    · exact Keeps.bind (h.of_still still_className) fun _ => Keeps.throw _
    · exact Keeps.throw _
  · exact Keeps.pure _

/-- A note keeps what its append keeps. -/
theorem note (repo consumer : Text) (a : NoteArgs) (pid : ℕ) :
    Keeps R (note H repo consumer a pid) := by
  refine Keeps.bind (Keeps.lift _) fun d => Keeps.ite (h.noteAppend _ _ _ _ _ _ _) ?_
  refine Keeps.bind (h.of_still (still_noteLookup _ _ _)) fun p => ?_
  rcases p with ⟨due, _ | found⟩
  · exact h.noteAppend _ _ _ _ _ _ _
  · exact Keeps.pure _

/-- **A request keeps what its durable steps keep**, recovery apart. -/
theorem command (s : Service) (r : Object) (pid : ℕ)
    (hop : (r.get (lit "op")).isText (lit "recover") = false) : Keeps R (command H s r pid) :=
  h.toAttends.command s r pid hop fun _ _ _ => h.note _ _ _ _

end Respects

/-- A recovery leaves the content alone. -/
theorem keeps_recovering (s : Service) (r : Object) (pid : ℕ)
    (hop : (r.get (lit "op")).isText (lit "recover") = true) : Keeps Idle (command H s r pid) := by
  have hop' : r.get (lit "op") = .str (lit "recover") := Json.isText_iff.mp hop
  unfold command
  rw [hop']
  refine Keeps.bind (Keeps.lift _) fun _ => Keeps.bind (Keeps.pure _) fun _ => ?_
  exact Keeps.bind keeps_recover fun _ => Keeps.bind Keeps.get fun _ => Keeps.pure _

/-! ## Relations on the content -/

/-- A relation on the contents of two moments. -/
def Between (Q : Db → Db → Prop) (w w' : World) : Prop := Q w.db w'.db

/-- A relation on contents that every single statement of maintenance and of a reader's requests
keeps. -/
structure Statements (Q : Db → Db → Prop) : Prop where
  forget : ∀ batch fts usable db, Q db (Db.forget batch fts (Db.unindex batch usable db))
  invalidate : ∀ db, Q db db.invalidate
  retire : ∀ now db, Q db (db.retire now)
  prune : ∀ now db, Q db (db.prune now)
  touch : ∀ consumer now db, Q db (db.touch consumer now)
  clear : ∀ consumer db, Q db (db.clearSnapshot consumer)
  issueDelta : ∀ consumer issued db, Q db (db.issueDelta consumer issued)
  issuePage : ∀ sid issued db, Q db (db.issuePage sid issued)
  ack : ∀ sid acked consumer seq issued db,
    Q db (Db.bootstrap consumer seq issued (Db.ackSnapshot sid acked db))
  advance : ∀ consumer seq db, Q db (db.advance consumer seq)

section between

variable {Q : Db → Db → Prop}

instance [Std.Refl Q] : Std.Refl (Between Q) := ⟨fun w => refl_of Q w.db⟩

instance [IsTrans Db Q] : IsTrans World (Between Q) := ⟨fun _ _ _ h h' => trans_of Q h h'⟩

/-- A stretch that leaves the content alone is between two moments. -/
theorem Between.idle [Std.Refl Q] {w w' : World} (h : Idle w w') : Between Q w w' := by
  unfold Between
  rw [h.db]
  exact refl_of Q _

/-- A stretch that leaves the store as it is is between two moments. -/
theorem Between.still [Std.Refl Q] {w w' : World} (h : Still w w') : Between Q w w' := by
  unfold Between
  rw [h.db]
  exact refl_of Q _

variable {α : Type} {control blocking : Bool}

/-- A transaction keeps what its body keeps when it runs to the end. -/
theorem between_transaction [Std.Refl Q] {body : M α} (hl : Keeps Later body)
    (hb : ∀ v a v', body v = (.ok a, v') → Between Q v v') :
    Keeps (Between Q) (transaction H control blocking body) := by
  intro w
  rcases hrun : transaction H control blocking body w with ⟨r, w'⟩
  obtain ⟨hi, -⟩ | ⟨w1, a, w2, h1, h2, h3, -⟩ := transaction_inv hl hrun
  · exact .idle hi
  · have hq := hb w1 a w2 h2
    unfold Between at hq ⊢
    rwa [h1.db, ← h3.db] at hq

/-- A mutation keeps what its body and the check behind it establish. -/
theorem between_mutate [Std.Refl Q] (need : ℕ) {body : M α} (hl : Keeps Later body)
    (hb : ∀ v a v', body v = (.ok a, v') → (need ≠ 0 → v'.db.usage.logical ≤ byteCap control) →
      Between Q v v') : Keeps (Between Q) (mutate H need control body) := by
  have hlog : Keeps Idle (enforceLogical control) :=
    fun v => (enforceLogical_inv rfl).1 ▸ refl_of Idle v
  have htail (a : α) : Keeps Idle (do
      if need ≠ 0 then enforceLogical control
      return a) :=
    Keeps.ite (Keeps.bind hlog fun _ => Keeps.pure a) (Keeps.pure a)
  refine between_transaction (Keeps.bind hl fun a => Keeps.later (htail a)) ?_
  intro v a v' h
  obtain ⟨b, x, h1, h2⟩ := bind_ok_inv h
  have hi := (htail b).run h2
  have hkept : need ≠ 0 → x.db.usage.logical ≤ byteCap control := by
    intro hn
    dsimp only at h2
    rw [if_pos hn] at h2
    obtain ⟨_, y, h3, -⟩ := bind_ok_inv h2
    obtain ⟨-, ⟨-, hle⟩ | ⟨_, he⟩⟩ := enforceLogical_inv h3
    · exact hle
    · cases he
  have hq := hb v b x h1 hkept
  unfold Between at hq ⊢
  rwa [hi.db]

/-- Asking the engine for a write changes no content. -/
theorem between_write [Std.Refl Q] : Keeps (Between Q) (write H) :=
  Keeps.mono (fun _ _ => .idle) keeps_write

/-- The clock changes no content. -/
theorem between_time [Std.Refl Q] : Keeps (Between Q) (time H) :=
  Keeps.mono (fun _ _ => .idle) keeps_time

/-- A statement changes the content as the relation allows. -/
theorem between_execute {f : Db → Db} (hf : ∀ db, Q db (f db)) : Keeps (Between Q) (execute f) :=
  fun w => hf w.db

variable [Std.Refl Q] [IsTrans Db Q]

/-- A transaction of one statement. -/
theorem between_statement {f : Db → Db} (hf : ∀ db, Q db (f db)) :
    Keeps (Between Q) (transaction H control blocking (do write H; execute f)) :=
  between_transaction (Keeps.bind (Keeps.later keeps_write) fun _ => keeps_execute f) fun _ _ _ h =>
    (Keeps.bind between_write fun _ => between_execute hf).run h

/-- A transaction of one statement that looks at the state first keeps the relation. -/
theorem between_statement_at {g : World → Db → Db} (hg : ∀ v db, Q db (g v db)) :
    Keeps (Between Q) (transaction H control blocking (do
      write H
      let v ← get
      execute (g v))) := by
  refine between_transaction ?_ fun _ _ _ h => Keeps.run ?_ h
  · exact Keeps.bind (Keeps.later keeps_write) fun _ => Keeps.bind Keeps.get fun v =>
      keeps_execute (g v)
  · exact Keeps.bind between_write fun _ => Keeps.bind Keeps.get fun v => between_execute (hg v)

namespace Statements

omit [Std.Refl Q] [IsTrans Db Q] in
/-- A weaker relation is kept as well. -/
theorem mono {Q' : Db → Db → Prop} (h : Statements Q) (hq : ∀ db db', Q db db' → Q' db db') :
    Statements Q' where
  forget _ _ _ _ := hq _ _ (h.forget ..)
  invalidate _ := hq _ _ (h.invalidate _)
  retire _ _ := hq _ _ (h.retire ..)
  prune _ _ := hq _ _ (h.prune ..)
  touch _ _ _ := hq _ _ (h.touch ..)
  clear _ _ := hq _ _ (h.clear ..)
  issueDelta _ _ _ := hq _ _ (h.issueDelta ..)
  issuePage _ _ _ := hq _ _ (h.issuePage ..)
  ack _ _ _ _ _ _ := hq _ _ (h.ack ..)
  advance _ _ _ := hq _ _ (h.advance ..)

variable (h : Statements Q)
include h

/-- **Maintenance keeps what its statements keep.** -/
theorem maintains : Maintains H (Between Q) where
  still := .still
  batch batch := by
    refine Keeps.tryCatch (between_statement_at fun v db => h.forget batch v.fts v.indexUsable db)
      fun e => ?_
    split
    · refine Keeps.bind (between_statement h.invalidate) fun _ => ?_
      exact between_statement_at fun v db => h.forget batch v.fts false db
    · exact Keeps.throw _
  retire now := between_statement (h.retire now)
  prune now removed := by
    have hlog : Keeps (Between Q) (resetLog H) := Keeps.mono (fun _ _ => .idle) fun _ =>
      (resetLog_inv rfl).1
    have hvac : Keeps (Between Q) (vacuum H) := Keeps.mono (fun _ _ => .idle) keeps_vacuum
    refine Keeps.bind (between_statement (h.prune now)) fun _ => Keeps.bind hlog fun _ => ?_
    exact Keeps.bind hvac fun _ => Keeps.bind hlog fun _ => Keeps.pure _

/-- A chain of maintenance steps keeps it. -/
theorem maints {k : ℕ} {w w' : World} (hm : Maints H k w w') : Q w.db w'.db := by
  refine keeps_of_reflTransGen (I := fun v : World => Q w.db v.db) ?_ hm (refl_of Q _)
  intro u v huv hu
  refine trans_of Q hu ?_
  rcases huv with (hi | ⟨batch, usable, _, _, _, _, _, hd⟩ | ⟨_, hd⟩) | ⟨t, _, _,
    hd⟩ | ⟨t, _, _, hd⟩
  · rw [hi.db]
    exact refl_of Q _
  · rw [hd]
    exact h.forget ..
  · rw [hd]
    exact h.invalidate _
  · rw [hd]
    exact h.retire ..
  · rw [hd]
    exact h.prune ..

/-- **The requests of a reader keep what their statements keep**, given it of the freeze and of the
registration, which run under admission. -/
theorem attends
    (hfreeze : ∀ need consumer sid head members sizes, need ≠ 0 →
      Keeps (Between Q) (mutate H need false (freezeRows H consumer sid head members sizes)))
    (hregister : ∀ consumer, Keeps (Between Q) (register H consumer)) : Attends H (Between Q) where
  toMaintains := h.maintains
  freeze := hfreeze
  register := hregister
  touch consumer := by
    refine between_transaction ?_ fun _ _ _ hr => Keeps.run ?_ hr
    · exact Keeps.bind (Keeps.later keeps_write) fun _ =>
        Keeps.bind (Keeps.later keeps_time) fun _ =>
        keeps_execute _
    · exact Keeps.bind between_write fun _ => Keeps.bind between_time fun now =>
        between_execute fun db => h.touch consumer now db
  clear consumer := between_statement (h.clear consumer)
  issueDelta consumer issued := between_statement (h.issueDelta consumer issued)
  issuePage sid issued := between_statement (h.issuePage sid issued)
  ack sid consumer seq issued := by
    refine between_transaction ?_ fun v _ v' hr => ?_
    · exact Keeps.bind (Keeps.later keeps_write) fun _ =>
        Keeps.bind (Keeps.later keeps_time) fun _ =>
        Keeps.bind (keeps_execute _) fun _ => keeps_execute _
    · obtain ⟨_, u, h1, h2⟩ := bind_ok_inv hr
      cases h2
      have hu := keeps_write.run h1
      unfold Between
      rw [← hu.db]
      exact h.ack sid _ consumer seq issued u.db
  advance consumer seq := between_statement (h.advance consumer seq)

end Statements

end between

end PeerBridge.Memory
