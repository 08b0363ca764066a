import PeerBridge.Memory.Blocking

/-!
# The page reserve

Acknowledgements, page issuance, activity refreshes and the maintenance transactions run with the
page limit of control transitions. Enforcement compares the pages of the whole file with that limit,
not what the transaction itself allocated, and control notes may fill the file up to the same limit.
So whether such a transaction commits depends on the pages that were there before it
(`Progress.outcome`): one that allocates at most one page commits from every store that is below the
limit, and from no other (`progresses_iff`).

A control note takes a store to the limit, and the reader that has a snapshot to acknowledge is then
refused for space (`progress_refused_for_space`).

Source: `memory.py`, `Store.page_cap`, `Store.progress`, `Store.enforce_pages`, `Store.transaction`.
-/

namespace PeerBridge.Memory

open Py Relational Effects Effects.Prog

variable {H : Host}

/-! ## Progress and maintenance transactions -/

/-- A transaction that records progress of a reader, or a maintenance transaction. -/
inductive Progress (H : Host) : M Unit → Prop
  | touch (consumer : Text) : Progress H (touch H consumer)
  | clear (consumer : Text) :
    Progress H (progress H (do write H; execute (Db.clearSnapshot consumer)))
  | issueDelta (consumer : Text) (issued : ℕ) :
      Progress H (progress H (do write H; execute (Db.issueDelta consumer issued)))
  | issuePage (sid : Text) (issued : ℕ) :
      Progress H (progress H (do write H; execute (Db.issuePage sid issued)))
  | ack (sid consumer : Text) (seq issued : ℕ) : Progress H (progress H do
      write H
      let acked ← time H
      execute (Db.ackSnapshot sid acked)
      execute (Db.bootstrap consumer seq issued))
  | advance (consumer : Text) (seq : ℕ) :
      Progress H (progress H (do write H; execute (Db.advance consumer seq)))
  | retire (now : ℚ) : Progress H (transaction H true true (do write H; execute (Db.retire now)))
  | prune (now : ℚ) : Progress H (transaction H true true (do write H; execute (Db.prune now)))
  | invalidate : Progress H (transaction H true true (do write H; execute Db.invalidate))
  | forget (batch : List Entry) : Progress H (transaction H true true do
      write H
      let w ← get
      execute (Db.forget batch w.fts))
  | speculative (batch : List Entry) : Progress H (transaction H true false do
      write H
      let w ← get
      execute fun db => Db.forget batch w.fts (Db.unindex batch w.indexUsable db))

/-- Statements behind the first write: they are executed, and allocate nothing more. -/
def Settles (p : M Unit) : Prop := ∀ w, ∃ w', p w = (.ok (), w') ∧ w'.pages = w.pages

/-- A statement settles. -/
theorem settles_execute (f : Db → Db) : Settles (execute f) :=
  fun w => ⟨{ w with db := f w.db }, rfl, rfl⟩

/-- Every one of them is a first write and statements behind it, under the limit of control
transitions. -/
theorem Progress.form {p : M Unit} (h : Progress H p) :
    ∃ blocking rest, p = transaction H true blocking (write H >>= fun _ => rest)
    ∧ Settles rest := by
  cases h with
  | touch consumer => exact ⟨true, _, rfl, fun w => ⟨_, rfl, rfl⟩⟩
  | clear consumer => exact ⟨true, _, rfl, settles_execute _⟩
  | issueDelta consumer issued => exact ⟨true, _, rfl, settles_execute _⟩
  | issuePage sid issued => exact ⟨true, _, rfl, settles_execute _⟩
  | ack sid consumer seq issued => exact ⟨true, _, rfl, fun w => ⟨_, rfl, rfl⟩⟩
  | advance consumer seq => exact ⟨true, _, rfl, settles_execute _⟩
  | retire now => exact ⟨true, _, rfl, settles_execute _⟩
  | prune now => exact ⟨true, _, rfl, settles_execute _⟩
  | invalidate => exact ⟨true, _, rfl, settles_execute _⟩
  | forget batch => exact ⟨true, _, rfl, fun w => ⟨_, rfl, rfl⟩⟩
  | speculative batch => exact ⟨false, _, rfl, fun w => ⟨_, rfl, rfl⟩⟩

/-- The storage works for the transaction that begins at `w`: the log resets, the engine grants the
pages, and the process lives. -/
structure Host.Serves (H : Host) (w : World) : Prop where
  writable : w.blocked = none
  log : H.clean w.tick
  engine : H.engine (w.tick + 1) = .ok
  lives : ∀ i, H.killed i = false

/-- **What decides**: the pages of the file and those the transaction allocates. Above the limit it
is rolled back. -/
theorem Progress.outcome {p : M Unit} (h : Progress H p) {w : World} (hs : H.Serves w) :
    (w.pages + H.grow (w.tick + 1) ≤ pageCap true ∧ ∃ w', p w = (.ok (), w')) ∨
      (pageCap true < w.pages + H.grow (w.tick + 1) ∧ ∃ w', p w
        = (.error (.refused .capacity (overPages (w.pages + H.grow (w.tick + 1))) none), w') ∧
        w'.db = w.db ∧ w'.pages = w.pages) := by
  obtain ⟨blocking, rest, rfl, hrest⟩ := h.form
  have hreq : requireWritable w = (.ok (), w) := by
    simp [requireWritable, hs.writable]
  have hlog : resetLog H w = (.ok (), { w with tick := w.tick + 1 }) := by
    rcases resetLog_cases (H := H) w with ⟨-, h⟩ | ⟨hc, -⟩
    · exact h
    · exact absurd hs.log hc
  have hwrite : write H { w with tick := w.tick + 1 } = (.ok (),
      { w with pages := w.pages + H.grow (w.tick + 1), tick := w.tick + 1 + 1 }) := by
    simp [write, hs.engine]
  obtain ⟨v, hv, hpages⟩ := hrest
    { w with pages := w.pages + H.grow (w.tick + 1), tick := w.tick + 1 + 1 }
  have hint (x : World) : interrupt H x = (.ok (), { x with tick := x.tick + 1 }) := by
    simp [interrupt, hs.lives]
  have hbody : (write H >>= fun _ => rest) { w with tick := w.tick + 1 } = (.ok (), v) := by
    rw [bind_ok hwrite]
    exact hv
  unfold transaction
  rw [bind_ok hreq, bind_ok hlog, get_bind]
  by_cases hcap : w.pages + H.grow (w.tick + 1) ≤ pageCap true
  · refine .inl ⟨hcap, ?_⟩
    have henforce : enforcePages true v = (.ok (), v) := by
      unfold enforcePages
      rw [get_bind, hpages, if_neg (not_lt.mpr hcap)]
      rfl
    have hguarded : (do
        let a ← (write H >>= fun _ => rest)
        enforcePages true
        interrupt H
        commit H
        return a) { w with tick := w.tick + 1 }
        = (.ok (), { v with pages := v.pages + H.slack (v.tick + 1), tick := v.tick + 1 + 1 }) := by
      rw [bind_ok hbody, bind_ok henforce, bind_ok (hint v), commit_bind]
      rfl
    rw [bind_ok (tryCatch_ok hguarded), bind_ok (hint _)]
    exact ⟨_, rfl⟩
  · refine .inr ⟨not_le.mp hcap, ?_⟩
    have henforce : enforcePages true v
        = (.error (.refused .capacity (overPages (w.pages + H.grow (w.tick + 1))) none), v) := by
      unfold enforcePages
      rw [get_bind, hpages, if_pos (not_le.mp hcap)]
      rfl
    have hguarded : (do
        let a ← (write H >>= fun _ => rest)
        enforcePages true
        interrupt H
        commit H
        return a) { w with tick := w.tick + 1 }
        = (.error (.refused .capacity (overPages (w.pages + H.grow (w.tick + 1))) none), v) := by
      rw [bind_ok hbody, bind_error henforce]
    rw [bind_error ((tryCatch_error hguarded).trans rfl)]
    exact ⟨_, rfl, rfl, rfl⟩

/-! ## Which stores let progress through -/

/-- Every progress or maintenance transaction that allocates at most one page commits at `w`,
whatever the storage does as long as it works. -/
def Progresses (w : World) : Prop :=
  ∀ H p, Progress H p → H.Serves w → H.grow (w.tick + 1) ≤ 1 → ∃ w', p w = (.ok (), w')

/-- A host whose transactions allocate one page each. -/
def Host.growing : Host := { Host.steady with grow := fun _ => 1 }

/-- The file is below the limit of control transitions, or takes no writes at all. -/
def Spacious (w : World) : Prop := w.blocked.isSome = true ∨ w.pages < pageCap true

/-- **Progress is let through exactly below the limit.** -/
theorem progresses_iff (w : World) : Progresses w ↔ Spacious w := by
  constructor
  · intro h
    by_contra hcon
    rw [Spacious, not_or, Bool.not_eq_true, Option.isSome_eq_false_iff, Option.isNone_iff_eq_none,
      not_lt] at hcon
    obtain ⟨hopen, hfull⟩ := hcon
    have hserves : Host.growing.Serves w := ⟨hopen, rfl, rfl, fun _ => rfl⟩
    obtain ⟨w', hw'⟩ := h Host.growing _ (.touch []) hserves le_rfl
    rcases (Progress.touch (H := Host.growing) []).outcome hserves with ⟨hle, -⟩ | ⟨-, w'', hw'', -⟩
    · change w.pages + 1 ≤ pageCap true at hle
      omega
    · rw [hw'] at hw''
      cases hw''
  · intro h H p hp hs hgrow
    rcases hp.outcome hs with ⟨-, hok⟩ | ⟨hover, -⟩
    · exact hok
    · rcases h with hblocked | hroom
      · rw [hs.writable] at hblocked
        cases hblocked
      · omega

/-! ## Runs -/

/-- **Progress commits in a state of a run exactly where the file is below the limit.** In every
state that a run reaches, every progress or maintenance transaction that allocates at most one page
commits if and only if the file has fewer pages than the limit of control transitions (or the store
takes no writes). In a run whose events begin and end in such states, none that starts in one of
these states is refused for space. The states inside a request are not among them: there
`progresses_iff` is the condition for each transaction by itself. -/
theorem progress_commits_iff {storeId : Text} {pages : ℕ} {fts : Bool} {past : List (Event H)}
    {w : World}
    (h : Run H (World.initial storeId pages fts) past w) :
    (Progresses w ↔ Spacious w) ∧
      ((∀ e ∈ past, Spacious e.before ∧ Spacious e.after) →
        Spacious (World.initial storeId pages fts) →
        Progresses w ∧ ∀ e ∈ past, Progresses e.before ∧ Progresses e.after) := by
  refine ⟨progresses_iff w, ?_⟩
  intro hspace hstart
  constructor
  · rw [progresses_iff]
    cases h with
    | nil => exact hstart
    | snoc h e he => exact (hspace e (by simp)).2
  · intro e he
    rw [progresses_iff, progresses_iff]
    exact hspace e he

/-- The consumer `a` reads a first snapshot of one entry, a note replaces that entry, and `a`
acknowledges the snapshot. -/
def crowdingActs : List Act :=
  [ask (lit "note") (lit "a") [(lit "type", .str (lit "finding")), (lit "body", .str (lit "x"))],
   ask (lit "sync") (lit "a") [],
   ask (lit "note") (lit "a") [(lit "type", .str (lit "finding")), (lit "body", .str (lit "y")),
     (lit "supersedes", .int 1)]]

/-- A host on which the replacing note fills the file up to the limit, and later transactions
allocate one page each. -/
def Host.crowded : Host :=
  { Host.steady with grow := fun n => if n < 52 then 0 else if n = 52 then pageCap true - 10
    else 1 }

/-- The run of these requests. -/
def crowding : List (Event Host.crowded) × World :=
  play Host.crowded (World.initial (lit "store") 10 true) crowdingActs

/-- Before the replacing note the store lets progress through. -/
theorem progress_commits_iff_early :
    let run := play Host.crowded (World.initial (lit "store") 10 true) (crowdingActs.take 2)
    Run Host.crowded (World.initial (lit "store") 10 true) run.1 run.2 ∧ Progresses run.2 := by
  have hpages :
    (play Host.crowded (World.initial (lit "store") 10 true) (crowdingActs.take 2)).2.pages
      < pageCap true := by decide +kernel
  have hrun := run_play (H := Host.crowded) (World.initial (lit "store") 10 true)
    (crowdingActs.take 2)
  exact ⟨hrun, (progress_commits_iff hrun).1.mpr (.inr hpages)⟩

/-- The acknowledgement behind them. -/
def crowdedAck : Event Host.crowded where
  act := ask (lit "ack") (lit "a") [(lit "snapshot_id", .str (lit "snapshot-29"))]
  before := crowding.2
  result :=
    ((ask (lit "ack") (lit "a") [(lit "snapshot_id", .str (lit "snapshot-29"))]).perform
      Host.crowded
    crowding.2).1
  after := ((ask (lit "ack") (lit "a") [(lit "snapshot_id", .str (lit "snapshot-29"))]).perform
    Host.crowded
    crowding.2).2
  performed := Prod.mk.eta.symm

/-- **A reader is refused for space.** A control note has taken the file to the limit. The reader
that has read its snapshot to the end acknowledges it; the transaction that records its activity
allocates one page, and the acknowledgement is refused with `capacity`. -/
theorem progress_refused_for_space :
    Run Host.crowded (World.initial (lit "store") 10 true) crowding.1 crowdedAck.before ∧
      ¬ Progresses crowdedAck.before ∧
      Host.crowded.grow (crowdedAck.before.tick + 2) = 1 ∧
      crowdedAck.result = .error (.refused .capacity (overPages (pageCap true + 1)) none) := by
  have hrun : Run Host.crowded (World.initial (lit "store") 10 true) crowding.1 crowding.2 :=
    run_play _ _
  obtain ⟨hopen, hfull, hgrow, hrefused⟩ : crowding.2.blocked = none ∧
      crowding.2.pages = pageCap true ∧ Host.crowded.grow (crowdedAck.before.tick + 2) = 1 ∧
      refusalOf crowdedAck.result = some (.capacity, overPages (pageCap true + 1)) := by
    decide +kernel
  refine ⟨hrun, ?_, hgrow, refusalOf_eq_some hrefused⟩
  rw [progresses_iff]
  rintro (hblocked | hroom)
  · change crowding.2.blocked.isSome = true at hblocked
    rw [hopen] at hblocked
    cases hblocked
  · change crowding.2.pages < pageCap true at hroom
    rw [hfull] at hroom
    exact lt_irrefl _ hroom

end PeerBridge.Memory
