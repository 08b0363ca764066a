import PeerBridge.Bridge.Listings
import PeerBridge.Notify.Attempts

/-!
# The notifier beside an old bridge

A bridge that keeps no journal activation is notified of its messages from a plain position in
`notify-cursor.json`: what lies at or below it has been announced. The position moves only when a
notice was delivered, or over rows that are not announced at all.

* `selection_spec`: what one selection covers. Ten records are taken, and the position it may move
  to passes ignored rows only where no record is left out.
* `Process` puts the calls in the order in which the delivery loop makes them. A call may be
  cancelled after the worker has carried it out, publishing may fail on either side of the
  replacement, the process may die anywhere, and frames arrive and are acknowledged throughout.
* `checkpoint_skips_nothing`: the position never goes back, every message at or below it and above
  the position the notifier is started from was in a notice that was delivered, and `ready` is never
  refused.

Source: `notification_legacy.py`; `notification_migration.py` `legacy_cursor`;
`notification_delivery.py`.
-/

namespace PeerBridge.Notify.Legacy

open Py Relational Effects Transition PeerBridge.Service PeerBridge.Bridge

/-! ## The state -/

/-- The content of `notify-cursor.json`. -/
structure Cursor where
  thread : Text
  through : ℕ
  /-- `journal_required`, absent meaning false. -/
  journalRequired : Bool

/-- The attributes of a `LegacyState`, and the file it publishes. -/
structure Store where
  after : ℕ
  retryAt : ℕ
  inflight : Option ℕ
  cursor : Option Cursor

abbrev M := Prog Exc Store

/-- How a publication ends; one that raises may have replaced the file all the same. -/
inductive Published where
  | done
  | failed (replaced : Bool)

/-- Source: `legacy_cursor`; `integer` is applied to both positions -/
def legacyCursor (participant : Text) (after : ℕ) (cursor : Option Cursor) :
    Except Exc (Option Cursor) := do
  Journal.integer after 0
  match cursor with
  | none => return none
  | some c =>
      raiseIf (c.thread != participant) (.journal .identityMismatch)
      raiseIf (maxSequence < c.through) (.journal .recoveryRequired)
      return some c

/-- The files and the inbox a state is opened on. Source: `LegacyState.__init__` -/
def openState (caps : Capabilities) (participant : Text) (after : ℕ) (journalFiles : Bool) (db : Db)
    (cursor : Option Cursor) : Except Exc Store := do
  raiseIf caps.pointers (.journal .upgradeRequired)
  let saved ← legacyCursor participant after cursor
  raiseIf (journalFiles || saved.any Cursor.journalRequired) (.journal .recoveryRequired)
  let (snapshot, _) ← retained caps db []
  raiseIf snapshot.activation.isSome (.journal .recoveryRequired)
  return ⟨(saved.map Cursor.through).getD after, 0, none, cursor⟩

/-- Source: `LegacyState.save`; `durable_state.publish` of the cursor comes first -/
def save (participant : Text) (outcome : Published) (through : ℕ) : M Unit := fun s =>
  let written := { s with cursor := some ⟨participant, through, false⟩ }
  match outcome with
  | .done => (.ok (), { written with after := through })
  | .failed true => (.error .os, written)
  | .failed false => (.error .os, s)

/-- Source: `LegacyState.selection` -/
def selection (caps : Capabilities) (db : Db) (after : ℕ) : Except Exc (List Record × ℕ) := do
  let snapshot ← scan caps db after
  let rows := snapshot.records.take 10
  let through := if snapshot.records.length ≤ 10 then snapshot.through
    else (rows.getLast?.map Record.seq).getD after
  return (rows, through)

/-- An attempt in flight is given up, and delivery pauses. -/
def Store.interrupted (now : ℕ) (s : Store) : Store :=
  if s.inflight.isSome then { s with retryAt := now + 30, inflight := none } else s

/-- The second half of `LegacyState.ready`: the process moves to the saved position. -/
def resume : Option Cursor → M Unit
  | none => return ()
  | some c => do
      let s ← get
      Prog.lift (raiseIf (c.journalRequired || decide (c.through < s.after))
        (.journal .recoveryRequired))
      modify fun s => { s with after := c.through }

/-- Source: `LegacyState.ready` -/
def ready (participant : Text) (now : ℕ) : M Unit := do
  Prog.lift (Journal.integer now 0)
  modify (Store.interrupted now)
  let s ← get
  let saved ← Prog.lift (legacyCursor participant s.after s.cursor)
  resume saved

/-- Source: `LegacyState.prepare`; the sequences of the selected rows -/
def prepare (caps : Capabilities) (participant : Text) (db : Db) (now : ℕ) (outcome : Published) :
    M (List ℕ) := do
  Prog.lift (Journal.integer now 0)
  let s ← get
  if now < s.retryAt then return []
  else
    let (rows, through) ← Prog.lift (selection caps db s.after)
    if rows.isEmpty ∧ s.after < through then save participant outcome through
    return rows.map Record.seq

/-- Source: `LegacyState.reserve_next` -/
def reserveNext (caps : Capabilities) (participant : Text) (db : Db) (now : ℕ)
    (outcome : Published) :
    M (List Record) := do
  Prog.lift (Journal.integer now 0)
  let s ← get
  Prog.lift (raiseIf s.inflight.isSome (.journal .attemptInProgress))
  if now < s.retryAt then return []
  else
    let (rows, through) ← Prog.lift (selection caps db s.after)
    if !rows.isEmpty then modify fun s => { s with inflight := some through }
    else if s.after < through then save participant outcome through
    return rows

/-- Source: `LegacyState.resolve` -/
def resolve (participant : Text) (outcome : Journal.Outcome) (now : ℕ) (published : Published) :
    M Unit := do
  Prog.lift (Journal.integer now 0)
  let s ← get
  match s.inflight with
  | none => throw (Exc.journal .noAttempt)
  | some through => do
      if outcome = .delivered then do
        save participant published through
        modify fun s => { s with retryAt := 0 }
      else modify fun s => { s with retryAt := now + 30 }
      modify fun s => { s with inflight := none }

/-! ## The delivery loop around it -/

/-- Where the delivery loop is. Source: `DeliveryLoop.step` -/
inductive Loop where
  /-- Between two steps; `settled` is `started and not unresolved`. -/
  | resting (settled : Bool)
  /-- `ready` has returned. -/
  | started
  /-- `prepare` has returned sequences. -/
  | prepared
  /-- `reserve_next` has returned rows, and their notice is being delivered. -/
  | reserved
  deriving DecidableEq

/-- A running notifier. -/
structure Process where
  caps : Capabilities
  after : ℕ
  retryAt : ℕ
  inflight : Option ℕ
  loop : Loop
  /-- The sequences of the notice under way. -/
  notice : List ℕ

/-- The bridge's inbox, the file, the notifier, and every sequence of a notice the provider
delivered. -/
structure World where
  db : Db
  cursor : Option Cursor
  process : Option Process
  delivered : List ℕ

inductive Event where
  | store (now : ℚ) (pid : ℕ) (frame : Json)
  | acknowledge (through : ℕ)
  | start (caps : Capabilities) (journalFiles : Bool)
  | crash
  | ready (now : ℕ) (cancelled : Bool)
  | prepare (now : ℕ) (outcome : Published) (cancelled : Bool)
  | reserve (now : ℕ) (outcome : Published) (cancelled : Bool)
  | resolve (outcome : Journal.Outcome) (now : ℕ) (published : Published) (cancelled : Bool)
  /-- The step ends before its next call: the notice is not rendered, the adapter raises, the worker
  refuses, or the loop is cancelled. -/
  | abandon

/-- What the worker sees of a process. -/
def Process.store (p : Process) (cursor : Option Cursor) : Store :=
  ⟨p.after, p.retryAt, p.inflight, cursor⟩

/-- The process and the file after a call of the worker. -/
def World.called (w : World) (p : Process) (s : Store) (loop : Loop) (notice : List ℕ) : World :=
  { w with
    cursor := s.cursor
    process := some ⟨p.caps, s.after, s.retryAt, s.inflight, loop, notice⟩ }

/-- What the provider delivered is noted down. -/
def World.noted (w : World) (p : Process) (outcome : Journal.Outcome) : World :=
  { w with delivered := if outcome = .delivered then p.notice ++ w.delivered else w.delivered }

/-- Where a step that ends early leaves the loop: `unresolved` is set before rows are reserved. -/
def Loop.abandoned : Loop → Loop
  | .resting settled => .resting settled
  | .started => .resting true
  | .prepared => .resting false
  | .reserved => .resting false

/-- One event. A call is made where the loop makes it. -/
def World.next (participant : Text) (start : ℕ) (w : World) (e : Event) : Option World :=
  match e, w.process with
  | .store now pid frame, _ => some { w with db := w.db.after (.store now pid frame) }
  | .acknowledge through, _ => some { w with db := w.db.after (.acknowledge through) }
  | .start caps journalFiles, none =>
      match openState caps participant start journalFiles w.db w.cursor with
      | .error _ => some w
      | .ok s =>
        some { w with process := some ⟨caps, s.after, s.retryAt, s.inflight, .resting false, []⟩ }
  | .crash, some _ => some { w with process := none }
  | .ready now cancelled, some p =>
      if p.loop = .resting false then
        match Legacy.ready participant now (p.store w.cursor) with
        | (.ok _, s) => some (w.called p s (if cancelled then .resting false else .started) [])
        | (.error _, s) => some (w.called p s (.resting false) [])
      else none
  | .prepare now outcome cancelled, some p =>
      if p.loop = .started ∨ p.loop = .resting true then
        match Legacy.prepare p.caps participant w.db now outcome (p.store w.cursor) with
        | (.ok sequences, s) =>
            some (w.called p s
              (if cancelled || sequences.isEmpty then .resting true else .prepared) [])
        | (.error _, s) => some (w.called p s (.resting true) [])
      else none
  | .reserve now outcome cancelled, some p =>
      if p.loop = .prepared then
        match reserveNext p.caps participant w.db now outcome (p.store w.cursor) with
        | (.ok rows, s) =>
            let loop := if cancelled then .resting false else if rows.isEmpty then .resting true
              else .reserved
            some (w.called p s loop (rows.map Record.seq))
        | (.error _, s) => some (w.called p s (.resting false) [])
      else none
  | .resolve outcome now published cancelled, some p =>
      if p.loop = .reserved then
        match Legacy.resolve participant outcome now published (p.store w.cursor) with
        | (.ok _, s) => some ((w.noted p outcome).called p s (.resting !cancelled) [])
        | (.error _, s) => some ((w.noted p outcome).called p s (.resting false) [])
      else none
  | .abandon, some p => some { w with process := some { p with loop := p.loop.abandoned } }
  | _, _ => none

/-- The system, for one participant and the position the notifier is started from. -/
def system (participant : Text) (start : ℕ) : System World Event where
  init w := Opened w.db ∧ w.cursor = none ∧ w.process = none ∧ w.delivered = []
  next := World.next participant start

/-- The position an operator sees: the saved one, or the one the notifier is started from. -/
def World.position (w : World) (start : ℕ) : ℕ := (w.cursor.map Cursor.through).getD start

/-- A row that is announced. -/
def isMessage (r : Row) : Bool :=
  match r.frame with
  | .obj f => isUser f
  | _ => false

/-! ## One selection -/

variable {caps : Capabilities} {db db' : Db} {after : ℕ}

/-- A scan of an old inbox: its messages are its records, and it goes through to its last row. -/
theorem scanRows_eq_ok (hp : caps.pointers = false) {s s' : Scanned} {rows : List Row}
    (h : scanRows caps s rows = .ok s') :
    s'.records.map Record.seq = s.records.map Record.seq ++ (rows.filter isMessage).map Row.seq
      ∧ s'.through = (rows.getLast?.map Row.seq).getD s.through := by
  induction rows generalizing s with
  | nil =>
    obtain rfl : s = s' := Except.ok.inj h
    simp
  | cons r rest ih =>
    rw [scanRows] at h
    obtain ⟨record, hrecord, h⟩ := except_bind_eq_ok.mp h
    obtain rfl : record = ⟨r.seq, .peer⟩ := by
      unfold readRecord at hrecord
      split at hrecord
      · rw [hp] at hrecord
        exact (Except.ok.inj hrecord).symm
      · cases hrecord
    have hlast : ((r :: rest).getLast?.map Row.seq)
        = some ((rest.getLast?.map Row.seq).getD r.seq) := by
      rw [List.getLast?_cons]
      rcases rest.getLast? with _ | l
      · rfl
      · rfl
    rw [hlast, Option.getD_some, List.filter_cons]
    simp only at h
    split at h
    · next f hf =>
      have hmessage : isMessage r = isUser f := by rw [isMessage, hf]
      split at h
      · next huser =>
        obtain ⟨hrecords, hthrough⟩ := ih h
        rw [hrecords, hthrough, hmessage, if_pos huser]
        simp
      · next huser =>
        obtain ⟨hrecords, hthrough⟩ := ih h
        rw [hrecords, hthrough, hmessage, if_neg huser]
        exact ⟨rfl, rfl⟩
    · cases h

/-- The rows a position lies ahead of hold no message, are few enough for one scan, and the position
is one of them unless all of them are gone. -/
structure Skipped (db : Db) (after position : ℕ) : Prop where
  silent : ∀ r ∈ db.inbox, after < r.seq → r.seq ≤ position → isMessage r = false
  few : ((rowsBehind db after).filter fun r => r.seq ≤ position).length ≤ scanLimit
  anchored : (∃ r ∈ db.inbox, r.seq = position) ∨ ∀ r ∈ db.inbox, position < r.seq

/-- What a selection covers. -/
structure Selected (db : Db) (after : ℕ) (rows : List Record) (through : ℕ) : Prop where
  reaches : through = after ∨ after < through ∧ ∃ r ∈ db.inbox, r.seq = through
  /-- Every message up to the new position is among the selected rows. -/
  covers : ∀ r ∈ db.inbox, isMessage r = true → after < r.seq → r.seq ≤ through →
    r.seq ∈ rows.map Record.seq
  /-- The new position is not behind one that was reached over skipped rows. -/
  passes : through ≠ after → ∀ position, Skipped db after position → position ≤ through
  /-- Where nothing is selected, the rows up to the new position are skipped. -/
  skips : rows = [] → through ≠ after → Skipped db after through
  moves : rows ≠ [] → through ≠ after

/-- In an ordered list the elements up to a bound come first. -/
theorem filter_le_begins {l : List Row} (h : l.Pairwise fun a b => a.seq < b.seq) (n : ℕ) :
    (l.filter fun r => r.seq ≤ n) <+: l := by
  induction l with
  | nil => exact List.prefix_refl _
  | cons a l ih =>
    obtain ⟨hfirst, hrest⟩ := List.pairwise_cons.mp h
    rw [List.filter_cons]
    split
    · exact List.prefix_cons_inj a |>.mpr (ih hrest)
    · next ha =>
      have hnone : (l.filter fun r => r.seq ≤ n) = [] := by
        refine List.filter_eq_nil_iff.mpr ?_
        intro r hr
        have := hfirst r hr
        simp only [decide_eq_true_eq, not_le] at ha ⊢
        omega
      rw [hnone]
      exact List.nil_prefix

/-- A position within reach of one scan lies in its window. -/
theorem Skipped.mem_window {position : ℕ} (h : Skipped db after position) {r : Row}
    (hr : r ∈ db.inbox)
    (hlow : after < r.seq) (hhigh : r.seq ≤ position) :
    r ∈ (rowsBehind db after).take scanLimit := by
  have hbegins : ((rowsBehind db after).filter fun r => r.seq ≤ position)
      <+: (rowsBehind db after).take scanLimit :=
    List.prefix_take_iff.mpr ⟨filter_le_begins (ordered_rowsBehind db after) position, h.few⟩
  refine hbegins.subset (List.mem_filter.mpr ⟨mem_rowsBehind.mpr ⟨hr, hlow⟩, ?_⟩)
  simpa using hhigh

/-- All records of a window are selected, and the position moves to the end of the window. -/
theorem selected_window {rows : List Record}
    (hrows : rows.map Record.seq = (((rowsBehind db after).take scanLimit).filter isMessage).map
      Row.seq) :
    Selected db after rows (readTo after ((rowsBehind db after).take scanLimit)) := by
  have hwindow : (rowsBehind db after).take scanLimit <+: rowsBehind db after :=
    List.take_prefix _ _
  obtain ⟨hle, hin, hall, hlast⟩ := readTo_spec hwindow
  have hreaches : (rowsBehind db after).take scanLimit = []
    ∨ after < readTo after ((rowsBehind db after).take scanLimit)
      ∧ ∃ r ∈ db.inbox, r.seq = readTo after ((rowsBehind db after).take scanLimit) := by
    rcases eq_or_ne ((rowsBehind db after).take scanLimit) [] with hnil | hne
    · exact .inl hnil
    · obtain ⟨r, hr⟩ := List.exists_mem_of_ne_nil _ hne
      exact .inr ⟨(hin r hr).2.1.trans_le (hin r hr).2.2, hlast hne⟩
  have hcovers : ∀ r ∈ db.inbox, isMessage r = true → after < r.seq
      → r.seq ≤ readTo after ((rowsBehind db after).take scanLimit) →
      r.seq ∈ rows.map Record.seq := by
    intro r hr hmessage hlow hhigh
    rw [hrows]
    exact List.mem_map_of_mem (List.mem_filter.mpr ⟨hall r hr hlow hhigh, hmessage⟩)
  refine ⟨?_, hcovers, ?_, ?_, ?_⟩
  · rcases hreaches with hnil | hreaches
    · exact .inl (by rw [hnil]; rfl)
    · exact .inr hreaches
  · intro hne position hskipped
    rcases hreaches with hnil | ⟨-, s, hs, hseq⟩
    · exact absurd (by rw [hnil]; rfl) hne
    · rcases hskipped.anchored with ⟨r, hr, rfl⟩ | hgone
      · rcases le_or_gt r.seq after with hrow | hrow
        · exact hrow.trans hle
        · exact (hin r (hskipped.mem_window hr hrow le_rfl)).2.2
      · exact (hgone s hs).le.trans_eq hseq
  · rintro rfl hne
    refine ⟨?_, ?_, ?_⟩
    · intro r hr hlow hhigh
      by_contra hmessage
      have hmem := hcovers r hr (by simpa using hmessage) hlow hhigh
      cases hmem
    · -- Every row up to the position lies in the window.
      have hsub :
        ((rowsBehind db after).filter fun r =>
          r.seq ≤ readTo after ((rowsBehind db after).take scanLimit))
          ⊆ (rowsBehind db after).take scanLimit := by
        intro r hr
        obtain ⟨hmem, hhigh⟩ := List.mem_filter.mp hr
        exact hall r (mem_rowsBehind.mp hmem).1 (mem_rowsBehind.mp hmem).2 (by simpa using hhigh)
      have hnodup : (rowsBehind db after).Nodup := (ordered_rowsBehind db after).imp fun h heq =>
        absurd (congrArg Row.seq heq) h.ne
      exact ((hnodup.filter _).subperm hsub).length_le.trans (List.length_take_le _ _)
    · rcases hreaches with hnil | ⟨-, hrow⟩
      · exact absurd (by rw [hnil]; rfl) hne
      · exact .inl hrow
  · intro hne
    obtain ⟨record, hrecord⟩ := List.exists_mem_of_ne_nil _ hne
    have hmem : record.seq ∈ (((rowsBehind db after).take scanLimit).filter isMessage).map
        Row.seq :=
      hrows ▸ List.mem_map_of_mem hrecord
    obtain ⟨r, hr, -⟩ := List.mem_map.mp hmem
    have := hin r (List.mem_filter.mp hr).1
    omega

/-- Only the first records of a window are selected, and the position moves to the last of them. -/
theorem selected_first {records : List Record} {n : ℕ} (hn : 0 < n) (hlong : n < records.length)
    (hrecords : records.map Record.seq
      = (((rowsBehind db after).take scanLimit).filter isMessage).map Row.seq) :
    Selected db after (records.take n) (((records.take n).getLast?.map Record.seq).getD after) := by
  have hwindow : (rowsBehind db after).take scanLimit <+: rowsBehind db after :=
    List.take_prefix _ _
  obtain ⟨-, hin, hall, -⟩ := readTo_spec hwindow
  have hne : records.take n ≠ [] := by
    intro hnil
    have := congrArg List.length hnil
    rw [List.length_take, List.length_nil] at this
    omega
  obtain ⟨front, last, hsplit⟩ : ∃ front last, records.take n = front ++ [last] :=
    ⟨_, _, (List.dropLast_append_getLast hne).symm⟩
  have hthrough : ((records.take n).getLast?.map Record.seq).getD after = last.seq := by
    simp [hsplit]
  rw [hthrough]
  -- A record is a message of the window, and the records are in order.
  have hmessages : ∀ record ∈ records, ∃ r ∈ db.inbox, r ∈ (rowsBehind db after).take scanLimit
      ∧ isMessage r = true ∧ after < r.seq ∧ r.seq = record.seq := by
    intro record hrecord
    have hmem : record.seq ∈ (((rowsBehind db after).take scanLimit).filter isMessage).map
        Row.seq :=
      hrecords ▸ List.mem_map_of_mem hrecord
    obtain ⟨r, hr, hseq⟩ := List.mem_map.mp hmem
    obtain ⟨hr, hmessage⟩ := List.mem_filter.mp hr
    exact ⟨r, (hin r hr).1, hr, hmessage, (hin r hr).2.1, hseq⟩
  have hordered : (records.map Record.seq).Pairwise (· < ·) := by
    rw [hrecords, List.pairwise_map]
    exact ((ordered_rowsBehind db after).sublist hwindow.sublist).sublist List.filter_sublist
  have hlast : last ∈ records := List.mem_of_mem_take (by rw [hsplit]; simp)
  obtain ⟨l, hl, hlwindow, hlmessage, hlow, hlseq⟩ := hmessages last hlast
  refine ⟨.inr ⟨by omega, l, hl, hlseq⟩, ?_, ?_, ?_, ?_⟩
  · intro r hr hmessage hrlow hrhigh
    have hrwindow : r ∈ (rowsBehind db after).take scanLimit :=
      hall r hr hrlow (hrhigh.trans (hlseq ▸ (hin l hlwindow).2.2))
    have hmem : r.seq ∈ records.map Record.seq :=
      hrecords ▸ List.mem_map_of_mem (List.mem_filter.mpr ⟨hrwindow, hmessage⟩)
    rw [← List.take_append_drop n records, List.map_append] at hmem hordered
    rcases List.mem_append.mp hmem with hmem | hmem
    · exact hmem
    · have hlt := (List.pairwise_append.mp hordered).2.2 last.seq
        (List.mem_map_of_mem (by rw [hsplit]; simp)) r.seq hmem
      omega
  · intro _ position hskipped
    by_contra hlt
    have hsilent := hskipped.silent l hl hlow (by omega)
    rw [hlmessage] at hsilent
    cases hsilent
  · intro hnil
    exact absurd hnil hne
  · intro _
    omega

/-- **What a selection covers**, whichever of its two positions it moves to. -/
theorem selection_spec (hp : caps.pointers = false) {rows : List Record} {through : ℕ}
    (h : selection caps db after = .ok (rows, through)) : Selected db after rows through := by
  obtain ⟨s, hs, hret⟩ := except_bind_eq_ok.mp h
  obtain ⟨_, -, hs⟩ := except_bind_eq_ok.mp hs
  obtain ⟨_, -, hs⟩ := except_bind_eq_ok.mp hs
  obtain ⟨hrecords, hthrough⟩ := scanRows_eq_ok hp hs
  obtain ⟨rfl, rfl⟩ := Prod.mk.inj (Except.ok.inj hret)
  rcases le_or_gt s.records.length 10 with hshort | hlong
  · rw [List.take_of_length_le hshort, if_pos hshort, hthrough]
    exact selected_window hrecords
  · rw [if_neg (not_le.mpr hlong)]
    exact selected_first (by norm_num) hlong hrecords

/-! ## One call -/

variable {participant : Text} {s t : Store} {now : ℕ}

/-- A position is published: the file says so, and the process knows of it unless the publication
raised. -/
structure Saved (participant : Text) (s t : Store) (through : ℕ) : Prop where
  cursor : t.cursor = some ⟨participant, through, false⟩
  after : t.after = through ∨ t.after = s.after
  inflight : t.inflight = s.inflight

/-- Saving a position stores it, or fails before or after it is stored. -/
theorem save_spec {outcome : Published} {through : ℕ} {r : Except Exc Unit}
    (h : save participant outcome through s = (r, t)) :
    t = s ∧ r = .error .os
      ∨ Saved participant s t through ∧ (r = .ok () ∧ t.after = through ∨ r = .error .os
        ∧ t.after = s.after) := by
  rcases outcome with _ | ⟨_ | _⟩
  · obtain ⟨rfl, rfl⟩ := Prod.mk.inj h
    exact .inr ⟨⟨rfl, .inl rfl, rfl⟩, .inl ⟨rfl, rfl⟩⟩
  · obtain ⟨rfl, rfl⟩ := Prod.mk.inj h
    exact .inl ⟨rfl, rfl⟩
  · obtain ⟨rfl, rfl⟩ := Prod.mk.inj h
    exact .inr ⟨⟨rfl, .inr rfl, rfl⟩, .inr ⟨rfl, rfl⟩⟩

/-- A cursor of the participant that asks for no journal is taken as it is. -/
theorem legacyCursor_eq_ok {cursor saved : Option Cursor} (h : legacyCursor participant after cursor
    = .ok saved) :
    saved = cursor := by
  obtain ⟨_, -, h⟩ := except_bind_eq_ok.mp h
  rcases cursor with _ | c
  · exact (Except.ok.inj h).symm
  · obtain ⟨_, -, h⟩ := except_bind_eq_ok.mp h
    obtain ⟨_, -, h⟩ := except_bind_eq_ok.mp h
    exact (Except.ok.inj h).symm

/-- An interruption keeps the position and drops the delivery in flight. -/
theorem Store.interrupted_spec (now : ℕ) (s : Store) : (s.interrupted now).after = s.after
    ∧ (s.interrupted now).cursor = s.cursor ∧ (s.interrupted now).inflight = none := by
  unfold Store.interrupted
  split
  · exact ⟨rfl, rfl, rfl⟩
  · next hnone => exact ⟨rfl, rfl, by simpa using hnone⟩

/-- Resuming takes the saved position over, or fails and changes nothing. -/
theorem resume_spec {saved : Option Cursor} {r : Except Exc Unit} (h : resume saved s = (r, t)) :
    t = s ∧ (r ≠ .ok () ∨ saved = none) ∨ ∃ c, saved = some c
    ∧ t = { s with after := c.through } := by
  rcases saved with _ | c
  · exact .inl ⟨(Prod.mk.inj h).2.symm, .inr rfl⟩
  · unfold resume at h
    obtain ⟨v, u, hv, h⟩ := (Prog.bind_inv h).resolve_left (by rintro ⟨e, he, -⟩; cases he)
    obtain ⟨rfl, rfl⟩ : s = v ∧ s = u := ⟨Except.ok.inj (Prod.mk.inj hv).1, (Prod.mk.inj hv).2⟩
    rcases Prog.bind_inv h with ⟨e, he, rfl⟩ | ⟨_, u, hu, h⟩
    · exact .inl ⟨(Prod.mk.inj he).2.symm, .inl fun hr => by cases hr⟩
    · obtain ⟨-, rfl⟩ := Prod.mk.inj hu
      exact .inr ⟨c, rfl, (Prod.mk.inj h).2.symm⟩

/-- A saved position that is not behind is resumed from. -/
theorem resume_eq_ok {saved : Option Cursor}
    (h : ∀ c, saved = some c → c.journalRequired = false ∧ s.after ≤ c.through) :
    ∃ t, resume saved s = (.ok (), t) := by
  rcases saved with _ | c
  · exact ⟨s, rfl⟩
  · obtain ⟨hjournal, hle⟩ := h c rfl
    have hraise : raiseIf (c.journalRequired || decide (c.through < s.after))
      (Exc.journal .recoveryRequired)
        = .ok () := by
      refine raiseIf_eq_ok.mpr ?_
      rw [hjournal, Bool.false_or]
      exact decide_eq_false (not_lt.mpr hle)
    have hlift : (Prog.lift (raiseIf (c.journalRequired || decide (c.through < s.after))
        (Exc.journal .recoveryRequired)) : M Unit) s = (.ok (), s) := Prod.ext hraise rfl
    exact ⟨{ s with after := c.through }, (Prog.bind_ok rfl).trans ((Prog.bind_ok hlift).trans rfl)⟩

/-- `ready` leaves the file alone; where it returns, the process is at the saved position. -/
theorem ready_spec {r : Except Exc Unit} (h : Legacy.ready participant now s = (r, t)) :
    t.cursor = s.cursor ∧ (t.inflight = none ∨ t.inflight = s.inflight)
      ∧ (t.after = s.after ∧ r ≠ .ok () ∨ t.after = (s.cursor.map Cursor.through).getD s.after
        ∧ t.inflight = none) := by
  obtain ⟨hafter, hcursor, hinflight⟩ := s.interrupted_spec now
  unfold Legacy.ready at h
  rcases Prog.bind_inv h with ⟨e, he, rfl⟩ | ⟨_, u, hu, h⟩
  · obtain ⟨-, rfl⟩ := Prod.mk.inj he
    exact ⟨rfl, .inr rfl, .inl ⟨rfl, fun hr => by cases hr⟩⟩
  obtain ⟨-, rfl⟩ := Prod.mk.inj hu
  obtain ⟨_, u, hu, h⟩ := (Prog.bind_inv h).resolve_left (by rintro ⟨e, he, -⟩; cases he)
  have hu' : s.interrupted now = u := (Prod.mk.inj hu).2
  obtain ⟨v, u', hv, h⟩ := (Prog.bind_inv h).resolve_left (by rintro ⟨e, he, -⟩; cases he)
  obtain ⟨rfl, rfl⟩ : u = v ∧ u = u' := ⟨Except.ok.inj (Prod.mk.inj hv).1, (Prod.mk.inj hv).2⟩
  rw [hu'] at hafter hcursor hinflight
  rcases Prog.bind_inv h with ⟨e, he, rfl⟩ | ⟨saved, u', hu'', h⟩
  · obtain ⟨-, rfl⟩ := Prod.mk.inj he
    exact ⟨hcursor, .inl hinflight, .inl ⟨hafter, fun hr => by cases hr⟩⟩
  obtain ⟨hsaved, rfl⟩ := Prod.mk.inj hu''
  obtain rfl := legacyCursor_eq_ok hsaved
  rw [← hcursor, ← hafter]
  rcases resume_spec h with ⟨rfl, hr⟩ | ⟨c, hc, rfl⟩
  · refine ⟨rfl, .inl hinflight, ?_⟩
    rcases hr with hr | hc
    · exact .inl ⟨rfl, hr⟩
    · exact .inr ⟨by rw [hc]; rfl, hinflight⟩
  · exact ⟨rfl, .inl hinflight, .inr ⟨by rw [hc]; rfl, hinflight⟩⟩

/-- Preparing saves a position behind which nothing is selected, or changes nothing. -/
theorem prepare_spec {outcome : Published} {r : Except Exc (List ℕ)}
    (h : Legacy.prepare caps participant db now outcome s = (r, t)) :
    t = s ∨ ∃ through, selection caps db s.after = .ok ([], through) ∧ s.after < through
      ∧ Saved participant s t through := by
  unfold Legacy.prepare at h
  rcases Prog.bind_inv h with ⟨e, he, -⟩ | ⟨_, u, hu, h⟩
  · exact .inl (Prod.mk.inj he).2.symm
  obtain ⟨-, rfl⟩ := Prod.mk.inj hu
  obtain ⟨_, u, hu, h⟩ := (Prog.bind_inv h).resolve_left (by rintro ⟨e, he, -⟩; cases he)
  obtain ⟨hu1, rfl⟩ := Prod.mk.inj hu
  obtain rfl := Except.ok.inj hu1
  split at h
  · exact .inl (Prod.mk.inj h).2.symm
  · rcases Prog.bind_inv h with ⟨e, he, -⟩ | ⟨⟨rows, through⟩, u, hu, h⟩
    · exact .inl (Prod.mk.inj he).2.symm
    obtain ⟨hselection, rfl⟩ := Prod.mk.inj hu
    simp only at h
    split at h
    · next hsave =>
      obtain ⟨hnil, hlt⟩ := hsave
      obtain rfl : rows = [] := by simpa using hnil
      have hsaved : ∃ r', save participant outcome through s = (r', t) := by
        rcases Prog.bind_inv h with ⟨e, he, -⟩ | ⟨_, u, hu, h⟩
        · exact ⟨_, he⟩
        · obtain ⟨-, rfl⟩ := Prod.mk.inj h
          exact ⟨_, hu⟩
      obtain ⟨r', hr'⟩ := hsaved
      rcases save_spec hr' with ⟨rfl, -⟩ | ⟨hsaved, -⟩
      · exact .inl rfl
      · exact .inr ⟨through, hselection, hlt, hsaved⟩
    · exact .inl (Prod.mk.inj h).2.symm

/-- A reservation takes the selected rows in flight, or takes nothing. -/
theorem reserveNext_spec {outcome : Published} {r : Except Exc (List Record)}
    (h : reserveNext caps participant db now outcome s = (r, t)) :
    t = s ∧ (∀ rows, r = .ok rows → rows = [])
      ∨ (∃ rows through, selection caps db s.after = .ok (rows, through) ∧ rows ≠ [] ∧ r = .ok rows
        ∧ t = { s with inflight := some through })
      ∨ ∃ through, selection caps db s.after = .ok ([], through) ∧ s.after < through
        ∧ Saved participant s t through ∧ (∀ rows, r = .ok rows → rows = []
          ∧ t.after = through) := by
  unfold reserveNext at h
  rcases Prog.bind_inv h with ⟨e, he, rfl⟩ | ⟨_, u, hu, h⟩
  · exact .inl ⟨(Prod.mk.inj he).2.symm, fun rows hr => by cases hr⟩
  obtain ⟨-, rfl⟩ := Prod.mk.inj hu
  obtain ⟨v, u, hv, h⟩ := (Prog.bind_inv h).resolve_left (by rintro ⟨e, he, -⟩; cases he)
  obtain ⟨rfl, rfl⟩ : s = v ∧ s = u := ⟨Except.ok.inj (Prod.mk.inj hv).1, (Prod.mk.inj hv).2⟩
  rcases Prog.bind_inv h with ⟨e, he, rfl⟩ | ⟨_, u, hu, h⟩
  · exact .inl ⟨(Prod.mk.inj he).2.symm, fun rows hr => by cases hr⟩
  obtain ⟨-, rfl⟩ := Prod.mk.inj hu
  split at h
  · obtain ⟨rfl, rfl⟩ := Prod.mk.inj h
    exact .inl ⟨rfl, fun rows hr => (Except.ok.inj hr).symm⟩
  rcases Prog.bind_inv h with ⟨e, he, rfl⟩ | ⟨⟨rows, through⟩, u, hu, h⟩
  · exact .inl ⟨(Prod.mk.inj he).2.symm, fun rows hr => by cases hr⟩
  obtain ⟨hselection, rfl⟩ := Prod.mk.inj hu
  simp only at h
  split at h
  · next hrows =>
    obtain ⟨_, u, hu, h⟩ := (Prog.bind_inv h).resolve_left (by rintro ⟨e, he, -⟩; cases he)
    have hu' : { s with inflight := some through } = u := (Prod.mk.inj hu).2
    obtain ⟨rfl, rfl⟩ := Prod.mk.inj h
    exact .inr (.inl ⟨rows, through, hselection, by simpa using hrows, rfl, hu'.symm⟩)
  · next hrows =>
    obtain rfl : rows = [] := by simpa using hrows
    split at h
    · next hlt =>
      rcases Prog.bind_inv h with ⟨e, he, rfl⟩ | ⟨⟨⟩, u, hu, h⟩
      · rcases save_spec he with ⟨rfl, -⟩ | ⟨hsaved, -⟩
        · exact .inl ⟨rfl, fun rows hr => by cases hr⟩
        · exact .inr (.inr ⟨through, hselection, hlt, hsaved, fun rows hr => by cases hr⟩)
      · obtain ⟨rfl, rfl⟩ := Prod.mk.inj h
        rcases save_spec hu with ⟨-, hr⟩ | ⟨hsaved, ⟨-, hafter⟩ | ⟨hr, -⟩⟩
        · cases hr
        · exact .inr (.inr ⟨through, hselection, hlt, hsaved, fun rows hr =>
            ⟨(Except.ok.inj hr).symm, hafter⟩⟩)
        · cases hr
    · obtain ⟨rfl, rfl⟩ := Prod.mk.inj h
      exact .inl ⟨rfl, fun rows hr => (Except.ok.inj hr).symm⟩

/-- Resolving saves the position of a delivery, and of nothing else. -/
theorem resolve_spec {outcome : Journal.Outcome} {published : Published} {through : ℕ}
    {r : Except Exc Unit}
    (hinflight : s.inflight = some through) (h : Legacy.resolve participant outcome now published s
      = (r, t)) :
    t = s ∧ r ≠ .ok ()
      ∨ outcome ≠ .delivered ∧ t.cursor = s.cursor ∧ t.after = s.after ∧ t.inflight = none
      ∨ outcome = .delivered ∧ t.cursor = some ⟨participant, through, false⟩
        ∧ (t.after = s.after ∧ r ≠ .ok () ∨ t.after = through ∧ t.inflight = none) := by
  unfold Legacy.resolve at h
  rcases Prog.bind_inv h with ⟨e, he, rfl⟩ | ⟨_, u, hu, h⟩
  · exact .inl ⟨(Prod.mk.inj he).2.symm, fun hr => by cases hr⟩
  obtain ⟨-, rfl⟩ := Prod.mk.inj hu
  obtain ⟨v, u, hv, h⟩ := (Prog.bind_inv h).resolve_left (by rintro ⟨e, he, -⟩; cases he)
  obtain ⟨rfl, rfl⟩ : s = v ∧ s = u := ⟨Except.ok.inj (Prod.mk.inj hv).1, (Prod.mk.inj hv).2⟩
  rw [hinflight] at h
  simp only at h
  split at h
  · next hdelivered =>
    rcases Prog.bind_inv h with ⟨e, he, rfl⟩ | ⟨⟨⟩, u, hu, h⟩
    · rcases save_spec he with ⟨rfl, -⟩ | ⟨hsaved, ⟨hr, -⟩ | ⟨-, hafter⟩⟩
      · exact .inl ⟨rfl, fun hr => by cases hr⟩
      · cases hr
      · exact .inr (.inr ⟨hdelivered, hsaved.cursor, .inl ⟨hafter, fun hr => by cases hr⟩⟩)
    · rcases save_spec hu with ⟨-, hr⟩ | ⟨hsaved, ⟨-, hafter⟩ | ⟨hr, -⟩⟩
      · cases hr
      · have ht : { { u with retryAt := 0 } with inflight := none } = t := (Prod.mk.inj h).2
        rw [← ht]
        exact .inr (.inr ⟨hdelivered, hsaved.cursor, .inr ⟨hafter, rfl⟩⟩)
      · cases hr
  · next hdelivered =>
    have ht : { { s with retryAt := now + 30 } with inflight := none } = t := (Prod.mk.inj h).2
    rw [← ht]
    exact .inr (.inl ⟨hdelivered, rfl, rfl, rfl⟩)

/-! ## The invariant -/

/-- What a running notifier says about the inbox and the file. -/
structure Held (w : World) (start : ℕ) (p : Process) : Prop where
  pointers : p.caps.pointers = false
  behind : p.after ≤ w.position start
  unsaved : w.cursor = none → p.after = start
  idle : p.inflight.isSome = true → p.loop = .reserved ∨ p.loop = .resting false
  /-- A settled process is at the saved position, or behind it with nothing but skipped rows
  between. -/
  settled : p.loop ≠ .resting false → p.after = w.position start
    ∨ Skipped w.db p.after (w.position start) ∧ w.position start ≤ w.db.head
  /-- The notice under way holds every message up to the position it moves to. -/
  underway : p.loop = .reserved → ∃ through, p.inflight = some through ∧ w.position start ≤ through
    ∧ through ≤ w.db.head ∧ ∀ r ∈ w.db.inbox, isMessage r = true → p.after < r.seq →
    r.seq ≤ through → r.seq ∈ p.notice

/-- The invariant of the system. -/
structure Inv (participant : Text) (start : ℕ) (w : World) : Prop where
  wf : w.db.WellFormed
  cursor : ∀ c, w.cursor = some c → c.thread = participant ∧ c.journalRequired = false
    ∧ c.through ≤ maxSequence
  reached : w.position start = start ∨ start < w.position start ∧ w.position start ≤ w.db.head
  delivered : ∀ r ∈ w.db.inbox, isMessage r = true → start < r.seq → r.seq ≤ w.position start →
    r.seq ∈ w.delivered
  process : ∀ p, w.process = some p → Held w start p

variable {start : ℕ} {w w' : World} {p : Process}

/-! ### Arrivals and acknowledgements -/

/-- Rows are removed from the front only. -/
def Trimmed (db db' : Db) : Prop := ∀ r ∈ db.inbox, r ∈ db'.inbox ∨ ∀ s ∈ db'.inbox, r.seq < s.seq

/-- Storing a frame removes no row. -/
theorem trimmed_store (hwf : db.WellFormed) (now : ℚ) (pid : ℕ) (frame : Json) :
    Trimmed db (db.after (.store now pid frame)) := by
  intro r hr
  left
  unfold Db.after
  rcases hop : (Op.store now pid frame).apply db with e | db'
  · exact hr
  · obtain ⟨-, rfl⟩ := insert_eq_ok (store_eq_ok hop).2.2
    have := (hwf.rows r hr).2
    exact Table.mem_put.mpr (.inl ⟨hr, by simp only; omega⟩)

/-- An acknowledgement removes the rows up to its position only. -/
theorem trimmed_acknowledge (db : Db) (through : ℕ) :
    Trimmed db (db.after (.acknowledge through)) := by
  intro r hr
  have hmem : ∀ s : Row, s ∈ (db.after (.acknowledge through)).inbox ↔ s ∈ db.inbox
      ∧ ¬ s.seq ≤ min through db.head := by
    intro s
    exact Table.mem_remove.trans (and_congr_right fun _ => decide_eq_false_iff_not)
  rcases le_or_gt r.seq (min through db.head) with hle | hgt
  · right
    intro s hs
    exact hle.trans_lt (not_le.mp ((hmem s).mp hs).2)
  · exact .inl ((hmem r).mpr ⟨hr, not_le.mpr hgt⟩)

/-- What was skipped rightly stays so when rows are acknowledged or added above. -/
theorem Skipped.trimmed {position : ℕ} (h : Skipped db after position) (hhead : position ≤ db.head)
    (hmoved : Moved db db') (htrimmed : Trimmed db db') : Skipped db' after position := by
  have hold : ∀ r ∈ db'.inbox, r.seq ≤ position → r ∈ db.inbox := by
    intro r hr hle
    rcases hmoved.fresh r hr with hr | hlt
    · exact hr
    · omega
  refine ⟨?_, ?_, ?_⟩
  · intro r hr hlow hhigh
    exact h.silent r (hold r hr hhigh) hlow hhigh
  · have hsub : ((rowsBehind db' after).filter fun r => r.seq ≤ position)
        ⊆ (rowsBehind db after).filter fun r => r.seq ≤ position := by
      intro r hr
      obtain ⟨hmem, hhigh⟩ := List.mem_filter.mp hr
      obtain ⟨hin, hlow⟩ := mem_rowsBehind.mp hmem
      exact List.mem_filter.mpr ⟨mem_rowsBehind.mpr ⟨hold r hin (by simpa using hhigh), hlow⟩,
        hhigh⟩
    have hnodup : (rowsBehind db' after).Nodup := (ordered_rowsBehind db' after).imp fun h heq =>
      absurd (congrArg Row.seq heq) h.ne
    exact ((hnodup.filter _).subperm hsub).length_le.trans h.few
  · rcases h.anchored with ⟨r, hr, rfl⟩ | hgone
    · rcases htrimmed r hr with hr | hgone
      · exact .inl ⟨r, hr, rfl⟩
      · exact .inr hgone
    · right
      intro r hr
      rcases hmoved.fresh r hr with hr | hlt
      · exact hgone r hr
      · omega

/-- The bridge stores or acknowledges. -/
theorem Inv.inbox (h : Inv participant start w) (hwf : db'.WellFormed) (hmoved : Moved w.db db')
    (htrimmed : Trimmed w.db db') : Inv participant start { w with db := db' } := by
  have hold : ∀ n ≤ w.db.head, ∀ r ∈ db'.inbox, r.seq ≤ n → r ∈ w.db.inbox := by
    intro n hn r hr hle
    rcases hmoved.fresh r hr with hr | hlt
    · exact hr
    · omega
  refine ⟨hwf, h.cursor, ?_, ?_, ?_⟩
  · rcases h.reached with heq | ⟨hlt, hle⟩
    · exact .inl heq
    · exact .inr ⟨hlt, hle.trans hmoved.head_le⟩
  · intro r hr hmessage hlow hhigh
    rcases h.reached with heq | ⟨-, hle⟩
    · have hposition : r.seq ≤ w.position start := hhigh
      omega
    · exact h.delivered r (hold _ hle r hr hhigh) hmessage hlow hhigh
  · intro p hp
    have held := h.process p hp
    refine ⟨held.pointers, held.behind, held.unsaved, held.idle, ?_, ?_⟩
    · intro hloop
      rcases held.settled hloop with heq | ⟨hskipped, hle⟩
      · exact .inl heq
      · exact .inr ⟨hskipped.trimmed hle hmoved htrimmed, hle.trans hmoved.head_le⟩
    · intro hloop
      obtain ⟨through, hinflight, hposition, hle, hnotice⟩ := held.underway hloop
      refine ⟨through, hinflight, hposition, hle.trans hmoved.head_le, ?_⟩
      intro r hr hmessage hlow hhigh
      exact hnotice r (hold _ hle r hr hhigh) hmessage hlow hhigh

/-! ### Calls -/

/-- A call that leaves the file alone. -/
theorem Inv.kept (h : Inv participant start w) {loop : Loop} {notice : List ℕ}
    (hcursor : s.cursor = w.cursor)
    (held : ∀ p', (w.called p s loop notice).process = some p' →
      Held (w.called p s loop notice) start p') :
    Inv participant start (w.called p s loop notice)
      ∧ w.position start ≤ (w.called p s loop notice).position start := by
  have hposition : (w.called p s loop notice).position start = w.position start := by
    rw [World.position, World.position, World.called, hcursor]
  refine ⟨⟨h.wf, ?_, ?_, ?_, held⟩, hposition.ge⟩
  · intro c hc
    exact h.cursor c (hcursor.symm.trans hc)
  · rw [hposition]
    exact h.reached
  · rw [hposition]
    exact h.delivered

/-- A call that changes nothing in the worker. -/
theorem Inv.unchanged (h : Inv participant start w) (hp : w.process = some p) {loop : Loop}
    {notice : List ℕ}
    (hidle : p.inflight.isSome = true → loop = .resting false) (hloop : loop ≠ .reserved)
    (hsettled : loop ≠ .resting false → p.loop ≠ .resting false) :
    Inv participant start (w.called p (p.store w.cursor) loop notice)
      ∧ w.position start ≤ (w.called p (p.store w.cursor) loop notice).position start := by
  refine h.kept rfl ?_
  rintro p' hp'
  obtain rfl := Option.some.inj hp'
  have held := h.process p hp
  exact ⟨held.pointers, held.behind, held.unsaved, fun hsome => .inr (hidle hsome),
    fun hne => held.settled (hsettled hne), fun heq => absurd heq hloop⟩

/-- A settled process publishes the end of a selection without messages. -/
theorem Inv.saved (h : Inv participant start w) (hp : w.process = some p)
    (hsettled : p.loop ≠ .resting false)
    (hinflight : p.inflight = none) {through : ℕ} (hselection : selection p.caps w.db p.after
      = .ok ([], through))
    (hlt : p.after < through) (hsaved : Saved participant (p.store w.cursor) s through)
    {loop : Loop}
    {notice : List ℕ} (hloop : loop ≠ .reserved) :
    Inv participant start (w.called p s loop notice)
      ∧ w.position start ≤ (w.called p s loop notice).position start := by
  have held := h.process p hp
  have hselected := selection_spec held.pointers hselection
  have hne : through ≠ p.after := hlt.ne'
  obtain ⟨-, row, hrow, rfl⟩ := hselected.reaches.resolve_left hne
  have hhead := (h.wf.rows row hrow).2
  have hpasses : w.position start ≤ row.seq := by
    rcases held.settled hsettled with heq | ⟨hskipped, -⟩
    · exact heq ▸ hlt.le
    · exact hselected.passes hne _ hskipped
  have hposition : (w.called p s loop notice).position start = row.seq := by
    rw [World.position, World.called, hsaved.cursor]
    rfl
  have hstart : start ≤ w.position start := by
    rcases h.reached with heq | ⟨hlt, -⟩
    · exact heq.ge
    · exact hlt.le
  refine ⟨⟨h.wf, ?_, ?_, ?_, ?_⟩, hposition.symm ▸ hpasses⟩
  · intro c hc
    obtain rfl := Option.some.inj (hsaved.cursor.symm.trans hc)
    exact ⟨rfl, rfl, hhead.trans h.wf.head_le⟩
  · rw [hposition]
    rcases eq_or_lt_of_le (hstart.trans hpasses) with heq | hlt
    · exact .inl heq.symm
    · exact .inr ⟨hlt, hhead⟩
  · rw [hposition]
    intro r hr hmessage hlow hhigh
    rcases le_or_gt r.seq (w.position start) with hold | hnew
    · exact h.delivered r hr hmessage hlow hold
    · have hmem := hselected.covers r hr hmessage (held.behind.trans_lt hnew) hhigh
      cases hmem
  · rintro p' hp'
    obtain rfl := Option.some.inj hp'
    have hnone : s.inflight = none := hsaved.inflight.trans hinflight
    refine ⟨held.pointers, ?_, ?_, ?_, ?_, fun heq => absurd heq hloop⟩
    · rw [hposition]
      rcases hsaved.after with heq | heq
      · exact heq.le
      · exact (heq.trans_lt hlt).le
    · intro hcursor
      cases hsaved.cursor.symm.trans hcursor
    · intro hsome
      cases hnone ▸ hsome
    · intro _
      rw [hposition]
      rcases hsaved.after with heq | heq
      · exact .inl heq
      · have hafter : s.after = p.after := heq
        exact .inr ⟨hafter ▸ hselected.skips rfl hne, hhead⟩

/-- Before anything is saved the position is the one the notifier is started from. -/
theorem position_of_unsaved (w : World) (start : ℕ) (h : w.cursor = none) :
    w.position start = start := by
  rw [World.position, h]
  rfl

/-- An unresolved process goes back to the saved position. -/
theorem Inv.ready (h : Inv participant start w) (hp : w.process = some p)
    {r : Except Exc Unit} (hcall : Legacy.ready participant now (p.store w.cursor) = (r, s))
    {loop : Loop}
    (hnext : loop = .resting false ∨ r = .ok () ∧ loop = .started) :
    Inv participant start (w.called p s loop [])
    ∧ w.position start ≤ (w.called p s loop []).position start := by
  have held := h.process p hp
  obtain ⟨hcursor, hinflight, hafter⟩ := ready_spec hcall
  refine h.kept hcursor ?_
  rintro p' hp'
  obtain rfl := Option.some.inj hp'
  have hposition : (w.called p s loop []).position start = w.position start := by
    rw [World.position, World.position, World.called, hcursor]
    rfl
  have hback : (w.cursor.map Cursor.through).getD p.after = w.position start := by
    rcases hw : w.cursor with _ | c
    · rw [position_of_unsaved w start hw]
      exact held.unsaved hw
    · rw [World.position, hw]
      rfl
  have hreached : s.after = p.after ∧ r ≠ .ok () ∨ s.after = w.position start
      ∧ s.inflight = none := by
    rcases hafter with hafter | ⟨hafter, hnone⟩
    · exact .inl hafter
    · exact .inr ⟨hafter.trans hback, hnone⟩
  refine ⟨held.pointers, ?_, ?_, ?_, ?_, ?_⟩
  · rw [hposition]
    rcases hreached with ⟨heq, -⟩ | ⟨heq, -⟩
    · exact heq.trans_le held.behind
    · exact heq.le
  · intro hnone
    have hw : w.cursor = none := hcursor.symm.trans hnone
    rcases hreached with ⟨heq, -⟩ | ⟨heq, -⟩
    · exact heq.trans (held.unsaved hw)
    · exact heq.trans (position_of_unsaved w start hw)
  · intro hsome
    rcases hnext with rfl | ⟨rfl, rfl⟩
    · exact .inr rfl
    · rcases hreached with ⟨-, hr⟩ | ⟨-, hnone⟩
      · exact absurd rfl hr
      · cases hnone ▸ hsome
  · intro hne
    rcases hnext with rfl | ⟨rfl, rfl⟩
    · exact absurd rfl hne
    · rcases hreached with ⟨-, hr⟩ | ⟨heq, -⟩
      · exact absurd rfl hr
      · exact .inl (heq.trans hposition.symm)
  · intro heq
    rcases hnext with rfl | ⟨-, rfl⟩
    · cases heq
    · cases heq

/-- A settled process reserves rows. -/
theorem Inv.reserved (h : Inv participant start w) (hp : w.process = some p)
    (hsettled : p.loop ≠ .resting false)
    {rows : List Record} {through : ℕ} (hselection : selection p.caps w.db p.after
      = .ok (rows, through))
    (hrows : rows ≠ []) {loop : Loop} (hloop : loop = .reserved ∨ loop = .resting false) :
    Inv participant start
        (w.called p { p.store w.cursor with inflight := some through } loop (rows.map Record.seq))
      ∧ w.position start
        ≤ (w.called p { p.store w.cursor with inflight := some through } loop
          (rows.map Record.seq)).position start := by
  have held := h.process p hp
  have hselected := selection_spec held.pointers hselection
  have hne := hselected.moves hrows
  obtain ⟨hlt, row, hrow, rfl⟩ := hselected.reaches.resolve_left hne
  refine h.kept rfl ?_
  rintro p' hp'
  obtain rfl := Option.some.inj hp'
  refine ⟨held.pointers, held.behind, held.unsaved, fun _ => hloop, fun _ =>
    held.settled hsettled, ?_⟩
  intro _
  refine ⟨row.seq, rfl, ?_, (h.wf.rows row hrow).2, hselected.covers⟩
  rcases held.settled hsettled with heq | ⟨hskipped, -⟩
  · exact (heq ▸ hlt.le : w.position start ≤ row.seq)
  · exact hselected.passes hne _ hskipped

/-- The attempt under way ends. A delivered notice has announced every message up to its
position. -/
theorem Inv.resolved (h : Inv participant start w) (hp : w.process = some p)
    (hloop : p.loop = .reserved)
    {outcome : Journal.Outcome} {published : Published} {r : Except Exc Unit}
    (hcall : Legacy.resolve participant outcome now published (p.store w.cursor) = (r, s))
    {loop : Loop}
    (hnext : loop = .resting false ∨ r = .ok () ∧ loop = .resting true) :
    Inv participant start ((w.noted p outcome).called p s loop [])
      ∧ w.position start ≤ ((w.noted p outcome).called p s loop []).position start := by
  have held := h.process p hp
  have hstart : start ≤ w.position start := by
    rcases h.reached with heq | ⟨hlt, -⟩
    · exact heq.ge
    · exact hlt.le
  obtain ⟨through, hinflight, hpasses, hhead, hcovers⟩ := held.underway hloop
  have hsettled : p.loop ≠ .resting false := by
    rw [hloop]
    intro heq
    cases heq
  have hnotreserved : loop ≠ .reserved := by
    rintro rfl
    rcases hnext with heq | ⟨-, heq⟩
    · cases heq
    · cases heq
  have hdelivered : w.delivered ⊆ (w.noted p outcome).delivered := by
    unfold World.noted
    split
    · exact List.subset_append_right _ _
    · exact List.Subset.refl _
  have hnotice : outcome = .delivered → p.notice ⊆ (w.noted p outcome).delivered := by
    rintro rfl
    exact List.subset_append_left _ _
  -- Noting down what was delivered changes nothing else.
  have hnoted : Inv participant start (w.noted p outcome) :=
    ⟨h.wf, h.cursor, h.reached, fun r hr hmessage hlow hhigh =>
      hdelivered (h.delivered r hr hmessage hlow hhigh),
      fun p' hp' => ⟨(h.process p' hp').pointers, (h.process p' hp').behind,
        (h.process p' hp').unsaved,
        (h.process p' hp').idle, (h.process p' hp').settled, (h.process p' hp').underway⟩⟩
  rcases resolve_spec hinflight hcall with ⟨rfl, hr⟩ | ⟨-, hcursor, hafter, hnone⟩ | ⟨houtcome,
    hcursor, hafter⟩
  · obtain rfl : loop = .resting false := hnext.resolve_right fun h => hr h.1
    exact hnoted.unchanged hp (fun _ => rfl) hnotreserved fun hne => absurd rfl hne
  · refine hnoted.kept hcursor ?_
    rintro p' hp'
    obtain rfl := Option.some.inj hp'
    have hsame : s.after = p.after := hafter
    have hposition : ((w.noted p outcome).called p s loop []).position start
        = w.position start := by
      rw [World.position, World.position, World.called, hcursor]
      rfl
    refine ⟨held.pointers, ?_, ?_, ?_, ?_, fun heq => absurd heq hnotreserved⟩
    · rw [hposition]
      exact hsame.trans_le held.behind
    · intro hw
      exact hsame.trans (held.unsaved (hcursor.symm.trans hw))
    · intro hsome
      cases hnone ▸ hsome
    · intro _
      rw [hposition]
      have hold := held.settled hsettled
      rw [← hsame] at hold
      exact hold
  · have hposition : ((w.noted p outcome).called p s loop []).position start = through := by
      rw [World.position, World.called, hcursor]
      rfl
    refine ⟨⟨h.wf, ?_, ?_, ?_, ?_⟩, hposition.symm ▸ hpasses⟩
    · intro c hc
      obtain rfl := Option.some.inj (hcursor.symm.trans hc)
      exact ⟨rfl, rfl, hhead.trans h.wf.head_le⟩
    · rw [hposition]
      rcases eq_or_lt_of_le (hstart.trans hpasses) with heq | hlt
      · exact .inl heq.symm
      · exact .inr ⟨hlt, hhead⟩
    · rw [hposition]
      intro row hrow hmessage hlow hhigh
      rcases le_or_gt row.seq (w.position start) with hold | hnew
      · exact hdelivered (h.delivered row hrow hmessage hlow hold)
      · exact hnotice houtcome (hcovers row hrow hmessage (held.behind.trans_lt hnew) hhigh)
    · rintro p' hp'
      obtain rfl := Option.some.inj hp'
      refine ⟨held.pointers, ?_, ?_, ?_, ?_, fun heq => absurd heq hnotreserved⟩
      · rw [hposition]
        rcases hafter with ⟨heq, -⟩ | ⟨heq, -⟩
        · exact heq.trans_le (held.behind.trans hpasses)
        · exact heq.le
      · intro hw
        cases hcursor.symm.trans hw
      · intro hsome
        rcases hnext with heq | ⟨rfl, -⟩
        · exact .inr heq
        · rcases hafter with ⟨-, hr⟩ | ⟨-, hnone⟩
          · exact absurd rfl hr
          · cases hnone ▸ hsome
      · intro hne
        rw [hposition]
        rcases hnext with heq | ⟨rfl, -⟩
        · exact absurd heq hne
        · rcases hafter with ⟨-, hr⟩ | ⟨heq, -⟩
          · exact absurd rfl hr
          · exact .inl heq

/-- A notifier that starts is at the saved position. -/
theorem openState_spec {journalFiles : Bool}
    (h : openState caps participant start journalFiles w.db w.cursor = .ok s) :
    caps.pointers = false ∧ s.after = w.position start ∧ s.inflight = none
    ∧ s.cursor = w.cursor := by
  obtain ⟨_, hpointers, h⟩ := except_bind_eq_ok.mp h
  obtain ⟨saved, hsaved, h⟩ := except_bind_eq_ok.mp h
  obtain ⟨_, -, h⟩ := except_bind_eq_ok.mp h
  obtain ⟨_, -, h⟩ := except_bind_eq_ok.mp h
  obtain ⟨_, -, h⟩ := except_bind_eq_ok.mp h
  obtain rfl := legacyCursor_eq_ok hsaved
  obtain rfl := Except.ok.inj h
  exact ⟨raiseIf_eq_ok.mp hpointers, rfl, rfl, rfl⟩

/-- A settled process has no attempt in flight before it reserves one. -/
theorem Held.inflight_eq_none (held : Held w start p) (hsettled : p.loop ≠ .resting false)
    (hreserved : p.loop ≠ .reserved) : p.inflight = none := by
  rcases hsome : p.inflight with _ | through
  · rfl
  · rcases held.idle (by rw [hsome]; rfl) with heq | heq
    · exact absurd heq hreserved
    · exact absurd heq hsettled

/-- Preparing keeps the invariant. -/
theorem Inv.prepare (h : Inv participant start w) (hp : w.process = some p)
    (hsettled : p.loop ≠ .resting false)
    (hreserved : p.loop ≠ .reserved) {outcome : Published} {r : Except Exc (List ℕ)}
    (hcall : Legacy.prepare p.caps participant w.db now outcome (p.store w.cursor) = (r, s))
    {loop : Loop}
    (hloop : loop ≠ .reserved) : Inv participant start (w.called p s loop [])
      ∧ w.position start ≤ (w.called p s loop []).position start := by
  have hnone := (h.process p hp).inflight_eq_none hsettled hreserved
  rcases prepare_spec hcall with rfl | ⟨through, hselection, hlt, hsaved⟩
  · refine h.unchanged hp ?_ hloop fun _ => hsettled
    intro hsome
    cases hnone ▸ hsome
  · exact h.saved hp hsettled hnone hselection hlt hsaved hloop

/-- A reservation keeps the invariant. -/
theorem Inv.reserve (h : Inv participant start w) (hp : w.process = some p)
    (hprepared : p.loop = .prepared)
    {outcome : Published} {r : Except Exc (List Record)}
    (hcall : reserveNext p.caps participant w.db now outcome (p.store w.cursor) = (r, s))
    {loop : Loop}
    {rows : List Record} (hrows : ∀ rows', r = .ok rows' → rows = rows')
    (hloop : loop = .resting false ∨ r = .ok rows ∧ loop = if rows.isEmpty then .resting true
      else .reserved) :
    Inv participant start (w.called p s loop (rows.map Record.seq))
      ∧ w.position start ≤ (w.called p s loop (rows.map Record.seq)).position start := by
  have hsettled : p.loop ≠ .resting false := by
    rw [hprepared]
    intro heq
    cases heq
  have hnone : p.inflight = none := by
    refine (h.process p hp).inflight_eq_none hsettled ?_
    rw [hprepared]
    intro heq
    cases heq
  have hquiet : (∀ rows', r = .ok rows' → rows' = []) → loop ≠ .reserved := by
    rintro hempty rfl
    rcases hloop with heq | ⟨hr, heq⟩
    · cases heq
    · obtain rfl := hempty rows hr
      cases heq
  rcases reserveNext_spec hcall with ⟨rfl, hempty⟩ | ⟨rows', through, hselection, hne, hr, rfl⟩
    | ⟨through, hselection, hlt, hsaved, hempty⟩
  · refine h.unchanged hp ?_ (hquiet hempty) fun _ => hsettled
    intro hsome
    cases hnone ▸ hsome
  · obtain rfl := hrows rows' hr
    refine h.reserved hp hsettled hselection hne ?_
    rcases hloop with heq | ⟨-, heq⟩
    · exact .inr heq
    · left
      have hnonempty : rows.isEmpty = false := by simpa using hne
      rw [heq, hnonempty]
      rfl
  · exact h.saved hp hsettled hnone hselection hlt hsaved (hquiet fun rows' hr =>
      (hempty rows' hr).1)

/-- Giving up an attempt keeps the invariant. -/
theorem Inv.abandon (h : Inv participant start w) (hp : w.process = some p) :
    Inv participant start { w with process := some { p with loop := p.loop.abandoned } } := by
  refine ⟨h.wf, h.cursor, h.reached, h.delivered, ?_⟩
  rintro p' hp'
  obtain rfl := Option.some.inj hp'
  have held := h.process p hp
  refine ⟨held.pointers, held.behind, held.unsaved, ?_, ?_, ?_⟩
  · intro hsome
    right
    rcases held.idle hsome with heq | heq
    · exact congrArg Loop.abandoned heq
    · exact congrArg Loop.abandoned heq
  · intro hne
    refine held.settled fun heq => hne ?_
    exact congrArg Loop.abandoned heq
  · intro heq
    have hnever : ∀ loop : Loop, loop.abandoned ≠ .reserved := by
      rintro (_ | _ | _ | _) hcontra
      · cases hcontra
      · cases hcontra
      · cases hcontra
      · cases hcontra
    exact absurd heq (hnever p.loop)

/-- **Every event keeps the invariant, and the position never goes back.** -/
theorem Inv.next (h : Inv participant start w) {e : Event}
    (hnext : w.next participant start e = some w') :
    Inv participant start w' ∧ w.position start ≤ w'.position start := by
  cases e with
  | store now pid frame =>
    obtain rfl := Option.some.inj hnext
    exact ⟨h.inbox (h.wf.after _) (moved_after _ _) (trimmed_store h.wf now pid frame), le_rfl⟩
  | acknowledge through =>
    obtain rfl := Option.some.inj hnext
    exact ⟨h.inbox (h.wf.after _) (moved_after _ _) (trimmed_acknowledge w.db through), le_rfl⟩
  | start caps journalFiles =>
    rcases hp : w.process with _ | p
    · simp only [World.next, hp] at hnext
      split at hnext
      · obtain rfl := Option.some.inj hnext
        exact ⟨h, le_rfl⟩
      · next s hs =>
        obtain rfl := Option.some.inj hnext
        obtain ⟨hpointers, hafter, hinflight, -⟩ := openState_spec hs
        refine ⟨⟨h.wf, h.cursor, h.reached, h.delivered, ?_⟩, le_rfl⟩
        rintro p' hp'
        obtain rfl := Option.some.inj hp'
        refine ⟨hpointers, hafter.le, ?_, ?_, fun hne => absurd rfl hne, fun heq => by cases heq⟩
        · intro hnone
          exact hafter.trans (position_of_unsaved w start hnone)
        · intro hsome
          cases hinflight ▸ hsome
    · simp [World.next, hp] at hnext
  | crash =>
    rcases hp : w.process with _ | p
    · simp [World.next, hp] at hnext
    · simp only [World.next, hp] at hnext
      obtain rfl := Option.some.inj hnext
      exact ⟨⟨h.wf, h.cursor, h.reached, h.delivered, fun p' hp' => by cases hp'⟩, le_rfl⟩
  | ready now cancelled =>
    rcases hp : w.process with _ | p
    · simp [World.next, hp] at hnext
    · simp only [World.next, hp] at hnext
      split at hnext
      · split at hnext
        · next s hcall =>
          obtain rfl := Option.some.inj hnext
          refine h.ready hp hcall ?_
          cases cancelled with
          | true => exact .inl rfl
          | false => exact .inr ⟨rfl, rfl⟩
        · next s hcall =>
          obtain rfl := Option.some.inj hnext
          exact h.ready hp hcall (.inl rfl)
      · cases hnext
  | prepare now outcome cancelled =>
    rcases hp : w.process with _ | p
    · simp [World.next, hp] at hnext
    · simp only [World.next, hp] at hnext
      split at hnext
      · next hloop =>
        have hsettled : p.loop ≠ .resting false ∧ p.loop ≠ .reserved := by
          rcases hloop with heq | heq
          · rw [heq]
            decide
          · rw [heq]
            decide
        split at hnext
        · next sequences s hcall =>
          obtain rfl := Option.some.inj hnext
          refine h.prepare hp hsettled.1 hsettled.2 hcall ?_
          split
          · exact fun heq => by cases heq
          · exact fun heq => by cases heq
        · next s hcall =>
          obtain rfl := Option.some.inj hnext
          exact h.prepare hp hsettled.1 hsettled.2 hcall fun heq => by cases heq
      · cases hnext
  | reserve now outcome cancelled =>
    rcases hp : w.process with _ | p
    · simp [World.next, hp] at hnext
    · simp only [World.next, hp] at hnext
      split at hnext
      · next hloop =>
        split at hnext
        · next rows s hcall =>
          obtain rfl := Option.some.inj hnext
          refine h.reserve hp hloop hcall (fun rows' hr => Except.ok.inj hr) ?_
          cases cancelled with
          | true => exact .inl rfl
          | false => exact .inr ⟨rfl, rfl⟩
        · next e s hcall =>
          obtain rfl := Option.some.inj hnext
          have hnone : ∀ rows', (Except.error e : Except Exc (List Record)) = .ok rows' →
              ([] : List Record) = rows' := by
            intro rows' hr
            cases hr
          exact h.reserve hp hloop hcall hnone (.inl rfl)
      · cases hnext
  | resolve outcome now published cancelled =>
    rcases hp : w.process with _ | p
    · simp [World.next, hp] at hnext
    · simp only [World.next, hp] at hnext
      split at hnext
      · next hloop =>
        split at hnext
        · next s hcall =>
          obtain rfl := Option.some.inj hnext
          refine h.resolved hp hloop hcall ?_
          cases cancelled with
          | true => exact .inl rfl
          | false => exact .inr ⟨rfl, rfl⟩
        · next s hcall =>
          obtain rfl := Option.some.inj hnext
          exact h.resolved hp hloop hcall (.inl rfl)
      · cases hnext
  | abandon =>
    rcases hp : w.process with _ | p
    · simp [World.next, hp] at hnext
    · simp only [World.next, hp] at hnext
      obtain rfl := Option.some.inj hnext
      exact ⟨h.abandon hp, le_rfl⟩

/-! ## Every run -/

/-- The invariant holds in every reachable state. -/
theorem inv_of_reachable (h : (system participant start).Reachable w) :
    Inv participant start w := by
  refine h.invariant ?_ fun _ _ _ h hnext => (h.next hnext).1
  rintro w ⟨hopened, hcursor, hprocess, -⟩
  refine ⟨hopened.wellFormed, ?_, .inl (position_of_unsaved w start hcursor), ?_, ?_⟩
  · intro c hc
    rw [hcursor] at hc
    cases hc
  · intro r _ _ hlow hhigh
    rw [position_of_unsaved w start hcursor] at hhigh
    omega
  · intro p hp
    rw [hprocess] at hp
    cases hp

/-- The file a run leaves is taken by the participant it was written for. -/
theorem Inv.legacyCursor_eq_ok (h : Inv participant start w) (hafter : after ≤ maxSequence) :
    legacyCursor participant after w.cursor = .ok w.cursor := by
  have hinteger : Journal.integer after 0 = .ok () := if_pos ⟨Nat.zero_le _, hafter⟩
  refine except_bind_eq_ok.mpr ⟨(), hinteger, ?_⟩
  rcases hw : w.cursor with _ | c
  · rfl
  · obtain ⟨hthread, -, hthrough⟩ := h.cursor c hw
    refine except_bind_eq_ok.mpr ⟨(), raiseIf_eq_ok.mpr ?_,
      except_bind_eq_ok.mpr ⟨(), raiseIf_eq_ok.mpr ?_, rfl⟩⟩
    · simp [hthread]
    · exact decide_eq_false (not_lt.mpr hthrough)

/-- The position is a safe integer when the one at the start is. -/
theorem Inv.position_le (h : Inv participant start w) (hstart : start ≤ maxSequence) :
    w.position start ≤ maxSequence := by
  rcases h.reached with heq | ⟨-, hle⟩
  · exact heq.trans_le hstart
  · exact hle.trans h.wf.head_le

/-- The notifier is never refused when it asks whether it is ready. -/
theorem Inv.ready_eq_ok (h : Inv participant start w) (hstart : start ≤ maxSequence)
    (hp : w.process = some p)
    (hnow : now ≤ maxSequence) : ∃ s, Legacy.ready participant now (p.store w.cursor)
    = (.ok (), s) := by
  have held := h.process p hp
  obtain ⟨hafter, hcursor, -⟩ := (p.store w.cursor).interrupted_spec now
  have hcursor' : ((p.store w.cursor).interrupted now).cursor = w.cursor := hcursor
  have hinteger : (Prog.lift (Journal.integer now 0) : M Unit) (p.store w.cursor)
      = (.ok (), p.store w.cursor) :=
    Prod.ext (if_pos ⟨Nat.zero_le _, hnow⟩) rfl
  have hread : legacyCursor participant ((p.store w.cursor).interrupted now).after
      ((p.store w.cursor).interrupted now).cursor = .ok w.cursor := by
    rw [hcursor']
    refine h.legacyCursor_eq_ok (le_trans ?_ (h.position_le hstart))
    exact hafter.trans_le held.behind
  have hlift : (Prog.lift (legacyCursor participant ((p.store w.cursor).interrupted now).after
      ((p.store w.cursor).interrupted now).cursor) : M (Option Cursor))
        ((p.store w.cursor).interrupted now)
        = (.ok w.cursor, (p.store w.cursor).interrupted now) := Prod.ext hread rfl
  obtain ⟨s, hs⟩ : ∃ s, resume w.cursor ((p.store w.cursor).interrupted now) = (.ok (), s) := by
    refine resume_eq_ok fun c hc => ⟨(h.cursor c hc).2.1, ?_⟩
    have hbehind := held.behind
    rw [World.position, hc] at hbehind
    exact hafter.trans_le hbehind
  refine ⟨s, (Prog.bind_ok hinteger).trans ((Prog.bind_ok rfl).trans ((Prog.bind_ok rfl).trans ?_))⟩
  exact (Prog.bind_ok hlift).trans hs

/-- **The checkpoint skips nothing.** However frames arrive and are acknowledged between the calls
of the delivery loop, whatever becomes of its notices, and wherever it is cancelled, fails to
publish, dies and starts again: every message still in the inbox above the position the notifier is
started from and at or below the saved one was in a notice that was delivered, the position never
goes back, and `ready`, which the loop calls to recover, is never refused. -/
theorem checkpoint_skips_nothing (hstart : start ≤ maxSequence)
    (h : (system participant start).Reachable w) :
    (∀ r ∈ w.db.inbox, isMessage r = true → start < r.seq → r.seq ≤ w.position start →
      r.seq ∈ w.delivered)
      ∧ (∀ events w', (system participant start).run w events = some w' →
        w.position start ≤ w'.position start)
      ∧ ∀ p, w.process = some p → ∀ now ≤ maxSequence,
        ∃ s, Legacy.ready participant now (p.store w.cursor) = (.ok (), s) := by
  have hinv := inv_of_reachable h
  refine ⟨hinv.delivered, ?_, fun p hp now hnow => hinv.ready_eq_ok hstart hp hnow⟩
  intro events w' hrun
  have hkept : Inv participant start w' ∧ w.position start ≤ w'.position start := by
    refine System.run_invariant (I := fun u => Inv participant start u
      ∧ w.position start ≤ u.position start)
      (P := fun _ => True) ?_ (fun _ _ => trivial) ⟨hinv, le_rfl⟩ hrun
    rintro u e v - ⟨hu, hle⟩ hnext
    obtain ⟨hv, hle'⟩ := hu.next hnext
    exact ⟨hv, hle.trans hle'⟩
  exact hkept.2

/-- A bridge that keeps neither a watermark nor bindings, before its first frame. -/
def oldWorld : World := ⟨.empty, none, none, []⟩

/-- A message arrives. The first notice of it comes to an unknown end, the next step is cancelled
while rows are reserved, and the notice after that is delivered. -/
def announcedRun : List Event :=
  [.store 0 1 userFrame, .start ⟨false, false, id⟩ false, .ready 0 false, .prepare 0 .done false,
    .reserve 0 .done false, .resolve .unknown 0 .done false, .prepare 30 .done false,
    .reserve 30 .done true,
    .ready 30 false, .prepare 60 .done false, .reserve 60 .done false,
    .resolve .delivered 60 .done false]

/-- The position has passed the message, which was in the notice. -/
theorem checkpoint_skips_nothing_announced :
    ∃ w, (system (lit "t") 0).run oldWorld announcedRun = some w
    ∧ w.position 0 = 1 ∧ w.db.inbox.rows.map (fun r => (r.seq, isMessage r)) = [(1, true)]
    ∧ w.delivered = [1]
    ∧ (∀ r ∈ w.db.inbox, isMessage r = true → 0 < r.seq → r.seq ≤ 1 → r.seq ∈ w.delivered)
    ∧ ∀ events w', (system (lit "t") 0).run w events = some w' → 1 ≤ w'.position 0 := by
  have hrun : ((system (lit "t") 0).run oldWorld announcedRun).map (fun w =>
      (w.position 0, w.db.inbox.rows.map (fun r => (r.seq, isMessage r)), w.delivered))
        = some (1, [(1, true)], [1]) := by
    decide +kernel
  obtain ⟨w, hw, hview⟩ := Option.map_eq_some_iff.mp hrun
  obtain ⟨hposition, hview⟩ := Prod.mk.inj hview
  obtain ⟨hrows, hdelivered⟩ := Prod.mk.inj hview
  have hreach := (System.Reachable.init (M := system (lit "t") 0) ⟨.new, rfl, rfl, rfl⟩).run hw
  obtain ⟨hcovered, hforward, -⟩ := checkpoint_skips_nothing (Nat.zero_le maxSequence) hreach
  rw [hposition] at hcovered hforward
  exact ⟨w, hw, hposition, hrows, hdelivered, hcovered, hforward⟩

end PeerBridge.Notify.Legacy
