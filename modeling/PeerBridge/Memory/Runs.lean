import PeerBridge.Memory.Protocol

/-!
# Runs of the memory service

A run is a list of events: the requests a service handled, direct calls of the two maintenance
operations, and restarts of the process, each with the moment it began at, what it returned and the
moment it ended at. An `Event` carries the proof that it is an execution of the model, so a list of
events cannot claim a reply the code does not give.

The rule every safety argument uses is `Run.invariant`: what the first state satisfies and every
committed change keeps holds at every moment of every run. A restart changes nothing but the search
index (`Reindexed`).

Source: `memory.py`, `Store.__init__`, `MemoryCommands.command`.
-/

namespace PeerBridge.Memory

open Py Relational Effects Effects.Prog Relation

variable {H : Host}

/-! ## Restarts -/

/-- A later moment whose content differs at most in the search index. -/
structure Reindexed (w w' : World) : Prop where
  tick : w.tick ≤ w'.tick
  db : ∃ s i, w'.db = { w.db with search := s, indexedThrough := i }

instance : Std.Refl Reindexed := ⟨fun w => ⟨le_rfl, w.db.search, w.db.indexedThrough, rfl⟩⟩

instance : IsTrans World Reindexed := by
  refine ⟨?_⟩
  rintro a b c ⟨h1, s, i, h2⟩ ⟨h3, s', i', h4⟩
  exact ⟨h1.trans h3, s', i', by rw [h4, h2]⟩

/-- A stretch that leaves the content alone leaves all but the index alone. -/
theorem Idle.reindexed {w w' : World} (h : Idle w w') : Reindexed w w' :=
  ⟨h.tick, w.db.search, w.db.indexedThrough, h.db⟩

/-- A statement on the index alone, committed or not. -/
theorem keeps_indexing {control blocking : Bool} {f : Db → Db}
    (hf : ∀ db, ∃ s i, f db = { db with search := s, indexedThrough := i }) :
    Keeps Reindexed (transaction H control blocking (do write H; execute f)) := by
  intro w
  obtain ⟨hi, -⟩ | ⟨hl, hd, -⟩ := statement_inv (show _ = (_, _) from rfl)
  · exact hi.reindexed
  · obtain ⟨s, i, hs⟩ := hf w.db
    exact ⟨hl.tick, s, i, hd.trans hs⟩

/-- Opening the index leaves all but the index alone. -/
theorem keeps_openFts : Keeps Reindexed (openFts H) := by
  have hopen : Keeps Reindexed (transaction H true false (write H)) := by
    intro w
    obtain ⟨hi, -⟩ | ⟨w1, _, w2, h1, h2, h3, -⟩ :=
      transaction_inv (Keeps.later (keeps_write (H := H))) (show _ = (_, _) from rfl)
    · exact hi.reindexed
    · exact (trans_of Idle h1 (trans_of Idle (keeps_write.run h2) h3)).reindexed
  refine Keeps.tryCatch (Keeps.bind hopen fun _ => Keeps.pure _) fun e => ?_
  split
  · exact Keeps.pure _
  · exact Keeps.pure _
  · exact Keeps.throw _

/-- Making the index usable or unusable leaves all but the index alone. -/
theorem keeps_reconcileIndex : Keeps Reindexed (reconcileIndex H) := by
  have hinv {b : Bool} :
      Keeps Reindexed (transaction H true b (do write H; execute Db.invalidate)) :=
    keeps_indexing fun db => ⟨db.search, -1, rfl⟩
  have hre : Keeps Reindexed (rebuildIndex H) := by
    refine Keeps.bind Keeps.get fun w => Keeps.ite (Keeps.pure _) ?_
    refine Keeps.tryCatch (keeps_indexing fun db => ⟨_, _, rfl⟩) fun e => ?_
    split
    · exact Keeps.pure _
    · exact Keeps.throw _
  refine Keeps.bind Keeps.get fun w => Keeps.ite hinv (Keeps.ite (Keeps.pure _) ?_)
  exact Keeps.bind hinv fun _ => hre

/-- A restart leaves all but the index alone. -/
theorem keeps_reopen (fts : Bool) : Keeps Reindexed (reopen H fts) := by
  have hmod (f : World → World) (ht : ∀ w, (f w).tick = w.tick) (hd : ∀ w, (f w).db = w.db) :
      Keeps Reindexed (modify f : M Unit) := fun w =>
    ⟨(ht w).ge, w.db.search, w.db.indexedThrough, hd w⟩
  refine Keeps.bind (hmod _ (fun _ => rfl) fun _ => rfl) fun _ => ?_
  refine Keeps.bind (Keeps.ite keeps_openFts (Keeps.pure _)) fun usable => ?_
  exact Keeps.bind (hmod _ (fun _ => rfl) fun _ => rfl) fun _ => keeps_reconcileIndex

/-! ## Events and runs -/

/-- What the service can be made to do. -/
inductive Act where
  | request (s : Service) (r : Object) (pid : ℕ)
  | expire
  | reclaim
  | restart (fts : Bool)

/-- Performing it. -/
def Act.perform (H : Host) : Act → M (Option Reply)
  | .request s r pid => do
      let reply ← command H s r pid
      return some reply
  | .expire => do
      let _ ← Memory.expire H
      return none
  | .reclaim => do
      let _ ← Memory.reclaim H
      return none
  | .restart fts => do
      reopen H fts
      return none

/-- One act of the service, from the moment it began at to the moment it ended at. -/
structure Event (H : Host) where
  act : Act
  before : World
  result : Except Exc (Option Reply)
  after : World
  performed : act.perform H before = (result, after)

/-- The process died during the event. -/
def Event.died (e : Event H) : Bool :=
  match e.result with
  | .error .killed => true
  | _ => false

/-- An event the process survived was not answered by its death. -/
theorem Event.ne_killed {e : Event H} (h : e.died = false) : e.result ≠ .error .killed := by
  intro hr
  simp [Event.died, hr] at h

/-- The runs of the service from `start`. -/
inductive Run (H : Host) (start : World) : List (Event H) → World → Prop
  | nil : Run H start [] start
  | snoc {past : List (Event H)} {w : World} (h : Run H start past w) (e : Event H)
      (he : e.before = w) : Run H start (past ++ [e]) e.after

/-- One committed change of a run, or a restart. -/
def Step (H : Host) (w w' : World) : Prop := (∃ k, Change H k w w') ∨ Reindexed w w'

/-- A request is carried out by `command`. -/
theorem request_inv {s : Service} {r : Object} {pid : ℕ} {w w' : World}
    {res : Except Exc (Option Reply)} (h : (Act.request s r pid).perform H w = (res, w')) :
    ∃ res', command H s r pid w = (res', w') ∧ res = res'.map some := by
  obtain ⟨e, h1, rfl⟩ | ⟨x, u, h1, h2⟩ := bind_inv h
  · exact ⟨_, h1, rfl⟩
  · cases h2
    exact ⟨_, h1, rfl⟩

/-- An act is a chain of changes of one request, or a restart. -/
theorem perform_changes {a : Act} {w w' : World} {res : Except Exc (Option Reply)}
    (h : a.perform H w = (res, w')) : Changes H w.tick w w' ∨ Reindexed w w' := by
  cases a with
  | request s r pid =>
    obtain ⟨_, h1, -⟩ := request_inv h
    exact .inl (command_changes h1)
  | expire =>
    obtain ⟨e, h1, -⟩ | ⟨x, u, h1, h2⟩ := bind_inv h
    · exact .inl (expire_maint h1).quiets.changes
    · cases h2
      exact .inl (expire_maint h1).quiets.changes
  | reclaim =>
    obtain ⟨e, h1, -⟩ | ⟨x, u, h1, h2⟩ := bind_inv h
    · exact .inl (reclaim_maint h1).quiets.changes
    · cases h2
      exact .inl (reclaim_maint h1).quiets.changes
  | restart fts =>
    exact .inr ((Keeps.bind (keeps_reopen fts) fun _ => Keeps.pure _).run h)

/-- What an event does is a chain of steps. -/
theorem perform_steps {a : Act} {w w' : World} {res : Except Exc (Option Reply)}
    (h : a.perform H w = (res, w')) : ReflTransGen (Step H) w w' := by
  rcases perform_changes h with hc | hr
  · exact ReflTransGen.mono (fun _ _ hc => .inl ⟨_, hc⟩) _ _ hc
  · exact .single (.inr hr)

/-- A run is a chain of steps. -/
theorem Run.steps {start w : World} {past : List (Event H)} (h : Run H start past w) :
    ReflTransGen (Step H) start w := by
  induction h with
  | nil => exact .refl
  | snoc h e he ih => exact ih.trans (he ▸ perform_steps e.performed)

/-- **The invariant rule.** -/
theorem Run.invariant {I : World → Prop} {start w : World} {past : List (Event H)}
    (hchange : ∀ k w w', Change H k w w' → I w → I w')
    (hindex : ∀ w w', Reindexed w w' → I w → I w')
    (h : Run H start past w) (h0 : I start) : I w := by
  refine keeps_of_reflTransGen (S := Step H) ?_ h.steps h0
  rintro s t (⟨k, hc⟩ | hr) hs
  · exact hchange k s t hc hs
  · exact hindex s t hr hs

/-- Two runs in a row are one. -/
theorem Run.append {a b c : World} {past future : List (Event H)} (h : Run H a past b)
    (h' : Run H b future c) : Run H a (past ++ future) c := by
  induction h' with
  | nil => simpa using h
  | snoc _ e he ih =>
    rw [← List.append_assoc]
    exact .snoc ih e he

/-- An event of a run began at the moment the events before it reached. -/
theorem Run.at {start w : World} {past earlier later : List (Event H)} {e : Event H}
    (h : Run H start past w) (hp : past = earlier ++ e :: later) :
    Run H start earlier e.before := by
  induction h generalizing later with
  | nil => simp at hp
  | @snoc past v h e' he' ih =>
    rcases List.eq_nil_or_concat later with rfl | ⟨init, last, rfl⟩
    · obtain ⟨hinit, hlast⟩ := List.append_inj' hp rfl
      subst hinit
      cases hlast
      exact he'.symm ▸ h
    · rw [List.concat_eq_append, ← List.cons_append, ← List.append_assoc] at hp
      exact ih (List.append_inj' hp rfl).1

/-- The events after an event are a run from the moment it ended at. -/
theorem Run.since {start w : World} {past earlier later : List (Event H)} {e : Event H}
    (h : Run H start past w) (hp : past = earlier ++ e :: later) : Run H e.after later w := by
  induction h generalizing later with
  | nil => simp at hp
  | @snoc past v h e' he' ih =>
    rcases List.eq_nil_or_concat later with rfl | ⟨init, last, rfl⟩
    · obtain ⟨-, hlast⟩ := List.append_inj' hp rfl
      cases hlast
      exact .nil
    · rw [List.concat_eq_append, ← List.cons_append, ← List.append_assoc] at hp
      obtain ⟨hinit, hlast⟩ := List.append_inj' hp rfl
      cases hlast
      rw [List.concat_eq_append]
      exact .snoc (ih hinit) e' he'

/-- An event of a run began at a moment the run had reached. -/
theorem Run.before {start w : World} {past : List (Event H)} (h : Run H start past w) {e : Event H}
    (he : e ∈ past) : ∃ earlier, earlier ⊆ past ∧ Run H start earlier e.before := by
  obtain ⟨earlier, later, rfl⟩ := List.append_of_mem he
  exact ⟨earlier, List.subset_append_left _ _, h.at rfl⟩

/-- A request to this service that may write runs behind its maintenance. -/
theorem Event.dispatched {e : Event H} {s : Service} {r : Object} {pid : ℕ} {u : World}
    (hact : e.act = .request s r pid) (hval : validateTarget s r = .ok ())
    (hro : readOnly (r.get (lit "op")) = false) (hu : maybeExpire H e.before = (.ok (), u)) :
    ∃ res, dispatch H s r pid (r.get (lit "op")) u = (res, e.after) ∧ e.result = res.map some := by
  have hp := e.performed
  rw [hact] at hp
  obtain ⟨res, hcmd, hres⟩ := request_inv hp
  refine ⟨res, ?_, hres⟩
  have hmaintain : maintain H (r.get (lit "op")) e.before = (.ok (), u) := by
    rw [maintain, if_neg (by simp [hro])]
    exact hu
  rw [← hcmd, command, bind_ok (show (Prog.lift _ : M Unit) _ = (.ok _, _) by
    rw [lift_apply, hval]),
    bind_ok hmaintain]

/-- An event takes time. -/
theorem Event.tick_le (e : Event H) : e.before.tick ≤ e.after.tick := by
  refine keeps_of_reflTransGen (I := fun v => e.before.tick ≤ v.tick) ?_ (perform_steps e.performed)
    le_rfl
  rintro s t (⟨k, hc⟩ | hr) hs
  · exact hs.trans hc.later.tick
  · exact hs.trans hr.tick

/-- A run takes time. -/
theorem Run.tick_le {start w : World} {past : List (Event H)} (h : Run H start past w) :
    start.tick ≤ w.tick := by
  induction h with
  | nil => exact le_rfl
  | snoc h e he ih => exact ih.trans (he ▸ e.tick_le)

/-! ## What an event is -/

/-- A consumer with a cursor at both moments has it at the same place. -/
def Stays (db db' : Db) : Prop :=
  ∀ c ∈ db.cursors, ∀ c' ∈ db'.cursors, c.consumer = c'.consumer → c.seq = c'.seq

/-- A stretch that moves no cursor keeps the position of each. -/
theorem Unmoved.stays {db db' : Db} (h : Unmoved db db') : Stays db db' := by
  intro c hc c' hc' hcc
  obtain ⟨d, hd, h1, h2, -⟩ := h c' hc'
  rw [h2, Table.eq_of_key hc hd (hcc.trans h1)]

/-- Positions kept by a stretch are kept when no cursor moves after it. -/
theorem Stays.trans {a b c : Db} (h : Stays a b) (h' : Unmoved b c) : Stays a c := by
  intro x hx z hz hxz
  obtain ⟨y, hy, h1, h2, -⟩ := h' z hz
  rw [h2]
  exact h x hx y hy (hxz.trans h1)

/-- Steps of expiry leave the cursors alone. -/
theorem Trims.cursors {k : ℕ} {w w' : World} (h : ReflTransGen (Trim H k) w w') :
    w'.db.cursors = w.db.cursors := by
  refine keeps_of_reflTransGen (I := fun v => v.db.cursors = w.db.cursors) ?_ h rfl
  intro s t hst hs
  obtain ⟨es, fl, ix, se, hd, -⟩ := hst.frame
  rw [← hs, hd]

/-- A consumer keeps its cursor across the maintenance at a request boundary, or leaves a
tombstone. -/
theorem maybeExpire_cursors {w w' : World} {r : Except Exc Unit} (h : maybeExpire H w = (r, w'))
    {c : Cursor} (hc : c ∈ w.db.cursors) :
    c ∈ w'.db.cursors ∨ ∃ g ∈ w'.db.retired, g.consumer = c.consumer := by
  obtain hi | ⟨u, n, hi, h1⟩ := maybeExpire_inv h
  · exact .inl (hi.db ▸ hc)
  obtain ⟨t, v, -, hv, hi' | ⟨-, hd⟩⟩ := expire_inv h1
  · rw [hi'.db, Trims.cursors hv, hi.db]
    exact .inl hc
  · have hcv : c ∈ v.db.cursors := by rwa [Trims.cursors hv, hi.db]
    obtain ⟨cs, rs, hr, hcs, hrs⟩ := retire_spec t v.db
    rw [hd, hr]
    by_cases hold : c.updated < t - consumerTtl
    · exact .inr (hrs c hcv hold)
    · exact .inl ((hcs c).mpr ⟨hcv, hold⟩)

/-- No consumer comes back within the request that retired it. -/
theorem Enrolled.stays {w u v : World} {r : Except Exc Unit} (hu : maybeExpire H w = (r, u))
    (h : Enrolled u.db v.db) : Stays w.db v.db := by
  intro c hc c' hc' hcc
  rcases h c' hc' with ⟨d, hd, h1, h2, -⟩ | ⟨hn, hg⟩
  · rw [h2, Table.eq_of_key hc ((maybeExpire_maint hu).cursors d hd) (hcc.trans h1)]
  · rcases maybeExpire_cursors hu hc with h1 | ⟨g, h1, h2⟩
    · exact absurd hcc (Table.find_eq_none.mp hn c h1)
    · exact absurd (h2.trans hcc) (Table.find_eq_none.mp hg g h1)

/-- A reply of `sync` or `ack`. -/
def Reply.toReader : Reply → Bool
  | .delta .. => true
  | .snapshot .. => true
  | .ackedSnapshot .. => true
  | .acked .. => true
  | .ignored .. => true
  | _ => false

/-- A request to this service for one operation of the protocol, and the consumer it speaks for. -/
structure Asks (a : Act) (op : Text) (r : Object) (consumer : Text) : Prop where
  act : ∃ s pid, a = .request s r pid ∧ validateTarget s r = .ok ()
  op : (r.get (lit "op")).isText op = true
  consumer : consumerOf r = .ok consumer

/-- What an event of a run is: one that moves no reader, a restart, or a `sync` or an `ack` that was
answered behind its registration. -/
inductive Event.Is (e : Event H) : Prop
  | quiet (h : Quiets H e.before.tick e.before e.after) (hstay : Stays e.before.db e.after.db)
      (hr : ∀ x, e.result = .ok (some x) → x.toReader = false)
  | restart (h : Reindexed e.before e.after) (hr : ∀ x, e.result ≠ .ok (some x))
  | sync (r : Object) (u v : World) (s : Session) (res : Except Exc Reply)
      (ha : Asks e.act (lit "sync") r s.consumer) (hu : maybeExpire H e.before = (.ok (), u))
      (hb : beginSync H r u = (.ok s, v)) (hv : Quiets H e.before.tick e.before v)
      (hstay : Stays e.before.db v.db) (h : Answer H s.consumer r s v e.after res)
      (hres : e.result = res.map some)
  | ack (r : Object) (u : World) (consumer : Text) (res : Except Exc Reply)
      (ha : Asks e.act (lit "ack") r consumer) (hu : Quiets H e.before.tick e.before u)
      (hstay : Stays e.before.db u.db) (h : Acknowledged H consumer u e.after res)
      (hres : e.result = res.map some)

/-- The reply of a read is handed to no reader. -/
theorem isRead_toReader {x : Reply} (h : x.isRead = true) : x.toReader = false := by
  cases x <;> first | rfl | cases h

/-- **Every event is one of these.** -/
theorem Event.is (e : Event H) : e.Is := by
  obtain ⟨act, before, result, after, hp⟩ := e
  have hmaint (hm : Maints H before.tick before after)
      (hr : ∀ x, result = .ok (some x) → x.toReader = false) :
      Event.Is ⟨act, before, result, after, hp⟩ :=
    .quiet hm.quiets (Unmoved.of_subset hm.cursors).stays hr
  cases act with
  | expire =>
    obtain ⟨x, h1, rfl⟩ | ⟨n, u, h1, h2⟩ := bind_inv hp
    · exact hmaint (expire_maint h1) nofun
    · cases h2
      exact hmaint (expire_maint h1) nofun
  | reclaim =>
    obtain ⟨x, h1, rfl⟩ | ⟨n, u, h1, h2⟩ := bind_inv hp
    · exact hmaint (reclaim_maint h1) nofun
    · cases h2
      exact hmaint (reclaim_maint h1) nofun
  | restart fts =>
    refine .restart ((Keeps.bind (keeps_reopen fts) fun _ => Keeps.pure _).run hp) fun x hx => ?_
    dsimp only at hx
    subst hx
    obtain ⟨_, _, _, h2⟩ := bind_ok_inv hp
    cases h2
  | request s r pid =>
    obtain ⟨res, h1, rfl⟩ := request_inv hp
    cases command_inv h1 with
    | read h hr =>
      refine hmaint (.idle h) fun x hx => ?_
      cases res with
      | error e => cases hx
      | ok y =>
        cases hx
        exact isRead_toReader (hr x rfl)
    | maintained h e he =>
      subst he
      exact hmaint h nofun
    | note u consumer n hv hop hu hc hn he =>
      have hm := maybeExpire_maint hu
      subst he
      refine .quiet (hm.quiets.trans ((note_changes hn).mono hm.later.tick))
        ((Unmoved.of_subset hm.cursors).trans (note_unmoved hn)).stays fun x hx => ?_
      cases n with
      | error e => cases hx
      | ok n =>
        cases hx
        rfl
    | sync u hval hop hu h =>
      have hm := maybeExpire_maint hu
      obtain ⟨hq, ⟨e, rfl⟩, _, hb⟩ | ⟨ses, v, hb, ha⟩ := sync_inv h
      · exact .quiet (hm.quiets.trans (hq.mono hm.later.tick))
          ((beginSync_enrolled hb).stays hu) nofun
      · obtain ⟨hq, ⟨_, he⟩ | ⟨_, he, hc, -⟩⟩ := beginSync_inv hb
        · cases he
        cases he
        exact .sync r u v ses res ⟨⟨s, pid, rfl, hval⟩, hop, hc⟩ hu hb
          (hm.quiets.trans (hq.mono hm.later.tick)) ((beginSync_enrolled hb).stays hu) ha rfl
    | ack u hval hop hu h =>
      have hm := maybeExpire_maint hu
      obtain ⟨hq, hen, e, rfl⟩ | ⟨consumer, v, hc, hq, hen, ha⟩ := ack_inv h
      · exact .quiet (hm.quiets.trans (hq.mono hm.later.tick)) (hen.stays hu) nofun
      · exact .ack r v consumer res ⟨⟨s, pid, rfl, hval⟩, hop, hc⟩
          (hm.quiets.trans (hq.mono hm.later.tick)) (hen.stays hu) ha rfl

/-! ## Playing a list of acts -/

/-- The events of a list of acts and the moment they end at. -/
def play (H : Host) : World → List Act → List (Event H) × World
  | w, [] => ([], w)
  | w, a :: rest =>
      let e : Event H := ⟨a, w, (a.perform H w).1, (a.perform H w).2, rfl⟩
      let (events, w') := play H e.after rest
      (e :: events, w')

/-- An event in front of a run makes a longer one. -/
theorem Run.cons {e : Event H} {events : List (Event H)} {w : World}
    (h : Run H e.after events w) : Run H e.before (e :: events) w := by
  induction h with
  | nil => exact .snoc .nil e rfl
  | snoc _ e' he' ih => exact .snoc ih e' he'

/-- What is played is a run. -/
theorem run_play (w : World) (acts : List Act) : Run H w (play H w acts).1 (play H w acts).2 := by
  induction acts generalizing w with
  | nil => exact .nil
  | cons a rest ih =>
    have := Run.cons (e := ⟨a, w, (a.perform H w).1, (a.perform H w).2, rfl⟩) (ih _)
    exact this

/-- The code and the text of a refusal. -/
def refusalOf : Except Exc (Option Reply) → Option (Code × Text)
  | .error (.refused code d none) => some (code, d)
  | _ => none

/-- The refusal of a result is the error the request was answered with. -/
theorem refusalOf_eq_some {r : Except Exc (Option Reply)} {code : Code} {d : Text}
    (h : refusalOf r = some (code, d)) : r = .error (.refused code d none) := by
  unfold refusalOf at h
  split at h
  · cases h
    rfl
  · cases h

/-- A host whose storage always works: the clock ticks by one second, no page is refused and no
commit is interrupted. -/
def Host.steady : Host where
  clock n := 1700000000 + n
  log _ := .state 0 0 0
  engine _ := .ok
  grow _ := 0
  slack _ := 0
  vacuum _ := some 0
  killed _ := false
  uuid n := lit "snapshot-" ++ decimal n
  digest t := t
  number _ := none
  realText _ := lit "0.0"
  container _ := []
  errorClass _ := lit "OperationalError"
  errorText _ := lit "disk I/O error"
  search _ _ := none

/-- The steady clock never goes back. -/
theorem monotone_steady : Monotone Host.steady.clock := by
  intro i j h
  have hc : ((i : ℕ) : ℚ) ≤ j := by exact_mod_cast h
  change (1700000000 + i : ℚ) ≤ 1700000000 + j
  linarith

/-- A request with the given fields, from the process 7. -/
def ask (op consumer : Text) (fields : Object) : Act :=
  .request ⟨lit "repo", lit "generation"⟩
    ((lit "op", .str op) :: (lit "consumer", .str consumer) :: fields) 7

end PeerBridge.Memory
