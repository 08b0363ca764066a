import PeerBridge.Memory.Snapshots

/-!
# Which events append

Only an accepted `note` stores something new. Every other event, and a `note` that was refused or
answered from its deduplication row, only shrinks what is stored (`Shrinks`): the head stands,
entries and deduplication rows only go away, and a new snapshot item is a copy of a stored entry. So
an event either shrinks the store or is one append with all its data (`Event.shrinks_or_appends`),
and a property of stored rows follows over runs from what it says about one append.

Source: `memory.py`, `Store.note`, `MemoryCommands.command`.
-/

namespace PeerBridge.Memory

open Py Relational Effects Effects.Prog Relation

variable {H : Host}

/-! ## Storing nothing new -/

/-- A later moment at which nothing new is stored. -/
structure Shrinks (w w' : World) : Prop where
  tick : w.tick ≤ w'.tick
  head : w'.db.head = w.db.head
  entries : ∀ e ∈ w'.db.entries, e ∈ w.db.entries
  idem : ∀ i ∈ w'.db.idem, i ∈ w.db.idem
  items : ∀ i ∈ w'.db.items, i ∈ w.db.items ∨
    (i.bytes = encodedLen i.payload.json ∧ i.payload ∈ w.db.entries)

namespace Shrinks

/-- The log, the deduplication rows and the snapshot items are what they were. -/
theorem of_eq {w w' : World} (ht : w.tick ≤ w'.tick) (hh : w'.db.head = w.db.head)
    (he : w'.db.entries = w.db.entries) (hi : w'.db.idem = w.db.idem)
    (hm : w'.db.items = w.db.items) : Shrinks w w' where
  tick := ht
  head := hh
  entries _ h := he ▸ h
  idem _ h := hi ▸ h
  items _ h := .inl (hm ▸ h)

/-- A stretch that leaves the content alone shrinks it. -/
theorem idle {w w' : World} (h : Idle w w') : Shrinks w w' :=
  of_eq h.tick (by rw [h.db]) (by rw [h.db]) (by rw [h.db]) (by rw [h.db])

/-- Stretches that shrink the content make one. -/
theorem trans {a b c : World} (h : Shrinks a b) (h' : Shrinks b c) : Shrinks a c where
  tick := h.tick.trans h'.tick
  head := h'.head.trans h.head
  entries e he := h.entries e (h'.entries e he)
  idem i hi := h.idem i (h'.idem i hi)
  items i hi := by
    rcases h'.items i hi with h1 | ⟨h1, h2⟩
    · exact h.items i h1
    · exact .inr ⟨h1, h.entries _ h2⟩

/-- A change of the index shrinks the content. -/
theorem reindexed {w w' : World} (h : Reindexed w w') : Shrinks w w' := by
  obtain ⟨s, i, hd⟩ := h.db
  exact of_eq h.tick (by rw [hd]) (by rw [hd]) (by rw [hd]) (by rw [hd])

end Shrinks

/-- A step of maintenance shrinks the content. -/
theorem Maint.shrinks {k : ℕ} {w w' : World} (h : Maint H k w w') : Shrinks w w' := by
  have htick := h.later.tick
  rcases h with h | ⟨t, hl, ht, hd⟩ | ⟨t, hl, ht, hd⟩
  · obtain ⟨es, fl, ix, se, hd, hsub, -⟩ := h.frame
    exact ⟨htick, by rw [hd], fun e he => hsub e (by rwa [hd] at he), fun i hi => by rwa [hd] at hi,
      fun i hi => .inl (by rwa [hd] at hi)⟩
  · obtain ⟨cs, rs, hr, -⟩ := retire_spec t w.db
    rw [hr] at hd
    refine ⟨htick, by rw [hd], fun e he => by rwa [hd] at he, fun i hi => ?_, fun i hi => .inl ?_⟩
    · rw [hd] at hi
      exact (Table.mem_remove.mp hi).1
    · rw [hd] at hi
      exact (Table.mem_remove.mp hi).1
  · refine ⟨htick, by rw [hd]; rfl, fun e he => by rwa [hd] at he, fun i hi => ?_,
      fun i hi => .inl (by rwa [hd] at hi)⟩
    rw [hd] at hi
    exact (Table.mem_remove.mp hi).1

/-- Maintenance shrinks the content. -/
theorem Maints.shrinks {k : ℕ} {w w' : World} (h : Maints H k w w') : Shrinks w w' :=
  keeps_of_reflTransGen (I := fun v => Shrinks w v) (fun _ _ hst hs => hs.trans hst.shrinks) h
    (.idle (refl_of Idle w))

/-! ## `sync` and `ack` store nothing new -/

/-- A registration adds no row. -/
theorem register_shrinks {consumer : Text} {w w' : World} {r : Except Exc Cursor}
    (h : register H consumer w = (r, w')) : Shrinks w w' := by
  obtain ⟨hm, -⟩ | ⟨rfl, -⟩ | ⟨-, -, w1, now, table, hm, hl, -, -, hd, -⟩ := register_inv h
  · exact hm.shrinks
  · exact .idle (refl_of Idle _)
  · exact hm.shrinks.trans (.of_eq hl.tick (by rw [hd]) (by rw [hd]) (by rw [hd]) (by rw [hd]))

/-- A touch adds no row. -/
theorem touch_shrinks {consumer : Text} {w w' : World} {r : Except Exc Unit}
    (h : touch H consumer w = (r, w')) : Shrinks w w' := by
  obtain ⟨hi, -⟩ | ⟨hl, now, -, hd, -⟩ := touch_inv h
  · exact .idle hi
  · exact .of_eq hl.tick (by rw [hd]; rfl) (by rw [hd]; rfl) (by rw [hd]; rfl) (by rw [hd]; rfl)

/-- Opening a snapshot adds no row. -/
theorem openSnapshot_shrinks {consumer : Text} {c : Cursor} {w w' : World}
    {r : Except Exc (Option Text × Bool)} (h : openSnapshot H consumer c w = (r, w')) :
    Shrinks w w' := by
  obtain ⟨-, rfl, -⟩ | ⟨sid, -, ⟨-, hi, -⟩ | ⟨-, ⟨hi, -⟩ | ⟨hl, hd, -⟩⟩⟩ := openSnapshot_inv h
  · exact .idle (refl_of Idle _)
  · exact .idle hi
  · exact .idle hi
  · exact .of_eq hl.tick (by rw [hd]; rfl) (by rw [hd]; rfl) (by rw [hd]; rfl) (by rw [hd]; rfl)

/-- The beginning of a `sync` adds no row. -/
theorem beginSync_shrinks {req : Object} {w w' : World} {r : Except Exc Session}
    (h : beginSync H req w = (r, w')) : Shrinks w w' := by
  unfold beginSync at h
  obtain ⟨e, -, rfl, rfl⟩ | ⟨consumer, -, h1⟩ := lift_bind_inv h
  · exact .idle (refl_of Idle _)
  obtain ⟨e, h2, rfl⟩ | ⟨c, u, h2, h3⟩ := bind_inv h1
  · exact register_shrinks h2
  obtain ⟨e, h4, rfl⟩ | ⟨_, v, h4, h5⟩ := bind_inv h3
  · exact (register_shrinks h2).trans (touch_shrinks h4)
  have hv := (register_shrinks h2).trans (touch_shrinks h4)
  obtain ⟨e, h6, rfl⟩ | ⟨p, x, h6, h7⟩ := bind_inv h5
  · exact hv.trans (openSnapshot_shrinks h6)
  · cases h7
    exact hv.trans (openSnapshot_shrinks h6)

/-- A page of a snapshot adds no row. -/
theorem Served.shrinks {consumer : Text} {req : Object} {s : Snapshot} {token : ℤ}
    {page : List Item} {more : Bool} {w w' : World} {r : Except Exc Reply}
    (h : Served H consumer req s token page more w w' r) : Shrinks w w' := by
  obtain ⟨-, hi, -⟩ | ⟨-, hl, hd, -⟩ := h.effect
  · exact .idle hi
  · exact .of_eq hl.tick (by rw [hd]; rfl) (by rw [hd]; rfl) (by rw [hd]; rfl) (by rw [hd]; rfl)

/-- A freeze copies entries that were stored when it read them. -/
theorem Froze.shrinks {consumer sid : Text} {read w w' : World} {created updated now : ℚ}
    (hf : Froze H consumer sid read created updated now w.db w'.db) (hl : Later w w')
    (hr : Shrinks read w) : Shrinks read w' := by
  obtain ⟨sizes, hsizes, snapshots, items, -, hrows, hd⟩ := hf.sizes
  refine ⟨hr.tick.trans hl.tick, ?_, fun e he => ?_, fun i hi => ?_, fun i hi => ?_⟩
  · rw [hd]
    exact hr.head
  · rw [hd] at he
    exact hr.entries e he
  · rw [hd] at hi
    exact hr.idem i hi
  · have hmem : i ∈ items := by
      rw [hd] at hi
      exact (Table.mem_remove.mp hi).1
    rw [Table.mem_def, hrows, List.mem_append] at hmem
    rcases hmem with hmem | hmem
    · exact hr.items i hmem
    · obtain ⟨hb, hp⟩ := mem_frozenItems hsizes hmem
      exact .inr ⟨hb, (mem_frozen.mp hp).1⟩

/-- An answered `sync` adds no row. -/
theorem Answer.shrinks {consumer : Text} {req : Object} {s : Session} {w w' : World}
    {r : Except Exc Reply} (h : Answer H consumer req s w w' r) : Shrinks w w' := by
  cases h with
  | refused hm => exact hm.shrinks
  | page u x token page more hs hu h => exact (Shrinks.idle hu).trans h.shrinks
  | frozen u v sid t1 t2 t3 hs hdue hnone hm hl hord h1 h2 h3 hf hend =>
    have hv : Shrinks w v := hf.shrinks hl hm.shrinks
    obtain ⟨-, rfl⟩ | ⟨-, ⟨hi, -⟩ | ⟨z, x, token, page, more, hz, -, hserved⟩⟩ := hend
    · exact hv
    · exact hv.trans (.idle hi)
    · exact hv.trans ((Shrinks.idle hz).trans hserved.shrinks)
  | delta c entries more hs hdue h =>
    obtain ⟨-, hi, -⟩ | ⟨-, hl, hd, -⟩ := h.effect
    · exact .idle hi
    · exact .of_eq hl.tick (by rw [hd]; rfl) (by rw [hd]; rfl) (by rw [hd]; rfl) (by rw [hd]; rfl)

/-- A `sync` adds no row. -/
theorem sync_shrinks {req : Object} {w w' : World} {r : Except Exc Reply}
    (h : sync H req w = (r, w')) : Shrinks w w' := by
  obtain ⟨-, -, _, hb⟩ | ⟨s, u, hb, ha⟩ := sync_inv h
  · exact beginSync_shrinks hb
  · exact (beginSync_shrinks hb).trans ha.shrinks

/-- An acknowledgement adds no row. -/
theorem Acknowledged.shrinks {consumer : Text} {w w' : World} {r : Except Exc Reply}
    (h : Acknowledged H consumer w w' r) : Shrinks w w' := by
  cases h with
  | refused hi => exact .idle hi
  | replayed s hi => exact .idle hi
  | ignored seq hi => exact .idle hi
  | snapshot c s hc h =>
    obtain ⟨acked, -, hd⟩ := h.effect
    exact .of_eq h.later.tick (by rw [hd]; rfl) (by rw [hd]; rfl) (by rw [hd]; rfl)
      (by rw [hd]; rfl)
  | through c seq hc h =>
    have hd := h.effect
    exact .of_eq h.later.tick (by rw [hd]; rfl) (by rw [hd]; rfl) (by rw [hd]; rfl)
      (by rw [hd]; rfl)

/-- An `ack` adds no row. -/
theorem ack_shrinks {req : Object} {w w' : World} {r : Except Exc Reply}
    (h : ack H req w = (r, w')) : Shrinks w w' := by
  unfold ack at h
  obtain ⟨e, -, rfl, rfl⟩ | ⟨consumer, hcon, h1⟩ := lift_bind_inv h
  · exact .idle (refl_of Idle _)
  obtain ⟨e, h2, rfl⟩ | ⟨c, u, h2, h3⟩ := bind_inv h1
  · exact register_shrinks h2
  obtain ⟨e, h4, rfl⟩ | ⟨_, v, h4, h5⟩ := bind_inv h3
  · exact (register_shrinks h2).trans (touch_shrinks h4)
  have hv := (register_shrinks h2).trans (touch_shrinks h4)
  obtain ⟨-, ⟨_, he, -⟩ | ⟨-, hc, d, hd, hsame, -⟩⟩ := registered_inv h2 h4
  · cases he
  dsimp only at h5
  split at h5
  · exact hv.trans (ackSnapshot_inv hd hc hsame h5).shrinks
  · exact hv.trans (ackThrough_inv hd hc hsame h5).shrinks

/-! ## Notes -/

/-- The event is a `note` request to this service, which began its work at `u` and ended with
`n`. -/
structure Notes (e : Event H) (s : Service) (r : Object) (pid : ℕ) (consumer : Text) (u : World)
    (n : Except Exc Noted) : Prop where
  act : e.act = .request s r pid
  target : validateTarget s r = .ok ()
  op : (r.get (lit "op")).isText (lit "note") = true
  caller : consumerOf r = .ok consumer
  maintained : maybeExpire H e.before = (.ok (), u)
  run : note H s.repo consumer (noteArgs r) pid u = (n, e.after)
  result : e.result = (n.map Reply.noted).map some

/-- **An event stores nothing new or is a `note`.** -/
theorem Event.shrinks_or_notes (e : Event H) :
    Shrinks e.before e.after ∨ ∃ s r pid consumer u n, Notes e s r pid consumer u n := by
  obtain ⟨act, before, result, after, hp⟩ := e
  cases act with
  | request s r pid =>
    obtain ⟨res, h1, rfl⟩ := request_inv hp
    cases command_inv h1 with
    | read h => exact .inl (.idle h)
    | maintained h => exact .inl h.shrinks
    | note u consumer n hv hop hu hc hn he =>
      subst he
      exact .inr ⟨s, r, pid, consumer, u, n, rfl, hv, hop, hc, hu, hn, rfl⟩
    | sync u hv hop hu h => exact .inl ((maybeExpire_maint hu).shrinks.trans (sync_shrinks h))
    | ack u hv hop hu h => exact .inl ((maybeExpire_maint hu).shrinks.trans (ack_shrinks h))
  | expire =>
    obtain ⟨x, h1, -⟩ | ⟨n, u, h1, h2⟩ := bind_inv hp
    · exact .inl (expire_maint h1).shrinks
    · cases h2
      exact .inl (expire_maint h1).shrinks
  | reclaim =>
    obtain ⟨x, h1, -⟩ | ⟨n, u, h1, h2⟩ := bind_inv hp
    · exact .inl (reclaim_maint h1).shrinks
    · cases h2
      exact .inl (reclaim_maint h1).shrinks
  | restart fts =>
    exact .inl (.reindexed ((Keeps.bind (keeps_reopen fts) fun _ => Keeps.pure _).run hp))

/-- The append `x` of the event leaves the deduplication row `i`: at the moment `u` of the lookup no
row had its key, and its deadline lay ahead of the clock, within the horizon. -/
structure Keyed (e : Event H) (s : Service) (x : Append) (u : World) (i : Idem) : Prop where
  idem : x.idem = some i
  key : i.key = scopedKey H s.repo x.consumer x.args.key
  mark : i.fingerprint = fingerprint H (payload x.args x.draft)
  deadline : deadlineValue x.args.deadline = .ok i.deadline
  maintained : maybeExpire H e.before = (.ok (), u)
  tick : u.tick < e.after.tick
  ahead : H.clock u.tick < i.deadline
  horizon : i.deadline ≤ H.clock u.tick + idemTtl
  encodes : ∃ n, measure i.key = .ok n
  absent : u.db.idem.find i.key = none

/-- The event stored the row of the append `x`, which is of the request `r`, on what maintenance had
left at `v`. -/
structure Appends (e : Event H) (s : Service) (r : Object) (x : Append) (v : World) : Prop where
  act : e.act = .request s r x.pid
  consumer : consumerOf r = .ok x.consumer
  args : x.args = noteArgs r
  checks : noteChecks H x.consumer x.args x.pid = .ok x.draft
  maint : Maints H e.before.tick e.before v
  commits : Commits H e.before.tick x v e.after
  idem : (x.idem = none ∧ x.args.key.isNull = true) ∨
    (x.args.key.isNull = false ∧ ∃ u i, Keyed e s x u i)
  result : e.result = .ok (some (.noted ⟨v.db.head + 1, false, x.conflict, x.args.deadline⟩)) ∨
    e.result = .error .killed

/-- A `note` that ended: refused or answered from its deduplication row with nothing stored, or one
append. -/
theorem Notes.inv {e : Event H} {s : Service} {r : Object} {pid : ℕ} {consumer : Text} {u : World}
    {n : Except Exc Noted} (h : Notes e s r pid consumer u n) :
    (Shrinks e.before e.after ∧ ((∃ x, n = .error x) ∨ ∃ d f due, Idle u e.after ∧
      noteChecks H consumer (noteArgs r) pid = .ok d ∧ (noteArgs r).key.isNull = false ∧
      deadlineValue (noteArgs r).deadline = .ok due ∧ H.clock u.tick < due ∧
      u.db.idem.find (scopedKey H s.repo consumer (noteArgs r).key) = some f ∧
      f.fingerprint = fingerprint H (payload (noteArgs r) d) ∧ f.deadline = due ∧
      n = .ok ⟨f.seq, true, none, .float (.fin f.deadline)⟩)) ∨
      ∃ x v, Appends e s r x v ∧ x.consumer = consumer ∧ x.pid = pid := by
  have hm := maybeExpire_maint h.maintained
  obtain ⟨hn, he⟩ | ⟨d, hd, ⟨hi, due, f, hk, hdue, hlt, hf, hfp, hfd, hn⟩ |
    ⟨w1, x, key, due, hw1, hof, hkey, hcom, hn⟩⟩ := note_inv h.run
  · exact .inl ⟨hm.shrinks.trans hn.shrinks, .inl he⟩
  · exact .inl ⟨hm.shrinks.trans (.idle hi), .inr ⟨d, f, due, hi, hd, hk, hdue, hlt, hf,
      hfp, hfd, hn⟩⟩
  · have hidem := hof.idem
    obtain ⟨rfl, rfl, hargs, rfl⟩ : x.consumer = consumer ∧ x.pid = pid ∧ x.args = noteArgs r ∧
        x.draft = d := ⟨hof.consumer, hof.pid, hof.args, hof.draft⟩
    refine .inr ⟨x, w1, ⟨h.act, h.caller, hargs, hargs ▸ hd,
      hm.trans (hw1.mono hm.later.tick), ?_, ?_, ?_⟩, rfl, rfl⟩
    · exact { hcom with ts := hcom.ts.mono hm.later.tick le_rfl }
    · obtain ⟨rfl, hnull⟩ | ⟨rfl, hnull, hdue, hlt, hle, henc, hnone⟩ := hkey
      · exact .inl ⟨by simpa using hidem, hargs ▸ hnull⟩
      · obtain ⟨i, hi, heq⟩ := Option.map_eq_some_iff.mp hidem
        simp only [Prod.mk.injEq] at heq
        obtain ⟨h1, h2, rfl⟩ := heq
        obtain ⟨j, hj, hj', -⟩ := hcom.ts
        exact .inr ⟨hargs ▸ hnull, u, i, hi, hargs ▸ h1, hargs ▸ h2, hargs ▸ hdue, h.maintained,
          hj.trans_lt hj', hlt, hle, h1 ▸ henc, h1 ▸ hnone⟩
    · rw [h.result, hargs]
      rcases hn with rfl | rfl
      · exact .inl rfl
      · exact .inr rfl

/-- **An event stores nothing new or is one append.** -/
theorem Event.shrinks_or_appends (e : Event H) :
    Shrinks e.before e.after ∨ ∃ s r x v, Appends e s r x v := by
  rcases e.shrinks_or_notes with h | ⟨s, r, pid, consumer, u, n, h⟩
  · exact .inl h
  · rcases h.inv with ⟨h, -⟩ | ⟨x, v, h, -⟩
    · exact .inl h
    · exact .inr ⟨s, r, x, v, h⟩

end PeerBridge.Memory
