import PeerBridge.Memory.Budget
import PeerBridge.Memory.Lifetime

/-!
# The pages of a frozen snapshot are exactly the frozen list

A reader that follows `page_token` from 0 (`Follows`) collects a prefix of the members of the
freeze, and all of them when a page answers `more=false`. Each further request of a followed token
is answered with at least one more member unless the storage fails, provided that every member fits
the page budget; a member above it is refused for ever, because `note` measures a smaller row than
the one it stores.

Source: `memory.py`, `freeze`, `bounded`, `MemoryCommands.snapshot_page`, `MemoryCommands.ack`.
-/

namespace PeerBridge.Memory

open Py Relational Effects Effects.Prog Relation

variable {H : Host}

/-! ## The request that froze -/

/-- The operation `sync` is dispatched to `sync`. -/
theorem dispatch_sync (s : Service) (r : Object) (pid : ℕ) {op : Json}
    (hop : op.isText (lit "sync") = true) : dispatch H s r pid op = sync H r := by
  rw [Json.isText_iff.mp hop]
  rfl

/-- A `sync` addressed to this service runs behind its maintenance. -/
theorem Asks.runs {e : Event H} {r : Object} {consumer : Text}
    (ha : Asks e.act (lit "sync") r consumer)
    {u : World} (hu : maybeExpire H e.before = (.ok (), u)) :
    ∃ res, sync H r u = (res, e.after) ∧ e.result = res.map some := by
  obtain ⟨s, pid, hact, hval⟩ := ha.act
  obtain ⟨res, hd, hres⟩ := e.dispatched hact hval (not_readOnly ha.op (by decide)) hu
  exact ⟨res, dispatch_sync s r pid ha.op ▸ hd, hres⟩

/-- The event of a freeze is a `sync` that froze and then served its first page. -/
theorem FrozenAt.serves {e : Event H} {consumer sid : Text} {read : World}
    (h : FrozenAt e consumer sid read) :
    ∃ r y res, Asks e.act (lit "sync") r consumer ∧ freeze H consumer read = (.ok sid, y) ∧
      snapshotPage H consumer sid r y = (res, e.after) ∧ e.result = res.map some := by
  obtain ⟨r, u, s, ha, hu, hb, hs, hdue⟩ := h.begun
  obtain ⟨y, hy⟩ := h.froze
  obtain ⟨res, hsync, hres⟩ := ha.runs hu
  have hcon : s.consumer = consumer := by
    obtain ⟨-, ⟨_, he⟩ | ⟨_, he, hc, -⟩⟩ := beginSync_inv hb
    · cases he
    · cases he
      exact Except.ok.inj (hc.symm.trans ha.consumer)
  refine ⟨r, y, res, ha, hy, ?_, hres⟩
  unfold sync at hsync
  rw [bind_ok hb] at hsync
  simp only [hs, hdue, if_true, hcon] at hsync
  rwa [bind_ok hy] at hsync

/-- Every time read from question `k` on and before `w` is within the lifetime of a snapshot created
at `created`, the request that froze it included. -/
def Near (H : Host) (created : ℚ) (k : ℕ) (w : World) : Prop :=
  ∀ i, k ≤ i → i < w.tick → |H.clock i - created| ≤ snapshotTtl

/-- A clock reading near the creation is within the lifetime of the snapshot. -/
theorem Near.reading {created : ℚ} {k : ℕ} {w : World} (h : Near H created k w) {t : ℚ}
    (ht : Reading H k w t) : created - snapshotTtl ≤ t ∧ t ≤ created + snapshotTtl := by
  obtain ⟨i, h1, h2, rfl⟩ := ht
  have := abs_le.mp (h i h1 h2)
  constructor <;> linarith [this.1, this.2]

/-- The cursor row a freeze leaves points at its snapshot. -/
theorem Froze.cursor {consumer sid : Text} {read : World} {created updated now : ℚ} {db db' : Db}
    (hf : Froze H consumer sid read created updated now db db') {c : Cursor} (hc : c ∈ db.cursors)
    (hcon : c.consumer = consumer) : { c with snapshot := some sid, updated := updated }
    ∈ db'.cursors := by
  obtain ⟨sizes, -, snapshots, items, -, -, hd⟩ := hf.sizes
  have hmem := Table.mem_of_update (t := db.cursors)
      (u := (Db.openSnapshot consumer sid updated db).cursors)
    (fun _ => by rfl) rfl hc
  rw [if_pos (by simp [hcon])] at hmem
  rw [hd]
  exact hmem

/-- **The snapshot is open after the request that froze it.** -/
theorem FrozenAt.opened {e : Event H} {consumer sid : Text} {read : World} {s : Snapshot}
    (hmono : Monotone H.clock) (h : FrozenAt e consumer sid read) (ho : Owned e.before.db)
    (hs : s ∈ e.after.db.snapshots) (hid : s.id = sid)
    (hlife : Near H s.created e.before.tick e.after) :
    Carries read e (.fresh sid consumer read.db.head (read.members H).length s.created) s ∧
      ∃ i, i < e.after.tick ∧ H.clock i = s.created := by
  obtain ⟨r, y, res, ha, hy, hpage, hres⟩ := h.serves
  have hq := h.quiets
  have htick : y.tick ≤ e.after.tick := by
    obtain ⟨hi, -⟩ | ⟨z, x, token, page, more, hz, -, hserved⟩ := snapshotPage_inv hpage
    · exact hi.tick
    · exact hz.tick.trans (hserved.changes (k := 0)).later.tick
  obtain ⟨-, _, he, -⟩ | ⟨w1, sid', created, updated, now, -, hm, hl, hc, hu, hn, hord, hf,
      he | he⟩ :=
    freeze_inv hy
  · cases he
  swap
  · cases he
  cases he
  have how1 : Owned w1.db := (ho.quiets hq).quiets hm.quiets
  obtain ⟨hoy, hsnaps⟩ := hf.snapshots how1
  have hinsert : ∀ x ∈ w1.db.snapshots, x.id ≠ sid := by
    obtain ⟨-, -, snapshots, -, hi, -⟩ := hf.sizes
    exact (Table.insert?_eq_some.mp hi).1
  -- The only row with this identifier is the one just inserted.
  have hfresh : ∀ x ∈ y.db.snapshots, x.id = sid →
      x = .fresh sid consumer read.db.head (read.members H).length created ∧
        ∃ sizes, frozenSizes (read.members H) = .ok sizes ∧
          y.db.itemsOf sid = frozenItems sid (read.members H) sizes := by
    intro x hx hxid
    rcases hsnaps x hx with ⟨hold, -⟩ | hnew
    · exact absurd hxid (hinsert x hold)
    · exact hnew
  -- The row at the end of the request goes back to it.
  have hback : ∃ x ∈ y.db.snapshots, x.id = sid ∧ x.created = s.created := by
    obtain ⟨hi, -⟩ | ⟨z, x, token, page, more, hz, -, hserved⟩ := snapshotPage_inv hpage
    · exact ⟨s, hi.db ▸ hs, hid, rfl⟩
    · obtain ⟨-, hi, -⟩ | ⟨-, -, hd, -⟩ := hserved.effect
      · exact ⟨s, hz.db ▸ hi.db ▸ hs, hid, rfl⟩
      · rw [hd, Db.issuePage, Table.mem_update] at hs
        obtain ⟨x', hx', rfl⟩ := hs
        refine ⟨x', hz.db ▸ hx', ?_⟩
        split at hid <;> exact ⟨hid, by split <;> rfl⟩
  obtain ⟨x, hx, hxid, hxc⟩ := hback
  obtain ⟨rfl, sizes, hsizes, hitems⟩ := hfresh x hx hxid
  obtain rfl : created = s.created := hxc
  -- The consumer was active in this request, so its cursor was still there to point at it.
  obtain ⟨r', u, ses, ha', hu', hb, -, -⟩ := h.begun
  have hcur : ∃ c ∈ read.db.cursors, c.consumer = consumer
      ∧ Reading H e.before.tick read c.updated := by
    obtain ⟨-, ⟨_, he⟩ | ⟨_, he, hcon, c, hcm, hcc, -, -, -, -, hupd, -⟩⟩ := beginSync_inv hb
    · cases he
    · cases he
      exact ⟨c, hcm, hcc.trans (Except.ok.inj (hcon.symm.trans ha'.consumer)),
        hupd.mono (maybeExpire_maint hu').later.tick le_rfl⟩
  obtain ⟨c, hcm, hcc, hupd⟩ := hcur
  have hw1 : w1.tick ≤ e.after.tick := hl.tick.trans htick
  have hcw1 : c ∈ w1.db.cursors := by
    refine hm.keeps_cursor (fun t ht => ?_) hcm
    have h1 := hlife.reading (ht.mono hq.later.tick hw1)
    have h2 := hlife.reading (hupd.mono le_rfl (hm.later.tick.trans hw1))
    have h3 : snapshotTtl + snapshotTtl ≤ consumerTtl := by norm_num [snapshotTtl, consumerTtl]
    linarith [h1.2, h2.1]
  have hopen : Open H read (.fresh sid consumer read.db.head (read.members H).length s.created) y :=
    ⟨hoy, hx, ⟨rfl, rfl, sizes, hsizes, hitems⟩, Nat.zero_le _, (fun _ ht => by cases ht),
      _, hf.cursor hcw1 hcc, hcc, hord hmono, fun _ => rfl⟩
  have hclock : ∃ i, i < e.after.tick ∧ H.clock i = s.created := by
    obtain ⟨i, -, hi, hci⟩ := hc
    exact ⟨i, hi.trans_le htick, hci⟩
  refine ⟨?_, hclock⟩
  set fresh := Snapshot.fresh sid consumer read.db.head (read.members H).length s.created with hfr
  suffices hcar : ∃ s', Carries read e fresh s' by
    obtain ⟨s', hcar⟩ := hcar
    have hsame : s' = s := Table.eq_of_key hcar.opened.mem hs (by rw [hcar.same]; exact hid.symm)
    exact hsame ▸ hcar
  obtain ⟨hi, x, he⟩ | ⟨z, x, token, page, more, hz, -, hserved⟩ := snapshotPage_inv hpage
  · refine ⟨fresh, hopen.idle hi, rfl, le_rfl, fun token entries next more hp => ?_, .inl rfl⟩
    obtain ⟨head, total, hans⟩ := hp.answered
    rw [hres, he] at hans
    cases hans
  · exact (hopen.idle hz).served ha hres hserved

/-! ## The run after the freeze -/

/-- The snapshot `s` as the events since its freeze left it: still open, every page of it exact and
below its issued mark, acknowledged only by its consumer. -/
structure Tracked (read : World) (events : List (Event H)) (s : Snapshot) (w : World) : Prop where
  opened : Open H read s w
  pages : ∀ e ∈ events, ∀ token entries next more,
    PageAt e s.consumer s.id token entries next more →
    PageExact H read token entries next more ∧ next ≤ s.issued
  acked : s.ackedAt = none ∨ ∃ e ∈ events, ∃ r head, Asks e.act (lit "ack") r s.consumer ∧
    e.result = .ok (some (.ackedSnapshot head s.id false))

/-- Another event is tracked. -/
theorem Tracked.event {read : World} {events : List (Event H)} {s : Snapshot} {e : Event H}
    (h : Tracked read events s e.before) (hk : e.died = false)
    (hin : Within H s.created e.before.tick e.after) :
    ∃ s', Tracked read (events ++ [e]) s' e.after ∧
      s' = { s with issued := s'.issued, ackedAt := s'.ackedAt } := by
  obtain ⟨s', hc⟩ := h.opened.event hk hin
  have hcon : s'.consumer = s.consumer := by rw [hc.same]
  have hid : s'.id = s.id := by rw [hc.same]
  refine ⟨s', ⟨hc.opened, ?_, ?_⟩, hc.same⟩
  · intro f hf token entries next more hp
    rw [hcon, hid] at hp
    rcases List.mem_append.mp hf with hf | hf
    · obtain ⟨h1, h2⟩ := h.pages f hf token entries next more hp
      have := hc.issued
      exact ⟨h1, by omega⟩
    · obtain rfl := List.mem_singleton.mp hf
      exact hc.pages token entries next more hp
  · rw [hcon, hid]
    rcases hc.acked with hsame | ⟨r, head, ha, hr⟩
    · rw [hsame]
      rcases h.acked with hn | ⟨f, hf, ha⟩
      · exact .inl hn
      · exact .inr ⟨f, List.mem_append_left _ hf, ha⟩
    · exact .inr ⟨e, List.mem_append_right _ (List.mem_singleton.mpr rfl), r, head, ha, hr⟩

/-- Over a run within the lifetime the snapshot stays tracked. -/
theorem Run.tracked {read start w : World} {events future : List (Event H)} {s : Snapshot}
    (hrun : Run H start future w) (h : Tracked read events s start)
    (hk : ∀ e ∈ future, e.died = false) (hin : Within H s.created start.tick w) :
    ∃ s', Tracked read (events ++ future) s' w ∧
      s' = { s with issued := s'.issued, ackedAt := s'.ackedAt } := by
  induction hrun with
  | nil => exact ⟨s, by simpa using h, rfl⟩
  | @snoc past v hrun e he ih =>
    subst he
    have hmem : e ∈ past ++ [e] := List.mem_append_right _ (List.mem_singleton.mpr rfl)
    obtain ⟨s', ht, hsame⟩ := ih (fun x hx => hk x (List.mem_append_left _ hx))
      (hin.mono le_rfl e.tick_le)
    have hcr : s'.created = s.created := by rw [hsame]
    obtain ⟨s'', ht', hsame'⟩ :=
      ht.event (hk e hmem) (by rw [hcr]; exact hin.mono hrun.tick_le le_rfl)
    refine ⟨s'', by rwa [← List.append_assoc], ?_⟩
    rw [hsame', hsame]

/-! ## Following the tokens -/

/-- Following `page_token` from 0 through page replies of the snapshot: the token reached, what was
collected, and whether more is announced. -/
inductive Follows (events : List (Event H)) (consumer sid : Text) : ℤ → List Entry → Bool → Prop
  | start : Follows events consumer sid 0 [] true
  | page {token : ℤ} {got : List Entry} (h : Follows events consumer sid token got true)
    (e : Event H)
      (he : e ∈ events) {entries : List Entry} {next : ℤ} {more : Bool}
      (hp : PageAt e consumer sid token entries next more) :
      Follows events consumer sid next (got ++ entries) more

/-- **What is collected is a prefix of the frozen list**, and all of it when no more is
announced. -/
theorem Follows.exact {read : World} {events : List (Event H)} {s : Snapshot} {w : World}
    (ht : Tracked read events s w) {next : ℤ} {got : List Entry} {more : Bool}
    (h : Follows events s.consumer s.id next got more) :
    next = got.length ∧ next ≤ s.issued ∧ (∀ m ∈ got, m.Fits) ∧
      ∃ rest, read.members H = got ++ rest ∧ (more = false → rest = []) := by
  induction h with
  | start => exact ⟨rfl, by simp, by simp, read.members H, rfl, nofun⟩
  | page h e he hp ih =>
    obtain ⟨rfl, -, hfits, rest, hrest, -⟩ := ih
    obtain ⟨⟨hnext, ⟨rest', hrest', hall⟩, hfits'⟩, hle⟩ := ht.pages e he _ _ _ _ hp
    refine ⟨by rw [hnext]; simp, hle, fun m hm => ?_, rest', ?_, hall⟩
    · rcases List.mem_append.mp hm with hm | hm
      · exact hfits m hm
      · exact hfits' m hm
    · rw [hrest, Int.toNat_natCast, List.drop_left] at hrest'
      rw [hrest, hrest', List.append_assoc]

/-! ## Progress -/

/-- A registered consumer gets its cursor. -/
theorem register_found {consumer : Text} {n : ℕ} {c : Cursor} {w : World}
    (hm : measure consumer = .ok n) (hc : w.db.cursors.find consumer = some c) :
    register H consumer w = (.ok c, w) := by
  have hlift : (Prog.lift (measure consumer) : M ℕ) w = (.ok n, w) := by rw [hm]; rfl
  unfold register
  rw [bind_ok hlift, database_bind, hc]
  rfl

section pageToken

variable {s : Snapshot} {req : Object} {w w' : World}

/-- A page request of an unacknowledged snapshot asks the clock once. -/
theorem pageToken_tick {r : Except Exc ℤ} (hna : s.ackedAt = none)
    (h : pageToken H s.consumer s req w = (r, w')) : w'.tick = w.tick + 1 := by
  unfold pageToken at h
  rw [if_neg (by simp)] at h
  have hl : lapsed H s w = (.ok (decide (H.clock w.tick - s.created > snapshotTtl)),
      { w with tick := w.tick + 1 }) := by
    simp [lapsed, hna]
  rw [bind_ok hl] at h
  split at h
  · cases h
    rfl
  obtain ⟨e, -, rfl, rfl⟩ | ⟨token, -, h1⟩ := lift_bind_inv h
  · rfl
  dsimp only at h1
  split at h1
  · cases h1
    rfl
  split at h1
  · obtain ⟨e, h2, rfl⟩ | ⟨o, v, h2, h3⟩ := bind_inv h1
    · rw [(snapshotState_inv h2).1]
    · obtain ⟨rfl, -⟩ := snapshotState_inv h2
      cases o with
      | none => cases h3; rfl
      | some other =>
        dsimp only at h3
        split at h3 <;> cases h3 <;> rfl
  split at h1 <;> cases h1 <;> rfl

/-- A request that names the snapshot and continues within what was issued passes the checks. -/
theorem pageToken_eq_ok {token : ℤ} (hna : s.ackedAt = none)
    (hlive : H.clock w.tick - s.created ≤ snapshotTtl)
    (htoken : int (req.getD (lit "page_token") (.int 0)) = .ok token)
    (hclaim : (req.get (lit "snapshot_id")).isText s.id = true) (hle : token ≤ s.issued) :
    pageToken H s.consumer s req w = (.ok token, { w with tick := w.tick + 1 }) := by
  unfold pageToken
  rw [if_neg (by simp)]
  have hl : lapsed H s w = (.ok false, { w with tick := w.tick + 1 }) := by
    simp [lapsed, hna, hlive]
  have hnull : (req.get (lit "snapshot_id")).isNull = false := by
    rw [Json.isText_iff.mp hclaim]
    rfl
  have hlift : (Prog.lift (int (req.getD (lit "page_token") (.int 0))) : M ℤ)
      { w with tick := w.tick + 1 } = (.ok token, { w with tick := w.tick + 1 }) := by
    rw [htoken]
    rfl
  rw [bind_ok hl, if_neg (by simp), bind_ok hlift]
  rw [if_neg (by simp [hnull]), if_neg (by simp [hclaim]), if_neg (not_lt.mpr hle)]
  rfl

end pageToken

/-- The page of a snapshot whose members all fit is served, unless the storage fails. -/
theorem servePage_progress {read : World} {s : Snapshot} {token : ℤ} {w w' : World}
    {r : Except Exc Reply} (hh : Holds H w.db s read) (h0 : 0 ≤ token) (hle : token ≤ s.items)
    (hsmall : s.items ≤ maxEntries) (hfits : ∀ m ∈ read.members H, m.Fits)
    (h : servePage H s token w = (r, w')) :
    (∃ x, r = .error x ∧ Storage x) ∨ ∃ page more, w.db.page s.id token = .ok (page, more) ∧
      r = .ok (pageReply s token page more) ∧ (token < s.items → page ≠ []) := by
  have hbind : Sql.ofJson (.int token) = .ok (.int token) := by
    have : (maxEntries : ℤ) < 2 ^ 63 := by norm_num [maxEntries]
    rw [Sql.ofJson, if_pos]
    omega
  obtain ⟨sizes, hsizes, hrows⟩ := hh.rows
  have hpage : ∃ page more, w.db.page s.id token = .ok (page, more)
      ∧ (token < s.items → page ≠ []) := by
    have hpr := pageRows_eq hrows token
    have hsize : ∀ i ∈ w.db.pageRows s.id token,
        ∃ n, (fun i : Item => (.ok i.bytes : Except Exc ℕ)) i = .ok n ∧ n ≤ frameBudget := by
      intro i hi
      rw [hpr] at hi
      obtain ⟨hb, hm⟩ := mem_frozenItems hsizes (List.mem_of_mem_drop hi)
      exact ⟨i.bytes, rfl, hb ▸ hfits _ hm⟩
    obtain ⟨page, more, hp, hne⟩ := bounded_eq_ok hsize
    refine ⟨page, more, hp, fun hlt => hne ?_⟩
    rw [hpr, ne_eq, List.drop_eq_nil_iff, ← List.length_map Item.payload,
      map_payload_frozenItems (length_frozenSizes hsizes), ← hh.items]
    omega
  obtain ⟨page, more, hp, hne⟩ := hpage
  unfold servePage at h
  have h1 : (Prog.lift (Sql.ofJson (.int token)) : M Sql) w = (.ok (.int token), w) := by
    rw [hbind]
    rfl
  have h2 : (Prog.lift (bounded (fun i : Item => .ok i.bytes) (w.db.pageRows s.id token)) :
      M (List Item × Bool)) w = (.ok (page, more), w) := by
    rw [show bounded _ _ = _ from hp]
    rfl
  rw [bind_ok h1, database_bind, bind_ok h2] at h
  dsimp only at h
  obtain ⟨e, h3, rfl⟩ | ⟨_, v, h3, h4⟩ := bind_inv h
  · left
    refine ⟨e, rfl, ?_⟩
    unfold issuePage at h3
    split at h3
    · exact (upkeep_fixed _ _ _ _ h3).storage
    · cases h3
  · cases h4
    exact .inr ⟨page, more, hp, rfl, hne⟩

/-- A `sync` of the consumer finds the snapshot open, unless the storage fails. -/
theorem Open.begin {read : World} {s : Snapshot} {r : Object} {n : ℕ} {w w' : World}
    {res : Except Exc Session} (h : Open H read s w) (hna : s.ackedAt = none)
    (hn : measure s.consumer = .ok n) (hcon : consumerOf r = .ok s.consumer)
    (hin : Within H s.created w.tick w') (hb : beginSync H r w = (res, w')) :
    (∃ x, res = .error x ∧ Storage x) ∨ ∃ ses, res = .ok ses ∧ ses.consumer = s.consumer ∧
      ses.snapshot = some s.id ∧ Open H read s w' := by
  obtain ⟨c, hcm, hcc, -, hsnap⟩ := h.cursor
  have hlift : (Prog.lift (consumerOf r) : M Text) w = (.ok s.consumer, w) := by
    rw [hcon]
    rfl
  have hreg : register H s.consumer w = (.ok c, w) :=
    register_found hn (Table.find_eq_some.mpr ⟨hcm, hcc⟩)
  unfold beginSync at hb
  rw [bind_ok hlift, bind_ok hreg] at hb
  obtain ⟨x, h1, rfl⟩ | ⟨_, u, h1, h2⟩ := bind_inv hb
  · left
    refine ⟨x, rfl, ?_⟩
    obtain ⟨-, _, he, hst⟩ | ⟨-, _, -, -, he | he⟩ := touch_inv h1
    · cases he
      exact hst
    · cases he
    · cases he
      exact .killed
  obtain ⟨x, h3, rfl⟩ | ⟨p, v, h3, h4⟩ := bind_inv h2
  · left
    refine ⟨x, rfl, ?_⟩
    obtain ⟨-, -, he⟩ | ⟨sid, -, ⟨-, -, he⟩ | ⟨-, ⟨-, _, he, hst⟩ | ⟨-, -, -, he | he⟩⟩⟩ :=
      openSnapshot_inv h3
    · cases he
    · cases he
    · cases he
      exact hst
    · cases he
    · cases he
      exact .killed
  cases h4
  have hou : Open H read s u := by
    have htick : u.tick ≤ w'.tick := by
      obtain ⟨-, rfl, -⟩ | ⟨sid, -, ⟨-, hi, -⟩ | ⟨-, ⟨hi, -⟩ | ⟨hl, -⟩⟩⟩ := openSnapshot_inv h3
      · exact le_rfl
      · exact hi.tick
      · exact hi.tick
      · exact hl.tick
    obtain ⟨-, _, he, -⟩ | ⟨hl, now, hr, hd, -⟩ := touch_inv h1
    · cases he
    · exact h.quiet (.touch _ now hl hr hd) (hin.mono le_rfl htick)
  have hut : w.tick ≤ u.tick := by
    obtain ⟨hi, -⟩ | ⟨hl, -⟩ := touch_inv h1
    · exact hi.tick
    · exact hl.tick
  obtain ⟨hno, -⟩ | ⟨sid, hs, hcase⟩ := openSnapshot_inv h3
  · rw [hsnap hna] at hno
    cases hno
  obtain rfl := Option.some.inj (hs.symm.trans (hsnap hna))
  obtain ⟨-, hi, he⟩ | ⟨-, ⟨-, _, he, -⟩ | ⟨-, -, hab, -⟩⟩ := hcase
  · cases he
    exact .inr ⟨_, rfl, rfl, rfl, hou.idle hi⟩
  · cases he
  · -- It was usable, so it was not cleared.
    rcases hab with hab | ⟨now, hr, hab⟩
    · have hnow := hab s.created
      rw [hou.usable (by norm_num [snapshotTtl])] at hnow
      cases hnow
    · rw [hou.usable (hin now (hr.mono hut le_rfl)).2] at hab
      cases hab

/-- **A page request of an open snapshot makes progress.** One that names the snapshot and continues
within what was issued is answered with the next members, unless the storage fails. -/
theorem Open.progress {read : World} {s : Snapshot} {e : Event H} {r : Object} {token : ℤ} {n : ℕ}
    (h : Open H read s e.before) (hna : s.ackedAt = none) (hn : measure s.consumer = .ok n)
    (ha : Asks e.act (lit "sync") r s.consumer)
    (htoken : int (r.getD (lit "page_token") (.int 0)) = .ok token) (h0 : 0 ≤ token)
    (hle : token ≤ s.issued) (hclaim : (r.get (lit "snapshot_id")).isText s.id = true)
    (hin : Within H s.created e.before.tick e.after) (hsmall : s.items ≤ maxEntries)
    (hfits : ∀ m ∈ read.members H, m.Fits) :
    (∃ x, e.result = .error x ∧ Storage x) ∨ ∃ entries next more,
      PageAt e s.consumer s.id token entries next more ∧ (token < s.items → entries ≠ []) := by
  obtain ⟨svc, pid, hact, hval⟩ := ha.act
  have hp := e.performed
  rw [hact] at hp
  obtain ⟨res, hcmd, hres⟩ := request_inv hp
  suffices hsuff : (∃ x, res = .error x ∧ Storage x) ∨ ∃ page more,
      res = .ok (pageReply s token page more) ∧ (token < s.items → page ≠ []) by
    rcases hsuff with ⟨x, rfl, hx⟩ | ⟨page, more, rfl, hne⟩
    · exact .inl ⟨x, hres, hx⟩
    · exact .inr ⟨_, _, _, ⟨⟨r, ha, htoken⟩, s.head, s.items, hres⟩, fun hlt => by
        simpa using hne hlt⟩
  -- Maintenance.
  have hro : readOnly (r.get (lit "op")) = false := not_readOnly ha.op (by decide)
  have hlift : (Prog.lift (validateTarget svc r) : M Unit) e.before = (.ok (), e.before) := by
    rw [hval]
    rfl
  unfold command at hcmd
  rw [bind_ok hlift, dispatch_sync svc r pid ha.op, maintain, if_neg (by simp [hro])] at hcmd
  obtain ⟨x, h1, rfl⟩ | ⟨_, u, h1, h2⟩ := bind_inv hcmd
  · exact .inl ⟨x, rfl, raises_maybeExpire _ _ _ h1⟩
  have hmu := maybeExpire_maint h1
  have hafter : u.tick ≤ e.after.tick := (sync_changes h2).later.tick
  have hou : Open H read s u := h.quiets hmu.quiets (hin.mono le_rfl hafter)
  have hinu : Within H s.created u.tick e.after := hin.mono hmu.later.tick le_rfl
  have hsync := h2
  unfold sync at h2
  obtain ⟨x, h3, rfl⟩ | ⟨ses, v, h3, h4⟩ := bind_inv h2
  · rcases hou.begin hna hn ha.consumer hinu h3 with ⟨_, he, hx⟩ | ⟨_, he, -⟩
    · cases he
      exact .inl ⟨x, rfl, hx⟩
    · cases he
  have hv : v.tick ≤ e.after.tick := by
    obtain ⟨-, -, _, he⟩ | ⟨ses', v', hb, hans⟩ := sync_inv hsync
    · rw [h3] at he
      cases he
    · rw [h3] at hb
      cases hb
      exact hans.changes.later.tick
  rcases hou.begin hna hn ha.consumer (hinu.mono le_rfl hv) h3 with ⟨_, he, -⟩ | ⟨_, he, hcon,
    hsnap, hov⟩
  · cases he
  cases he
  -- The snapshot is open, and its page is served.
  simp only [hsnap, hcon] at h4
  unfold snapshotPage at h4
  have hfind : v.db.snapshots.find s.id = some s := Table.find_eq_some.mpr ⟨hov.mem, rfl⟩
  rw [database_bind, hfind] at h4
  have hvt : u.tick ≤ v.tick := (beginSync_inv h3).1.later.tick
  have hlive : H.clock v.tick - s.created ≤ snapshotTtl := by
    refine (hinu _ ⟨v.tick, hvt, ?_, rfl⟩).2
    obtain ⟨x, h5, -⟩ | ⟨tk, z, h5, h6⟩ := bind_inv h4
    · have := pageToken_tick hna h5
      omega
    · have h7 := pageToken_tick hna h5
      have h8 : z.tick ≤ e.after.tick := by
        obtain ⟨hi, -⟩ | ⟨page, more, -, ⟨-, hi, -⟩ | ⟨-, hl, -⟩⟩ := servePage_inv h6
        · exact hi.tick
        · exact hi.tick
        · exact hl.tick
      omega
  dsimp only at h4
  rw [bind_ok (pageToken_eq_ok hna hlive htoken hclaim hle)] at h4
  have hiss := hov.issued
  rcases servePage_progress (hov.idle (show Idle v { v with tick := v.tick + 1 } from
      ⟨⟨Nat.le_succ _, rfl⟩, rfl⟩)).holds h0 (by omega) hsmall hfits h4 with hx | ⟨page, more,
        -, hr, hne⟩
  · exact .inl hx
  · exact .inr ⟨page, more, hr, hne⟩

/-! ## The result -/

/-- An event is not both a `sync` and an `ack`. -/
theorem Asks.sync_ne_ack {a : Act} {r r' : Object} {consumer consumer' : Text}
    (h : Asks a (lit "sync") r consumer) (h' : Asks a (lit "ack") r' consumer') : False := by
  obtain rfl := h.inj h'
  have heq := (Json.isText_iff.mp h.op).symm.trans (Json.isText_iff.mp h'.op)
  have hne : lit "sync" ≠ lit "ack" := by decide
  exact hne (Json.str.inj heq)

/-- A snapshot is acknowledged only after each of its members was in a page reply. -/
theorem Run.acked_after_pages {storeId : Text} {pages : ℕ} {fts : Bool}
    {past earlier later : List (Event H)} {w : World} {e : Event H}
    (h : Run H (World.initial storeId pages fts) past w) (hk : ∀ e ∈ past, e.died = false)
    (hp : past = earlier ++ e :: later) {r : Object} {consumer sid : Text} {head : ℕ}
    {replayed : Bool} (ha : Asks e.act (lit "ack") r consumer)
    (hr : e.result = .ok (some (.ackedSnapshot head sid replayed))) :
    ∃ read, (∃ f ∈ earlier, FrozenAt f consumer sid read) ∧ head = read.db.head ∧
      ∀ m ∈ read.members H, InPage earlier consumer sid m.seq := by
  have hpaged : Paged earlier e.before :=
    (h.at hp).paged fun x hx => hk x (hp ▸ List.mem_append_left _ hx)
  -- The row of the snapshot, paged to its end.
  have hrow {u : World} (hu : Quiets H e.before.tick e.before u) {s : Snapshot}
      (hs : s ∈ u.db.snapshots) (hown : s.consumer = consumer)
      (hall : s.ackedAt ≠ none ∨ s.items ≤ s.issued) :
      ∃ read, (∃ f ∈ earlier, FrozenAt f consumer s.id read) ∧ s.head = read.db.head ∧
        ∀ m ∈ read.members H, InPage earlier consumer s.id m.seq := by
    obtain ⟨read, hh⟩ := (hpaged.quiets hu).snapshots s hs
    refine ⟨read, hown ▸ hh.frozen, hh.holds.head, fun m hm => hown ▸ hh.inPage ?_ hm⟩
    exact hall.elim hh.complete id
  cases e.is with
  | quiet hq hstay hno => cases hno _ hr
  | restart hq hno => exact absurd hr (hno _)
  | sync r' u v s res ha' => exact (ha'.sync_ne_ack ha).elim
  | ack r' u consumer' res ha' hu hstay hack hres =>
    obtain rfl := ha'.inj ha
    obtain rfl : consumer' = consumer := Except.ok.inj (ha'.consumer.symm.trans ha.consumer)
    rw [hres] at hr
    cases hack with
    | refused hi x he => subst he; cases hr
    | replayed s hi hs hown hacked he =>
      subst he
      cases hr
      exact hrow hu hs hown (.inl (by rintro hn; simp [hn] at hacked))
    | snapshot c s hc hb he =>
      rcases he with rfl | rfl
      · cases hr
        exact hrow hu hb.snapshot (hb.own.trans hc) (.inr hb.complete)
      · cases hr
    | ignored seq hi he => subst he; cases hr
    | through c seq hc hadv he => rcases he with rfl | rfl <;> cases hr

/-- A consumer whose `sync` began has an encodable key. -/
theorem beginSync_measure {r : Object} {w w' : World} {s : Session}
    (h : beginSync H r w = (.ok s, w')) : ∃ n, measure s.consumer = .ok n := by
  unfold beginSync at h
  obtain ⟨_, -, he, -⟩ | ⟨consumer, -, h1⟩ := lift_bind_inv h
  · cases he
  obtain ⟨c, u, h2, h3⟩ := bind_ok_inv h1
  obtain ⟨_, v, -, h4⟩ := bind_ok_inv h3
  obtain ⟨p, x, -, h5⟩ := bind_ok_inv h4
  cases h5
  unfold register at h2
  obtain ⟨_, -, he, -⟩ | ⟨n, hn, -⟩ := lift_bind_inv h2
  · cases he
  · exact ⟨n, hn⟩

/-- A freeze has no more members than there are entries. -/
theorem length_members_le (H : Host) (w : World) :
    (w.members H).length ≤ w.db.entries.rows.length := by
  refine (capTails_sublist _ _).length_le.trans ?_
  rw [List.length_insertionSort]
  exact List.length_filter_le _ _

/-- The request continues the snapshot `sid` of `consumer` at `token`. -/
structure Continues (e : Event H) (consumer sid : Text) (token : ℤ) : Prop where
  asked : ∃ r, Asks e.act (lit "sync") r consumer ∧
    int (r.getD (lit "page_token") (.int 0)) = .ok token ∧
    (r.get (lit "snapshot_id")).isText sid = true

/-- The lifetime of a snapshot that was created before `j`, from `j` on. -/
theorem Near.within (hmono : Monotone H.clock) {created : ℚ} {i k j : ℕ} {v : World}
    (h : Near H created k v) (hi : H.clock i = created) (hij : i ≤ j) (hkj : k ≤ j) :
    Within H created j v := by
  rintro t ⟨n, h1, h2, rfl⟩
  have hge : created ≤ H.clock n := hi ▸ hmono (hij.trans h1)
  exact ⟨hge, (le_abs_self _).trans (h n (hkj.trans h1) h2)⟩

/-- **The snapshot is open when the request that froze it ends, and stays so for its lifetime.** -/
theorem FrozenAt.tracked (hmono : Monotone H.clock) {past future : List (Event H)} {f : Event H}
    {storeId : Text} {pages : ℕ} {fts : Bool} {w : World} {consumer sid : Text} {read : World}
    {s : Snapshot} (hpast : Run H (World.initial storeId pages fts) past f.before)
    (hat : FrozenAt f consumer sid read) (hs : s ∈ f.after.db.snapshots) (hid : s.id = sid)
    (hfuture : Run H f.after future w) (hkpast : ∀ e ∈ past, e.died = false)
    (hkfuture : ∀ e ∈ future, e.died = false) (hlife : Near H s.created f.before.tick w) :
    ∃ s' i, Tracked read (f :: future) s' w ∧ s'.consumer = consumer ∧ s'.id = sid ∧
      s'.created = s.created ∧ i < f.after.tick ∧ H.clock i = s.created := by
  have hnear : Near H s.created f.before.tick f.after :=
    fun i h1 h2 => hlife i h1 (h2.trans_le hfuture.tick_le)
  obtain ⟨hcar, i, hi, hci⟩ := hat.opened hmono (hpast.paged hkpast).owned hs hid hnear
  have hcon : s.consumer = consumer := by rw [hcar.same]; rfl
  have hstart : Tracked read [f] s f.after := by
    refine ⟨hcar.opened, fun e he token entries next more hp => ?_, ?_⟩
    · obtain rfl := List.mem_singleton.mp he
      rw [hcon, hid] at hp
      exact hcar.pages token entries next more hp
    · rcases hcar.acked with hn | ⟨r, head, ha, -⟩
      · exact .inl hn
      · obtain ⟨r', -, -, ha', -⟩ := hat.begun
        exact (ha'.sync_ne_ack ha).elim
  obtain ⟨s', htr, hsame⟩ := hfuture.tracked hstart hkfuture
    (hlife.within hmono hci hi.le f.tick_le)
  exact ⟨s', i, htr, by rw [hsame]; exact hcon, by rw [hsame]; exact hid, by rw [hsame], hi, hci⟩

/-- **A frozen snapshot is delivered exactly.** Take any run, a request `f` of it that froze a
snapshot, and any further events within the lifetime of that snapshot. The frozen list holds the
entries live at the freeze, of a capped type only the newest, ordered by type and newest first.
Following the tokens collects a prefix of it, and all of it when no more is announced, in which case
every member fits a page. If every member fits a page, each further request of a followed token is
answered with the next members, unless the storage fails. And at any time a snapshot is acknowledged
only after each of its members was in a page reply to its consumer. -/
theorem frozen_snapshot_exact (hmono : Monotone H.clock) {storeId : Text} {pages : ℕ} {fts : Bool}
    {past future : List (Event H)} {f : Event H} {w : World} {consumer sid : Text} {read : World}
    {s : Snapshot} (hpast : Run H (World.initial storeId pages fts) past f.before)
    (hat : FrozenAt f consumer sid read) (hs : s ∈ f.after.db.snapshots) (hid : s.id = sid)
    (hfuture : Run H f.after future w) (hk : ∀ e ∈ past ++ f :: future, e.died = false)
    (hlife : Near H s.created f.before.tick w) :
    (∀ m, m ∈ read.members H ↔ m ∈ read.db.entries ∧
        m.liveAt read.db.head (H.clock read.tick) = true ∧ ∀ cap, m.kind.tail = some cap →
          (read.db.newer (H.clock read.tick) m.kind m.seq).length < cap) ∧
      ((read.members H).Pairwise fun a b =>
        a.kind.order < b.kind.order ∨ (a.kind.order = b.kind.order ∧ b.seq < a.seq)) ∧
      (∀ token got more, Follows (f :: future) consumer sid token got more →
        (∃ rest, read.members H = got ++ rest) ∧
          (more = false → got = read.members H ∧ ∀ m ∈ read.members H, m.Fits)) ∧
      ((∀ m ∈ read.members H, m.Fits) → ∀ token got,
        Follows (f :: future) consumer sid token got true →
        (∀ e ∈ future, ∀ r head, Asks e.act (lit "ack") r consumer →
          e.result ≠ .ok (some (.ackedSnapshot head sid false))) →
        ∀ e : Event H, e.before = w → Continues e consumer sid token →
          Near H s.created f.before.tick e.after →
          (∃ x, e.result = .error x ∧ Storage x) ∨
            ∃ entries next more, PageAt e consumer sid token entries next more ∧
              (got.length < (read.members H).length → entries ≠ [])) ∧
      ∀ earlier e later, past ++ f :: future = earlier ++ e :: later →
      ∀ r consumer sid head replayed,
        Asks e.act (lit "ack") r consumer →
        e.result = .ok (some (.ackedSnapshot head sid replayed)) →
        ∃ read, (∃ g ∈ earlier, FrozenAt g consumer sid read) ∧ head = read.db.head ∧
          ∀ m ∈ read.members H, InPage earlier consumer sid m.seq := by
  have hkpast : ∀ e ∈ past, e.died = false := fun e he => hk e (List.mem_append_left _ he)
  have hkfuture : ∀ e ∈ future, e.died = false :=
    fun e he => hk e (List.mem_append_right _ (List.mem_cons_of_mem f he))
  have hrun : Run H (World.initial storeId pages fts) (past ++ f :: future) w := by
    simpa using (Run.snoc hpast f rfl).append hfuture
  obtain ⟨s', i, htr, hcon', hid', hcr', hi, hci⟩ :=
    hat.tracked hmono hpast hs hid hfuture hkpast hkfuture hlife
  have hfollow {token : ℤ} {got : List Entry} {more : Bool}
      (h : Follows (f :: future) consumer sid token got more) :=
    Follows.exact htr (hcon'.symm ▸ hid'.symm ▸ h : Follows (f :: future) s'.consumer s'.id
      token got more)
  refine ⟨fun m => mem_frozen, pairwise_frozen _ _, fun token got more h => ?_, ?_, ?_⟩
  · obtain ⟨-, -, hfits, rest, hrest, hall⟩ := hfollow h
    refine ⟨⟨rest, hrest⟩, fun hm => ?_⟩
    rw [hall hm, List.append_nil] at hrest
    exact ⟨hrest.symm, hrest ▸ hfits⟩
  · intro hfits token got h hunacked e hbefore hcont hnear'
    obtain ⟨hlen, hiss, -⟩ := hfollow h
    obtain ⟨r, ha, htoken, hclaim⟩ := hcont.asked
    have hna : s'.ackedAt = none := by
      rcases htr.acked with hn | ⟨g, hg, r', head, ha', hr⟩
      · exact hn
      rw [hcon', hid'] at *
      rcases List.mem_cons.mp hg with rfl | hg
      · obtain ⟨r'', -, -, ha'', -⟩ := hat.begun
        exact (ha''.sync_ne_ack ha').elim
      · exact absurd hr (hunacked g hg r' head ha')
    have hmeasure : ∃ n, measure s'.consumer = .ok n := by
      obtain ⟨r', u, ses, ha', -, hb, -, -⟩ := hat.begun
      obtain ⟨-, ⟨_, he⟩ | ⟨_, he, hc, -⟩⟩ := beginSync_inv hb
      · cases he
      · cases he
        rw [hcon', ← Except.ok.inj (hc.symm.trans ha'.consumer)]
        exact beginSync_measure hb
    obtain ⟨n, hn⟩ := hmeasure
    have hitems : s'.items = (read.members H).length := htr.opened.holds.items
    have hsmall : s'.items ≤ maxEntries := by
      rw [hitems]
      refine (length_members_le H read).trans ?_
      exact keeps_of_reflTransGen (I := fun v => v.db.entries.rows.length ≤ maxEntries)
        (fun _ _ => Change.entries_le) hat.quiets.changes (hpast.entries_le (Nat.zero_le _))
    subst hbefore
    have hin : Within H s'.created e.before.tick e.after := by
      rw [hcr']
      exact hnear'.within hmono hci (hi.le.trans hfuture.tick_le)
        (f.tick_le.trans hfuture.tick_le)
    have hprog := htr.opened.progress hna hn (hcon'.symm ▸ ha) htoken (by omega) hiss
      (hid'.symm ▸ hclaim) hin hsmall hfits
    rw [hcon', hid'] at hprog
    rcases hprog with hx | ⟨entries, next, more, hp, hne⟩
    · exact .inl hx
    · exact .inr ⟨entries, next, more, hp, fun hlt => hne (by omega)⟩
  · intro earlier e later hp r consumer sid head replayed ha hr
    exact hrun.acked_after_pages hk hp ha hr

/-- The page limits leave room for a store of ten pages. -/
theorem ten_le_caps : 10 ≤ admitCap false ∧ ∀ reserved, 10 ≤ pageCap reserved := by
  have h : 10 ≤ admitCap false ∧ 10 ≤ pageCap false ∧ 10 ≤ pageCap true := by decide
  exact ⟨h.1, fun reserved => by cases reserved; exacts [h.2.1, h.2.2]⟩

/-- The `sync` of the reader `b` and the first snapshot of it, as the store measures them. -/
theorem reader_facts : consumerOf [(lit "op", .str (lit "sync")), (lit "consumer", .str (lit "b"))]
    = .ok (lit "b") ∧
    measureAll [.str (lit "snapshot-29"), .str (lit "b")] = .ok 12 ∧ Host.steady.uuid 29
    = lit "snapshot-29" ∧
    ¬ Host.steady.clock 13 - 1700000001 ≥ expiryInterval ∧
    decide (Host.steady.clock 38 - Host.steady.clock 32 > snapshotTtl) = false := by
  decide +kernel

/-- Two notes of different types. -/
def twoNotes : List (Event Host.steady) × World :=
  play Host.steady (World.initial (lit "store") 10 true)
    [ask (lit "note") (lit "a") [(lit "type", .str (lit "finding")), (lit "body", .str (lit "x"))],
      ask (lit "note") (lit "a") [(lit "type", .str (lit "decision")),
        (lit "body", .str (lit "y"))]]

/-- The first `sync` of the reader `b`. -/
def firstSync : Event Host.steady where
  act := ask (lit "sync") (lit "b") []
  before := twoNotes.2
  result := ((ask (lit "sync") (lit "b") []).perform Host.steady twoNotes.2).1
  after := ((ask (lit "sync") (lit "b") []).perform Host.steady twoNotes.2).2
  performed := Prod.mk.eta.symm

/-- The note that revokes the first one after the freeze. -/
def revocation : Event Host.steady where
  act := ask (lit "note") (lit "a")
    [(lit "type", .str (lit "finding")), (lit "body", .str (lit "z")), (lit "revokes", .int 1)]
  before := firstSync.after
  result := ((ask (lit "note") (lit "a") [(lit "type", .str (lit "finding")),
    (lit "body", .str (lit "z")), (lit "revokes", .int 1)]).perform Host.steady firstSync.after).1
  after := ((ask (lit "note") (lit "a") [(lit "type", .str (lit "finding")),
    (lit "body", .str (lit "z")), (lit "revokes", .int 1)]).perform Host.steady firstSync.after).2
  performed := Prod.mk.eta.symm

/-- The first page is asked for once more. -/
def repeatedPage : Event Host.steady where
  act := ask (lit "sync") (lit "b") [(lit "page_token", .int 0)]
  before := revocation.after
  result := ((ask (lit "sync") (lit "b") [(lit "page_token", .int 0)]).perform Host.steady
    revocation.after).1
  after := ((ask (lit "sync") (lit "b") [(lit "page_token", .int 0)]).perform Host.steady
    revocation.after).2
  performed := Prod.mk.eta.symm

/-- What a page reply shows: the snapshot, the types, sequences and revocations of its entries, the
next token and the flag. -/
structure PageView where
  sid : Text
  rows : List (Kind × ℕ × Option ℕ)
  next : ℤ
  more : Bool
  deriving DecidableEq

def Reply.pageOf : Reply → Option PageView
  | .snapshot sid _ entries next _ more =>
      some ⟨sid, entries.map fun e => (e.kind, e.seq, e.revokedBy), next, more⟩
  | _ => none

/-- A request whose reply is seen to be a page of a snapshot. -/
theorem pageAt_of_reply {e : Event H} {r : Object} {consumer : Text} {token : ℤ} (page : PageView)
    (hasks : Asks e.act (lit "sync") r consumer)
    (htoken : int (r.getD (lit "page_token") (.int 0)) = .ok token)
    (h : (e.result.toOption.bind fun x => x.bind Reply.pageOf) = some page) :
    ∃ entries : List Entry, PageAt e consumer page.sid token entries page.next page.more ∧
      entries.map (fun e => (e.kind, e.seq, e.revokedBy)) = page.rows := by
  rcases hr : e.result with _ | _ | x
  · simp [hr, Except.toOption] at h
  · simp [hr, Except.toOption] at h
  · rw [hr] at h
    change x.pageOf = _ at h
    cases x with
    | snapshot sid' head entries next' total more' =>
      obtain rfl := Option.some.inj h
      exact ⟨entries, ⟨⟨r, hasks, htoken⟩, head, total, hr⟩, rfl⟩
    | _ => simp [Reply.pageOf] at h

/-- The page both requests are answered with. -/
def frozenPage : PageView :=
  ⟨lit "snapshot-36", [(.decision, 2, none), (.finding, 1, none)], 2, false⟩

/-- What the four requests leave and answer. -/
theorem firstSync_facts :
    (firstSync.after.db.snapshots.rows.map fun s => (s.id, s.created))
        = [(lit "snapshot-36", 1700000039)] ∧
      ((twoNotes.1 ++ [firstSync, revocation, repeatedPage]).all fun e => !e.died) = true ∧
      (firstSync.result.toOption.bind fun x => x.bind Reply.pageOf) = some frozenPage ∧
      (repeatedPage.before.db.entries.rows.map fun e => (e.kind, e.seq, e.revokedBy))
        = [(.finding, 1, some 3), (.decision, 2, none), (.finding, 3, none)] ∧
      (repeatedPage.result.toOption.bind fun x => x.bind Reply.pageOf) = some frozenPage ∧
      repeatedPage.after.tick < 100 := by
  decide +kernel

/-- The first `sync` freezes at the state its request has reached. -/
theorem firstSync_frozen : ∃ read, FrozenAt firstSync (lit "b") (lit "snapshot-36") read := by
  let r : Object := [(lit "op", .str (lit "sync")), (lit "consumer", .str (lit "b"))]
  let u := (maybeExpire Host.steady twoNotes.2).2
  let read := (beginSync Host.steady r u).2
  obtain ⟨hkept, hses, hfreeze⟩ : (maybeExpire Host.steady twoNotes.2).1 = .ok () ∧
      ((beginSync Host.steady r u).1.toOption.map fun s => (s.snapshot, s.due))
        = some (none, true) ∧
      (freeze Host.steady (lit "b") read).1 = .ok (lit "snapshot-36") := by
    decide +kernel
  have hu : maybeExpire Host.steady twoNotes.2 = (.ok (), u) := Prod.ext hkept rfl
  rcases hb : beginSync Host.steady r u with ⟨e | s, v⟩
  · rw [hb] at hses
    cases hses
  · rw [hb] at hses
    obtain ⟨hsnap, hdue⟩ := Prod.mk.inj (Option.some.inj hses)
    have hv : v = read := by simp only [read, hb]
    exact ⟨read, ⟨r, u, s, ⟨⟨_, _, rfl, rfl⟩, rfl, rfl⟩, hu,
      hv ▸ hb, hsnap,
      hdue⟩, _, Prod.ext hfreeze rfl⟩

/-- Every reading of the clock in these requests is within an hour of the freeze. -/
theorem firstSync_near : Near Host.steady 1700000039 firstSync.before.tick repeatedPage.after := by
  intro i h1 h2
  have htick : repeatedPage.after.tick < 100 := firstSync_facts.2.2.2.2.2
  have hi : ((i : ℕ) : ℚ) < 100 := by exact_mod_cast h2.trans htick
  have hi0 : (0 : ℚ) ≤ i := Nat.cast_nonneg i
  rw [abs_le]
  change -3600 ≤ (1700000000 + i : ℚ) - 1700000039 ∧ (1700000000 + i : ℚ) - 1700000039 ≤ 3600
  constructor <;> linarith

/-- A decision and a finding are frozen and paged; the finding is revoked, and the page asked for
again is still the whole frozen list. -/
theorem frozen_snapshot_exact_firstSync :
    ∃ read got, FrozenAt firstSync (lit "b") (lit "snapshot-36") read ∧
      PageAt firstSync (lit "b") (lit "snapshot-36") 0 got 2 false ∧
      (repeatedPage.before.db.entries.rows.map fun e => (e.kind, e.seq, e.revokedBy))
        = [(.finding, 1, some 3), (.decision, 2, none), (.finding, 3, none)] ∧
      PageAt repeatedPage (lit "b") (lit "snapshot-36") 0 got 2 false ∧
      (got.map fun e => (e.kind, e.seq, e.revokedBy))
        = [(.decision, 2, none), (.finding, 1, none)] ∧
      got = read.members Host.steady := by
  obtain ⟨read, hat⟩ := firstSync_frozen
  have hpast : Run Host.steady (World.initial (lit "store") 10 true) twoNotes.1 firstSync.before :=
    run_play _ _
  have hfuture : Run Host.steady firstSync.after [revocation, repeatedPage] repeatedPage.after :=
    .snoc (.snoc .nil revocation rfl) repeatedPage rfl
  obtain ⟨hsnap, hall, hanswer, hbefore, hanswer', -⟩ := firstSync_facts
  obtain ⟨s, hs, hsid⟩ := List.mem_map.mp (hsnap ▸ List.mem_singleton.mpr rfl)
  obtain ⟨hid, hcreated⟩ := Prod.mk.inj hsid
  have hk : ∀ e ∈ twoNotes.1 ++ [firstSync, revocation, repeatedPage], e.died = false :=
    fun e he => by simpa using List.all_eq_true.mp hall e he
  have hexact (got : List Entry) (hfollows : Follows [firstSync, revocation, repeatedPage] (lit "b")
      (lit "snapshot-36") 2 got false) : got = read.members Host.steady :=
    ((frozen_snapshot_exact monotone_steady hpast hat hs hid hfuture hk
      (hcreated ▸ firstSync_near)).2.2.1 2 got false hfollows).2 rfl |>.1
  have hfirst : Asks firstSync.act (lit "sync") [(lit "op", .str (lit "sync")),
      (lit "consumer", .str (lit "b"))] (lit "b") :=
    ⟨⟨_, _, rfl, rfl⟩, rfl, rfl⟩
  obtain ⟨got, hpage, hrows⟩ : ∃ got : List Entry, PageAt firstSync (lit "b")
    (lit "snapshot-36") 0 got 2 false
      ∧ got.map (fun e => (e.kind, e.seq, e.revokedBy)) = frozenPage.rows :=
    pageAt_of_reply frozenPage hfirst rfl hanswer
  have hsecond : Asks repeatedPage.act (lit "sync") [(lit "op", .str (lit "sync")),
      (lit "consumer", .str (lit "b")), (lit "page_token", .int 0)] (lit "b") :=
    ⟨⟨_, _, rfl, rfl⟩, rfl, rfl⟩
  obtain ⟨again, hagain, -⟩ : ∃ got : List Entry,
      PageAt repeatedPage (lit "b") (lit "snapshot-36") 0 got 2 false
        ∧ got.map (fun e => (e.kind, e.seq, e.revokedBy)) = frozenPage.rows :=
    pageAt_of_reply frozenPage hsecond rfl hanswer'
  have hgot := hexact got (by simpa using Follows.page .start firstSync (by simp) hpage)
  have hsame := hexact again (by simpa using Follows.page .start repeatedPage (by simp) hagain)
  refine ⟨read, got, hat, hpage, hbefore, ?_, hrows, hgot⟩
  rw [hgot, ← hsame]
  exact hagain

/-! ## A member above the page budget -/

/-- A `sync` of the reader `b`. -/
def longSync (fields : Object) : Object :=
  (lit "op", .str (lit "sync")) :: (lit "consumer", .str (lit "b")) :: fields

section long

variable {p : Text} (hp : Plain p longLen) {ts : ℚ} {w : World} {cs : List Cursor}
  {ss : List Snapshot} {is : List Item}
include hp

omit hp in
/-- A note that fits under the cap is admitted. -/
theorem Holding.admits (h : Holding p ts w cs ss is) {need : ℕ}
    (hl : w.db.usage.logical + need ≤ byteCap false) : w.admits need 0 false = true := by
  have hent : w.db.usage.entries = 1 := by simp [Db.usage, h.entries]
  have hcap : 1 + 0 ≤ entryCap false := by decide
  have hpg := ten_le_caps.1
  simp [World.admits, hl, hent, h.pages, hcap, hpg]

/-- The second consumer is registered with a fresh cursor. -/
theorem Holding.register (h : Holding p ts w [] [] []) :
    ∃ w' now, register Host.steady (lit "b") w = (.ok (Cursor.fresh (lit "b") 0), w') ∧
      w'.tick = w.tick + 6 ∧ Holding p ts w' [Cursor.fresh (lit "b") now] [] [] := by
  have hcur : w.db.cursors = .empty := Table.ext h.cursors
  have hret : w.db.retired = .empty := Table.ext h.retired
  obtain ⟨t, ht, hrows⟩ := Table.insert?_empty Cursor.consumer
    (Cursor.fresh (lit "b") (Host.steady.clock (w.tick + 2)))
  let w2 : World := { w with db := { w.db with cursors := t }, tick := w.tick + 3 }
  have hw2 : Holding p ts w2 [Cursor.fresh (lit "b") (Host.steady.clock (w.tick + 2))] [] [] :=
    ⟨h.blocked, h.pages, h.expiredAt, h.head, h.floor, h.entries, h.idem, h.retired, hrows,
      h.snapshots,
      h.items⟩
  have hbody : insertCursor Host.steady (lit "b") { w with tick := w.tick + 1 } = (.ok (), w2) := by
    have hins (v : World) : insertInto w.db.cursors
        (Cursor.fresh (lit "b") (Host.steady.clock (w.tick + 2))) v = (.ok t, v) := by
      rw [hcur, insertInto, ht]
      rfl
    exact bind_ok (hins _)
  have hadm : w.admits 130 0 false = true := h.admits (by rw [h.logical hp]; decide)
  have hmut := mutation_works steady_works h.blocked hadm hbody
    (hw2.pages.trans_le (ten_le_caps.2 _))
    ((hw2.logical hp).trans_le
      (by simp only [List.map_cons, List.map_nil, List.sum_cons, List.sum_nil,
        Cursor.fresh]; decide))
  refine ⟨{ w2 with tick := w2.tick + 3 }, _, ?_, rfl, hw2.at _⟩
  unfold Memory.register
  rw [bind_ok (show (Prog.lift (measure (lit "b")) : M _) w = (.ok 1, w) from rfl),
    database_bind, hcur,
    hret]
  exact bind_ok hmut

omit hp in
/-- A touch sets the time of the cursor. -/
theorem Holding.touch {c : Cursor} (hc : c.consumer = lit "b") (h : Holding p ts w [c] ss is) :
    ∃ w' now, touch Host.steady (lit "b") w = (.ok (), w') ∧ w'.tick = w.tick + 6 ∧
      Holding p ts w' [{ c with updated := now }] ss is := by
  let now := Host.steady.clock (w.tick + 2)
  let w2 : World := { w with db := w.db.touch (lit "b") now, tick := w.tick + 3 }
  have hrows : w2.db.cursors.rows = [{ c with updated := now }] := by
    change (w.db.cursors.rows.map _) = _
    rw [h.cursors]
    simp [hc]
  have hw2 : Holding p ts w2 [{ c with updated := now }] ss is :=
    ⟨h.blocked, h.pages, h.expiredAt, h.head, h.floor, h.entries, h.idem, h.retired, hrows,
      h.snapshots,
      h.items⟩
  exact ⟨_, now, transaction_works steady_works h.blocked rfl
    (hw2.pages.trans_le (ten_le_caps.2 _)), rfl,
    hw2.at _⟩

omit hp in
/-- The members of a freeze of the store with the long row. -/
theorem Holding.members (h : Holding p ts w cs ss is) :
    w.members Host.steady = [longEntry p ts] := by
  rw [World.members, Db.frozen, h.entries, h.head]
  rfl

omit hp in
/-- Pruning drops nothing from a store with one snapshot. -/
theorem Holding.prune {s : Snapshot} (h : Holding p ts w cs [s] is) (now : ℚ) :
    Holding p ts { w with db := w.db.pruneSnapshots (lit "b") now } cs [s] is := by
  have hout : w.db.outdated (lit "b") now = [] := by
    refine List.drop_eq_nil_of_le ?_
    rw [List.length_insertionSort, h.snapshots]
    exact (List.length_filter_le _ _).trans (show 1 ≤ maxSnapshotsPerConsumer by decide)
  refine ⟨h.blocked, h.pages, h.expiredAt, h.head, h.floor, h.entries, h.idem, h.retired,
    h.cursors, ?_, ?_⟩
  · simp [Db.pruneSnapshots, hout, Table.remove, h.snapshots]
  · simp [Db.pruneSnapshots, hout, Table.remove, h.items]

/-- The snapshot with the long row. -/
def longSid : Text := lit "snapshot-29"

/-- The row of that snapshot. -/
def longSnapshot : Snapshot := ⟨longSid, lit "b", 1, Host.steady.clock 32, 1, 0, none⟩

/-- The item that holds the long row. -/
def longItem (p : Text) : Item := ⟨longSid, 0, 1, longEntry p 1700000009, frameBudget + 9⟩

/-- The size of the long entry. -/
theorem frozenSizes_long : frozenSizes [longEntry p 1700000009] = .ok [frameBudget + 9] := by
  rw [frozenSizes, lenEncode_longEntry hp]
  rfl

/-- The freeze of the one long entry. -/
theorem Holding.freeze {c : Cursor} (hc : c.consumer = lit "b") (htick : w.tick = 26)
    (h : Holding p 1700000009 w [c] [] []) :
    ∃ w' updated, freeze Host.steady (lit "b") w = (.ok longSid, w') ∧ w'.tick = 38 ∧
      Holding p 1700000009 w' [{ c with snapshot := some longSid, updated := updated }]
        [longSnapshot] [longItem p] := by
  have hsnap : w.db.snapshots = .empty := Table.ext h.snapshots
  have hitem : w.db.items = .empty := Table.ext h.items
  obtain ⟨t1, ht1, hrows1⟩ := Table.insert?_empty Snapshot.id longSnapshot
  obtain ⟨t2, ht2, hrows2⟩ := Table.insert?_empty Item.key (longItem p)
  let w1 : World := { w with
    db := Db.openSnapshot (lit "b") longSid (Host.steady.clock 33)
      { w.db with snapshots := t1, items := t2 }
    tick := 35 }
  let w2 : World := { w1 with db := w1.db.pruneSnapshots (lit "b") (Host.steady.clock 34) }
  have hcur : w1.db.cursors.rows
      = [{ c with snapshot := some longSid, updated := Host.steady.clock 33 }] := by
    change (w.db.cursors.rows.map _) = _
    rw [h.cursors]
    simp [hc]
  have hw2 :
      Holding p 1700000009 w2 [{ c with snapshot := some longSid, updated := Host.steady.clock 33 }]
      [longSnapshot] [longItem p] :=
    Holding.prune (w := w1) ⟨h.blocked, h.pages, h.expiredAt, h.head, h.floor, h.entries, h.idem,
      h.retired, hcur,
      hrows1, hrows2⟩ _
  have hbody : freezeRows Host.steady (lit "b") longSid 1 [longEntry p 1700000009] [frameBudget + 9]
      { w with tick := 31 } = (.ok (), w2) := by
    have hins1 (v : World) : insertInto w.db.snapshots longSnapshot v = (.ok t1, v) := by
      rw [hsnap, insertInto, ht1]
      rfl
    have hins2 (v : World) (hv : v.db.items = w.db.items) : insertItems [longItem p] v
        = (.ok (), { v with db := { v.db with items := t2 } }) := by
      have hi : insertInto v.db.items (longItem p) v = (.ok t2, v) := by
        rw [hv, hitem, insertInto, ht2]
        rfl
      exact bind_ok hi
    unfold freezeRows
    rw [bind_ok (show write Host.steady { w with tick := 31 } = (.ok (), { w with tick := 32 })
      from rfl),
      time_bind, database_bind]
    refine (bind_ok (hins1 _)).trans ?_
    rw [execute_bind]
    exact (bind_ok (hins2 { w with db := { w.db with snapshots := t1 }, tick := 33 } rfl)).trans rfl
  have hadm : { w with tick := 30 }.admits ([frameBudget + 9].sum + (12 + 96)) 0 false = true :=
    (h.at 30).admits
    (by rw [(h.at 30).logical hp]; simp only [List.map_cons, List.map_nil, List.sum_cons,
      List.sum_nil, hc]; decide)
  have hmut := mutation_works steady_works (h.at 30).blocked hadm hbody
    (hw2.pages.trans_le (ten_le_caps.2 _))
    ((hw2.logical hp).trans_le
      (by simp only [List.map_cons, List.map_nil, List.sum_cons, List.sum_nil, hc,
        longItem]; decide))
  refine ⟨{ w2 with tick := 38 }, _, ?_, rfl, hw2.at _⟩
  have hheld (a b : ℚ) : w.db.heldSnapshots (lit "b") a b = 0 := by
    simp [Db.heldSnapshots, h.snapshots]
  have hmem : w.db.frozen (Host.steady.clock 26) = [longEntry p 1700000009] := htick ▸ h.members
  have hsizes (v : World) : (Prog.lift (frozenSizes [longEntry p 1700000009]) : M _) v
      = (.ok [frameBudget + 9], v) := by rw [lift_apply, frozenSizes_long hp]
  have hids (v : World) : (Prog.lift (measureAll [.str longSid, .str (lit "b")]) : M _) v
      = (.ok 12, v) := by
    rw [lift_apply, show measureAll [.str longSid, .str (lit "b")] = .ok 12 from reader_facts.2.1]
  have hfresh (v : World) (hv : v.tick = 29) :
      freshId Host.steady v = (.ok longSid, { v with tick := 30 }) := by
    rw [freshId, hv, show Host.steady.uuid 29 = longSid from reader_facts.2.2.1]
  unfold Memory.freeze
  simp only [database_bind, time_bind, htick, hmem, hheld, h.head]
  rw [if_neg (by decide), bind_ok (hfresh _ rfl), bind_ok (hsizes _), bind_ok (hids _)]
  exact bind_ok hmut

omit hp in
/-- The first page of the snapshot with the long row is refused. -/
theorem Holding.page {c : Cursor} (htick : w.tick = 38)
    (h : Holding p 1700000009 w [c] [longSnapshot] [longItem p]) :
    ∃ w' d, snapshotPage Host.steady (lit "b") longSid (longSync []) w
      = (.error (refusal .entryTooLarge d), w') ∧ w'.db = w.db ∧ w'.tick = 39 := by
  have hfind : w.db.snapshots.find longSid = some longSnapshot := by
    rw [Table.find, h.snapshots]
    rfl
  have hlapsed : lapsed Host.steady longSnapshot w = (.ok false, { w with tick := 39 }) := by
    have hnow := reader_facts.2.2.2.2
    unfold lapsed
    rw [if_neg (by simp [longSnapshot]), time_bind, htick,
      show longSnapshot.created = Host.steady.clock 32 from rfl, hnow]
    rfl
  have htoken : pageToken Host.steady (lit "b") longSnapshot (longSync []) w
      = (.ok 0, { w with tick := 39 }) := by
    unfold pageToken
    rw [if_neg (by simp [longSnapshot]), bind_ok hlapsed]
    rfl
  have hbounded : ∃ d, bounded (fun i : Item => (.ok i.bytes : Except Exc ℕ))
    (w.db.pageRows longSid 0)
      = .error (refusal .entryTooLarge d) := by
    have hrows : w.db.pageRows longSid 0 = [longItem p] := by
      rw [Db.pageRows, h.items]
      simp [longItem]
    rw [hrows]
    exact bounded_exceeds (a := longItem p) rfl (show frameBudget < frameBudget + 9 by decide) []
  obtain ⟨d, hd⟩ := hbounded
  refine ⟨{ w with tick := 39 }, d, ?_, rfl, rfl⟩
  unfold snapshotPage
  rw [database_bind, hfind]
  refine (bind_ok htoken).trans ?_
  unfold servePage
  rw [bind_ok (show (Prog.lift (Sql.ofJson (.int 0)) : M _) { w with tick := 39 }
    = (.ok (.int 0), _) from rfl),
    database_bind]
  exact bind_error (show (Prog.lift _ : M _) _ = _ by rw [lift_apply]; exact congrArg (·, _) hd)

/-- The beginning of the second consumer's first `sync`. -/
theorem Holding.beginSync (htick : w.tick = 14) (h : Holding p ts w [] [] []) :
    ∃ w' now, beginSync Host.steady (longSync []) w
        = (.ok ⟨lit "b", Cursor.fresh (lit "b") 0, none, true⟩, w') ∧ w'.tick = 26 ∧
      Holding p ts w' [Cursor.fresh (lit "b") now] [] [] := by
  obtain ⟨w1, t1, h1, htick1, hw1⟩ := h.register hp
  obtain ⟨w2, t2, h2, htick2, hw2⟩ := hw1.touch rfl
  have hcon : (Prog.lift (consumerOf (longSync [])) : M _) w = (.ok (lit "b"), w) := by
    rw [lift_apply, show consumerOf (longSync []) = .ok (lit "b") from reader_facts.1]
  refine ⟨w2, t2, ?_, by omega, hw2⟩
  unfold Memory.beginSync
  rw [bind_ok hcon, bind_ok h1, bind_ok h2]
  rfl

/-- The `sync` that freezes the snapshot with the long row. -/
theorem Holding.sync (htick : w.tick = 13) (h : Holding p 1700000009 w [] [] []) :
    ∃ u read v w' d, maybeExpire Host.steady w = (.ok (), u) ∧
      Memory.beginSync Host.steady (longSync []) u
        = (.ok ⟨lit "b", Cursor.fresh (lit "b") 0, none, true⟩, read) ∧
      read.members Host.steady = [longEntry p 1700000009] ∧
      Memory.freeze Host.steady (lit "b") read = (.ok longSid, v) ∧
      Act.perform Host.steady (.request ⟨lit "repo", lit "generation"⟩ (longSync []) 7) w
        = (.error (refusal .entryTooLarge d), w') ∧ w'.tick = 39 ∧
      longSnapshot ∈ w'.db.snapshots := by
  have hexpire : maybeExpire Host.steady w = (.ok (), { w with tick := 14 }) := by
    unfold maybeExpire
    rw [time_bind, get_bind, htick, h.expiredAt, if_neg reader_facts.2.2.2.1]
    rfl
  obtain ⟨read, t1, hb, htick1, hread⟩ := (h.at 14).beginSync hp rfl
  obtain ⟨v, t2, hf, htick2, hv⟩ := hread.freeze hp rfl htick1
  obtain ⟨w', d, hpage, hdb, htick3⟩ := hv.page htick2
  refine ⟨_, read, v, w', d, hexpire, hb, hread.members, hf, ?_, htick3, ?_⟩
  · have hsync : Memory.sync Host.steady (longSync []) { w with tick := 14 }
        = (.error (refusal .entryTooLarge d), w') := by
      unfold Memory.sync
      rw [bind_ok hb]
      exact (bind_ok hf).trans hpage
    have hcommand : command Host.steady ⟨lit "repo", lit "generation"⟩ (longSync []) 7 w
        = (.error (refusal .entryTooLarge d), w') := (bind_ok hexpire).trans hsync
    exact bind_error hcommand
  · rw [Table.mem_def, hdb, hv.snapshots]
    exact List.mem_singleton.mpr rfl

end long

/-- **A frozen snapshot that can never be paged.** After a note whose row is stored above the page
budget, the first `sync` of a reader freezes a snapshot of that one entry and is itself refused; in
no further run within the lifetime of the snapshot does following its tokens come to an end. -/
theorem frozen_snapshot_undeliverable :
    ∃ (past : List (Event Host.steady)) (f : Event Host.steady) (read : World) (d : Text),
      Run Host.steady (World.initial (lit "store") 10 true) past f.before ∧
      FrozenAt f (lit "b") longSid read ∧ (read.members Host.steady).length = 1 ∧
      f.result = .error (refusal .entryTooLarge d) ∧ longSnapshot ∈ f.after.db.snapshots ∧
      ∀ future w, Run Host.steady f.after future w → (∀ e ∈ future, e.died = false) →
        Near Host.steady longSnapshot.created f.before.tick w →
        ∀ token got, ¬ Follows (f :: future) (lit "b") longSid token got false := by
  have hplain := plain_longPath
  obtain ⟨w0, hnote, hlong, htick⟩ := perform_longNote hplain
  obtain ⟨u, read, v, w', d, hu, hb, hmem, hf, hsync, -, hs⟩ := hlong.sync hplain htick
  let e : Event Host.steady := ⟨_, _, _, w0, hnote⟩
  let f : Event Host.steady := ⟨_, _, _, w', hsync⟩
  have hpast : Run Host.steady (World.initial (lit "store") 10 true) [e] f.before :=
    .snoc .nil e rfl
  have hat : FrozenAt f (lit "b") longSid read :=
    ⟨⟨longSync [], u, _, ⟨⟨_, _, rfl, rfl⟩, rfl, rfl⟩, hu, hb,
      rfl, rfl⟩,
      v, hf⟩
  refine ⟨[e], f, read, d, hpast, hat, by rw [hmem]; rfl, rfl, hs, ?_⟩
  intro future w hrun hk hlife token got hfollows
  obtain ⟨s', i, htr, hcon, hid, -⟩ := hat.tracked monotone_steady hpast hs rfl hrun
    (fun g hg => by rw [List.mem_singleton.mp hg]; rfl) hk hlife
  rw [← hcon, ← hid] at hfollows
  obtain ⟨-, -, hfits, rest, hrest, hall⟩ := Follows.exact htr hfollows
  rw [hall rfl, List.append_nil, hmem] at hrest
  have hfit : (longEntry longPath 1700000009).Fits :=
    hfits _ (hrest ▸ List.mem_singleton.mpr rfl)
  rw [Entry.Fits, encodedLen_longEntry hplain] at hfit
  omega

end PeerBridge.Memory
