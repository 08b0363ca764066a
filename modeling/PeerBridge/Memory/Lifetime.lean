import PeerBridge.Memory.Paging

/-!
# The lifetime of a frozen snapshot

From the freeze on, and for as long as the clock stays within `SNAPSHOT_TTL` of it, a snapshot is
kept (`Open`) under every interleaving: no expiry drops it or its consumer, no other freeze prunes
it, and its consumer's cursor points at it until it is acknowledged. So the pages a reader follows
hold exactly the members of the freeze, in order (`Follows.exact`), and a page request fails only
when the storage does or when the next member alone exceeds the page budget.

Source: `memory.py`, `freeze`, `MemoryCommands.sync`, `MemoryCommands.snapshot_page`,
`MemoryCommands.ack`, `Store.expire`.
-/

namespace PeerBridge.Memory

open Py Relational Effects Effects.Prog Relation

variable {H : Host}

/-! ## Within the lifetime -/

/-- Every time read since question `k` lies within the lifetime of a snapshot created at
`created`. -/
def Within (H : Host) (created : ℚ) (k : ℕ) (w : World) : Prop :=
  ∀ t, Reading H k w t → created ≤ t ∧ t - created ≤ snapshotTtl

/-- A stretch within the lifetime has its parts within it. -/
theorem Within.mono {created : ℚ} {k k' : ℕ} {w w' : World} (h : Within H created k w')
    (hk : k ≤ k') (hw : w.tick ≤ w'.tick) : Within H created k' w :=
  fun t ht => h t (ht.mono hk hw)

/-- A consumer that was active within its lifetime is not retired. -/
theorem Maints.keeps_cursor {k : ℕ} {w w' : World} {c : Cursor} (hm : Maints H k w w')
    (hfresh : ∀ t, Reading H k w' t → t - consumerTtl ≤ c.updated) (hc : c ∈ w.db.cursors) :
    c ∈ w'.db.cursors := by
  induction hm with
  | refl => exact hc
  | @tail u v _ hstep ih =>
    have hcu := ih fun t ht => hfresh t (ht.mono le_rfl hstep.later.tick)
    rcases hstep with h | ⟨t, hl, ht, hd⟩ | ⟨t, hl, ht, hd⟩
    · obtain ⟨es, fl, ix, se, hd, -⟩ := h.frame
      rwa [hd]
    · obtain ⟨cs, rs, hr, hcs, -⟩ := retire_spec t u.db
      rw [hd, hr]
      exact (hcs c).mpr ⟨hcu, not_lt.mpr (hfresh t ht)⟩
    · rwa [hd]

/-- The snapshot `s` is kept for its consumer, as it was frozen from the content at `read`. -/
structure Open (H : Host) (read : World) (s : Snapshot) (w : World) : Prop where
  owned : Owned w.db
  mem : s ∈ w.db.snapshots
  holds : Holds H w.db s read
  issued : s.issued ≤ s.items
  acked : ∀ t, s.ackedAt = some t → s.created ≤ t
  cursor : ∃ c ∈ w.db.cursors, c.consumer = s.consumer ∧ s.created ≤ c.updated ∧
    (s.ackedAt = none → c.snapshot = some s.id)

section step

variable {read : World} {s : Snapshot} {w w' : World} {k : ℕ}

/-- A snapshot within its lifetime is not stale. -/
theorem Open.not_stale (h : Open H read s w) {now : ℚ} (hlife : now - s.created ≤ snapshotTtl) :
    s.stale now = false := by
  have httl : snapshotTtl ≤ ackRetention := by norm_num [snapshotTtl, ackRetention]
  unfold Snapshot.stale
  rcases ha : s.ackedAt with _ | t
  · simp only [decide_eq_false_iff_not, not_lt]
    linarith
  · have := h.acked t ha
    simp only [decide_eq_false_iff_not, not_lt]
    linarith

/-- What keeps the rows of the snapshots and of its consumer's cursor keeps it open. -/
theorem Open.of_rows (h : Open H read s w) (ho : Owned w'.db) (hs : s ∈ w'.db.snapshots)
    (hi : w'.db.itemsOf s.id = w.db.itemsOf s.id)
    (hc : ∀ c ∈ w.db.cursors, c.consumer = s.consumer → s.created ≤ c.updated →
      (s.ackedAt = none → c.snapshot = some s.id) →
      ∃ d ∈ w'.db.cursors, d.consumer = s.consumer ∧ s.created ≤ d.updated ∧
        (s.ackedAt = none → d.snapshot = some s.id)) : Open H read s w' := by
  obtain ⟨c, hcm, hcon, hupd, hsnap⟩ := h.cursor
  exact ⟨ho, hs, h.holds.of_items hi, h.issued, h.acked, hc c hcm hcon hupd hsnap⟩

/-- A snapshot stays open while snapshots, items and cursors stay. -/
theorem Open.of_eq (h : Open H read s w) (hs : w'.db.snapshots = w.db.snapshots)
    (hi : w'.db.items = w.db.items) (hc : ∀ c ∈ w.db.cursors, c ∈ w'.db.cursors) :
    Open H read s w' :=
  h.of_rows (h.owned.of_eq hs hi) (hs ▸ h.mem) (by rw [Db.itemsOf, hi, Db.itemsOf])
    fun c hcm hcon hupd hsnap => ⟨c, hc c hcm, hcon, hupd, hsnap⟩

/-- A step of maintenance within the lifetime leaves the snapshot open. -/
theorem Open.maint (hm : Maint H k w w') (hin : Within H s.created k w') (h : Open H read s w) :
    Open H read s w' := by
  rcases hm with hm | ⟨t, hl, ht, hd⟩ | ⟨t, hl, ht, hd⟩
  · obtain ⟨es, fl, ix, se, hd, -⟩ := hm.frame
    exact h.of_eq (by rw [hd]) (by rw [hd]) fun c hc => by rwa [hd]
  · obtain ⟨-, h2⟩ := hin t ht
    obtain ⟨cs, rs, hr, hcs, -⟩ := retire_spec t w.db
    have hmem : s ∈ (w.db.retire t).snapshots := by
      rw [hr]
      exact Table.mem_remove.mpr ⟨h.mem, h.not_stale h2⟩
    refine h.of_rows (hd ▸ .retire t) (hd ▸ hmem) ?_ fun c hcm hcon hupd hsnap =>
      ⟨c, ?_, hcon, hupd, hsnap⟩
    · rw [hd]
      exact (retains_retire w.db t s hmem).2
    · rw [hd, hr]
      refine (hcs c).mpr ⟨hcm, ?_⟩
      have : snapshotTtl ≤ consumerTtl := by norm_num [snapshotTtl, consumerTtl]
      linarith
  · exact h.of_eq (by rw [hd]; rfl) (by rw [hd]; rfl) fun c hc => by rw [hd]; exact hc

/-- An open snapshot within its lifetime can be paged. -/
theorem Open.usable (h : Open H read s w) {now : ℚ} (hlife : now - s.created ≤ snapshotTtl) :
    w.db.usable s.consumer s.id now = true := by
  have hfind : w.db.snapshots.find s.id = some s := Table.find_eq_some.mpr ⟨h.mem, rfl⟩
  simp [Db.usable, hfind, hlife]

/-- A quiet step within the lifetime leaves the snapshot open. -/
theorem Open.quiet (hq : Quiet H k w w') (hin : Within H s.created k w') (h : Open H read s w) :
    Open H read s w' := by
  cases hq with
  | maint hm => exact h.maint hm hin
  | append x ha =>
    have he := ha.effect
    exact h.of_eq he.snapshots he.items fun c hc => he.cursors ▸ hc
  | register consumer now table hl ht hi hd =>
    exact h.of_eq (by rw [hd]) (by rw [hd]) fun c hc => by
      rw [hd]
      exact (Table.mem_insert? hi).mpr (.inl hc)
  | touch consumer now hl ht hd =>
    refine h.of_rows (h.owned.of_eq (by rw [hd]; rfl) (by rw [hd]; rfl)) (by rw [hd]; exact h.mem)
      (by rw [hd]; rfl) fun c hcm hcon hupd hsnap => ?_
    rw [hd]
    refine ⟨_, Table.mem_of_update (fun _ => by rfl) rfl hcm, ?_⟩
    split
    · exact ⟨hcon, (hin now ht).1, hsnap⟩
    · exact ⟨hcon, hupd, hsnap⟩
  | clear d sid hdm hds hu hl hd =>
    refine h.of_rows (h.owned.of_eq (by rw [hd]; rfl) (by rw [hd]; rfl)) (by rw [hd]; exact h.mem)
      (by rw [hd]; rfl) fun c hcm hcon hupd hsnap => ?_
    rw [hd]
    refine ⟨_, Table.mem_of_update (fun _ => by rfl) rfl hcm, ?_⟩
    split
    · rename_i hdc
      obtain rfl := Table.eq_of_key hcm hdm (by simpa using hdc)
      refine ⟨hcon, hupd, fun ha => ?_⟩
      -- The open snapshot is usable, so the request did not clear it.
      obtain rfl := Option.some.inj (hds.symm.trans (hsnap ha))
      rw [hcon] at hu
      rcases hu with hu | ⟨now, ht, hu⟩
      · have hnow := hu s.created
        rw [h.usable (by norm_num [snapshotTtl])] at hnow
        cases hnow
      · rw [h.usable (hin now ht).2] at hu
        cases hu
    · exact ⟨hcon, hupd, hsnap⟩

/-- Quiet steps within the lifetime leave the snapshot open. -/
theorem Open.quiets (hq : Quiets H k w w') (hin : Within H s.created k w') (h : Open H read s w) :
    Open H read s w' := by
  induction hq with
  | refl => exact h
  | tail _ hstep ih => exact (ih (hin.mono le_rfl hstep.later.tick)).quiet hstep hin

/-- A stretch that leaves the content alone leaves the snapshot open. -/
theorem Open.idle (hi : Idle w w') (h : Open H read s w) : Open H read s w' :=
  h.of_eq (by rw [hi.db]) (by rw [hi.db]) fun c hc => hi.db ▸ hc

/-- A snapshot that is not stale is not dropped. -/
theorem mem_pruneSnapshots {db : Db} {consumer : Text} {now : ℚ} (hs : s ∈ db.snapshots)
    (hst : s.stale now = false) : s ∈ (db.pruneSnapshots consumer now).snapshots := by
  refine Table.mem_remove.mpr ⟨hs, ?_⟩
  rw [List.any_eq_false]
  intro o ho hid
  have ho' := List.mem_of_mem_drop ho
  rw [List.mem_insertionSort, List.mem_filter] at ho'
  obtain rfl := Table.eq_of_key ho'.1 hs (by simpa using hid)
  simp [hst] at ho'

/-- A freeze of another consumer, or of this one after its acknowledgement, leaves the snapshot
open. -/
theorem Open.froze {consumer sid : Text} {read' : World} {created updated now : ℚ}
    (hf : Froze H consumer sid read' created updated now w.db w'.db)
    (hother : consumer = s.consumer → s.ackedAt ≠ none) (hupdated : s.created ≤ updated)
    (hnow : now - s.created ≤ snapshotTtl) (h : Open H read s w) : Open H read s w' := by
  obtain ⟨sizes, -, snapshots, items, hi, -, hd⟩ := hf.sizes
  have hmem : s ∈ w'.db.snapshots := by
    rw [hd]
    exact mem_pruneSnapshots ((Table.mem_insert? hi).mpr (.inl h.mem)) (h.not_stale hnow)
  have hitems : w'.db.itemsOf s.id = w.db.itemsOf s.id := by
    rcases (hf.snapshots h.owned).2 s hmem with ⟨-, he⟩ | ⟨rfl, -⟩
    · exact he
    · exact absurd rfl ((Table.insert?_eq_some.mp hi).1 _ h.mem)
  refine h.of_rows (hf.snapshots h.owned).1 hmem hitems fun c hcm hcon hupd hsnap => ?_
  rw [hd]
  refine ⟨_, Table.mem_of_update (t := w.db.cursors) (fun _ => by rfl) rfl hcm, ?_⟩
  split
  · rename_i hcc
    refine ⟨hcon, hupdated, fun ha => absurd ha (hother ?_)⟩
    rw [← hcon]
    exact (by simpa using hcc : c.consumer = consumer).symm
  · exact ⟨hcon, hupd, hsnap⟩

/-- The issuance of a page moves the issued mark of its snapshot alone. -/
theorem Open.issuePage {x : Snapshot} {n : ℕ} (hx : x ∈ w.db.snapshots)
    (hd : w'.db = w.db.issuePage x.id n) (hle : x = s → s.issued ≤ n) (hn : x = s → n ≤ s.items)
    (h : Open H read s w) :
    ∃ s', Open H read s' w' ∧ s' = { s with issued := s'.issued } ∧ s.issued ≤ s'.issued ∧
      (x = s → s'.issued = n) := by
  have ho : Owned w'.db := h.owned.of_update (by rw [hd, Db.issuePage]) (by rw [hd]; rfl)
  have hitems : w'.db.itemsOf s.id = w.db.itemsOf s.id := by rw [hd]; rfl
  have hcur : w'.db.cursors = w.db.cursors := by rw [hd]; rfl
  have hmem : (if s.id == x.id then { s with issued := n } else s) ∈ w'.db.snapshots := by
    rw [hd]
    exact Table.mem_of_update (fun _ => by rfl) rfl h.mem
  obtain ⟨c, hc, h1, h2, h3⟩ := h.cursor
  by_cases hid : s.id = x.id
  · obtain rfl := Table.eq_of_key h.mem hx hid
    rw [if_pos (by simp)] at hmem
    obtain ⟨sizes, h4, h5⟩ := h.holds.rows
    exact ⟨_, ⟨ho, hmem, ⟨h.holds.head, h.holds.items, sizes, h4, hitems.trans h5⟩, hn rfl, h.acked,
      c, hcur ▸ hc, h1, h2, h3⟩, rfl, hle rfl, fun _ => rfl⟩
  · rw [if_neg (by simpa using hid)] at hmem
    exact ⟨s, h.of_rows ho hmem hitems fun c hc h1 h2 h3 => ⟨c, hcur ▸ hc, h1, h2, h3⟩, rfl, le_rfl,
      fun he => absurd (congrArg Snapshot.id he).symm hid⟩

/-- The acknowledgement of a snapshot marks that snapshot alone. -/
theorem Open.ackSnapshot {c : Cursor} {x : Snapshot} (hb : Bootstraps H k c x w w')
    (hin : Within H s.created k w') (h : Open H read s w) :
    ∃ s', Open H read s' w' ∧ s' = { s with ackedAt := s'.ackedAt } ∧
      (s'.ackedAt = s.ackedAt ∨ x.id = s.id) := by
  obtain ⟨acked, ha, hd⟩ := hb.effect
  have hsnaps : w'.db.snapshots = (Db.ackSnapshot x.id acked w.db).snapshots := by rw [hd]; rfl
  have ho : Owned w'.db := h.owned.of_update (by rw [hsnaps, Db.ackSnapshot]) (by rw [hd]; rfl)
  have hitems : w'.db.itemsOf s.id = w.db.itemsOf s.id := by rw [hd]; rfl
  have hmem : (if s.id == x.id then { s with ackedAt := some acked } else s) ∈ w'.db.snapshots := by
    rw [hd]
    exact Table.mem_of_update (t := w.db.snapshots) (fun _ => by rfl) rfl h.mem
  have hcur : ∀ d ∈ w.db.cursors, ∃ d' ∈ w'.db.cursors, d'.consumer = d.consumer ∧
      d'.updated = d.updated ∧ (d.consumer ≠ c.consumer → d'.snapshot = d.snapshot) := by
    intro d hdm
    rw [hd]
    refine ⟨_, Table.mem_of_update (t := w.db.cursors) (fun _ => by rfl) rfl hdm, ?_⟩
    split
    · rename_i he
      exact ⟨rfl, rfl, fun hne => absurd (by simpa using he) hne⟩
    · exact ⟨rfl, rfl, fun _ => rfl⟩
  obtain ⟨d, hdm, h1, h2, h3⟩ := h.cursor
  obtain ⟨d', hd', h4, h5, h6⟩ := hcur d hdm
  by_cases hid : s.id = x.id
  · obtain rfl := Table.eq_of_key h.mem hb.snapshot hid
    rw [if_pos (by simp)] at hmem
    obtain ⟨sizes, h7, h8⟩ := h.holds.rows
    refine ⟨_, ⟨ho, hmem, ⟨h.holds.head, h.holds.items, sizes, h7, hitems.trans h8⟩, h.issued, ?_,
      d', hd', h4.trans h1, h5 ▸ h2, fun hna => ?_⟩, rfl, .inr rfl⟩
    · rintro t ⟨rfl⟩
      exact (hin acked ha).1
    · cases hna
  · rw [if_neg (by simpa using hid)] at hmem
    refine ⟨s, ⟨ho, hmem, h.holds.of_items hitems, h.issued, h.acked, d', hd', h4.trans h1, h5 ▸ h2,
      fun hna => ?_⟩, rfl, .inl rfl⟩
    -- The acknowledged snapshot is the one its consumer's cursor points at.
    by_cases hcc : d.consumer = c.consumer
    · obtain rfl := Table.eq_of_key hdm hb.cursor hcc
      exact absurd (Option.some.inj ((h3 hna).symm.trans hb.opened)) hid
    · rw [h6 hcc]
      exact h3 hna

end step

/-! ## Pages -/

/-- The page at `token` holds the members from there on, in order, and nothing else. -/
structure PageExact (H : Host) (read : World) (token : ℤ) (entries : List Entry) (next : ℤ)
    (more : Bool) : Prop where
  next : next = token + entries.length
  rest : ∃ rest, (read.members H).drop token.toNat = entries ++ rest ∧ (more = false → rest = [])
  fits : ∀ m ∈ entries, m.Fits

/-- A page of a snapshot is exactly its slice of the frozen list. -/
theorem Holds.pageExact {db : Db} {s : Snapshot} {read : World} (h : Holds H db s read) {token : ℤ}
    {page : List Item} {more : Bool} (hp : db.page s.id token = .ok (page, more)) :
    PageExact H read token (page.map Item.payload) (token + page.length)
      (more || decide (token + page.length < s.items)) := by
  obtain ⟨sizes, hsizes, hrows⟩ := h.rows
  obtain ⟨rest, hsplit, hall, -⟩ := h.page hp
  refine ⟨by simp, ⟨rest, hsplit, fun hm => hall ?_⟩, fun m hm => ?_⟩
  · rw [Bool.or_eq_false_iff] at hm
    exact hm.1
  · obtain ⟨i, hi, rfl⟩ := List.mem_map.mp hm
    obtain ⟨n, hn, hle⟩ := bounded_fits hp i hi
    cases hn
    obtain ⟨rest, hrest, -, -⟩ := bounded_inv hp
    rw [pageRows_eq hrows] at hrest
    have hmem : i ∈ frozenItems s.id (read.members H) sizes :=
      List.mem_of_mem_drop (hrest ▸ List.mem_append_left _ hi)
    rw [Entry.Fits, ← (mem_frozenItems hsizes hmem).1]
    exact hle

/-- An event asks for one request. -/
theorem Asks.inj {a : Act} {op op' : Text} {r r' : Object} {consumer consumer' : Text}
    (h : Asks a op r consumer) (h' : Asks a op' r' consumer') : r = r' := by
  obtain ⟨s, pid, rfl, -⟩ := h.act
  obtain ⟨s', pid', he, -⟩ := h'.act
  cases he
  rfl

/-- A page reply is the page its request was served with. -/
theorem PageAt.served {e : Event H} {consumer consumer' sid : Text} {token token' : ℤ}
    {entries : List Entry} {next : ℤ} {more more' : Bool} {req : Object} {x : Snapshot}
    {page : List Item} {w w' : World} {r : Except Exc Reply}
    (hpage : PageAt e consumer sid token entries next more)
    (hs : Served H consumer' req x token' page more' w w' r)
    (ha : Asks e.act (lit "sync") req consumer') (hres : e.result = r.map some) :
    x.id = sid ∧ token = token' ∧ entries = page.map Item.payload ∧ next = token' + page.length ∧
      more = (more' || decide (token' + page.length < x.items)) := by
  obtain ⟨r', ha', htoken⟩ := hpage.asked
  obtain ⟨head, total, hans⟩ := hpage.answered
  obtain rfl := ha'.inj ha
  have ht : token = token' := Except.ok.inj (htoken.symm.trans hs.request)
  have hreply : r = .ok (pageReply x token' page more') := by
    obtain ⟨-, -, hr⟩ | ⟨-, -, -, hr | hr⟩ := hs.effect
    · exact hr
    · exact hr
    · rw [hres, hr] at hans
      cases hans
  rw [hres, hreply] at hans
  cases hans
  exact ⟨rfl, ht, rfl, rfl, rfl⟩

/-- What an event leaves of an open snapshot: its row, moved at most in its issued mark and its
acknowledgement. -/
structure Carries (read : World) (e : Event H) (s s' : Snapshot) : Prop where
  opened : Open H read s' e.after
  same : s' = { s with issued := s'.issued, ackedAt := s'.ackedAt }
  issued : s.issued ≤ s'.issued
  pages : ∀ token entries next more, PageAt e s.consumer s.id token entries next more →
    PageExact H read token entries next more ∧ next ≤ s'.issued
  acked : s'.ackedAt = s.ackedAt ∨ ∃ r head, Asks e.act (lit "ack") r s.consumer ∧
    e.result = .ok (some (.ackedSnapshot head s.id false))

/-- The page of an open snapshot. -/
theorem Open.served {read : World} {s x : Snapshot} {e : Event H} {z : World} {consumer : Text}
    {req : Object} {token : ℤ} {page : List Item} {more : Bool} {r : Except Exc Reply}
    (h : Open H read s z) (ha : Asks e.act (lit "sync") req consumer)
    (hres : e.result = r.map some) (hs : Served H consumer req x token page more z e.after r) :
    ∃ s', Carries read e s s' := by
  have hpages (s' : Snapshot) (hiss : x = s → token + page.length ≤ s'.issued) :
      ∀ token' entries next more', PageAt e s.consumer s.id token' entries next more' →
        PageExact H read token' entries next more' ∧ next ≤ s'.issued := by
    intro token' entries next more' hp
    obtain ⟨hid, rfl, rfl, rfl, rfl⟩ := hp.served hs ha hres
    obtain rfl := Table.eq_of_key hs.mem h.mem hid
    exact ⟨h.holds.pageExact hs.bounded, hiss rfl⟩
  obtain ⟨hle, hi, -⟩ | ⟨hn, -, hd, -⟩ := hs.effect
  · exact ⟨s, h.idle hi, rfl, le_rfl, hpages s fun he => he ▸ hle, .inl rfl⟩
  · have hle := hs.issued
    obtain ⟨s', ho, hsame, hiss, hnew⟩ := h.issuePage hs.mem hd (fun he => by subst he; omega)
      fun he => by
        subst he
        have := h.issued
        exact h.holds.page_le hs.bounded (by omega)
    refine ⟨s', ho, ?_, hiss, hpages s' fun he => ?_, .inl ?_⟩
    · rw [hsame]
    · rw [hnew he]
      omega
    · rw [hsame]

/-- **One event within the lifetime of a snapshot.** -/
theorem Open.event {read : World} {s : Snapshot} {e : Event H} (hk : e.died = false)
    (hin : Within H s.created e.before.tick e.after) (h : Open H read s e.before) :
    ∃ s', Carries read e s s' := by
  have hquiet (hu : Open H read s e.after)
      (hpage : ∀ sid head entries next total more,
        e.result ≠ .ok (some (.snapshot sid head entries next total more))) :
      ∃ s', Carries read e s s' :=
    ⟨s, hu, rfl, le_rfl, fun token entries next more hp => by
      obtain ⟨head, total, ha⟩ := hp.answered
      exact absurd ha (hpage _ _ _ _ _ _), .inl rfl⟩
  have hkill {res : Except Exc Reply} (hres : e.result = res.map some) : res ≠ .error .killed := by
    rintro rfl
    exact Event.ne_killed hk hres
  have herror {res : Except Exc Reply} (hres : e.result = res.map some) (x : Exc)
      (he : res = .error x) : ∀ sid head entries next total more,
        e.result ≠ .ok (some (.snapshot sid head entries next total more)) := by
    rintro _ _ _ _ _ _ hr
    rw [hres, he] at hr
    cases hr
  cases e.is with
  | quiet hq hstay hr =>
    refine hquiet (h.quiets hq hin) fun sid head entries next total more hres => ?_
    cases hr _ hres
  | restart hr hno =>
    obtain ⟨se, ix, hd⟩ := hr.db
    exact hquiet (h.of_eq (by rw [hd]) (by rw [hd]) fun c hc => by rwa [hd]) fun _ _ _ _ _ _ =>
      hno _
  | sync r u v ses res ha hu hb hv hstay hans hres =>
    have hlater := hans.changes.later.tick
    have hov : Open H read s v := h.quiets hv (hin.mono le_rfl hlater)
    cases hans with
    | refused hm x he =>
      exact hquiet (hov.quiets hm.quiets (hin.mono hv.later.tick le_rfl)) (herror hres x he)
    | page z x token page more hs hz hserved => exact (hov.idle hz).served ha hres hserved
    | frozen z y sid t1 t2 t3 hs hdue hno hm hl hord h1 h2 h3 hf hend =>
      have hy : y.tick ≤ e.after.tick := by
        obtain ⟨-, rfl⟩ | ⟨-, ⟨hi, -⟩ | ⟨q, x, token, page, more, hq, -, hserved⟩⟩ := hend
        · exact le_rfl
        · exact hi.tick
        · exact hq.tick.trans (hserved.changes (k := 0)).later.tick
      have hoz : Open H read s z :=
        hov.quiets hm.quiets (hin.mono hv.later.tick (hl.tick.trans hy))
      have hoy : Open H read s y := by
        refine hoz.froze hf (fun hcon hna => ?_) (hin t2 (h2.mono hv.later.tick hy)).1
          (hin t3 (h3.mono hv.later.tick hy)).2
        -- The cursor of this consumer still points at the snapshot, and a freeze found it clear.
        obtain ⟨c, hc, hcc, hcs⟩ := hno
        obtain ⟨d, hd, hdc, -, hds⟩ := hov.cursor
        obtain rfl := Table.eq_of_key hc hd (hcc.trans (hcon.trans hdc.symm))
        rw [hds hna] at hcs
        cases hcs
      obtain ⟨hkilled, -⟩ | ⟨-, ⟨hi, x, he⟩ | ⟨q, x, token, page, more, hq, -, hserved⟩⟩ := hend
      · exact absurd hkilled (hkill hres)
      · exact hquiet (hoy.idle hi) (herror hres x he)
      · exact (hoy.idle hq).served ha hres hserved
    | delta c entries more hs hdue hd =>
      have hreply : res = .ok (deltaReply v.db c entries more) := by
        obtain ⟨-, -, hr⟩ | ⟨-, -, -, hr | hr⟩ := hd.effect
        · exact hr
        · exact hr
        · exact absurd hr (hkill hres)
      refine hquiet ?_ fun sid head es next total m hr => by
        rw [hres, hreply] at hr
        cases hr
      obtain ⟨-, hi, -⟩ | ⟨-, -, hdb, -⟩ := hd.effect
      · exact hov.idle hi
      · refine hov.of_rows (hov.owned.of_eq (by rw [hdb]; rfl) (by rw [hdb]; rfl))
          (by rw [hdb]; exact hov.mem) (by rw [hdb]; rfl) fun c hcm hcon hupd hsnap => ?_
        rw [hdb]
        refine ⟨_, Table.mem_of_update (fun _ => by rfl) rfl hcm, ?_⟩
        split <;> exact ⟨hcon, hupd, hsnap⟩
  | ack r u consumer res ha hu hstay hack hres =>
    have hlater := hack.changes.later.tick
    have hou : Open H read s u := h.quiets hu (hin.mono le_rfl hlater)
    have hother (x : Reply) (he : res = .ok x)
        (hns : ∀ sid head entries next total more, x ≠ .snapshot sid head entries next total more) :
        ∀ sid head entries next total more,
          e.result ≠ .ok (some (.snapshot sid head entries next total more)) := by
      intro sid head entries next total more hr
      rw [hres, he] at hr
      exact hns _ _ _ _ _ _ (Option.some.inj (Except.ok.inj hr))
    cases hack with
    | refused hi x he => exact hquiet (hou.idle hi) (herror hres x he)
    | replayed x hi _ _ _ he => exact hquiet (hou.idle hi) (hother _ he nofun)
    | ignored seq hi he => exact hquiet (hou.idle hi) (hother _ he nofun)
    | through c seq hc hadv he =>
      rcases he with he | he
      swap
      · exact absurd he (hkill hres)
      refine hquiet ?_ (hother _ he nofun)
      have hdb := hadv.effect
      refine hou.of_rows (hou.owned.of_eq (by rw [hdb]; rfl) (by rw [hdb]; rfl))
        (by rw [hdb]; exact hou.mem) (by rw [hdb]; rfl) fun c hcm hcon hupd hsnap => ?_
      rw [hdb]
      refine ⟨_, Table.mem_of_update (fun _ => by rfl) rfl hcm, ?_⟩
      split <;> exact ⟨hcon, hupd, hsnap⟩
    | snapshot c x hc hb he =>
      rcases he with he | he
      swap
      · exact absurd he (hkill hres)
      obtain ⟨s', ho, hsame, hacked⟩ := hou.ackSnapshot hb (hin.mono hu.later.tick le_rfl)
      refine ⟨s', ho, by rw [hsame], by rw [hsame], fun token entries next more hp => ?_, ?_⟩
      · obtain ⟨head, total, hr⟩ := hp.answered
        exact absurd hr (hother _ he nofun _ _ _ _ _ _)
      · rcases hacked with h1 | hid
        · exact .inl h1
        · right
          obtain rfl := Table.eq_of_key hb.snapshot hou.mem hid
          refine ⟨r, x.head, ?_, by rw [hres, he]; rfl⟩
          rw [hb.own, hc]
          exact ha

end PeerBridge.Memory
