import PeerBridge.Memory.Snapshots

/-!
# Paging through a frozen snapshot

The history of a run seen from one reader: the freezes, the pages and the acknowledgements it was
answered with. `Paged` relates that history to the store: every snapshot still held was frozen at a
moment of the run, its items are the members of that moment, and every position below its issued
mark was in a page reply to its consumer.

Source: `memory.py`, `freeze`, `bounded`, `MemoryCommands.snapshot_page`, `MemoryCommands.ack`.
-/

namespace PeerBridge.Memory

open Py Relational Effects Effects.Prog Relation

variable {H : Host}

/-! ## The history of a reader -/

/-- The event is a `sync` of `consumer` that froze the snapshot `sid` from the content at `read`. -/
structure FrozenAt (e : Event H) (consumer sid : Text) (read : World) : Prop where
  begun : ∃ r u s, Asks e.act (lit "sync") r consumer ∧ maybeExpire H e.before = (.ok (), u) ∧
    beginSync H r u = (.ok s, read) ∧ s.snapshot = none ∧ s.due = true
  froze : ∃ v, freeze H consumer read = (.ok sid, v)

/-- The moment a freeze reads belongs to the request that froze. -/
theorem FrozenAt.quiets {e : Event H} {consumer sid : Text} {read : World}
    (h : FrozenAt e consumer sid read) : Quiets H e.before.tick e.before read := by
  obtain ⟨r, u, s, -, hu, hb, -, -⟩ := h.begun
  have hm := maybeExpire_maint hu
  exact hm.quiets.trans ((beginSync_inv hb).1.mono hm.later.tick)

/-- The event answered a `sync` of `consumer` at `token` with a page of the snapshot `sid`. -/
structure PageAt (e : Event H) (consumer sid : Text) (token : ℤ) (entries : List Entry) (next : ℤ)
    (more : Bool) : Prop where
  asked : ∃ r, Asks e.act (lit "sync") r consumer ∧
    int (r.getD (lit "page_token") (.int 0)) = .ok token
  answered : ∃ head total, e.result = .ok (some (.snapshot sid head entries next total more))

/-- The run answered `consumer` with a page of the snapshot `sid` that contains the sequence `n`. -/
def InPage (past : List (Event H)) (consumer sid : Text) (n : ℕ) : Prop :=
  ∃ e ∈ past, ∃ token entries next more, PageAt e consumer sid token entries next more ∧
    n ∈ entries.map Entry.seq

/-- What was in a page stays so in a longer past. -/
theorem InPage.mono {past past' : List (Event H)} (hp : past ⊆ past') {consumer sid : Text} {n : ℕ}
    (h : InPage past consumer sid n) : InPage past' consumer sid n := by
  obtain ⟨e, he, h⟩ := h
  exact ⟨e, hp he, h⟩

/-! ## What a snapshot holds -/

/-- The rows of the snapshot `s` are those frozen from the content at `read`. -/
structure Holds (H : Host) (db : Db) (s : Snapshot) (read : World) : Prop where
  head : s.head = read.db.head
  items : s.items = (read.members H).length
  rows : ∃ sizes, frozenSizes (read.members H) = .ok sizes ∧
    db.itemsOf s.id = frozenItems s.id (read.members H) sizes

/-- A page holds members in order, from its token on. -/
theorem Holds.page {db : Db} {s : Snapshot} {read : World} (h : Holds H db s read) {token : ℤ}
    {page : List Item} {more : Bool} (hp : db.page s.id token = .ok (page, more)) :
    ∃ rest, (read.members H).drop token.toNat = page.map Item.payload ++ rest ∧
      (more = false → rest = []) ∧ (more = true → page ≠ []) := by
  obtain ⟨sizes, hsizes, hrows⟩ := h.rows
  obtain ⟨rest, hsplit, hall, hne⟩ := bounded_inv hp
  refine ⟨rest.map Item.payload, ?_, ?_, hne⟩
  · rw [pageRows_eq hrows] at hsplit
    rw [← List.map_append, ← hsplit, List.map_drop,
      map_payload_frozenItems (length_frozenSizes hsizes)]
  · intro hm
    rw [hall hm]
    rfl

/-- A page ends within the snapshot. -/
theorem Holds.page_le {db : Db} {s : Snapshot} {read : World} (h : Holds H db s read) {token : ℤ}
    {page : List Item} {more : Bool} (hp : db.page s.id token = .ok (page, more))
    (ht : token ≤ s.items) : (token + page.length).toNat ≤ s.items := by
  obtain ⟨rest, hsplit, -, -⟩ := h.page hp
  have hlen := congrArg List.length hsplit
  have hitems := h.items
  simp only [List.length_drop, List.length_append, List.length_map] at hlen
  omega

/-- A snapshot holds the same while its items stay. -/
theorem Holds.of_items {db db' : Db} {s : Snapshot} {read : World} (h : Holds H db s read)
    (hi : db'.itemsOf s.id = db.itemsOf s.id) : Holds H db' s read := by
  obtain ⟨sizes, h1, h2⟩ := h.rows
  exact ⟨h.head, h.items, sizes, h1, hi.trans h2⟩

/-- The history of a snapshot: its freeze, and a page for every position below its issued mark. -/
structure History (past : List (Event H)) (db : Db) (s : Snapshot) (read : World) : Prop where
  frozen : ∃ e ∈ past, FrozenAt e s.consumer s.id read
  holds : Holds H db s read
  issued : s.issued ≤ s.items
  pages : ∀ i m, i < s.issued → (read.members H)[i]? = some m → InPage past s.consumer s.id m.seq
  complete : s.ackedAt ≠ none → s.items ≤ s.issued

/-- A snapshot has the same history while its items stay. -/
theorem History.of_items {past : List (Event H)} {db db' : Db} {s : Snapshot} {read : World}
    (h : History past db s read) (hi : db'.itemsOf s.id = db.itemsOf s.id) :
    History past db' s read :=
  ⟨h.frozen, h.holds.of_items hi, h.issued, h.pages, h.complete⟩

/-- Every member of a snapshot paged to its end was in a page. -/
theorem History.inPage {past : List (Event H)} {db : Db} {s : Snapshot} {read : World}
    (h : History past db s read) (hs : s.items ≤ s.issued) {m : Entry} (hm : m ∈ read.members H) :
    InPage past s.consumer s.id m.seq := by
  obtain ⟨i, hi⟩ := List.mem_iff_getElem?.mp hm
  have hlt : i < (read.members H).length := (List.getElem?_eq_some_iff.mp hi).1
  have hitems := h.holds.items
  exact h.pages i m (by omega) hi

/-- The snapshots of a content against the history of the run. -/
structure Paged (past : List (Event H)) (w : World) : Prop where
  owned : Owned w.db
  snapshots : ∀ s ∈ w.db.snapshots, ∃ read, History past w.db s read

/-- Nothing is paged in a new store. -/
theorem Paged.initial (storeId : Text) (pages : ℕ) (fts : Bool) :
    Paged ([] : List (Event H)) (World.initial storeId pages fts) where
  owned i hi := absurd hi (Table.not_mem_empty i)
  snapshots s hs := absurd hs (Table.not_mem_empty s)

/-- What a past accounts for a longer one does. -/
theorem Paged.mono {past past' : List (Event H)} (hp : past ⊆ past') {w : World}
    (h : Paged past w) :
    Paged past' w := by
  refine ⟨h.owned, fun s hs => ?_⟩
  obtain ⟨read, ⟨e, he, hf⟩, hh, hi, hpage, hc⟩ := h.snapshots s hs
  exact ⟨read, ⟨e, hp he, hf⟩, hh, hi, fun i m h1 h2 => (hpage i m h1 h2).mono hp, hc⟩

section step

variable {past : List (Event H)} {w w' : World}

/-- Rows that stay as they were keep their history. -/
theorem Paged.of_retains (h : Paged past w) (ho : Owned w'.db) (hr : Retains w.db w'.db) :
    Paged past w' := by
  refine ⟨ho, fun s hs => ?_⟩
  obtain ⟨hmem, hitems⟩ := hr s hs
  obtain ⟨read, hh⟩ := h.snapshots s hmem
  exact ⟨read, hh.of_items hitems⟩

/-- Quiet steps stay accounted for. -/
theorem Paged.quiets {k : ℕ} (hq : Quiets H k w w') (h : Paged past w) : Paged past w' := by
  refine keeps_of_reflTransGen (I := Paged past) ?_ hq h
  intro s t hst hs
  exact hs.of_retains (hst.retains.2 hs.owned) hst.retains.1

/-- A stretch that leaves the content alone stays accounted for. -/
theorem Paged.idle (hi : Idle w w') (h : Paged past w) : Paged past w' :=
  h.quiets (k := 0) (.idle hi)

/-- Snapshots and items that stay the same stay accounted for. -/
theorem Paged.of_eq (h : Paged past w) (hs : w'.db.snapshots = w.db.snapshots)
    (hi : w'.db.items = w.db.items) : Paged past w' :=
  h.of_retains (h.owned.of_eq hs hi) (.of_eq hs hi)

/-- A freeze is accounted for by its event. -/
theorem Paged.froze {consumer sid : Text} {read : World} {created updated now : ℚ}
    (hf : Froze H consumer sid read created updated now w.db w'.db)
    (he : ∃ e ∈ past, FrozenAt e consumer sid read) (h : Paged past w) : Paged past w' := by
  obtain ⟨ho, hsnap⟩ := hf.snapshots h.owned
  refine ⟨ho, fun s hs => ?_⟩
  rcases hsnap s hs with ⟨hmem, hitems⟩ | ⟨rfl, sizes, h1, h2⟩
  · obtain ⟨read', hh⟩ := h.snapshots s hmem
    exact ⟨read', hh.of_items hitems⟩
  · exact ⟨read, he, ⟨rfl, rfl, sizes, h1, h2⟩, Nat.zero_le _,
      fun i m hi => absurd hi (Nat.not_lt_zero i), fun hn => absurd rfl hn⟩

/-- A served page is a page reply. -/
theorem Served.pageAt {e : Event H} {consumer : Text} {req : Object} {x : Snapshot} {token : ℤ}
    {page : List Item} {more : Bool} {r : Except Exc Reply}
    (hs : Served H consumer req x token page more w w' r)
    (ha : Asks e.act (lit "sync") req consumer) (hres : e.result = r.map some)
    (hk : r ≠ .error .killed) :
    PageAt e x.consumer x.id token (page.map Item.payload) (token + page.length)
      (more || decide (token + page.length < x.items)) := by
  have hreply : r = .ok (pageReply x token page more) := by
    obtain ⟨-, -, hr⟩ | ⟨-, -, -, hr | hr⟩ := hs.effect
    · exact hr
    · exact hr
    · exact absurd hr hk
  refine ⟨⟨req, hs.own ▸ ha, hs.request⟩, x.head, x.items, ?_⟩
  rw [hres, hreply]
  rfl

/-- A served page extends the history to the issued mark it records. -/
theorem Paged.served {e : Event H} {consumer : Text} {req : Object} {x : Snapshot} {token : ℤ}
    {page : List Item} {more : Bool} {r : Except Exc Reply} (he : e ∈ past)
    (ha : Asks e.act (lit "sync") req consumer) (hres : e.result = r.map some)
    (hk : r ≠ .error .killed) (hs : Served H consumer req x token page more w w' r)
    (h : Paged past w) : Paged past w' := by
  obtain ⟨-, hi, -⟩ | ⟨hn, -, hd, -⟩ := hs.effect
  · exact h.idle hi
  refine ⟨h.owned.of_update (by rw [hd, Db.issuePage]) (by rw [hd]; rfl), fun s' hs' => ?_⟩
  · rw [hd, Db.issuePage, Table.mem_update] at hs'
    obtain ⟨s, hmem, rfl⟩ := hs'
    have hitems (tid : Text) : w'.db.itemsOf tid = w.db.itemsOf tid := by rw [hd]; rfl
    obtain ⟨read, hh⟩ := h.snapshots s hmem
    by_cases hid : s.id = x.id
    · obtain rfl := Table.eq_of_key hmem hs.mem hid
      rw [if_pos (by simp)]
      obtain ⟨rest, hsplit, -, -⟩ := hh.holds.page hs.bounded
      have hle := hs.issued
      have hmax := hh.issued
      obtain ⟨sizes, h1, h2⟩ := hh.holds.rows
      refine ⟨read, hh.frozen, ⟨hh.holds.head, hh.holds.items, sizes, h1, (hitems _).trans h2⟩,
        hh.holds.page_le hs.bounded (by omega), fun i m hlt hm => ?_, fun hacked => ?_⟩
      · have hlt' : i < (token + page.length).toNat := hlt
        by_cases hold : i < s.issued
        · exact hh.pages i m hold hm
        -- The position is in this page.
        have hget : ((read.members H).drop token.toNat)[i - token.toNat]? = some m := by
          rw [List.getElem?_drop, ← hm]
          congr 1
          omega
        rw [hsplit, List.getElem?_append_left (by simp; omega)] at hget
        exact ⟨e, he, _, _, _, _, hs.pageAt ha hres hk,
          List.mem_map_of_mem (List.mem_of_getElem? hget)⟩
      · have hall := hh.complete hacked
        show s.items ≤ (token + page.length).toNat
        omega
    · rw [if_neg (by simpa using hid)]
      exact ⟨read, hh.of_items (hitems _)⟩

/-- An acknowledged snapshot stays accounted for. -/
theorem Paged.ackSnapshot {k : ℕ} {c : Cursor} {x : Snapshot} (hb : Bootstraps H k c x w w')
    (h : Paged past w) : Paged past w' := by
  obtain ⟨acked, -, hd⟩ := hb.effect
  refine ⟨h.owned.of_update (by rw [hd, Db.bootstrap, Db.ackSnapshot]) (by rw [hd]; rfl),
    fun s' hs' => ?_⟩
  have hs'' : s' ∈ (Db.ackSnapshot x.id acked w.db).snapshots := by
    rw [hd] at hs'
    exact hs'
  rw [Db.ackSnapshot, Table.mem_update] at hs''
  obtain ⟨s, hmem, rfl⟩ := hs''
  have hitems (tid : Text) : w'.db.itemsOf tid = w.db.itemsOf tid := by rw [hd]; rfl
  obtain ⟨read, hh⟩ := h.snapshots s hmem
  refine ⟨read, ?_⟩
  split
  · rename_i hid
    obtain rfl := Table.eq_of_key hmem hb.snapshot (by simpa using hid)
    obtain ⟨sizes, h1, h2⟩ := hh.holds.rows
    exact ⟨hh.frozen, ⟨hh.holds.head, hh.holds.items, sizes, h1, (hitems _).trans h2⟩, hh.issued,
      hh.pages, fun _ => hb.complete⟩
  · exact hh.of_items (hitems _)

end step

/-- **One event keeps the history.** -/
theorem Paged.event {past : List (Event H)} {e : Event H} (he : e ∈ past)
    (hk : e.died = false) (h : Paged past e.before) : Paged past e.after := by
  have hkill {res : Except Exc Reply} (hres : e.result = res.map some) : res ≠ .error .killed := by
    rintro rfl
    exact Event.ne_killed hk hres
  cases e.is with
  | quiet hq hstay hr => exact h.quiets hq
  | restart hr =>
    obtain ⟨s, i, hd⟩ := hr.db
    exact h.of_eq (by rw [hd]) (by rw [hd])
  | sync r u v s res ha hu hb hv hstay hans hres =>
    have hvp := h.quiets hv
    cases hans with
    | refused hm => exact hvp.quiets hm.quiets
    | page z x token page more hs hz hserved =>
      exact (hvp.idle hz).served he ha hres (hkill hres) hserved
    | frozen z y sid t1 t2 t3 hs hdue hnone hm hl hord h1 h2 h3 hf hend =>
      obtain ⟨hkilled, -⟩ | ⟨hfreeze, hend⟩ := hend
      · exact absurd hkilled (hkill hres)
      have hat : FrozenAt e s.consumer sid v := ⟨⟨r, u, s, ha, hu, hb, hs, hdue⟩, y, hfreeze⟩
      have hy : Paged past y := (hvp.quiets hm.quiets).froze hf ⟨e, he, hat⟩
      obtain ⟨hi, -⟩ | ⟨q, x, token, page, more, hq, -, hserved⟩ := hend
      · exact hy.idle hi
      · exact (hy.idle hq).served he ha hres (hkill hres) hserved
    | delta c entries more hs hdue hd =>
      obtain ⟨-, hi, -⟩ | ⟨-, -, hd, -⟩ := hd.effect
      · exact hvp.idle hi
      · exact hvp.of_eq (by rw [hd]; rfl) (by rw [hd]; rfl)
  | ack r u consumer res ha hu hstay hack hres =>
    have hup := h.quiets hu
    cases hack with
    | refused hi => exact hup.idle hi
    | replayed s hi => exact hup.idle hi
    | snapshot c s hc hb => exact hup.ackSnapshot hb
    | ignored seq hi => exact hup.idle hi
    | through c seq hc ha =>
      have hd := ha.effect
      exact hup.of_eq (by rw [hd]; rfl) (by rw [hd]; rfl)

/-- **Every held snapshot has its history in the run.** -/
theorem Run.paged {storeId : Text} {pages : ℕ} {fts : Bool} {past : List (Event H)} {w : World}
    (h : Run H (World.initial storeId pages fts) past w)
    (hk : ∀ e ∈ past, e.died = false) : Paged past w := by
  induction h with
  | nil => exact .initial storeId pages fts
  | @snoc past v h e he ih =>
    have hprev := ih fun x hx => hk x (List.mem_append_left _ hx)
    have hmem : e ∈ past ++ [e] := List.mem_append_right _ (List.mem_singleton.mpr rfl)
    exact ((he ▸ hprev).mono (List.subset_append_left _ _)).event hmem (hk e hmem)

end PeerBridge.Memory
