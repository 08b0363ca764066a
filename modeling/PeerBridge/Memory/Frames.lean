import PeerBridge.Memory.Budget
import PeerBridge.Memory.Delivery
import PeerBridge.Memory.Listings
import PeerBridge.Memory.Replacement
import PeerBridge.Service.Reply

/-!
# Every page fits one frame

`sync` and `recall` bound a page by the sum of its encoded rows, and the reply then adds a separator
for every row and an envelope around the list. Neither is counted. What makes the reply fit is that
a row is never short: the seventeen keys of an entry alone take more than two hundred bytes, so a
page within the budget has at most `maxRows` of them and the separators stay far below the slack
between the budget and the frame (`length_page_le`).

The numbers of the envelope are small because of what the store keeps. `Framed` is that invariant: a
snapshot was charged for its members when it was frozen, so it has fewer of them than the store has
bytes; it is never issued beyond them; and its identifier came from `uuid4`. Every request keeps it,
also one in which the process dies (`Framed.event`).

* **No reply of a `sync` or a `recall` is too large to send** (`paged_replies_fit`).

Source: `memory.py`, `FRAME_BUDGET`, `bounded`, `MemoryCommands.sync`,
`MemoryCommands.snapshot_page`, `MemoryCommands.recall`.
-/

namespace PeerBridge.Memory

open Py Relational Effects Effects.Prog Relation
open PeerBridge.Service (decimalLen_column dumpsLen_arr_le dumpsLen_bool_le dumpsLen_int_le
  dumpsLen_obj_keys
  dumpsLen_optSeq_le encode_okFrame okFrame)

variable {H : Host}

/-! ## The replies as they are sent -/

/-- The entries of a page. -/
def pageJson (entries : List Entry) : Json := .arr (entries.map Entry.json)

/-- The result of a reply that carries a page of entries, with its fields in order.
Source: `MemoryCommands.sync`, `MemoryCommands.snapshot_page`, `MemoryCommands.recall` -/
def Reply.paged : Reply → Option Json
  | .delta entries cursor nextCursor head more => some (.obj
      [(lit "kind", .str (lit "delta")), (lit "entries", pageJson entries),
        (lit "cursor", .int cursor),
        (lit "next_cursor", .int nextCursor), (lit "head", .int head), (lit "more", .bool more)])
  | .snapshot sid head entries token total more => some (.obj
      [(lit "kind", .str (lit "snapshot")), (lit "snapshot_id", .str sid), (lit "head", .int head),
        (lit "entries", pageJson entries), (lit "page_token", .int token),
        (lit "total", .int total),
        (lit "more", .bool more)])
  | .recalled entries more indexed nextBefore => some (.obj
      [(lit "entries", pageJson entries), (lit "more", .bool more), (lit "indexed", .bool indexed),
        (lit "next_before", optSeq nextBefore)])
  | _ => none

/-! ## The length of a page -/

/-- A page is encoded with one byte for each entry beyond what `bounded` counts of it. -/
theorem dumpsLen_pageJson_le (entries : List Entry) : dumpsLen (pageJson entries)
    ≤ 2 + (entries.map fun e => encodedLen e.json).sum + entries.length := by
  have hitems := dumpsLen_arr_le (entries.map Entry.json)
  have hsum : ((entries.map Entry.json).map fun v => dumpsLen v + 2).sum
      = (entries.map fun e => encodedLen e.json).sum + entries.length := by
    clear hitems
    induction entries with
    | nil => rfl
    | cons e rest ih =>
      simp only [List.map_cons, List.sum_cons, List.length_cons, encodedLen] at ih ⊢
      omega
  rw [hsum] at hitems
  rw [pageJson]
  omega

/-- No page has more rows: the keys of a row alone take this share of the budget. -/
def maxRows : ℕ := frameBudget / rowOverhead

/-- The frame of a row takes room. -/
theorem rowOverhead_pos : 0 < rowOverhead := by decide

/-- A row takes at least its frame. -/
theorem rowOverhead_le (e : Entry) : rowOverhead ≤ encodedLen e.json := by
  rw [Entry.json, encodedLen_row rfl]
  exact Nat.le_add_right _ _

/-- **A page within the budget is short enough for its separators.** -/
theorem length_page_le {entries : List Entry}
    (h : (entries.map fun e => encodedLen e.json).sum ≤ frameBudget) :
    entries.length ≤ maxRows ∧ dumpsLen (pageJson entries) ≤ frameBudget + maxRows + 2 := by
  have hrows : entries.length * rowOverhead ≤ (entries.map fun e => encodedLen e.json).sum := by
    have := List.card_nsmul_le_sum (entries.map fun e => encodedLen e.json) rowOverhead
      fun n hn => by
      obtain ⟨e, -, rfl⟩ := List.mem_map.mp hn
      exact rowOverhead_le e
    simpa using this
  have hlen : entries.length ≤ maxRows :=
    (Nat.le_div_iff_mul_le rowOverhead_pos).mpr (hrows.trans h)
  have hpage := dumpsLen_pageJson_le entries
  exact ⟨hlen, by omega⟩

/-- The sizes `bounded` added up. -/
theorem boundedFrom_sum {α : Type} {size : α → Except Exc ℕ} {cost : α → ℕ} {budget : ℕ}
    (hsize : ∀ a n, size a = .ok n → n = cost a) {out items page : List α} {used : ℕ} {more : Bool}
    (hused : (out.map cost).sum = used) (hle : used ≤ budget)
    (h : boundedFrom size budget out items used = .ok (page, more)) :
    (page.map cost).sum ≤ budget := by
  induction items generalizing out used with
  | nil =>
    cases h
    rw [List.map_reverse, List.sum_reverse, hused]
    exact hle
  | cons a items ih =>
    rw [boundedFrom, except_bind_eq_ok] at h
    obtain ⟨n, hn, h⟩ := h
    obtain rfl := hsize a n hn
    split at h
    · cases h
    split at h
    · cases h
      rw [List.map_reverse, List.sum_reverse, hused]
      exact hle
    · rename_i hfull
      refine ih ?_ (not_lt.mp hfull) h
      rw [List.map_cons, List.sum_cons, hused]
      exact Nat.add_comm _ _

/-- **The items of a page stay within the budget together.** -/
theorem bounded_sum {α : Type} {size : α → Except Exc ℕ} {cost : α → ℕ}
    (hsize : ∀ a n, size a = .ok n → n = cost a) {items page : List α} {more : Bool}
    (h : bounded size items = .ok (page, more)) : (page.map cost).sum ≤ frameBudget :=
  boundedFrom_sum hsize rfl (Nat.zero_le _) h

/-- The length that is charged for a row is that of its encoding. -/
theorem lenEncode_cost (e : Entry) (n : ℕ) (h : e.lenEncode = .ok n) : n = encodedLen e.json := by
  rw [Entry.lenEncode, lenEncode_eq] at h
  split at h
  · cases h
  · exact (Except.ok.inj h).symm

/-! ## What the store keeps of its snapshots -/

/-- Every snapshot is named by `uuid4`, has fewer members than the store has bytes, was not issued
beyond them, and holds them. -/
structure Framed (H : Host) (db : Db) : Prop where
  owned : Owned db
  minted : ∀ s ∈ db.snapshots, ∃ n, s.id = H.uuid n
  held : ∀ s ∈ db.snapshots, s.issued ≤ s.items ∧ s.items ≤ maxLogicalBytes ∧ ∃ read,
    Holds H db s read

namespace Framed

/-- No snapshot is stored in a new store. -/
theorem initial (storeId : Text) : Framed H (Db.initial storeId) where
  owned i hi := absurd hi (Table.not_mem_empty i)
  minted s hs := absurd hs (Table.not_mem_empty s)
  held s hs := absurd hs (Table.not_mem_empty s)

/-- Snapshots that stay with their items stay framed. -/
theorem of_retains {db db' : Db} (h : Framed H db) (ho : Owned db') (hr : Retains db db') :
    Framed H db' where
  owned := ho
  minted s hs := h.minted s (hr s hs).1
  held s hs := by
    obtain ⟨hissued, hitems, read, hread⟩ := h.held s (hr s hs).1
    exact ⟨hissued, hitems, read, hread.of_items (hr s hs).2⟩

/-- Snapshots and items that stay the same stay framed. -/
theorem of_eq {db db' : Db} (h : Framed H db) (hs : db'.snapshots = db.snapshots)
    (hi : db'.items = db.items) : Framed H db' :=
  h.of_retains (h.owned.of_eq hs hi) (.of_eq hs hi)

/-- Quiet steps keep the snapshots framed. -/
theorem quiets {k : ℕ} {w w' : World} (h : Framed H w.db) (hq : Quiets H k w w') :
    Framed H w'.db := by
  refine keeps_of_reflTransGen (I := fun v => Framed H v.db) ?_ hq h
  intro s t hst hs
  exact hs.of_retains (hst.retains.2 hs.owned) hst.retains.1

/-- A stretch that leaves the content alone keeps the snapshots framed. -/
theorem idle {w w' : World} (h : Framed H w.db) (hi : Idle w w') : Framed H w'.db := by
  rw [hi.db]
  exact h

/-- A row updated in place keeps its items: it is enough that it keeps its name and its members, and
is not issued beyond them. -/
theorem of_update {db db' : Db} (h : Framed H db) {p : Snapshot → Bool} {f : Snapshot → Snapshot}
    {hkey : ∀ s, (f s).id = s.id} (hs : db'.snapshots = db.snapshots.update p f hkey)
    (hi : db'.items = db.items) (hf : ∀ s ∈ db.snapshots, p s = true → s.issued ≤ s.items →
      (f s).head = s.head ∧ (f s).items = s.items ∧ (f s).issued ≤ s.items) : Framed H db' := by
  refine ⟨h.owned.of_update hs hi, fun s' hs' => ?_, fun s' hs' => ?_⟩
  · rw [hs, Table.mem_update] at hs'
    obtain ⟨s, hmem, rfl⟩ := hs'
    obtain ⟨n, hn⟩ := h.minted s hmem
    refine ⟨n, ?_⟩
    split
    · exact (hkey s).trans hn
    · exact hn
  · rw [hs, Table.mem_update] at hs'
    obtain ⟨s, hmem, rfl⟩ := hs'
    obtain ⟨hissued, hitems, read, hread⟩ := h.held s hmem
    have hsame : db'.itemsOf s.id = db.itemsOf s.id := by rw [Db.itemsOf, Db.itemsOf, hi]
    split
    · rename_i hp
      obtain ⟨h1, h2, h3⟩ := hf s hmem hp hissued
      obtain ⟨sizes, hsizes, hrows⟩ := hread.rows
      refine ⟨h2 ▸ h3, h2 ▸ hitems, read, h1.trans hread.head, h2.trans hread.items, sizes,
        hsizes, ?_⟩
      rw [hkey s]
      exact hsame.trans hrows
    · exact ⟨hissued, hitems, read, hread.of_items hsame⟩

end Framed

/-- A freeze is charged for every member, so there are fewer of them than bytes. -/
theorem Froze.length_members_le {consumer sid : Text} {read : World} {created updated now : ℚ}
    {db db' : Db}
    (hf : Froze H consumer sid read created updated now db db') :
    (read.members H).length ≤ maxLogicalBytes := by
  obtain ⟨sizes, ids, hsizes, -, hroom⟩ := hf.charged
  have hpos : ∀ n ∈ sizes, 1 ≤ n := by
    intro n hn
    obtain ⟨i, hi, rfl⟩ := List.mem_iff_getElem.mp hn
    have hlen := length_frozenSizes hsizes
    have hz := mem_frozenSizes hsizes ((read.members H)[i], sizes[i])
      (List.mem_iff_getElem.mpr ⟨i, by simp only [List.length_zip]; omega, by simp⟩)
    rw [show sizes[i] = _ from hz]
    exact Nat.succ_le_succ (Nat.zero_le _)
  have hsum := List.length_le_sum_of_one_le sizes hpos
  have hlen := length_frozenSizes hsizes
  have hcap := hroom.logical
  have hmax : byteCap false ≤ maxLogicalBytes := by decide
  omega

/-- The identifier of a freeze comes from `uuid4`. -/
theorem freeze_minted {consumer : Text} {w w' : World} {r : Except Exc Text}
    (h : freeze H consumer w = (r, w')) :
    ∀ s ∈ w'.db.snapshots, (∃ t ∈ w.db.snapshots, s.id = t.id) ∨ ∃ n, s.id = H.uuid n := by
  have hkept {k : ℕ} {v u : World} (hm : Maints H k v u) :
      ∀ s ∈ u.db.snapshots, ∃ t ∈ v.db.snapshots, s.id = t.id := by
    refine keeps_of_reflTransGen (I := fun u => ∀ s ∈ u.db.snapshots, ∃ t ∈ v.db.snapshots,
      s.id = t.id)
      ?_ hm fun s hs => ⟨s, hs, rfl⟩
    intro x y hxy hx s hs
    exact hx s (hxy.retains.1 s hs).1
  obtain ⟨hm, -⟩ | ⟨w1, sid, created, updated, now, hsid, hm, -, -, -, -, -, hfroze, -⟩ :=
    freeze_inv h
  · exact fun s hs => .inl (hkept hm s hs)
  · obtain ⟨sizes, -, snapshots, items, hins, -, hd⟩ := hfroze.sizes
    intro s hs
    rw [hd] at hs
    rcases (Table.mem_insert? hins).mp (Table.mem_remove.mp hs).1 with hold | rfl
    · exact .inl (hkept hm s hold)
    · exact .inr ⟨_, hsid⟩

/-- A freeze, whether it returned or not. -/
theorem Framed.freeze {consumer : Text} {w w' : World} {r : Except Exc Text} (h : Framed H w.db)
    (hf : freeze H consumer w = (r, w')) : Framed H w'.db := by
  have hminted : ∀ s ∈ w'.db.snapshots, ∃ n, s.id = H.uuid n := by
    intro s hs
    rcases freeze_minted hf s hs with ⟨t, ht, hid⟩ | hn
    · obtain ⟨n, hn⟩ := h.minted t ht
      exact ⟨n, hid.trans hn⟩
    · exact hn
  obtain ⟨hm, -⟩ | ⟨w1, sid, created, updated, now, -, hm, -, -, -, -, -, hfroze, -⟩ :=
    freeze_inv hf
  · exact h.quiets hm.quiets
  · have h1 := h.quiets hm.quiets
    obtain ⟨ho, hsnap⟩ := hfroze.snapshots h1.owned
    refine ⟨ho, hminted, fun s hs => ?_⟩
    rcases hsnap s hs with ⟨hmem, hitems⟩ | ⟨rfl, sizes, hsizes, hrows⟩
    · obtain ⟨hissued, hle, read, hread⟩ := h1.held s hmem
      exact ⟨hissued, hle, read, hread.of_items hitems⟩
    · exact ⟨Nat.zero_le _, hfroze.length_members_le, w, rfl, rfl, sizes, hsizes, hrows⟩

/-- A page and its issuance. -/
theorem Framed.served {consumer : Text} {req : Object} {s : Snapshot} {token : ℤ} {page : List Item}
    {more : Bool} {w w' : World} {r : Except Exc Reply} (h : Framed H w.db)
    (hs : Served H consumer req s token page more w w' r) : Framed H w'.db := by
  obtain ⟨-, hi, -⟩ | ⟨-, -, hd, -⟩ := hs.effect
  · exact h.idle hi
  refine h.of_update (by rw [hd, Db.issuePage]) (by rw [hd]; rfl) fun x hx hp hissued => ?_
  obtain rfl := Table.eq_of_key hx hs.mem (by simpa using hp)
  obtain ⟨-, -, read, hread⟩ := h.held x hx
  have hle := hs.issued
  exact ⟨rfl, rfl, hread.page_le hs.bounded (by omega)⟩

/-- A page request, whether it was served or refused. -/
theorem Framed.paged {consumer sid : Text} {req : Object} {w w' : World} {r : Except Exc Reply}
    (h : Framed H w.db) (hp : snapshotPage H consumer sid req w = (r, w')) : Framed H w'.db := by
  obtain ⟨hi, -⟩ | ⟨u, s, token, page, more, hu, -, hserved⟩ := snapshotPage_inv hp
  · exact h.idle hi
  · exact (h.idle hu).served hserved

/-- A delta page keeps the snapshots framed. -/
theorem Framed.delta {c : Cursor} {w w' : World} {r : Except Exc Reply} (h : Framed H w.db)
    (hd : deltaPage H c w = (r, w')) : Framed H w'.db := by
  unfold deltaPage at hd
  rw [database_bind] at hd
  obtain ⟨e, -, rfl, rfl⟩ | ⟨⟨entries, more⟩, -, h1⟩ := lift_bind_inv hd
  · exact h
  have hissue {v : World} {m : Except Exc Unit}
      (hi : Memory.issueDelta H c ((entries.getLast?.map Entry.seq).getD c.seq) w = (m, v)) :
      Framed H v.db := by
    unfold Memory.issueDelta at hi
    split at hi
    · obtain ⟨hidle, -⟩ | ⟨-, hdb, -⟩ := statement_inv hi
      · exact h.idle hidle
      · exact h.of_eq (by rw [hdb]; rfl) (by rw [hdb]; rfl)
    · cases hi
      exact h
  obtain ⟨e, h2, rfl⟩ | ⟨_, v, h2, h3⟩ := bind_inv h1
  · exact hissue h2
  · cases h3
    exact hissue h2

/-- **The ways through `sync`.** -/
theorem sync_paths {req : Object} {w w' : World} {r : Except Exc Reply}
    (h : sync H req w = (r, w')) :
    (∃ e, beginSync H req w = (.error e, w') ∧ r = .error e) ∨
      ∃ s u, beginSync H req w = (.ok s, u) ∧
        ((∃ sid, s.snapshot = some sid ∧ snapshotPage H s.consumer sid req u = (r, w')) ∨
          (∃ f v, freeze H s.consumer u = (f, v) ∧ ((∃ e, f = .error e ∧ r = .error e ∧ w' = v) ∨
            ∃ sid, f = .ok sid ∧ snapshotPage H s.consumer sid req v = (r, w'))) ∨
          (s.snapshot = none ∧ s.due = false ∧ deltaPage H s.cursor u = (r, w'))) := by
  unfold sync at h
  obtain ⟨e, h1, rfl⟩ | ⟨s, u, h1, h2⟩ := bind_inv h
  · exact .inl ⟨e, h1, rfl⟩
  refine .inr ⟨s, u, h1, ?_⟩
  rcases hs : s.snapshot with _ | sid
  · rw [hs] at h2
    dsimp only at h2
    split at h2
    · obtain ⟨e, h3, rfl⟩ | ⟨sid, v, h3, h4⟩ := bind_inv h2
      · exact .inr (.inl ⟨.error e, w', h3, .inl ⟨e, rfl, rfl, rfl⟩⟩)
      · exact .inr (.inl ⟨.ok sid, v, h3, .inr ⟨sid, rfl, h4⟩⟩)
    · rename_i hdue
      exact .inr (.inr ⟨rfl, by simpa using hdue, h2⟩)
  · rw [hs] at h2
    exact .inl ⟨sid, rfl, h2⟩

/-- A `sync` keeps the snapshots framed. -/
theorem Framed.synced {req : Object} {w w' : World} {r : Except Exc Reply} (h : Framed H w.db)
    (hs : sync H req w = (r, w')) : Framed H w'.db := by
  obtain ⟨e, hb, -⟩ | ⟨s, u, hb, hpath⟩ := sync_paths hs
  · exact h.quiets (beginSync_inv hb).1
  have hu := h.quiets (beginSync_inv hb).1
  rcases hpath with ⟨sid, -, hp⟩ | ⟨f, v, hf, ⟨e, -, -, rfl⟩ | ⟨sid, -, hp⟩⟩ | ⟨-, -, hd⟩
  · exact hu.paged hp
  · exact hu.freeze hf
  · exact (hu.freeze hf).paged hp
  · exact hu.delta hd

/-- An `ack` keeps the snapshots framed. -/
theorem Framed.acked {req : Object} {w w' : World} {r : Except Exc Reply} (h : Framed H w.db)
    (ha : ack H req w = (r, w')) : Framed H w'.db := by
  obtain ⟨hq, -⟩ | ⟨c, u, -, hq, -, hack⟩ := ack_inv ha
  · exact h.quiets hq
  have hu := h.quiets hq
  cases hack with
  | refused hi => exact hu.idle hi
  | replayed s hi => exact hu.idle hi
  | ignored seq hi => exact hu.idle hi
  | snapshot d s hc hb =>
    obtain ⟨acked, -, hd⟩ := hb.effect
    have hmarked : Framed H (Db.ackSnapshot s.id acked u.db) := by
      refine hu.of_update (by rw [Db.ackSnapshot]) rfl ?_
      exact fun x _ _ hissued => ⟨rfl, rfl, hissued⟩
    exact hmarked.of_eq (by rw [hd]; rfl) (by rw [hd]; rfl)
  | through d seq hc hadv =>
    have hd := hadv.effect
    exact hu.of_eq (by rw [hd]; rfl) (by rw [hd]; rfl)

/-- **An event keeps the snapshots framed**, also one in which the process dies. -/
theorem Framed.event (e : Event H) (h : Framed H e.before.db) : Framed H e.after.db := by
  obtain ⟨act, before, result, after, hp⟩ := e
  cases act with
  | request s r pid =>
    obtain ⟨res, h1, -⟩ := request_inv hp
    cases command_inv h1 with
    | read hi => exact h.idle hi
    | maintained hm => exact h.quiets hm.quiets
    | note u consumer n hv hop hu hc hn he =>
      exact (h.quiets (maybeExpire_maint hu).quiets).quiets (note_changes hn)
    | sync u hv hop hu hs => exact (h.quiets (maybeExpire_maint hu).quiets).synced hs
    | ack u hv hop hu ha => exact (h.quiets (maybeExpire_maint hu).quiets).acked ha
  | expire =>
    obtain ⟨x, h1, -⟩ | ⟨n, u, h1, h2⟩ := bind_inv hp
    · exact h.quiets (expire_maint h1).quiets
    · cases h2
      exact h.quiets (expire_maint h1).quiets
  | reclaim =>
    obtain ⟨x, h1, -⟩ | ⟨n, u, h1, h2⟩ := bind_inv hp
    · exact h.quiets (reclaim_maint h1).quiets
    · cases h2
      exact h.quiets (reclaim_maint h1).quiets
  | restart fts =>
    obtain ⟨s, i, hd⟩ := ((Keeps.bind (keeps_reopen fts) fun _ => Keeps.pure _).run hp).db
    exact h.of_eq (by rw [hd]) (by rw [hd])

/-- Over a run the snapshots stay framed. -/
theorem Run.framed {start w : World} {past : List (Event H)} (h : Run H start past w)
    (h0 : Framed H start.db) : Framed H w.db := by
  induction h with
  | nil => exact h0
  | snoc _ e he ih => exact Framed.event e (he ▸ ih)

/-! ## The replies fit -/

/-- `uuid4().hex` is 32 hexadecimal digits. -/
def Host.Mints (H : Host) : Prop :=
  ∀ n, (H.uuid n).length = 32 ∧ ∀ c ∈ H.uuid n, ∃ d < 16, c = hexDigit d

/-- The identifiers a host mints take 32 characters. -/
theorem Host.Mints.escapedLen_uuid (h : H.Mints) (n : ℕ) : escapedLen (H.uuid n) = 32 := by
  have hdigit : ∀ d < 16, escapeWidth (hexDigit d) = 1 := by decide
  have hwidth : ∀ k ∈ (H.uuid n).map escapeWidth, k = 1 := by
    intro k hk
    obtain ⟨c, hc, rfl⟩ := List.mem_map.mp hk
    obtain ⟨d, hd, rfl⟩ := (h n).2 c hc
    exact hdigit d hd
  rw [escapedLen, List.eq_replicate_of_mem hwidth, List.sum_replicate, List.length_map, (h n).1]
  rfl

/-- The constants of the bound. -/
theorem frame_constants :
    maxRows = 1104 ∧ frameBudget = 253952 ∧ limit = 262144 ∧ maxLogicalBytes = 33554432 := by
  decide

/-- A delta reply whose rows are within the budget is within the frame. -/
theorem dumpsLen_delta_le {entries : List Entry} {cursor next head : ℕ} {more : Bool}
    (hsum : (entries.map fun e => encodedLen e.json).sum ≤ frameBudget) (hcursor : cursor < 2 ^ 63)
    (hnext : next < 2 ^ 63) (hhead : head < 2 ^ 63) {result : Json}
    (hr : (Reply.delta entries cursor next head more).paged = some result) :
    dumpsLen result + 25 ≤ limit := by
  obtain rfl := Option.some.inj hr
  have hpage := (length_page_le hsum).2
  have hkind : escapedLen (lit "delta") = 5 := by decide
  have h1 := decimalLen_column hcursor
  have h2 := decimalLen_column hnext
  have h3 := decimalLen_column hhead
  have h4 := dumpsLen_bool_le more
  obtain ⟨hrows, hbudget, hlimit, -⟩ := frame_constants
  rw [dumpsLen_obj_keys [lit "kind", lit "entries", lit "cursor", lit "next_cursor", lit "head",
    lit "more"] 70 rfl
    (by decide)]
  simp only [List.map_cons, List.map_nil, List.sum_cons, List.sum_nil, dumpsLen_str,
    dumpsLen_natCast, hkind]
  omega

/-- A snapshot reply whose rows are within the budget is within the frame. -/
theorem dumpsLen_snapshot_le {sid : Text} {entries : List Entry} {head total : ℕ} {token : ℤ}
    {more : Bool}
    (hsid : escapedLen sid = 32) (hsum : (entries.map fun e => encodedLen e.json).sum ≤ frameBudget)
    (hhead : head < 2 ^ 63) (hlow : -2 ^ 63 ≤ token) (hhigh : token < 2 ^ 63)
    (htotal : total < 2 ^ 63)
    {result : Json} (hr : (Reply.snapshot sid head entries token total more).paged = some result) :
    dumpsLen result + 25 ≤ limit := by
  obtain rfl := Option.some.inj hr
  have hpage := (length_page_le hsum).2
  have hkind : escapedLen (lit "snapshot") = 8 := by decide
  have h1 := decimalLen_column hhead
  have h2 := dumpsLen_int_le hlow hhigh
  have h3 := decimalLen_column htotal
  have h4 := dumpsLen_bool_le more
  obtain ⟨hrows, hbudget, hlimit, -⟩ := frame_constants
  rw [dumpsLen_obj_keys [lit "kind", lit "snapshot_id", lit "head", lit "entries", lit "page_token",
    lit "total",
    lit "more"] 85 rfl (by decide)]
  simp only [List.map_cons, List.map_nil, List.sum_cons, List.sum_nil, dumpsLen_str,
    dumpsLen_natCast, hkind,
    hsid]
  omega

/-- A search reply whose rows are within the budget is within the frame. -/
theorem dumpsLen_recalled_le {entries : List Entry} {more indexed : Bool} {next : Option ℕ}
    (hsum : (entries.map fun e => encodedLen e.json).sum ≤ frameBudget)
    (hnext : ∀ k, next = some k → k < 2 ^ 63) {result : Json}
    (hr : (Reply.recalled entries more indexed next).paged = some result) :
    dumpsLen result + 25 ≤ limit := by
  obtain rfl := Option.some.inj hr
  have hpage := (length_page_le hsum).2
  have h1 := dumpsLen_bool_le more
  have h2 := dumpsLen_bool_le indexed
  have h3 := dumpsLen_optSeq_le hnext
  obtain ⟨hrows, hbudget, hlimit, -⟩ := frame_constants
  rw [dumpsLen_obj_keys [lit "entries", lit "more", lit "indexed", lit "next_before"] 51 rfl
    (by decide)]
  simp only [List.map_cons, List.map_nil, List.sum_cons, List.sum_nil]
  omega

/-- A served page asked for a position that SQLite could compare with. -/
theorem snapshotPage_token {consumer sid : Text} {req : Object} {w w' : World} {reply : Reply}
    (h : snapshotPage H consumer sid req w = (.ok reply, w')) {token : ℤ}
    (ht : int (req.getD (lit "page_token") (.int 0)) = .ok token) : -2 ^ 63 ≤ token := by
  unfold snapshotPage at h
  rw [database_bind] at h
  rcases hs : w.db.snapshots.find sid with _ | s
  · rw [hs] at h
    cases h
  rw [hs] at h
  obtain ⟨t, u, h1, h2⟩ := bind_ok_inv h
  obtain ⟨-, ⟨_, he⟩ | ⟨t', he, -, hreq, -⟩⟩ := pageToken_inv h1
  · cases he
  cases he
  obtain rfl := Except.ok.inj (ht.symm.trans hreq)
  unfold servePage at h2
  obtain ⟨bound, v, h3, -⟩ := bind_ok_inv h2
  have hbound : Sql.ofJson (.int token) = .ok bound := (Prod.mk.inj h3).1
  rw [Sql.ofJson] at hbound
  split at hbound
  · rename_i hrange
    exact hrange.1
  · cases hbound

/-- **A page of a snapshot fits.** -/
theorem snapshotPage_fits {consumer sid : Text} {req : Object} {w w' : World} {reply : Reply}
    {result : Json}
    (hmint : H.Mints) (hg : Gapless w.db) (hf : Framed H w.db) (hhead : w.db.head < 2 ^ 63)
    (h : snapshotPage H consumer sid req w = (.ok reply, w')) (hr : reply.paged = some result) :
    dumpsLen result + 25 ≤ limit := by
  obtain ⟨-, e, he⟩ | ⟨u, s, token, page, more, hu, -, hs⟩ := snapshotPage_inv h
  · cases he
  have hlow := snapshotPage_token h hs.request
  have hmem : s ∈ w.db.snapshots := hu.db ▸ hs.mem
  have hpage : w.db.page s.id token = .ok (page, more) := hu.db ▸ hs.bounded
  obtain ⟨n, hn⟩ := hf.minted s hmem
  obtain ⟨hissued, hitems, read, hread⟩ := hf.held s hmem
  have hsheads := hg.heads s hmem
  -- The bytes of an item are those of its entry.
  have hbytes : ∀ i ∈ page, encodedLen i.payload.json = i.bytes := by
    intro i hi
    obtain ⟨sizes, hsizes, hrows⟩ := hread.rows
    obtain ⟨rest, hsplit, -⟩ := bounded_inv hpage
    have hrow : i ∈ w.db.pageRows s.id token := hsplit ▸ List.mem_append_left _ hi
    rw [pageRows_eq hrows] at hrow
    exact (mem_frozenItems hsizes (List.mem_of_mem_drop hrow)).1.symm
  have hsum : ((page.map Item.payload).map fun e => encodedLen e.json).sum ≤ frameBudget := by
    have hmap : (page.map Item.payload).map (fun e => encodedLen e.json) = page.map Item.bytes := by
      rw [List.map_map]
      exact List.map_congr_left hbytes
    rw [hmap]
    exact bounded_sum (fun _ _ hb => (Except.ok.inj hb).symm) hpage
  have hlen := (length_page_le hsum).1
  rw [List.length_map] at hlen
  obtain ⟨hrows, -, -, hmax⟩ := frame_constants
  have hle := hs.issued
  have hreply : reply = pageReply s token page more := by
    obtain ⟨-, -, hr⟩ | ⟨-, -, -, hr | hr⟩ := hs.effect
    · exact Except.ok.inj hr
    · exact Except.ok.inj hr
    · cases hr
  rw [hreply] at hr
  exact dumpsLen_snapshot_le (hn ▸ hmint.escapedLen_uuid n) hsum (by omega) (by omega) (by omega)
    (by omega) hr

/-- **A delta fits.** -/
theorem Delivered.fits {consumer : Text} {c : Cursor} {entries : List Entry} {more : Bool}
    {w w' : World}
    {reply : Reply} {result : Json} (hg : Gapless w.db) (hhead : w.db.head < 2 ^ 63)
    (h : Delivered consumer c entries more w w' (.ok reply)) (hr : reply.paged = some result) :
    dumpsLen result + 25 ≤ limit := by
  have hreply : reply = deltaReply w.db c entries more := by
    obtain ⟨-, -, hr⟩ | ⟨-, -, -, hr | hr⟩ := h.effect
    · exact Except.ok.inj hr
    · exact Except.ok.inj hr
    · cases hr
  obtain ⟨hseq, hissued⟩ := hg.cursors c h.mem
  have hend := (hg.delta h.mode h.bounded).2.2.1
  have hsum := bounded_sum lenEncode_cost h.bounded
  rw [hreply] at hr
  exact dumpsLen_delta_le hsum (by omega) (by omega) hhead hr

/-- **The replies of `sync` fit.** -/
theorem sync_fits {req : Object} {w w' : World} {reply : Reply} {result : Json} (hmint : H.Mints)
    (hg : Gapless w.db) (hf : Framed H w.db) (hhead : w.db.head < 2 ^ 63)
    (h : sync H req w = (.ok reply, w')) (hr : reply.paged = some result) :
    dumpsLen result + 25 ≤ limit := by
  obtain ⟨e, -, he⟩ | ⟨s, u, hb, hpath⟩ := sync_paths h
  · cases he
  have hq := (beginSync_inv hb).1
  have hfu := hf.quiets hq
  have hgu := hg.changes hq.changes
  have hheadu : u.db.head < 2 ^ 63 := (beginSync_shrinks hb).head ▸ hhead
  rcases hpath with ⟨sid, -, hp⟩ | ⟨f, v, hfr, ⟨e, -, he, -⟩ | ⟨sid, rfl, hp⟩⟩ | ⟨hs, hdue, -⟩
  · exact snapshotPage_fits hmint hgu hfu hheadu hp hr
  · cases he
  · obtain ⟨-, _, he, -⟩ | ⟨w1, sid', created, updated, now, -, hm, hl, -, -, -, -, hfroze, -⟩ :=
      freeze_inv hfr
    · cases he
    have hgv := (hgu.changes hm.quiets.changes).freeze hfroze hm.shrinks.head.symm
    have hheadv : v.db.head < 2 ^ 63 := (hfroze.shrinks hl hm.shrinks).head ▸ hheadu
    exact snapshotPage_fits hmint hgv (hfu.freeze hfr) hheadv hp hr
  · obtain ⟨-, ⟨_, he⟩, -⟩ | ⟨s', u', hb', hans⟩ := sync_inv h
    · cases he
    obtain ⟨hs', rfl⟩ := Prod.mk.inj (hb.symm.trans hb')
    obtain rfl := Except.ok.inj hs'
    cases hans with
    | refused hm e he => cases he
    | page z x token page more hopen => rw [hs] at hopen; cases hopen
    | frozen z v sid t1 t2 t3 hnone hdue' => rw [hdue] at hdue'; cases hdue'
    | delta c entries more hnone hdue' hd => exact hd.fits hgu hheadu hr

/-- What the scan finds is live. -/
theorem mem_scanRows {term : Text} {live rows : List Entry} (h : scanRows term live = .ok rows)
    {e : Entry}
    (he : e ∈ rows) : e ∈ live := by
  unfold scanRows at h
  split at h
  · cases h
  · obtain rfl := Except.ok.inj h
    exact (List.mem_filter.mp (List.mem_of_mem_take he)).1

/-- **The replies of `recall` fit.** -/
theorem recall_fits {req : Object} {w w' : World} {reply : Reply} {result : Json}
    (hg : Gapless w.db)
    (hhead : w.db.head < 2 ^ 63) (h : «recall» H req w = (.ok reply, w'))
    (hr : reply.paged = some result) :
    dumpsLen result + 25 ≤ limit := by
  unfold «recall» at h
  rcases hq : Object.get req (lit "query") with _ | _ | _ | _ | term | _ | _
  case str =>
    simp only [hq] at h
    split at h
    · cases h
    · obtain ⟨before, u1, hu1, h⟩ := bind_ok_inv h
      obtain ⟨-, rfl⟩ := Prod.mk.inj hu1
      simp only [time_bind, get_bind] at h
      obtain ⟨size, u2, -, h⟩ := bind_ok_inv h
      obtain ⟨bound, u3, -, h⟩ := bind_ok_inv h
      obtain ⟨rows, u4, hrows, h⟩ := bind_ok_inv h
      obtain ⟨⟨page, truncated⟩, u5, hb, h⟩ := bind_ok_inv h
      obtain ⟨hpage, -⟩ := Prod.mk.inj h
      obtain rfl := Except.ok.inj hpage
      have hcut := (Prod.mk.inj hb).1
      have hread := (Prod.mk.inj hrows).1
      have hlive : ∀ e ∈ rows, e ∈ w.db.entries := by
        intro e he
        suffices hrow : e ∈ w.db.recallRows (H.clock w.tick)
          (if before = 0 then 2 ^ 62 else before) from
          (mem_recallRows.mp hrow).1
        split at hread
        · obtain rfl := Except.ok.inj hread
          exact (List.mem_filter.mp (List.mem_of_mem_take he)).1
        · exact mem_scanRows hread he
      refine dumpsLen_recalled_le (bounded_sum lenEncode_cost hcut) (fun k hk => ?_) hr
      split at hk
      · obtain ⟨e, he, rfl⟩ := Option.map_eq_some_iff.mp hk
        obtain ⟨rest, hsplit, -⟩ := bounded_inv hcut
        have hrow : e ∈ rows.take rowWindow :=
          hsplit ▸ List.mem_append_left _ (List.mem_of_getLast? he)
        have hbound := hg.bound e (hlive e (List.mem_of_mem_take hrow))
        omega
      · cases hk
  all_goals
    simp only [hq] at h
    cases h

/-- The request behind a reply with a page: its maintenance, and then a `sync` or a `recall`. -/
theorem command_paged {s : Service} {r : Object} {pid : ℕ} {w w' : World} {reply : Reply}
    {result : Json}
    (h : command H s r pid w = (.ok reply, w')) (hr : reply.paged = some result) :
    ∃ u, Maints H w.tick w u ∧ (sync H r u = (.ok reply, w') ∨ «recall» H r u
      = (.ok reply, w')) := by
  unfold command at h
  obtain ⟨_, v, h1, h2⟩ := bind_ok_inv h
  obtain ⟨-, rfl⟩ := Prod.mk.inj h1
  obtain ⟨_, u, h3, h4⟩ := bind_ok_inv h2
  refine ⟨u, (maintain_inv h3).1, ?_⟩
  unfold dispatch at h4
  split at h4
  · obtain ⟨_, x, -, h5⟩ := bind_ok_inv h4
    cases h5
    cases hr
  split at h4
  · cases h4
    cases hr
  split at h4
  · obtain ⟨consumer, x, -, h5⟩ := bind_ok_inv h4
    obtain ⟨n, y, -, h6⟩ := bind_ok_inv h5
    cases h6
    cases hr
  split at h4
  · exact .inl h4
  split at h4
  · obtain ⟨-, -, e, he⟩ | ⟨consumer, x, -, -, -, hack⟩ := ack_inv h4
    · cases he
    · cases hack with
      | refused hi e he => cases he
      | replayed z hi hz hown hacked he =>
        cases he
        cases hr
      | snapshot c z hc hb he =>
        rcases he with he | he
        · cases he
          cases hr
        · cases he
      | ignored seq hi he =>
        cases he
        cases hr
      | through c seq hc hadv he =>
        rcases he with he | he
        · cases he
          cases hr
        · cases he
  split at h4
  · exact .inr h4
  split at h4
  · unfold status at h4
    rw [get_bind] at h4
    obtain ⟨bound, x, -, h5⟩ := bind_ok_inv h4
    obtain ⟨p, y, -, h6⟩ := bind_ok_inv h5
    cases h6
    cases hr
  split at h4
  · obtain ⟨_, x, -, h5⟩ := bind_ok_inv h4
    cases h5
    cases hr
  · cases h4

/-- **Every page fits one frame.** In every run, through every restart and death of the process,
whatever a `sync` or a `recall` answers is encoded without exceeding the frame, for stores whose
sequence numbers are within SQLite's integers. -/
theorem paged_replies_fit {storeId : Text} {pages : ℕ} {fts : Bool} {past : List (Event H)}
    {w : World}
    (hmint : H.Mints) (h : Run H (World.initial storeId pages fts) past w)
    (hhead : w.db.head < 2 ^ 63) :
    ∀ e ∈ past, ∀ reply result, e.result = .ok (some reply) → reply.paged = some result →
      ∃ data, encode (okFrame result) = .ok data := by
  intro e he reply result hres hr
  obtain ⟨earlier, later, rfl⟩ := List.append_of_mem he
  have hbefore := h.at rfl
  have hg : Gapless e.before.db := hbefore.gapless (Gapless.initial storeId)
  have hf : Framed H e.before.db := hbefore.framed (Framed.initial storeId)
  have hlow : e.before.db.head < 2 ^ 63 :=
    (e.carried.head.trans (h.since rfl).carried.head).trans_lt hhead
  obtain ⟨act, before, result', after, hp⟩ := e
  dsimp only at hres hg hf hlow
  subst hres
  cases act with
  | request s r pid =>
    obtain ⟨res, hcmd, hres⟩ := request_inv hp
    rcases res with e | reply'
    · cases hres
    cases hres
    obtain ⟨u, hm, hrun⟩ := command_paged hcmd hr
    have hgu := hg.changes hm.quiets.changes
    have hheadu : u.db.head < 2 ^ 63 := hm.shrinks.head ▸ hlow
    apply encode_okFrame
    rcases hrun with hsync | hrecall
    · exact sync_fits hmint hgu (hf.quiets hm.quiets) hheadu hsync hr
    · exact recall_fits hgu hheadu hrecall hr
  | expire =>
    obtain ⟨n, u, -, h2⟩ := bind_ok_inv hp
    cases h2
  | reclaim =>
    obtain ⟨n, u, -, h2⟩ := bind_ok_inv hp
    cases h2
  | restart fts =>
    obtain ⟨n, u, -, h2⟩ := bind_ok_inv hp
    cases h2

/-- A host that names snapshots like `uuid4`. -/
def Host.minting : Host :=
  { Host.steady with uuid := fun n => List.replicate 32 (hexDigit (n % 16)) }

/-- The minting host mints its identifiers. -/
theorem Host.mints_minting : Host.minting.Mints := by
  intro n
  refine ⟨List.length_replicate .., fun c hc => ⟨n % 16, Nat.mod_lt n (by decide), ?_⟩⟩
  exact List.eq_of_mem_replicate hc

/-- One entry, read through a first snapshot and through a query. -/
def firstReads : List Act :=
  [ask (lit "note") (lit "a") [(lit "type", .str (lit "finding")), (lit "body", .str (lit "x"))],
    ask (lit "sync") (lit "b") [], ask (lit "recall") (lit "b") [(lit "query", .str (lit "x"))]]

/-- Both reads are answered with a page, and both pages fit. -/
theorem paged_replies_fit_firstReads :
    let run := play Host.minting (World.initial (lit "store") 10 true) firstReads
    (run.1.map fun e => (e.result.toOption.join.bind Reply.paged).isSome) = [false, true, true] ∧
      ∀ e ∈ run.1, ∀ reply result, e.result = .ok (some reply) → reply.paged = some result →
        ∃ data, encode (okFrame result) = .ok data := by
  have hrun : ((play Host.minting (World.initial (lit "store") 10 true) firstReads).1.map
        fun e => (e.result.toOption.join.bind Reply.paged).isSome) = [false, true, true] ∧
      (play Host.minting (World.initial (lit "store") 10 true) firstReads).2.db.head < 2 ^ 63 := by
    decide +kernel
  exact ⟨hrun.1, paged_replies_fit Host.mints_minting (run_play _ _) hrun.2⟩

end PeerBridge.Memory
