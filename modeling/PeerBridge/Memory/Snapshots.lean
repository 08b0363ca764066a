import PeerBridge.Memory.Log

/-!
# Frozen snapshots

What a snapshot holds and how long it holds it. The first part characterises the list `freeze`
selects: the entries live at its head, ordered by type and newest first, with only the newest few of
a capped type (`mem_frozen`, `pairwise_frozen`). The second part follows the item rows: they belong
to a snapshot row (`Owned`), and every committed change leaves the rows of a surviving snapshot as
they were frozen (`Change.snapshots`), whatever happened to the entries meanwhile.

Source: `memory.py`, `freeze`, `Store.expire`, `MemoryCommands.snapshot_page`.
-/

namespace PeerBridge.Memory

open Py Relational Effects Effects.Prog Relation

variable {H : Host}

/-! ## The selection -/

/-- The capped selection keeps an entry if its type has no cap, or if fewer than the cap of its type
were met before it. -/
theorem mem_capTails {taken : Kind → ℕ} {l : List Entry} {e : Entry} :
    e ∈ capTails taken l ↔ ∃ before after, l = before ++ e :: after ∧
      ∀ cap, e.kind.tail = some cap →
        taken e.kind + (before.filter fun x => x.kind = e.kind).length < cap := by
  induction l generalizing taken with
  | nil => simp [capTails]
  | cons a rest ih =>
    -- A split of `a :: rest` puts `e` first, or behind `a` in a split of `rest`.
    have hsplit (P : List Entry → Prop) :
        (∃ before after, a :: rest = before ++ e :: after ∧ P before) ↔
          (a = e ∧ P []) ∨ ∃ before after, rest = before ++ e :: after ∧ P (a :: before) := by
      constructor
      · rintro ⟨before, after, h, hP⟩
        rcases before with _ | ⟨b, before⟩
        · simp only [List.nil_append, List.cons.injEq] at h
          exact .inl ⟨h.1, hP⟩
        · simp only [List.cons_append, List.cons.injEq] at h
          exact .inr ⟨before, after, h.2, h.1 ▸ hP⟩
      · rintro (⟨rfl, hP⟩ | ⟨before, after, rfl, hP⟩)
        · exact ⟨[], rest, rfl, hP⟩
        · exact ⟨a :: before, after, rfl, hP⟩
    rw [hsplit fun before => ∀ cap, e.kind.tail = some cap →
      taken e.kind + (before.filter fun x => x.kind = e.kind).length < cap]
    rcases ha : a.kind.tail with _ | cap
    · simp only [capTails, ha, List.mem_cons, ih]
      refine or_congr ⟨?_, ?_⟩ ?_
      · rintro rfl
        exact ⟨rfl, fun cap h => by rw [ha] at h; cases h⟩
      · rintro ⟨rfl, -⟩
        rfl
      · refine exists_congr fun before => exists_congr fun after => and_congr_right fun _ => ?_
        refine forall_congr' fun cap => imp_congr_right fun hcap => ?_
        have hne : a.kind ≠ e.kind := by
          intro h
          rw [← h, ha] at hcap
          cases hcap
        simp [hne]
    · have hstep : (∃ before after, rest = before ++ e :: after ∧
            ∀ cap, e.kind.tail = some cap → (if e.kind = a.kind then taken e.kind + 1
              else taken e.kind) + (before.filter fun x => x.kind = e.kind).length < cap) ↔
          ∃ before after, rest = before ++ e :: after ∧ ∀ cap, e.kind.tail = some cap →
            taken e.kind + ((a :: before).filter fun x => x.kind = e.kind).length < cap := by
        refine exists_congr fun before => exists_congr fun after => and_congr_right fun _ => ?_
        refine forall_congr' fun cap => imp_congr_right fun _ => ?_
        by_cases hk : a.kind = e.kind
        · simp [hk]
          omega
        · simp [hk, Ne.symm hk]
      simp only [capTails, ha, if_true]
      by_cases hcap : taken a.kind + 1 > cap
      · rw [if_pos hcap, ih, hstep]
        refine ⟨.inr, ?_⟩
        rintro (⟨rfl, h⟩ | h)
        · have := h cap ha
          simp at this
          omega
        · exact h
      · rw [if_neg hcap, List.mem_cons, ih, hstep]
        refine or_congr_left ⟨?_, ?_⟩
        · rintro rfl
          refine ⟨rfl, fun c hc => ?_⟩
          rw [ha] at hc
          cases hc
          simp
          omega
        · rintro ⟨rfl, -⟩
          rfl

/-- The caps leave rows out and reorder none. -/
theorem capTails_sublist (taken : Kind → ℕ) (l : List Entry) : (capTails taken l).Sublist l := by
  induction l generalizing taken with
  | nil => exact .slnil
  | cons a rest ih =>
    rcases ha : a.kind.tail with _ | cap
    · simp only [capTails, ha]
      exact (ih _).cons_cons a
    · simp only [capTails, ha, if_true]
      split
      · exact (ih _).cons a
      · exact (ih _).cons_cons a

/-- The entries a freeze at `now` finds live. -/
def Db.liveRows (db : Db) (now : ℚ) : List Entry := db.entries.rows.filter fun e =>
    e.liveAt db.head now

/-- The live entries of a type above a sequence. -/
def Db.newer (db : Db) (now : ℚ) (kind : Kind) (seq : ℕ) : List Entry :=
  (db.liveRows now).filter fun e => e.kind = kind ∧ seq < e.seq

instance : Std.Total snapshotLe := by
  refine ⟨fun a b => ?_⟩
  unfold snapshotLe
  omega

instance : IsTrans Entry snapshotLe := by
  refine ⟨fun a b c => ?_⟩
  unfold snapshotLe
  omega

/-- The live rows are distinct. -/
theorem nodup_liveRows (db : Db) (now : ℚ) : ((db.liveRows now).map Entry.seq).Nodup :=
  db.entries.nodup.sublist (List.filter_sublist.map Entry.seq)

/-- **What is frozen.** The live entries, of a capped type only those with fewer newer live entries
of the type than the cap. -/
theorem mem_frozen {db : Db} {now : ℚ} {e : Entry} :
    e ∈ db.frozen now ↔ e ∈ db.entries ∧ e.liveAt db.head now = true ∧
      ∀ cap, e.kind.tail = some cap → (db.newer now e.kind e.seq).length < cap := by
  set sorted := (db.liveRows now).insertionSort snapshotLe with hsorted
  have hperm : sorted.Perm (db.liveRows now) := List.perm_insertionSort _ _
  have hpair : sorted.Pairwise snapshotLe := List.pairwise_insertionSort _ _
  have hnodup : (sorted.map Entry.seq).Nodup := (hperm.map _).nodup_iff.mpr (nodup_liveRows db now)
  -- In a split of the sorted rows, those of the type before `e` are the newer ones.
  have hcount {before after : List Entry} (h : sorted = before ++ e :: after) :
      (before.filter fun x => x.kind = e.kind).length = (db.newer now e.kind e.seq).length := by
    have hp : (db.newer now e.kind e.seq).Perm
        (sorted.filter fun x => x.kind = e.kind ∧ e.seq < x.seq) := (hperm.filter _).symm
    rw [hp.length_eq, h, List.filter_append]
    rw [h, List.pairwise_append, List.pairwise_cons] at hpair
    rw [h, List.map_append, List.map_cons, List.nodup_append] at hnodup
    have hafter : (e :: after).filter (fun x => x.kind = e.kind ∧ e.seq < x.seq) = [] := by
      rw [List.filter_eq_nil_iff]
      intro x hx
      obtain rfl | hx := List.mem_cons.mp hx
      · simp
      · have := hpair.2.1.1 x hx
        unfold snapshotLe at this
        simp only [decide_eq_true_eq, not_and, not_lt]
        intro hk
        rw [hk] at this
        omega
    have hbefore : before.filter (fun x => x.kind = e.kind ∧ e.seq < x.seq)
        = before.filter fun x => x.kind = e.kind := by
      refine List.filter_congr fun x hx => ?_
      have hle := hpair.2.2 x hx e (List.mem_cons_self ..)
      have hne : x.seq ≠ e.seq := hnodup.2.2 _ (List.mem_map_of_mem hx) _ (List.mem_cons_self ..)
      unfold snapshotLe at hle
      simp only [decide_eq_decide, and_iff_left_iff_imp]
      intro hk
      rw [hk] at hle
      omega
    rw [hafter, List.append_nil, hbefore]
  have hmem : e ∈ sorted ↔ e ∈ db.entries ∧ e.liveAt db.head now = true := by
    rw [hperm.mem_iff, Db.liveRows, List.mem_filter]
    rfl
  show e ∈ capTails (fun _ => 0) sorted ↔ _
  rw [mem_capTails, ← and_assoc, ← hmem]
  constructor
  · rintro ⟨before, after, h, hcap⟩
    refine ⟨by rw [h]; simp, fun cap hc => ?_⟩
    have := hcap cap hc
    rwa [Nat.zero_add, hcount h] at this
  · rintro ⟨he, hcap⟩
    obtain ⟨before, after, h⟩ := List.append_of_mem he
    refine ⟨before, after, h, fun cap hc => ?_⟩
    rw [Nat.zero_add, hcount h]
    exact hcap cap hc

/-- **The order of a frozen list.** By type, and newest first within a type. -/
theorem pairwise_frozen (db : Db) (now : ℚ) :
    (db.frozen now).Pairwise fun a b =>
      a.kind.order < b.kind.order ∨ (a.kind.order = b.kind.order ∧ b.seq < a.seq) := by
  set sorted := (db.liveRows now).insertionSort snapshotLe with hsorted
  have hperm : sorted.Perm (db.liveRows now) := List.perm_insertionSort _ _
  have hpair : sorted.Pairwise snapshotLe := List.pairwise_insertionSort _ _
  have hnodup : sorted.Pairwise fun a b => a.seq ≠ b.seq :=
    List.pairwise_map.mp ((hperm.map Entry.seq).nodup_iff.mpr (nodup_liveRows db now))
  refine List.Pairwise.sublist (capTails_sublist _ _) ((hpair.and hnodup).imp ?_)
  rintro a b ⟨h, hne⟩
  unfold snapshotLe at h
  omega

/-! ## Item rows -/

/-- The item rows of a snapshot. -/
def Db.itemsOf (db : Db) (sid : Text) : List Item := db.items.rows.filter fun i => i.id == sid

/-- Every item row belongs to a snapshot row. -/
def Owned (db : Db) : Prop := ∀ i ∈ db.items, ∃ s ∈ db.snapshots, s.id = i.id

/-- A snapshot that is not stored has no items. -/
theorem Owned.itemsOf {db : Db} (h : Owned db) {sid : Text} (hn : ∀ s ∈ db.snapshots, s.id ≠ sid) :
    db.itemsOf sid = [] := by
  rw [Db.itemsOf, List.filter_eq_nil_iff]
  intro i hi hs
  obtain ⟨s, hs', he⟩ := h i hi
  exact hn s hs' (he.trans (by simpa using hs))

/-- The items of a freeze are those of its own snapshot. -/
theorem itemsOf_frozenItems (sid tid : Text) (members : List Entry) (sizes : List ℕ) :
    (frozenItems sid members sizes).filter (fun i => i.id == tid)
      = if sid = tid then frozenItems sid members sizes else [] := by
  have hid : ∀ i ∈ frozenItems sid members sizes, i.id = sid := by
    intro i hi
    obtain ⟨p, -, rfl⟩ := List.mem_map.mp hi
    rfl
  split
  · rename_i h
    rw [List.filter_eq_self]
    intro i hi
    simp [hid i hi, h]
  · rename_i h
    rw [List.filter_eq_nil_iff]
    intro i hi
    simp [hid i hi, h]

/-- Deleting item rows that are not a snapshot's leaves its items. -/
theorem itemsOf_remove {db : Db} {p : Item → Bool} {sid : Text}
    (h : ∀ i ∈ db.items, i.id = sid → p i = false) :
    { db with items := db.items.remove p }.itemsOf sid = db.itemsOf sid := by
  simp only [Db.itemsOf, Table.remove, List.filter_filter]
  refine List.filter_congr fun i hi => ?_
  by_cases he : i.id = sid
  · simp [he, h i hi he]
  · simp [he]

/-- Every member has a size. -/
theorem length_frozenSizes {l : List Entry} {sizes : List ℕ} (h : frozenSizes l = .ok sizes) :
    sizes.length = l.length := by
  induction l generalizing sizes with
  | nil =>
    cases h
    rfl
  | cons e rest ih =>
    rw [frozenSizes, except_bind_eq_ok] at h
    obtain ⟨n, -, h⟩ := h
    rw [except_bind_eq_ok] at h
    obtain ⟨ns, hns, h⟩ := h
    cases h
    simp [ih hns]

/-- The encoding of the entry fits a page. -/
def Entry.Fits (e : Entry) : Prop := encodedLen e.json ≤ frameBudget

/-- The size of a member is the length of its encoding. -/
theorem mem_frozenSizes {l : List Entry} {sizes : List ℕ} (h : frozenSizes l = .ok sizes) :
    ∀ p ∈ l.zip sizes, p.2 = encodedLen p.1.json := by
  induction l generalizing sizes with
  | nil =>
    cases h
    simp
  | cons e rest ih =>
    rw [frozenSizes, except_bind_eq_ok] at h
    obtain ⟨n, hn, h⟩ := h
    rw [except_bind_eq_ok] at h
    obtain ⟨ns, hns, h⟩ := h
    cases h
    rw [Entry.lenEncode, lenEncode_eq] at hn
    split at hn
    · cases hn
    · cases hn
      intro p hp
      rcases List.mem_cons.mp hp with rfl | hp
      · rfl
      · exact ih hns p hp

/-- An item row keeps the encoded size of its member. -/
theorem mem_frozenItems {sid : Text} {members : List Entry} {sizes : List ℕ} {i : Item}
    (hs : frozenSizes members = .ok sizes) (hi : i ∈ frozenItems sid members sizes) :
    i.bytes = encodedLen i.payload.json ∧ i.payload ∈ members := by
  obtain ⟨p, hp, rfl⟩ := List.mem_map.mp hi
  obtain ⟨k, hk⟩ := List.mem_iff_getElem?.mp hp
  rw [List.getElem?_zipIdx] at hk
  obtain ⟨q, hq, rfl⟩ := Option.map_eq_some_iff.mp hk
  have hmem := List.mem_of_getElem? hq
  exact ⟨mem_frozenSizes hs q hmem, (List.of_mem_zip hmem).1⟩

/-- The payloads of the items are the members. -/
theorem map_payload_frozenItems {sid : Text} {members : List Entry} {sizes : List ℕ}
    (h : sizes.length = members.length) :
    (frozenItems sid members sizes).map Item.payload = members := by
  have hfst : ((members.zip sizes).zipIdx.map fun p => p.1.1) = members := by
    have hcomp := List.map_map (l := (members.zip sizes).zipIdx) (g := Prod.fst) (f := Prod.fst)
    rw [List.zipIdx_map_fst, List.map_fst_zip (le_of_eq h.symm)] at hcomp
    exact hcomp.symm
  rw [frozenItems, List.map_map]
  exact hfst

/-- Selecting positions from a token on drops the items before it. -/
theorem filter_zipIdx_ge {α : Type} (l : List α) (k : ℕ) (token : ℤ) :
    ((l.zipIdx k).filter fun p => decide ((p.2 : ℤ) ≥ token))
    = (l.zipIdx k).drop (token - k).toNat := by
  induction l generalizing k with
  | nil => simp
  | cons a rest ih =>
    rw [List.zipIdx_cons, List.filter_cons, ih]
    by_cases h : (k : ℤ) ≥ token
    · have h0 : (token - k).toNat = 0 := by omega
      have h1 : (token - (k + 1 : ℕ)).toNat = 0 := by omega
      rw [h0, h1, if_pos (by simpa using h)]
      rfl
    · have h1 : (token - k).toNat = (token - (k + 1 : ℕ)).toNat + 1 := by omega
      rw [h1, if_neg (by simpa using h)]
      rfl

/-- The rows of a page: the frozen items from the token on. -/
theorem pageRows_eq {db : Db} {sid : Text} {members : List Entry} {sizes : List ℕ}
    (h : db.itemsOf sid = frozenItems sid members sizes) (token : ℤ) :
    db.pageRows sid token = (frozenItems sid members sizes).drop token.toNat := by
  have hrows : (db.items.rows.filter fun i => i.id == sid && decide ((i.position : ℤ) ≥ token))
      = (frozenItems sid members sizes).drop token.toNat := by
    have hsplit : (db.items.rows.filter fun i => i.id == sid && decide ((i.position : ℤ) ≥ token))
        = (db.itemsOf sid).filter fun i => decide ((i.position : ℤ) ≥ token) := by
      rw [Db.itemsOf, List.filter_filter]
      exact List.filter_congr fun i _ => Bool.and_comm _ _
    rw [hsplit, h, frozenItems, List.filter_map, ← List.map_drop]
    have := filter_zipIdx_ge (members.zip sizes) 0 token
    rw [Nat.cast_zero, sub_zero] at this
    exact congrArg _ this
  rw [Db.pageRows, hrows]
  refine List.Pairwise.insertionSort_eq (List.Pairwise.sublist (List.drop_sublist _ _) ?_)
  rw [frozenItems, List.pairwise_map]
  have hidx : (((members.zip sizes).zipIdx).map Prod.snd).Pairwise (· ≤ ·) := by
    rw [List.zipIdx_map_snd]
    exact List.pairwise_le_range' 1
  exact List.pairwise_map.mp hidx

/-! ## Snapshots under the committed changes -/

/-- The snapshots of `db'` are snapshots of `db`, with the same items. -/
def Retains (db db' : Db) : Prop :=
  ∀ s ∈ db'.snapshots, s ∈ db.snapshots ∧ db'.itemsOf s.id = db.itemsOf s.id

/-- Snapshots and items that stay the same are retained. -/
theorem Retains.of_eq {db db' : Db} (hs : db'.snapshots = db.snapshots)
    (hi : db'.items = db.items) :
    Retains db db' := by
  intro s h
  exact ⟨hs ▸ h, by rw [Db.itemsOf, hi, Db.itemsOf]⟩

/-- Snapshots and items that stay the same stay owned. -/
theorem Owned.of_eq {db db' : Db} (h : Owned db) (hs : db'.snapshots = db.snapshots)
    (hi : db'.items = db.items) : Owned db' := by
  intro i hm
  rw [hs]
  exact h i (hi ▸ hm)

/-- Rewriting snapshot rows leaves the items owned. -/
theorem Owned.of_update {db db' : Db} (h : Owned db) {p : Snapshot → Bool} {f : Snapshot → Snapshot}
    {hf : ∀ s, (f s).id = s.id} (hs : db'.snapshots = db.snapshots.update p f hf)
    (hi : db'.items = db.items) : Owned db' := by
  intro i hm
  obtain ⟨s, hmem, he⟩ := h i (hi ▸ hm)
  rw [hs]
  refine ⟨_, (Table.mem_update hf).mpr ⟨s, hmem, rfl⟩, ?_⟩
  split
  · exact (hf s).trans he
  · exact he

/-- Dropping snapshots together with exactly the items that are left without one. -/
theorem Retains.remove {db : Db} {p : Snapshot → Bool} {q : Item → Bool}
    (hq : ∀ s ∈ db.snapshots, p s = false → ∀ i ∈ db.items, i.id = s.id → q i = false) :
    Retains db { db with snapshots := db.snapshots.remove p, items := db.items.remove q } := by
  intro s hs
  obtain ⟨hmem, hp⟩ := Table.mem_remove.mp hs
  exact ⟨hmem, itemsOf_remove (hq s hmem hp)⟩

/-- The closing transaction of an expiry drops snapshots as a whole. -/
theorem retains_retire (db : Db) (now : ℚ) : Retains db (db.retire now) := by
  obtain ⟨cs, rs, hr, -⟩ := retire_spec now db
  rw [hr]
  refine Retains.remove (p := Snapshot.stale now) fun s hs hp i _ hid => ?_
  simp only [Bool.not_eq_false', List.any_eq_true]
  exact ⟨s, Table.mem_remove.mpr ⟨hs, hp⟩, by simp [hid]⟩

/-- After the closing transaction of an expiry every item has its snapshot. -/
theorem Owned.retire {db : Db} (now : ℚ) : Owned (db.retire now) := by
  obtain ⟨cs, rs, hr, -⟩ := retire_spec now db
  rw [hr]
  intro i hi
  obtain ⟨-, hp⟩ := Table.mem_remove.mp hi
  simp only [Bool.not_eq_false', List.any_eq_true] at hp
  obtain ⟨s, hs, he⟩ := hp
  exact ⟨s, hs, by simpa using he⟩

/-- Dropping a consumer's snapshots drops them as a whole. -/
theorem retains_pruneSnapshots (db : Db) (consumer : Text) (now : ℚ) :
    Retains db (db.pruneSnapshots consumer now) := by
  refine Retains.remove fun s _ hp i _ hid => ?_
  rw [hid]
  exact hp

/-- After it every item has its snapshot. -/
theorem Owned.pruneSnapshots {db : Db} (h : Owned db) (consumer : Text) (now : ℚ) :
    Owned (db.pruneSnapshots consumer now) := by
  intro i hi
  obtain ⟨hmem, hp⟩ := Table.mem_remove.mp hi
  obtain ⟨s, hs, he⟩ := h i hmem
  exact ⟨s, Table.mem_remove.mpr ⟨hs, by rw [he]; exact hp⟩, he⟩

/-- A maintenance step drops snapshots only together with their items. -/
theorem Maint.retains {k : ℕ} {w w' : World} (h : Maint H k w w') :
    Retains w.db w'.db ∧ (Owned w.db → Owned w'.db) := by
  rcases h with h | ⟨t, hl, ht, hd⟩ | ⟨t, hl, ht, hd⟩
  · obtain ⟨es, fl, ix, se, hd, -⟩ := h.frame
    rw [hd]
    exact ⟨.of_eq rfl rfl, fun ho => ho.of_eq rfl rfl⟩
  · rw [hd]
    exact ⟨retains_retire _ _, fun _ => .retire t⟩
  · rw [hd]
    exact ⟨.of_eq rfl rfl, fun ho => ho.of_eq rfl rfl⟩

/-- A quiet change keeps the items of every snapshot that stays. -/
theorem Quiet.retains {k : ℕ} {w w' : World} (h : Quiet H k w w') :
    Retains w.db w'.db ∧ (Owned w.db → Owned w'.db) := by
  have heq (hs : w'.db.snapshots = w.db.snapshots) (hi : w'.db.items = w.db.items) :
      Retains w.db w'.db ∧ (Owned w.db → Owned w'.db) :=
    ⟨.of_eq hs hi, fun ho => ho.of_eq hs hi⟩
  cases h with
  | maint h => exact h.retains
  | append x h => exact heq h.effect.snapshots h.effect.items
  | register _ _ _ _ _ _ hd => exact heq (by rw [hd]) (by rw [hd])
  | touch _ _ _ _ hd => exact heq (by rw [hd]; rfl) (by rw [hd]; rfl)
  | clear _ _ _ _ _ _ hd => exact heq (by rw [hd]; rfl) (by rw [hd]; rfl)

/-- Quiet steps leave every item its snapshot. -/
theorem Owned.quiets {k : ℕ} {w w' : World} (hq : Quiets H k w w') (h : Owned w.db) : Owned w'.db :=
  keeps_of_reflTransGen (I := fun v => Owned v.db) (fun _ _ hst => hst.retains.2) hq h

/-- The snapshot a freeze creates. -/
def Snapshot.fresh (sid consumer : Text) (head items : ℕ) (created : ℚ) : Snapshot :=
  ⟨sid, consumer, head, created, items, 0, none⟩

/-- **The snapshots after a freeze.** The new one with its items, and the earlier ones as they
were. -/
theorem Froze.snapshots {consumer sid : Text} {read : World} {created updated now : ℚ} {db db' : Db}
    (hf : Froze H consumer sid read created updated now db db') (ho : Owned db) :
    Owned db' ∧ ∀ s ∈ db'.snapshots,
      (s ∈ db.snapshots ∧ db'.itemsOf s.id = db.itemsOf s.id) ∨
        (s = .fresh sid consumer read.db.head (read.members H).length created ∧
          ∃ sizes, frozenSizes (read.members H) = .ok sizes ∧
            db'.itemsOf sid = frozenItems sid (read.members H) sizes) := by
  obtain ⟨sizes, hsizes, snapshots, items, hi, hrows, rfl⟩ := hf.sizes
  have hfresh := (Table.insert?_eq_some.mp hi).1
  set mid := Db.openSnapshot consumer sid updated { db with snapshots := snapshots, items := items }
  have hitems (tid : Text) : mid.itemsOf tid = db.itemsOf tid
      ++ if sid = tid then frozenItems sid (read.members H) sizes else [] := by
    show items.rows.filter _ = _
    rw [hrows, List.filter_append, itemsOf_frozenItems]
    rfl
  have hown : Owned mid := by
    intro i hmem
    have hmem' : i ∈ items.rows := hmem
    rw [hrows, List.mem_append] at hmem'
    rcases hmem' with h | h
    · obtain ⟨s, hs, he⟩ := ho i h
      exact ⟨s, (Table.mem_insert? hi).mpr (.inl hs), he⟩
    · obtain ⟨p, -, rfl⟩ := List.mem_map.mp h
      exact ⟨_, (Table.mem_insert? hi).mpr (.inr rfl), rfl⟩
  refine ⟨hown.pruneSnapshots consumer now, fun s hs => ?_⟩
  obtain ⟨hmem, hsame⟩ := retains_pruneSnapshots mid consumer now s hs
  rcases (Table.mem_insert? hi).mp hmem with h | rfl
  · refine .inl ⟨h, hsame.trans ?_⟩
    rw [hitems, if_neg fun he => hfresh s h he.symm, List.append_nil]
  · refine .inr ⟨rfl, sizes, hsizes, hsame.trans ?_⟩
    rw [hitems, if_pos rfl, ho.itemsOf hfresh, List.nil_append]

end PeerBridge.Memory
