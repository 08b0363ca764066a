import PeerBridge.Memory.Runs

/-!
# The search index

The index is a second copy of the bodies, kept complete by one number: `indexed_through` is the head
up to which it is known to hold every row, or `-1` when it must not be used. The number moves in
five places, under different conditions, and a store is reopened by runtimes with and without full
text search.

* `Db.IndexSound`: the number is `-1`, or it is the head and the postings are exactly the stored
  rows.
* `Serving`: what holds while a process serves the store; a process without full text search keeps
  the number at `-1`, so a row it appends cannot make an incomplete index look complete.
* `Serving.change`: every committed change keeps it; `reopen_serving`: every opening establishes it,
  and one that fails leaves a sound store behind.
* `search_index_sound`: in every run of processes on one store the index is sound at every moment.

A service run (`Serviced`) is a run in which somebody is there to act: requests are handled by a
process whose opening returned and which has not died since.

Source: `memory.py`, `Store._open_fts`, `_reconcile_index`, `_unindex`, `index_usable`, `_forget`,
`note`.
-/

namespace PeerBridge.Memory

open Py Relational Effects Effects.Prog Relation

variable {H : Host}

/-! ## Soundness of the index -/

/-- The postings are the stored rows. -/
def Db.Posted (db : Db) : Prop := ∀ p, p ∈ db.search ↔ ∃ e ∈ db.entries, p = (e.seq, e.body)

/-- The index is known to be unusable, or it is complete. -/
def Db.IndexSound (db : Db) : Prop :=
  db.indexedThrough = -1 ∨ (db.indexedThrough = db.head ∧ db.Posted)

/-- What holds of the index while a process serves the store. -/
structure Serving (w : World) : Prop where
  sound : w.db.IndexSound
  off : w.fts = false → w.db.indexedThrough = -1

/-- An index stays sound where it, its marker and the rows stay the same. -/
theorem Db.IndexSound.of_eq {db db' : Db} (h : db.IndexSound)
    (hi : db'.indexedThrough = db.indexedThrough)
    (hh : db'.head = db.head) (he : db'.entries = db.entries) (hs : db'.search = db.search) :
    db'.IndexSound := by
  unfold Db.IndexSound Db.Posted at h ⊢
  rw [hi, hh, he, hs]
  exact h

/-- The index of a new store is sound. -/
theorem Db.IndexSound.initial (storeId : Text) : (Db.initial storeId).IndexSound := by
  refine .inr ⟨rfl, ?_⟩
  intro p
  constructor
  · intro h
    cases h
  · rintro ⟨e, he, -⟩
    exact absurd he (Table.not_mem_empty e)

/-- An index marked up to the head holds exactly the stored bodies. -/
theorem Db.IndexSound.posted {db : Db} (h : db.IndexSound) (hh : db.indexedThrough = db.head) :
    db.Posted := by
  rcases h with h | ⟨-, h⟩
  · omega
  · exact h

/-- An index not marked up to the head is marked unusable. -/
theorem Db.IndexSound.neg_one {db : Db} (h : db.IndexSound) (hh : db.indexedThrough ≠ db.head) :
    db.indexedThrough = -1 := by
  rcases h with h | ⟨h, -⟩
  · exact h
  · exact absurd h hh

/-- A rebuild leaves a complete index. -/
theorem posted_reindex (db : Db) : db.reindex.Posted := by
  intro p
  simp only [Db.reindex, bySeq, List.mem_map, List.mem_insertionSort, Table.mem_def]
  constructor
  · rintro ⟨e, he, rfl⟩
    exact ⟨e, he, rfl⟩
  · rintro ⟨e, he, rfl⟩
    exact ⟨e, he, rfl⟩

/-! ## Changes -/

/-- A serving store stays one where its index, its marker and its rows stay the same. -/
theorem Serving.of_eq {w w' : World} (h : Serving w) (hl : Later w w')
    (hi : w'.db.indexedThrough = w.db.indexedThrough) (hh : w'.db.head = w.db.head)
    (he : w'.db.entries = w.db.entries) (hs : w'.db.search = w.db.search) : Serving w' where
  sound := h.sound.of_eq hi hh he hs
  off hf := hi.trans (h.off (hl.fts ▸ hf))

/-- A serving store stays one when the content stays. -/
theorem Serving.idle {w w' : World} (h : Serving w) (hi : Idle w w') : Serving w' :=
  h.of_eq hi.toLater (by rw [hi.db]) (by rw [hi.db]) (by rw [hi.db]) (by rw [hi.db])

/-- Postings removed together with their rows. -/
theorem posted_forget {db : Db} {batch : List Entry} {fts : Bool} (h : db.Posted)
    (hb : ∀ b ∈ batch, b ∈ db.entries) :
    (Db.forget batch fts (Db.unindex batch true db)).Posted := by
  intro p
  simp only [Db.forget, Db.unindex, if_pos, List.mem_filter, h p, Table.mem_remove]
  constructor
  · rintro ⟨⟨e, he, rfl⟩, hk⟩
    refine ⟨e, ⟨he, ?_⟩, rfl⟩
    rw [List.any_eq_false]
    intro b hbb hseq
    obtain rfl := Table.eq_of_key (hb b hbb) he (by simpa using hseq)
    simp only [Bool.not_eq_true', List.any_eq_false] at hk
    exact hk b hbb (by simp)
  · rintro ⟨e, ⟨he, hk⟩, rfl⟩
    refine ⟨⟨e, he, rfl⟩, ?_⟩
    rw [List.any_eq_false] at hk
    simp only [Bool.not_eq_true', List.any_eq_false]
    intro b hbb hsb
    simp only [Bool.and_eq_true] at hsb
    exact hk b hbb hsb.1

/-- A step of expiry keeps a serving store one. -/
theorem Serving.trim {k : ℕ} {w w' : World} (ht : Trim H k w w') (h : Serving w) : Serving w' := by
  rcases ht with hi | ⟨batch, usable, t, hl, -, hb, hu, hd⟩ | ⟨hl, hd⟩
  · exact h.idle hi
  · have hin : ∀ b ∈ batch, b ∈ w.db.entries := fun b hbb => (hb b hbb).1
    have hthrough : w'.db.indexedThrough = if w.fts then w.db.indexedThrough else -1 := by
      rw [hd]
      rcases usable <;> rfl
    have hhead : w'.db.head = w.db.head := by
      rw [hd]
      rcases usable <;> rfl
    -- Without full text search the number is reset; with it, a complete index was maintained.
    rcases hf : w.fts with _ | _
    · have hoff : w'.db.indexedThrough = -1 := by simp [hthrough, hf]
      exact ⟨.inl hoff, fun _ => hoff⟩
    · rw [hf, if_pos rfl] at hthrough
      refine ⟨?_, fun hf' => ?_⟩
      · by_cases hk : w.db.indexedThrough = w.db.head
        · have hus : usable = true := by
            rcases hu with hu | ⟨-, hm⟩
            · simp [hu, World.indexUsable, hf, hk]
            · omega
          subst hus
          refine .inr ⟨by rw [hthrough, hhead, hk], ?_⟩
          rw [hd]
          exact posted_forget (h.sound.posted hk) hin
        · exact .inl (hthrough.trans (h.sound.neg_one hk))
      · rw [hl.fts, hf] at hf'
        cases hf'
  · have hoff : w'.db.indexedThrough = -1 := by rw [hd]; rfl
    exact ⟨.inl hoff, fun _ => hoff⟩

/-- A step of maintenance keeps a serving store one. -/
theorem Serving.maint {k : ℕ} {w w' : World} (hm : Maint H k w w') (h : Serving w) :
    Serving w' := by
  rcases hm with ht | ⟨t, hl, -, hd⟩ | ⟨t, hl, -, hd⟩
  · exact h.trim ht
  · obtain ⟨cs, rs, hr, -⟩ := retire_spec t w.db
    rw [hr] at hd
    exact h.of_eq hl (by rw [hd]) (by rw [hd]) (by rw [hd]) (by rw [hd])
  · exact h.of_eq hl (by rw [hd]; rfl) (by rw [hd]; rfl) (by rw [hd]; rfl) (by rw [hd]; rfl)

/-- The links an append makes leave the bodies. -/
theorem Append.relink_body (x : Append) (seq : ℕ) (e : Entry) : (x.relink seq e).body = e.body := by
  unfold Append.relink
  split
  · unfold Entry.link
    split <;> rfl
  · rfl

/-- The posting of a new row completes a complete index. -/
theorem Serving.append {k : ℕ} {x : Append} {w w' : World} (hc : Commits H k x w w')
    (h : Serving w) :
    Serving w' := by
  have hindex := hc.index
  unfold Indexes at hindex
  by_cases hk : w.fts = true ∧ w.db.indexedThrough ≥ 0
  · rw [if_pos hk] at hindex
    obtain ⟨hs, hi⟩ := hindex
    have hpost : w.db.Posted := by
      rcases h.sound with hm | ⟨-, hp⟩
      · omega
      · exact hp
    refine ⟨.inr ⟨by rw [hi, hc.effect.head], ?_⟩, fun hf => ?_⟩
    · intro p
      rw [hs, List.mem_append, hpost p, List.mem_singleton]
      constructor
      · rintro (⟨e, he, rfl⟩ | rfl)
        · refine ⟨x.relink (w.db.head + 1) e, hc.effect.mem_entries.mpr (.inl ⟨e, he, rfl⟩), ?_⟩
          rw [Append.relink_seq, Append.relink_body]
        · exact ⟨_, hc.effect.mem_entries.mpr (.inr rfl), rfl⟩
      · rintro ⟨e, he, rfl⟩
        rcases hc.effect.mem_entries.mp he with ⟨f, hf, rfl⟩ | rfl
        · refine .inl ⟨f, hf, ?_⟩
          rw [Append.relink_seq, Append.relink_body]
        · exact .inr rfl
    · rw [hc.later.fts, hk.1] at hf
      cases hf
  · rw [if_neg hk] at hindex
    obtain ⟨-, hi⟩ := hindex
    -- The index is not kept: either there is no full text search, or it was invalidated before.
    have hoff : w.db.indexedThrough = -1 := by
      rcases hf : w.fts with _ | _
      · exact h.off hf
      · rcases h.sound with hm | ⟨hm, -⟩
        · exact hm
        · exact absurd ⟨hf, by omega⟩ hk
    exact ⟨.inl (hi.trans hoff), fun _ => hi.trans hoff⟩

/-- **Every committed change keeps the index sound.** -/
theorem Serving.change {k : ℕ} {w w' : World} (hc : Change H k w w') (h : Serving w) :
    Serving w' := by
  rcases hc with hq | ⟨_, _, _, _, _, _, _, _, hl, _, _, _, _, _, hf⟩ | ⟨_, _, _, _, _, _,
    _, hl, hd⟩ |
    ⟨_, _, _, _, _, _, _, _, hl, hd⟩ | ⟨_, _, hb⟩ | ⟨_, _, ha⟩
  · rcases hq with hm | ⟨x, hx, -⟩ | ⟨_, _, _, hl, _, _, hd⟩ | ⟨_, _, hl, _, hd⟩ | ⟨_, _, _, _,
      _, hl, hd⟩
    · exact h.maint hm
    · exact h.append hx
    · exact h.of_eq hl (by rw [hd]) (by rw [hd]) (by rw [hd]) (by rw [hd])
    · exact h.of_eq hl (by rw [hd]; rfl) (by rw [hd]; rfl) (by rw [hd]; rfl) (by rw [hd]; rfl)
    · exact h.of_eq hl (by rw [hd]; rfl) (by rw [hd]; rfl) (by rw [hd]; rfl) (by rw [hd]; rfl)
  · obtain ⟨_, _, _, _, _, _, hd⟩ := hf.sizes
    exact h.of_eq hl (by rw [hd]; rfl) (by rw [hd]; rfl) (by rw [hd]; rfl) (by rw [hd]; rfl)
  · exact h.of_eq hl (by rw [hd]; rfl) (by rw [hd]; rfl) (by rw [hd]; rfl) (by rw [hd]; rfl)
  · exact h.of_eq hl (by rw [hd]; rfl) (by rw [hd]; rfl) (by rw [hd]; rfl) (by rw [hd]; rfl)
  · obtain ⟨_, -, hd⟩ := hb.effect
    exact h.of_eq hb.later (by rw [hd]; rfl) (by rw [hd]; rfl) (by rw [hd]; rfl) (by rw [hd]; rfl)
  · have hd := ha.effect
    exact h.of_eq ha.later (by rw [hd]; rfl) (by rw [hd]; rfl) (by rw [hd]; rfl) (by rw [hd]; rfl)

/-! ## Openings -/

/-- The number is reset, or nothing was committed. -/
theorem invalidate_inv {blocking : Bool} {w w' : World} {r : Except Exc Unit}
    (h : transaction H true blocking (do write H; execute Db.invalidate) w = (r, w')) :
    (Idle w w' ∧ ∃ e, r = .error e) ∨ (Later w w' ∧ w'.db = w.db.invalidate) := by
  rcases statement_inv h with ⟨hi, e, he, -⟩ | ⟨hl, hd, -⟩
  · exact .inl ⟨hi, e, he⟩
  · exact .inr ⟨hl, hd⟩

/-- A rebuild of the index leaves a serving store. -/
theorem rebuildIndex_serving {w w' : World} {r : Except Exc Unit} (hw : w.fts = true)
    (h : Serving w)
    (hr : rebuildIndex H w = (r, w')) : Serving w' := by
  -- Whether the rebuild commits or not, it leaves a sound index.
  have hstep {r1 : Except Exc Unit} {v : World}
      (h1 : transaction H true false (do write H; execute Db.reindex) w = (r1, v)) : Serving v := by
    rcases statement_inv h1 with ⟨hi, -⟩ | ⟨hl, hd, -⟩
    · exact h.idle hi
    · refine ⟨hd ▸ .inr ⟨rfl, posted_reindex w.db⟩, fun hf => ?_⟩
      rw [hl.fts, hw] at hf
      cases hf
  unfold rebuildIndex at hr
  rw [get_bind] at hr
  split at hr
  · cases hr
    exact h
  · rcases tryCatch_inv hr with ⟨_, h1, -⟩ | ⟨e, u, h1, h2⟩
    · exact hstep h1
    · have hu := hstep h1
      split at h2
      · cases h2
        exact hu
      · cases h2
        exact hu

/-- **Reconciling leaves a sound index that the process keeps.** -/
theorem reconcileIndex_serving {w w' : World} {r : Except Exc Unit} (h : w.db.IndexSound)
    (hr : reconcileIndex H w = (r, w')) : w'.db.IndexSound ∧ (r = .ok () → Serving w') := by
  unfold reconcileIndex at hr
  rw [get_bind] at hr
  have hinvalid {v : World} (hd : v.db = w.db.invalidate) : Serving v := by
    have hoff : v.db.indexedThrough = -1 := by rw [hd]; rfl
    exact ⟨.inl hoff, fun _ => hoff⟩
  split at hr
  · rcases invalidate_inv hr with ⟨hi, e, he⟩ | ⟨-, hd⟩
    · exact ⟨hi.db ▸ h, fun hok => by rw [he] at hok; cases hok⟩
    · exact ⟨(hinvalid hd).sound, fun _ => hinvalid hd⟩
  · rename_i hfts
    split at hr
    · cases hr
      exact ⟨h, fun _ => ⟨h, fun hf => absurd hf hfts⟩⟩
    · rcases bind_inv hr with ⟨e, h1, rfl⟩ | ⟨_, u, h1, h2⟩
      · rcases invalidate_inv h1 with ⟨hi, -⟩ | ⟨-, hd⟩
        · exact ⟨hi.db ▸ h, nofun⟩
        · exact ⟨(hinvalid hd).sound, nofun⟩
      · rcases invalidate_inv h1 with ⟨-, _, he⟩ | ⟨hl, hd⟩
        · cases he
        · have hu : u.fts = true := hl.fts.trans (Bool.eq_true_of_not_eq_false hfts)
          have hw' := rebuildIndex_serving hu (hinvalid hd) h2
          exact ⟨hw'.sound, fun _ => hw'⟩

/-- Opening the index leaves the content alone. -/
theorem openFts_db {w w' : World} {r : Except Exc Bool} (h : openFts H w = (r, w')) :
    w'.db = w.db := by
  unfold openFts at h
  have htx {r1 : Except Exc Unit} {v : World} (h1 : transaction H true false (write H) w
    = (r1, v)) :
      v.db = w.db := by
    rcases transaction_inv (Keeps.later keeps_write) h1 with ⟨hi, -⟩ | ⟨w1, _, w2, h2, h3, h4, -⟩
    · exact hi.db
    · rw [h4.db, (keeps_write.run h3).db, h2.db]
  rcases tryCatch_inv h with ⟨_, h1, -⟩ | ⟨e, u, h1, h2⟩
  · obtain ⟨_, v, h3, h4⟩ := bind_ok_inv h1
    cases h4
    exact htx h3
  · have hu : u.db = w.db := by
      rcases bind_inv h1 with ⟨_, h3, -⟩ | ⟨_, v, h3, h4⟩
      · exact htx h3
      · cases h4
    split at h2
    · cases h2
      exact hu
    · cases h2
      exact hu
    · cases h2
      exact hu

/-- **An opening serves a sound index, and one that fails leaves a sound store behind.** -/
theorem reopen_serving {fts : Bool} {w w' : World} {r : Except Exc Unit} (h : w.db.IndexSound)
    (hr : reopen H fts w = (r, w')) : w'.db.IndexSound ∧ (r = .ok () → Serving w') := by
  unfold reopen at hr
  rw [modify_bind] at hr
  have hopen {r1 : Except Exc Bool} {v : World}
      (h1 : openSearch H fts { w with blocked := none, expiredAt := 0, fts := false } = (r1, v)) :
      v.db = w.db := by
    unfold openSearch at h1
    split at h1
    · rw [openFts_db h1]
    · cases h1
      rfl
  rcases bind_inv hr with ⟨e, h1, rfl⟩ | ⟨usable, v, h1, h2⟩
  · rw [hopen h1]
    exact ⟨h, nofun⟩
  · rw [modify_bind] at h2
    refine reconcileIndex_serving ?_ h2
    rw [hopen h1]
    exact h

/-! ## Service runs -/

/-- The opening returned a store. -/
def Event.opened (e : Event H) : Bool :=
  match e.result with
  | .ok _ => true
  | .error _ => false

/-- The runs in which requests are handled by a process whose opening returned and which has not
died since; the last component tells whether such a process is there. -/
inductive Serviced (H : Host) (start : World) : List (Event H) → World → Bool → Prop
  | nil : Serviced H start [] start false
  | opens {past : List (Event H)} {w : World} {up : Bool} (h : Serviced H start past w up)
      (e : Event H) (he : e.before = w) (fts : Bool) (ha : e.act = .restart fts) :
      Serviced H start (past ++ [e]) e.after e.opened
  | acts {past : List (Event H)} {w : World} (h : Serviced H start past w true) (e : Event H)
      (he : e.before = w) (ha : ∀ fts, e.act ≠ .restart fts) :
      Serviced H start (past ++ [e]) e.after !e.died

/-- A serviced run is a run. -/
theorem Serviced.run {start w : World} {past : List (Event H)} {up : Bool}
    (h : Serviced H start past w up) : Run H start past w := by
  induction h with
  | nil => exact .nil
  | opens _ e he fts ha ih => exact .snoc ih e he
  | acts _ e he ha ih => exact .snoc ih e he

/-- An event that is no restart is a chain of committed changes. -/
theorem Event.changes {e : Event H} (ha : ∀ fts, e.act ≠ .restart fts) :
    Changes H e.before.tick e.before e.after := by
  obtain ⟨act, before, result, after, hp⟩ := e
  rcases act with ⟨s, r, pid⟩ | _ | _ | fts
  · obtain ⟨res, h1, -⟩ := request_inv hp
    exact command_changes h1
  · rcases bind_inv hp with ⟨_, h1, -⟩ | ⟨_, u, h1, h2⟩
    · exact (expire_maint h1).quiets.changes
    · cases h2
      exact (expire_maint h1).quiets.changes
  · rcases bind_inv hp with ⟨_, h1, -⟩ | ⟨_, u, h1, h2⟩
    · exact (reclaim_maint h1).quiets.changes
    · cases h2
      exact (reclaim_maint h1).quiets.changes
  · exact absurd rfl (ha fts)

/-- The index is sound throughout, and a process that is there keeps it so. -/
theorem Serviced.serving {storeId : Text} {pages : ℕ} {fts : Bool} {past : List (Event H)}
    {w : World}
    {up : Bool} (h : Serviced H (World.initial storeId pages fts) past w up) :
    w.db.IndexSound ∧ (up = true → Serving w) := by
  induction h with
  | nil => exact ⟨.initial storeId, nofun⟩
  | opens _ e he fts ha ih =>
    subst he
    have hp := e.performed
    rw [ha] at hp
    rcases bind_inv hp with ⟨x, h1, hr⟩ | ⟨_, u, h1, h2⟩
    · refine ⟨(reopen_serving ih.1 h1).1, fun hup => ?_⟩
      rw [Event.opened, hr] at hup
      cases hup
    · obtain ⟨-, rfl⟩ := Prod.mk.inj h2
      obtain ⟨hs, hserve⟩ := reopen_serving ih.1 h1
      exact ⟨hs, fun _ => hserve rfl⟩
  | acts _ e he ha ih =>
    subst he
    have hserve : Serving e.after :=
      keeps_of_reflTransGen (I := Serving) (fun _ _ => Serving.change) (Event.changes ha) (ih.2 rfl)
    exact ⟨hserve.sound, fun _ => hserve⟩

/-- **The search index is sound.** In every run of processes on one store, opened with and without
full text search, with appends, expiry, reclamation, rebuilds that are skipped or rolled back, and
deaths of the process at every commit: the recorded number is `-1` or the head, and whenever the
index is usable its postings are exactly the stored rows. -/
theorem search_index_sound {storeId : Text} {pages : ℕ} {fts : Bool} {past : List (Event H)}
    {w : World}
    {up : Bool} (h : Serviced H (World.initial storeId pages fts) past w up) :
    (w.db.indexedThrough = -1 ∨ w.db.indexedThrough = w.db.head) ∧
      (w.indexUsable = true → ∀ p, p ∈ w.db.search ↔ ∃ e ∈ w.db.entries, p = (e.seq, e.body)) := by
  obtain ⟨hs, -⟩ := h.serving
  constructor
  · rcases hs with hs | ⟨hs, -⟩
    · exact .inl hs
    · exact .inr hs
  · intro hu
    simp only [World.indexUsable, Bool.and_eq_true, beq_iff_eq] at hu
    exact hs.posted hu.2

/-- The event of an act. -/
def performed (w : World) (a : Act) : Event Host.steady :=
  ⟨a, w, (a.perform Host.steady w).1, (a.perform Host.steady w).2, Prod.mk.eta.symm⟩

/-- A restart of the steady host continues a serviced run. -/
theorem Serviced.open {start w : World} {past : List (Event Host.steady)} {up : Bool}
    (h : Serviced Host.steady start past w up) (fts : Bool)
    (ho : (performed w (.restart fts)).opened = true) :
    Serviced Host.steady start (past ++ [performed w (.restart fts)])
    (performed w (.restart fts)).after
      true :=
  ho ▸ .opens h (performed w (.restart fts)) rfl fts rfl

/-- A note on the steady host continues a serviced run. -/
theorem Serviced.note {start w : World} {past : List (Event Host.steady)}
    (h : Serviced Host.steady start past w true) (fields : Object)
    (hd : (performed w (ask (lit "note") (lit "a") fields)).died = false) :
    Serviced Host.steady start (past ++ [performed w (ask (lit "note") (lit "a") fields)])
      (performed w (ask (lit "note") (lit "a") fields)).after true := by
  have h1 := Serviced.acts h (performed w (ask (lit "note") (lit "a") fields)) rfl nofun
  rwa [hd] at h1

/-- A store written with the index, then without it, then opened with it again: the number is reset
in between, and the rebuilt index holds both rows. -/
theorem search_index_sound_reopened :
    let fields (t : String) : Object :=
  [(lit "type", .str (lit "finding")), (lit "body", .str (lit t))]
    let e1 := performed (World.initial (lit "store") 10 false) (.restart true)
    let e2 := performed e1.after (ask (lit "note") (lit "a") (fields "x"))
    let e3 := performed e2.after (.restart false)
    let e4 := performed e3.after (ask (lit "note") (lit "a") (fields "y"))
    let e5 := performed e4.after (.restart true)
    e2.after.db.indexedThrough = 1 ∧ e4.after.db.indexedThrough = -1 ∧ e5.after.indexUsable = true ∧
      ∀ p, p ∈ e5.after.db.search ↔ ∃ e ∈ e5.after.db.entries, p = (e.seq, e.body) := by
  intro fields e1 e2 e3 e4 e5
  -- The five steps are evaluated once.
  obtain ⟨hopen1, hlives2, hopen3, hlives4, hopen5, hthrough2, hthrough4, husable⟩ :
      e1.opened = true ∧ e2.died = false ∧ e3.opened = true ∧ e4.died = false ∧
      e5.opened = true ∧ e2.after.db.indexedThrough = 1 ∧ e4.after.db.indexedThrough = -1 ∧
      e5.after.indexUsable = true := by
    decide +kernel
  have h1 : Serviced Host.steady (World.initial (lit "store") 10 false) [e1] e1.after true :=
    Serviced.open .nil true hopen1
  have h2 : Serviced Host.steady _ [e1, e2] e2.after true := h1.note (fields "x") hlives2
  have h3 : Serviced Host.steady _ [e1, e2, e3] e3.after true := h2.open false hopen3
  have h4 : Serviced Host.steady _ [e1, e2, e3, e4] e4.after true := h3.note (fields "y") hlives4
  have h5 : Serviced Host.steady _ [e1, e2, e3, e4, e5] e5.after true := h4.open true hopen5
  exact ⟨hthrough2, hthrough4, husable, (search_index_sound h5).2 husable⟩

end PeerBridge.Memory
