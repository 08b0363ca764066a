import PeerBridge.Memory.Paging

/-!
# No entry is skipped by an acknowledged cursor

A cursor moves in two ways: to the head of a snapshot that was paged to its end, or to a sequence
that a delta reached. `Covers` follows both against the history of the run. Below its cursor every
sequence was delivered, or was no member of an acknowledged snapshot for one of the reasons a freeze
leaves entries out (`LeftOut`); between the cursor and the issued mark every sequence was in a
delta.

`acknowledged_delivered` is the result over all runs, with the second half that no event moves the
cursor of a registered consumer back.

Source: `memory.py`, `MemoryCommands.sync`, `MemoryCommands.ack`, `freeze`, `Store.expire`.
-/

namespace PeerBridge.Memory

open Py Relational Effects Effects.Prog Relation

variable {H : Host}

/-! ## What a reader was given -/

/-- The run answered a `sync` of `consumer` with a delta that contains the sequence `n`. -/
def InDelta (past : List (Event H)) (consumer : Text) (n : ℕ) : Prop :=
  ∃ e ∈ past, ∃ r entries cursor next head more, Asks e.act (lit "sync") r consumer ∧
    e.result = .ok (some (.delta entries cursor next head more)) ∧ n ∈ entries.map Entry.seq

/-- The run accepted the acknowledgement of the snapshot `sid`, frozen at `head`, by `consumer`. -/
def AckedSnapshot (past : List (Event H)) (consumer sid : Text) (head : ℕ) : Prop :=
  ∃ e ∈ past, ∃ r, Asks e.act (lit "ack") r consumer ∧
    e.result = .ok (some (.ackedSnapshot head sid false))

/-- Why the freeze that read the content at `read` left the sequence `n` out. -/
inductive LeftOut (H : Host) (read : World) (n : ℕ) : Prop
  | removed (h : ∀ e ∈ read.db.entries, e.seq ≠ n)
  | replaced (e : Entry) (he : e ∈ read.db.entries) (hn : e.seq = n) (k : ℕ)
      (hk : e.supersededBy = some k) (hle : k ≤ read.db.head)
  | revoked (e : Entry) (he : e ∈ read.db.entries) (hn : e.seq = n) (k : ℕ)
      (hk : e.revokedBy = some k) (hle : k ≤ read.db.head)
  | expired (e : Entry) (he : e ∈ read.db.entries) (hn : e.seq = n)
      (hx : e.expires.unexpired (H.clock read.tick) = false)
  | capped (e : Entry) (he : e ∈ read.db.entries) (hn : e.seq = n) (cap : ℕ)
      (hc : e.kind.tail = some cap)
      (hle : cap ≤ (read.db.newer (H.clock read.tick) e.kind e.seq).length)

/-- The sequence `n` was given to `consumer`, or an acknowledged snapshot had a reason to leave it
out. -/
inductive Covered (past : List (Event H)) (consumer : Text) (n : ℕ) : Prop
  | delta (h : InDelta past consumer n)
  | page (sid : Text) (head : ℕ) (hack : AckedSnapshot past consumer sid head)
      (h : InPage past consumer sid n)
  | leftOut (sid : Text) (read : World) (hack : AckedSnapshot past consumer sid read.db.head)
      (hle : n ≤ read.db.head) (hf : ∃ e ∈ past, FrozenAt e consumer sid read)
      (h : LeftOut H read n)

section mono

variable {past past' : List (Event H)} {consumer : Text} {n : ℕ}

/-- What was in a delta stays so in a longer past. -/
theorem InDelta.mono (hp : past ⊆ past') (h : InDelta past consumer n) :
    InDelta past' consumer n := by
  obtain ⟨e, he, h⟩ := h
  exact ⟨e, hp he, h⟩

/-- An acknowledged snapshot stays so in a longer past. -/
theorem AckedSnapshot.mono (hp : past ⊆ past') {sid : Text} {head : ℕ}
    (h : AckedSnapshot past consumer sid head) : AckedSnapshot past' consumer sid head := by
  obtain ⟨e, he, h⟩ := h
  exact ⟨e, hp he, h⟩

/-- What is covered stays so in a longer past. -/
theorem Covered.mono (hp : past ⊆ past') (h : Covered past consumer n) :
    Covered past' consumer n := by
  rcases h with h | ⟨sid, head, hack, h⟩ | ⟨sid, read, hack, hle, ⟨e, he, hf⟩, h⟩
  · exact .delta (h.mono hp)
  · exact .page sid head (hack.mono hp) (h.mono hp)
  · exact .leftOut sid read (hack.mono hp) hle ⟨e, hp he, hf⟩ h

end mono

/-- A sequence is a member of a freeze, or there is a reason that it is not. -/
theorem member_or_leftOut (H : Host) (read : World) (n : ℕ) (hg : Gapless read.db) :
    (∃ e ∈ read.members H, e.seq = n) ∨ LeftOut H read n := by
  by_cases hex : ∃ e ∈ read.db.entries, e.seq = n
  swap
  · refine .inr (.removed fun e he hn => hex ⟨e, he, hn⟩)
  obtain ⟨e, he, hn⟩ := hex
  by_cases hlive : e.liveAt read.db.head (H.clock read.tick) = true
  · by_cases hcap : ∀ cap, e.kind.tail = some cap →
        (read.db.newer (H.clock read.tick) e.kind e.seq).length < cap
    · exact .inl ⟨e, mem_frozen.mpr ⟨he, hlive, hcap⟩, hn⟩
    · push Not at hcap
      obtain ⟨cap, hc, hle⟩ := hcap
      exact .inr (.capped e he hn cap hc hle)
  · have hb : e.seq ≤ read.db.head := hg.bound e he
    right
    rcases hs : e.supersededBy with _ | k
    · rcases hr : e.revokedBy with _ | k
      · refine .expired e he hn ?_
        simpa [Entry.liveAt, hs, hr, hb] using hlive
      · by_cases hk : k ≤ read.db.head
        · exact .revoked e he hn k hr hk
        · refine .expired e he hn ?_
          simpa [Entry.liveAt, hs, hr, hb, not_le.mp hk] using hlive
    · by_cases hk : k ≤ read.db.head
      · exact .replaced e he hn k hs hk
      · rcases hr : e.revokedBy with _ | j
        · refine .expired e he hn ?_
          simpa [Entry.liveAt, hs, hr, hb, not_le.mp hk] using hlive
        · by_cases hj : j ≤ read.db.head
          · exact .revoked e he hn j hr hj
          · refine .expired e he hn ?_
            simpa [Entry.liveAt, hs, hr, hb, not_le.mp hk, not_le.mp hj] using hlive

/-! ## The invariant -/

/-- The cursors of a content against the history of the run. -/
structure Covers (past : List (Event H)) (w : World) : Prop where
  cursors : ∀ c ∈ w.db.cursors, ∀ n, 0 < n → n ≤ c.seq → Covered past c.consumer n
  issued : ∀ c ∈ w.db.cursors, ∀ n, c.seq < n → n ≤ c.issued → InDelta past c.consumer n

/-- Nothing is behind a cursor of a new store. -/
theorem Covers.initial (storeId : Text) (pages : ℕ) (fts : Bool) :
    Covers ([] : List (Event H)) (World.initial storeId pages fts) where
  cursors c hc := absurd hc (Table.not_mem_empty c)
  issued c hc := absurd hc (Table.not_mem_empty c)

/-- What a past covers a longer one does. -/
theorem Covers.mono {past past' : List (Event H)} (hp : past ⊆ past') {w : World}
    (h : Covers past w) : Covers past' w where
  cursors c hc n h0 hn := (h.cursors c hc n h0 hn).mono hp
  issued c hc n h1 h2 := (h.issued c hc n h1 h2).mono hp

section step

variable {past : List (Event H)} {w w' : World}

/-- A stretch that moves no cursor stays covered. -/
theorem Covers.unmoved (hu : Unmoved w.db w'.db) (h : Covers past w) : Covers past w' := by
  refine ⟨fun c hc n h0 hn => ?_, fun c hc n h1 h2 => ?_⟩
  · obtain ⟨d, hd, hcon, hseq, -⟩ := hu c hc
    rw [hcon]
    exact h.cursors d hd n h0 (hseq ▸ hn)
  · obtain ⟨d, hd, hcon, hseq, hiss⟩ := hu c hc
    rw [hcon]
    exact h.issued d hd n (hseq ▸ h1) (hiss ▸ h2)

/-- A quiet step stays covered. -/
theorem Covers.quiet {k : ℕ} (hq : Quiet H k w w') (h : Covers past w) : Covers past w' := by
  cases hq with
  | maint hm => exact h.unmoved (.of_subset hm.cursors)
  | append x ha => exact h.unmoved (.of_subset fun c hc => ha.effect.cursors ▸ hc)
  | register consumer now table hl ht hi hd =>
    have hmem : ∀ c ∈ w'.db.cursors, c ∈ w.db.cursors ∨ c = .fresh consumer now := by
      intro c hc
      rw [hd] at hc
      exact (Table.mem_insert? hi).mp hc
    -- A new cursor is at zero, with nothing below it and nothing issued.
    refine ⟨fun c hc n h0 hn => ?_, fun c hc n h1 h2 => ?_⟩
    · rcases hmem c hc with hc | rfl
      · exact h.cursors c hc n h0 hn
      · exact absurd hn (not_le.mpr h0)
    · rcases hmem c hc with hc | rfl
      · exact h.issued c hc n h1 h2
      · exact absurd h2 (not_le.mpr h1)
  | touch consumer now hl ht hd =>
    refine h.unmoved ?_
    rw [hd]
    exact .of_update (fun _ => by rfl) rfl (fun _ => rfl) fun _ => rfl
  | clear c sid hc hs hu hl hd =>
    refine h.unmoved ?_
    rw [hd]
    exact .of_update (fun _ => by rfl) rfl (fun _ => rfl) fun _ => rfl

/-- Quiet steps stay covered. -/
theorem Covers.quiets {k : ℕ} (hq : Quiets H k w w') (h : Covers past w) : Covers past w' :=
  keeps_of_reflTransGen (I := Covers past) (fun _ _ => Covers.quiet) hq h

/-- A stretch that leaves the content alone stays covered. -/
theorem Covers.idle (hi : Idle w w') (h : Covers past w) : Covers past w' :=
  h.quiets (k := 0) (.idle hi)

/-- A freeze moves no cursor. -/
theorem Froze.unmoved {consumer sid : Text} {read : World} {created updated now : ℚ} {db db' : Db}
    (hf : Froze H consumer sid read created updated now db db') : Unmoved db db' := by
  obtain ⟨sizes, -, snapshots, items, -, -, rfl⟩ := hf.sizes
  exact .of_update (fun _ => by rfl) rfl (fun _ => rfl) fun _ => rfl

/-- A page of a snapshot moves no cursor. -/
theorem Served.unmoved {consumer : Text} {req : Object} {x : Snapshot} {token : ℤ}
    {page : List Item} {more : Bool} {r : Except Exc Reply}
    (hs : Served H consumer req x token page more w w' r) : Unmoved w.db w'.db := by
  obtain ⟨-, hi, -⟩ | ⟨-, -, hd, -⟩ := hs.effect
  · rw [hi.db]
    exact .refl _
  · rw [hd]
    exact .of_subset fun _ hc => hc

/-- A delta covers what it issues. -/
theorem Covers.delivered {e : Event H} (he : e ∈ past) {consumer : Text} {c : Cursor}
    {entries : List Entry} {more : Bool} {req : Object} {r : Except Exc Reply}
    (ha : Asks e.act (lit "sync") req consumer) (hres : e.result = r.map some)
    (hk : r ≠ .error .killed) (hg : Gapless w.db) (hd : Delivered consumer c entries more w w' r)
    (h : Covers past w) : Covers past w' := by
  obtain ⟨-, hi, -⟩ | ⟨hn, -, hdb, hr | hr⟩ := hd.effect
  · exact h.idle hi
  swap
  · exact absurd hr hk
  have hmem : ∀ d' ∈ w'.db.cursors, ∃ d ∈ w.db.cursors, d'.consumer = d.consumer ∧ d'.seq = d.seq ∧
      (d'.issued = d.issued ∨ (d = c ∧ d'.issued = deltaEnd c entries)) := by
    intro d' hd'
    rw [hdb, Db.issueDelta, Table.mem_update] at hd'
    obtain ⟨d, hdm, rfl⟩ := hd'
    refine ⟨d, hdm, ?_⟩
    split
    · rename_i hcon
      exact ⟨rfl, rfl, .inr ⟨Table.eq_of_key hdm hd.mem (by simpa using hcon), rfl⟩⟩
    · exact ⟨rfl, rfl, .inl rfl⟩
  refine ⟨fun d' hd' n h0 hle => ?_, fun d' hd' n h1 h2 => ?_⟩
  · obtain ⟨d, hdm, hcon, hseq, -⟩ := hmem d' hd'
    rw [hcon]
    exact h.cursors d hdm n h0 (hseq ▸ hle)
  · obtain ⟨d, hdm, hcon, hseq, hiss | ⟨rfl, hiss⟩⟩ := hmem d' hd'
    · rw [hcon]
      exact h.issued d hdm n (hseq ▸ h1) (hiss ▸ h2)
    · obtain ⟨hrange, hend, -, -⟩ := hg.delta hd.mode hd.bounded
      refine ⟨e, he, req, entries, _, _, _, _, ?_, by rw [hres, hr]; rfl, ?_⟩
      · rw [hcon, hd.own]
        exact ha
      · rw [hrange, List.mem_range'_1]
        rw [hseq] at h1
        rw [hiss, hend] at h2
        omega

/-- The acknowledgement of a snapshot covers everything up to its head. -/
theorem Covers.ackSnapshot {k : ℕ} {e : Event H} (he : e ∈ past) {consumer : Text} {c : Cursor}
    {s : Snapshot} {req : Object} (ha : Asks e.act (lit "ack") req consumer)
    (hres : e.result = .ok (some (.ackedSnapshot s.head s.id false))) (hc : c.consumer = consumer)
    (hg : Gapless w.db) (hreads : ∀ e ∈ past, ∀ sid read, FrozenAt e consumer sid read →
      Gapless read.db) (hp : Paged past w) (hb : Bootstraps H k c s w w') (h : Covers past w) :
    Covers past w' := by
  obtain ⟨acked, -, hdb⟩ := hb.effect
  have hiss : c.issued ≤ s.head := hg.opened c hb.cursor s hb.snapshot hb.opened
  have hown : s.consumer = consumer := hb.own.trans hc
  -- Up to the head of the snapshot a sequence was in a page, or was left out by the freeze.
  have hcov : ∀ n, n ≤ s.head → Covered past consumer n := by
    intro n hn
    obtain ⟨read, hh⟩ := hp.snapshots s hb.snapshot
    obtain ⟨f, hf, hat⟩ := hh.frozen
    rw [hown] at hat
    have hack : AckedSnapshot past consumer s.id s.head := ⟨e, he, req, ha, hres⟩
    rcases member_or_leftOut H read n (hreads f hf _ _ hat) with ⟨m, hm, rfl⟩ | hout
    · exact .page s.id s.head hack (hown ▸ hh.inPage hb.complete hm)
    · rw [hh.holds.head] at hack hn
      exact .leftOut s.id read hack hn ⟨f, hf, hat⟩ hout
  have hmem : ∀ d' ∈ w'.db.cursors, (d'.consumer = consumer ∧ d'.seq = s.head ∧
      d'.issued = max s.head c.issued) ∨ d' ∈ w.db.cursors := by
    intro d' hd'
    rw [hdb, Db.bootstrap, Table.mem_update] at hd'
    obtain ⟨d, hdm, rfl⟩ := hd'
    split
    · rename_i hcon
      exact .inl ⟨((by simpa using hcon : d.consumer = c.consumer)).trans hc, rfl, rfl⟩
    · exact .inr hdm
  refine ⟨fun d hd n h0 hn => ?_, fun d hd n h1 h2 => ?_⟩
  · rcases hmem d hd with ⟨hcon, hseq, -⟩ | hd
    · rw [hcon]
      exact hcov n (hseq ▸ hn)
    · exact h.cursors d hd n h0 hn
  · rcases hmem d hd with ⟨hcon, hseq, hissued⟩ | hd
    · rw [hissued, max_eq_left hiss] at h2
      omega
    · exact h.issued d hd n h1 h2

/-- The acknowledgement of a sequence stays within what deltas covered. -/
theorem Covers.advance {c : Cursor} {seq : ℕ} (ha : Advances c seq w w') (h : Covers past w) :
    Covers past w' := by
  have hmem : ∀ d' ∈ w'.db.cursors, (d'.consumer = c.consumer ∧ d'.seq = seq ∧
      d'.issued = c.issued) ∨ d' ∈ w.db.cursors := by
    intro d' hd'
    rw [ha.effect, Db.advance, Table.mem_update] at hd'
    obtain ⟨d, hdm, rfl⟩ := hd'
    split
    · rename_i hcon
      obtain rfl := Table.eq_of_key hdm ha.cursor (by simpa using hcon)
      exact .inl ⟨rfl, rfl, rfl⟩
    · exact .inr hdm
  refine ⟨fun d hd n h0 hn => ?_, fun d hd n h1 h2 => ?_⟩
  · rcases hmem d hd with ⟨hcon, hseq, -⟩ | hd
    · rw [hcon]
      rw [hseq] at hn
      by_cases hold : n ≤ c.seq
      · exact h.cursors c ha.cursor n h0 hold
      · exact .delta (h.issued c ha.cursor n (not_le.mp hold) (hn.trans ha.issued))
    · exact h.cursors d hd n h0 hn
  · rcases hmem d hd with ⟨hcon, hseq, hissued⟩ | hd
    · rw [hcon]
      rw [hissued] at h2
      exact h.issued c ha.cursor n (by have := ha.le; omega) h2
    · exact h.issued d hd n h1 h2

end step

/-! ## Runs -/

/-- **One event keeps the coverage.** -/
theorem Covers.event {past : List (Event H)} {e : Event H} (he : e ∈ past)
    (hk : e.died = false) (hg : Gapless e.before.db)
    (hreads : ∀ f ∈ past, ∀ consumer sid read, FrozenAt f consumer sid read → Gapless read.db)
    (hp : Paged past e.before) (h : Covers past e.before) : Covers past e.after := by
  have hkill {res : Except Exc Reply} (hres : e.result = res.map some) : res ≠ .error .killed := by
    rintro rfl
    exact Event.ne_killed hk hres
  cases e.is with
  | quiet hq hstay hr => exact h.quiets hq
  | restart hr =>
    obtain ⟨s, i, hd⟩ := hr.db
    refine h.unmoved (.of_subset fun c hc => ?_)
    rwa [hd] at hc
  | sync r u v s res ha hu hb hv hstay hans hres =>
    have hcv := h.quiets hv
    cases hans with
    | refused hm => exact hcv.quiets hm.quiets
    | page z x token page more hs hz hserved => exact (hcv.idle hz).unmoved hserved.unmoved
    | frozen z y sid t1 t2 t3 hs hdue hnone hm hl hord h1 h2 h3 hf hend =>
      have hy := (hcv.quiets hm.quiets).unmoved hf.unmoved
      obtain ⟨-, rfl⟩ | ⟨-, ⟨hi, -⟩ | ⟨q, x, token, page, more, hq, -, hserved⟩⟩ := hend
      · exact hy
      · exact hy.idle hi
      · exact (hy.idle hq).unmoved hserved.unmoved
    | delta c entries more hs hdue hd =>
      exact hcv.delivered he ha hres (hkill hres) (hg.changes hv.changes) hd
  | ack r u consumer res ha hu hstay hack hres =>
    have hcu := h.quiets hu
    cases hack with
    | refused hi => exact hcu.idle hi
    | replayed s hi => exact hcu.idle hi
    | snapshot c s hc hb hr =>
      rcases hr with rfl | hr
      · exact hcu.ackSnapshot he ha hres hc (hg.changes hu.changes)
          (fun f hf sid read => hreads f hf consumer sid read) (hp.quiets hu) hb
      · exact absurd hr (hkill hres)
    | ignored seq hi => exact hcu.idle hi
    | through c seq hc hadv => exact hcu.advance hadv

/-- Over every run the cursors are covered. -/
theorem Run.covers {storeId : Text} {pages : ℕ} {fts : Bool} {past : List (Event H)} {w : World}
    (h : Run H (World.initial storeId pages fts) past w)
    (hk : ∀ e ∈ past, e.died = false) : Covers past w := by
  induction h with
  | nil => exact .initial storeId pages fts
  | @snoc past v h e he ih =>
    have hprev : ∀ x ∈ past, x.died = false :=
      fun x hx => hk x (List.mem_append_left _ hx)
    have hmem : e ∈ past ++ [e] := List.mem_append_right _ (List.mem_singleton.mpr rfl)
    have hsub : past ⊆ past ++ [e] := List.subset_append_left _ _
    have hinit : Gapless (World.initial storeId pages fts).db := Gapless.initial storeId
    have hreads : ∀ f ∈ past ++ [e], ∀ consumer sid read, FrozenAt f consumer sid read →
        Gapless read.db := by
      intro f hf consumer sid read hat
      obtain ⟨earlier, -, hrun⟩ := (Run.snoc h e he).before hf
      exact (hrun.gapless hinit).changes hat.quiets.changes
    subst he
    exact ((ih hprev).mono hsub).event hmem (hk e hmem) (h.gapless hinit) hreads
      ((h.paged hprev).mono hsub)

/-- An event does not move the cursor of a consumer back. -/
theorem Event.cursor_le {e : Event H} (hg : Gapless e.before.db) {c c' : Cursor}
    (hc : c ∈ e.before.db.cursors) (hc' : c' ∈ e.after.db.cursors)
    (hcc : c.consumer = c'.consumer) :
    c.seq ≤ c'.seq := by
  cases e.is with
  | quiet hq hstay hr => exact (hstay c hc c' hc' hcc).le
  | restart hr =>
    obtain ⟨s, i, hd⟩ := hr.db
    rw [hd] at hc'
    rw [Table.eq_of_key hc hc' hcc]
  | sync r u v s res ha hu hb hv hstay hans hres =>
    suffices hun : ∀ d' ∈ e.after.db.cursors, ∃ d ∈ v.db.cursors, d'.consumer = d.consumer ∧
        d'.seq = d.seq by
      obtain ⟨d, hd, h1, h2⟩ := hun c' hc'
      exact (hstay c hc d hd (hcc.trans h1)).le.trans h2.ge
    have hmoved (h : Unmoved v.db e.after.db) : ∀ d' ∈ e.after.db.cursors, ∃ d ∈ v.db.cursors,
        d'.consumer = d.consumer ∧ d'.seq = d.seq := by
      intro d' hd'
      obtain ⟨d, hd, h1, h2, -⟩ := h d' hd'
      exact ⟨d, hd, h1, h2⟩
    cases hans with
    | refused hm => exact hmoved (.of_subset hm.cursors)
    | page z x token page more hs hz hserved => exact hmoved (hz.db ▸ hserved.unmoved)
    | frozen z y sid t1 t2 t3 hs hdue hnone hm hl hord h1 h2 h3 hf hend =>
      have hy : Unmoved v.db y.db := (Unmoved.of_subset hm.cursors).trans hf.unmoved
      obtain ⟨-, heq⟩ | ⟨-, ⟨hi, -⟩ | ⟨q, x, token, page, more, hq, -, hserved⟩⟩ := hend
      · exact hmoved (heq ▸ hy)
      · exact hmoved (hi.db ▸ hy)
      · exact hmoved (hy.trans (hq.db ▸ hserved.unmoved))
    | delta d entries more hs hdue hd =>
      obtain ⟨-, hi, -⟩ | ⟨-, -, hdb, -⟩ := hd.effect
      · exact hmoved (hi.db ▸ .refl _)
      · intro x hx
        rw [hdb, Db.issueDelta, Table.mem_update] at hx
        obtain ⟨y, hy, rfl⟩ := hx
        refine ⟨y, hy, ?_⟩
        split <;> exact ⟨rfl, rfl⟩
  | ack r u consumer res ha hu hstay hack hres =>
    have hgu := hg.changes hu.changes
    suffices hge : ∀ d' ∈ e.after.db.cursors, ∃ d ∈ u.db.cursors, d'.consumer = d.consumer ∧
        d.seq ≤ d'.seq by
      obtain ⟨d, hd, h1, h2⟩ := hge c' hc'
      exact (hstay c hc d hd (hcc.trans h1)).le.trans h2
    have hidle (hi : Idle u e.after) : ∀ d' ∈ e.after.db.cursors, ∃ d ∈ u.db.cursors,
        d'.consumer = d.consumer ∧ d.seq ≤ d'.seq :=
      fun d hd => ⟨d, hi.db ▸ hd, rfl, le_rfl⟩
    cases hack with
    | refused hi => exact hidle hi
    | replayed s hi => exact hidle hi
    | ignored seq hi => exact hidle hi
    | snapshot d s hd hb hr =>
      obtain ⟨acked, -, hdb⟩ := hb.effect
      intro x hx
      rw [hdb, Db.bootstrap, Table.mem_update] at hx
      obtain ⟨y, hy, rfl⟩ := hx
      refine ⟨y, hy, ?_⟩
      split
      · rename_i hcon
        obtain rfl := Table.eq_of_key hy hb.cursor (by simpa using hcon)
        exact ⟨rfl, (hgu.cursors y hy).1.trans (hgu.opened y hy s hb.snapshot hb.opened)⟩
      · exact ⟨rfl, le_rfl⟩
    | through d seq hd hadv =>
      intro x hx
      rw [hadv.effect, Db.advance, Table.mem_update] at hx
      obtain ⟨y, hy, rfl⟩ := hx
      refine ⟨y, hy, ?_⟩
      split
      · rename_i hcon
        obtain rfl := Table.eq_of_key hy hadv.cursor (by simpa using hcon)
        exact ⟨rfl, hadv.le⟩
      · exact ⟨rfl, le_rfl⟩

/-- **No entry is skipped by an acknowledged cursor.** At every moment of every run in which no
process died, every sequence up to a consumer's cursor was in a delta reply to it or in a page reply
of a snapshot it acknowledged, or lies at or below the head of a snapshot it acknowledged and was at
its freeze removed, replaced, revoked, expired, or beyond the cap of its type. No event moves the
cursor of a registered consumer back. -/
theorem acknowledged_delivered {storeId : Text} {pages : ℕ} {fts : Bool} {past : List (Event H)}
    {w : World} (h : Run H (World.initial storeId pages fts) past w)
    (hk : ∀ e ∈ past, e.died = false) :
    (∀ c ∈ w.db.cursors, ∀ n, 0 < n → n ≤ c.seq → Covered past c.consumer n) ∧
      ∀ e ∈ past, ∀ c ∈ e.before.db.cursors, ∀ c' ∈ e.after.db.cursors,
        c.consumer = c'.consumer → c.seq ≤ c'.seq := by
  refine ⟨(h.covers hk).cursors, fun e he c hc c' hc' hcc => ?_⟩
  obtain ⟨earlier, -, hrun⟩ := h.before he
  exact e.cursor_le (hrun.gapless (Gapless.initial storeId)) hc hc' hcc

/-- One reader from its first snapshot to the acknowledgement of a delta. -/
def firstAcks : List Act :=
  [ask (lit "note") (lit "a") [(lit "type", .str (lit "finding")), (lit "body", .str (lit "x"))],
    ask (lit "sync") (lit "b") [],
    ask (lit "ack") (lit "b") [(lit "snapshot_id", .str (lit "snapshot-29"))],
    ask (lit "note") (lit "a") [(lit "type", .str (lit "finding")), (lit "body", .str (lit "y"))],
    ask (lit "sync") (lit "b") [],
    ask (lit "ack") (lit "b") [(lit "through", .int 2)]]

/-- The run of a reader that acknowledged a snapshot and then a delta: both entries below its cursor
are covered. -/
theorem acknowledged_delivered_firstAcks :
    let run := play Host.steady (World.initial (lit "store") 10 true) firstAcks
    (∀ e ∈ run.1, e.died = false) ∧
      ∃ c ∈ run.2.db.cursors, c.seq = 2 ∧ Covered run.1 c.consumer 1
      ∧ Covered run.1 c.consumer 2 := by
  obtain ⟨hk, hseq⟩ :
      ((play Host.steady (World.initial (lit "store") 10 true) firstAcks).1.all
        fun e => !e.died) = true ∧
      ((play Host.steady (World.initial (lit "store") 10 true) firstAcks).2.db.cursors.rows.map
        Cursor.seq) = [2] := by decide +kernel
  have hk' : ∀ e ∈ (play Host.steady (World.initial (lit "store") 10 true) firstAcks).1,
      e.died = false := by simpa using hk
  obtain ⟨c, hc, h2⟩ := List.mem_map.mp (hseq ▸ List.mem_singleton.mpr rfl)
  have hcov := (acknowledged_delivered (run_play _ _) hk').1 c hc
  exact ⟨hk', c, hc, h2, hcov 1 (by decide) (by omega), hcov 2 (by decide) (by omega)⟩

end PeerBridge.Memory
