import PeerBridge.Memory.Accounting
import PeerBridge.Memory.Blocking
import PeerBridge.Memory.Budget
import PeerBridge.Memory.Listings

/-!
# The entry reserve

Ordinary writes stop short of the entry and byte budgets by a reserve of 64 entries and 524288
bytes, which a note that supersedes or revokes may use. The bytes are 64 bodies of the longest kind.
A stored row is charged 512 bytes and the name of its consumer beside the body, so the bytes of the
reserve can be used up before its slots are.

`Draws` says how far a store has gone into the reserve. Every event keeps it, and a control note
adds one slot and its charge (`Draws.event`). So in a run with at most 64 control notes, whose
charges add up to at most the bytes of the reserve, a control note that is refused with `capacity`
is refused for pages (`reserve_serves`). Without the bound on the charges that fails: 60
replacements with bodies of 8192 bytes fit behind a store full of ordinary notes, and the next is
refused for bytes (`reserve_runs_out_of_bytes`).

Source: `memory.py`, `RESERVED_ENTRIES`, `RESERVED_BYTES`, `Store.charge`, `Store.admit`.
-/

namespace PeerBridge.Memory

open Py Relational Effects Effects.Prog Relation

variable {H : Host}

/-! ## Figures that do not grow -/

/-- Neither figure that admission compares has grown. -/
structure Lowers (db db' : Db) : Prop where
  entries : db'.usage.entries ≤ db.usage.entries
  logical : db'.usage.logical ≤ db.usage.logical

/-- The rows of readers and snapshots rewritten in place, keys and consumers as they were. -/
theorem Lowers.of_sums {db db' : Db} (he : db'.entries = db.entries) (hi : db'.items = db.items)
    (hm : db'.idem = db.idem) (hr : db'.retired = db.retired)
    (hc : (db'.cursors.rows.map fun c => utf8Len c.consumer + 64).sum
      = (db.cursors.rows.map fun c => utf8Len c.consumer + 64).sum)
    (hs : (db'.snapshots.rows.map fun s => utf8Len s.id + utf8Len s.consumer + 96).sum
      = (db.snapshots.rows.map fun s => utf8Len s.id + utf8Len s.consumer + 96).sum) :
    Lowers db db' := by
  constructor
  · simp only [Db.usage, he, le_refl]
  · simp only [Db.usage, he, hi, hm, hr, hc, hs, le_refl]

/-- No statement of maintenance or of a reader's requests lets a figure grow. -/
theorem statements_lowers : Statements Lowers where
  forget batch fts usable db :=
    ⟨(logical_forget batch fts usable db).2, (logical_forget batch fts usable db).1⟩
  invalidate _ := ⟨le_rfl, le_rfl⟩
  retire now db := by
    constructor
    · obtain ⟨cs, rs, hr, -⟩ := retire_spec now db
      rw [hr]
      exact le_rfl
    · exact (logical_retire now db).1.trans (logical_swept now db)
  prune now db := ⟨le_rfl, logical_prune now db⟩
  touch _ _ db :=
    .of_sums rfl rfl rfl rfl (db.cursors.sum_update (by intro _; rfl) fun _ => rfl) rfl
  clear _ db := .of_sums rfl rfl rfl rfl (db.cursors.sum_update (by intro _; rfl) fun _ => rfl) rfl
  issueDelta _ _ db :=
    .of_sums rfl rfl rfl rfl (db.cursors.sum_update (by intro _; rfl) fun _ => rfl) rfl
  issuePage _ _ db :=
    .of_sums rfl rfl rfl rfl rfl (db.snapshots.sum_update (by intro _; rfl) fun _ => rfl)
  ack _ _ _ _ _ db :=
    .of_sums rfl rfl rfl rfl (db.cursors.sum_update (by intro _; rfl) fun _ => rfl)
    (db.snapshots.sum_update (by intro _; rfl) fun _ => rfl)
  advance _ _ db :=
    .of_sums rfl rfl rfl rfl (db.cursors.sum_update (by intro _; rfl) fun _ => rfl) rfl

/-! ## How far a store has gone into the reserve -/

/-- The store holds at most `slots` entries and `bytes` bytes more than ordinary writes may
leave. -/
structure Draws (slots bytes : ℕ) (db : Db) : Prop where
  entries : db.usage.entries ≤ entryCap false + slots
  logical : db.usage.logical ≤ byteCap false + bytes

/-- A change that goes no further into the reserve than a store had gone. -/
def KeepsReserve (slots bytes : ℕ) (db db' : Db) : Prop :=
  Draws slots bytes db → Draws slots bytes db'

section draws

variable {n b : ℕ}

instance : Std.Refl (KeepsReserve n b) := ⟨fun _ h => h⟩

instance : IsTrans Db (KeepsReserve n b) := ⟨fun _ _ _ h h' hd => h' (h hd)⟩

/-- A new store has drawn nothing. -/
theorem Draws.initial (storeId : Text) : Draws n b (Db.initial storeId) where
  entries := Nat.zero_le _
  logical := by simp [Db.usage, Db.initial, Table.empty]

/-- A store that has drawn little has drawn little of a larger reserve. -/
theorem Draws.mono {n' b' : ℕ} (hn : n ≤ n') (hb : b ≤ b') {db : Db} (h : Draws n b db) :
    Draws n' b' db :=
  ⟨h.entries.trans (by omega), h.logical.trans (by omega)⟩

/-- A step that lowers the usage draws nothing. -/
theorem Lowers.keepsReserve {db db' : Db} (h : Lowers db db') : KeepsReserve n b db db' :=
  fun hd => ⟨h.entries.trans hd.entries, h.logical.trans hd.logical⟩

/-- No statement of maintenance or of the protocol draws on the reserve. -/
theorem statements_keepsReserve : Statements (KeepsReserve n b) :=
  statements_lowers.mono fun _ _ => Lowers.keepsReserve

/-- A freeze stays below the cap of ordinary writes. -/
theorem keepsReserve_freeze (need : ℕ) (consumer sid : Text) (head : ℕ) (members : List Entry)
    (sizes : List ℕ) (hneed : need ≠ 0) :
    Keeps (Between (KeepsReserve n b))
    (mutate H need false (freezeRows H consumer sid head members sizes)) := by
  refine between_mutate need (keeps_freezeRows consumer sid head members sizes) ?_
  intro v _ v' h hkept hd
  obtain ⟨x, _, _, _, _, _, hx, -, -, -, -, -, -, -, hdb⟩ := freezeRows_inv h
  constructor
  · have hsame : v'.db.usage.entries = v.db.usage.entries := by
      rw [hdb, ← hx.db]
      rfl
    rw [hsame]
    exact hd.entries
  · exact (hkept hneed).trans (Nat.le_add_right _ _)

/-- A registration draws nothing on the reserve. -/
theorem keepsReserve_register (consumer : Text) : Keeps (Between (KeepsReserve n b))
    (register H consumer) := by
  intro w hd
  rcases hrun : register H consumer w with ⟨r, w'⟩
  obtain ⟨hm, -⟩ | ⟨rfl, -⟩ | ⟨-, -, w1, now, table, hm, -, -, hi, hdb, ⟨m, hn, hroom⟩, -⟩ :=
    register_inv hrun
  · exact statements_keepsReserve.maints hm hd
  · exact hd
  · have hgrow := logical_register hi hn
    rw [← hdb] at hgrow
    constructor
    · have hsame : w'.db.usage.entries = w1.db.usage.entries := by rw [hdb]; rfl
      have h1 := hroom.entries
      change w'.db.usage.entries ≤ _
      omega
    · have h1 := hroom.logical
      change w'.db.usage.logical ≤ _
      omega

/-- No request but a note draws on the reserve. -/
theorem attends_keepsReserve : Attends H (Between (KeepsReserve n b)) :=
  statements_keepsReserve.attends keepsReserve_freeze keepsReserve_register

/-- A note that replaces nothing stays below the caps of ordinary writes. -/
theorem keepsReserve_note {a : NoteArgs} (ha : (a.supersedes.truthy || a.revokes.truthy) = false)
    (repo consumer : Text) (pid : ℕ) : Keeps (Between (KeepsReserve n b))
    (note H repo consumer a pid) := by
  intro w hd
  rcases hrun : note H repo consumer a pid w with ⟨r, w'⟩
  obtain ⟨hm, -⟩ | ⟨d, -, ⟨hi, -⟩ | ⟨w1, x, key, due, hm, hof, -, hc, -⟩⟩ := note_inv hrun
  · exact statements_keepsReserve.maints hm hd
  · change Draws n b w'.db
    rw [hi.db]
    exact hd
  · obtain ⟨need, -, hroom⟩ := hc.charged
    have hkept := hc.kept
    rw [hof.args, ha] at hroom hkept
    constructor
    · have h1 := hroom.entries
      have h2 := hc.effect.slot
      change w'.db.usage.entries ≤ _
      omega
    · exact hkept.trans (Nat.le_add_right _ _)

/-! ## Control notes -/

/-- A request for a note that supersedes or revokes. -/
def Act.control : Act → Bool
  | .request _ r _ => (r.get (lit "op")).isText (lit "note")
      && ((noteArgs r).supersedes.truthy || (noteArgs r).revokes.truthy)
  | _ => false

/-- A request without a key, a path, an author and a scope target. -/
def Act.bare : Act → Bool
  | .request _ r _ => (noteArgs r).key.isNull && (noteArgs r).path.isNull
    && (noteArgs r).author.isNull
      && (noteArgs r).scopeTarget.isNull
  | _ => true

/-- What the row of such a note is charged: its body, its consumer and the overhead of an entry. -/
def Act.charge : Act → ℕ
  | .request _ r _ =>
      (match r.get (lit "body") with | .str t => utf8Len t | _ => 0)
        + (match consumerOf r with | .ok consumer => utf8Len consumer | .error _ => 0)
        + entryOverhead
  | _ => 0

/-- A body that passes its check is a text. -/
theorem checkBody_eq_ok {v : Json} {t : Text} (h : checkBody v = .ok t) : v = .str t := by
  unfold checkBody at h
  split at h
  · split at h
    · cases h
    · obtain ⟨size, -, h1⟩ := except_bind_eq_ok.mp h
      split at h1
      · cases h1
      · cases h1
        rfl
  · cases h

/-- Only null is null. -/
theorem eq_null_of_isNull {v : Json} (h : v.isNull = true) : v = .null := by
  cases v with
  | null => rfl
  | _ => cases h

/-- The charge admission computes for it. -/
theorem noteCharge_bare {s : Service} {r : Object} {pid : ℕ} {consumer : Text} {d : Draft}
    {need : ℕ}
    (hbare : (Act.request s r pid).bare = true) (hc : consumerOf r = .ok consumer)
    (hd : noteChecks H consumer (noteArgs r) pid = .ok d)
    (hn : noteCharge consumer (noteArgs r) d none = .ok need) :
    (noteArgs r).Textual ∧ need = (Act.request s r pid).charge := by
  simp only [Act.bare, Bool.and_eq_true] at hbare
  obtain ⟨⟨⟨-, hpath⟩, hauthor⟩, htarget⟩ := hbare
  have hp := eq_null_of_isNull hpath
  have ha := eq_null_of_isNull hauthor
  have ht := eq_null_of_isNull htarget
  refine ⟨⟨.inl hp, .inl ha, .inl ht⟩, ?_⟩
  have hbody : r.get (lit "body") = .str d.body := checkBody_eq_ok (noteChecks_eq_ok.mp hd).2.2.2.1
  obtain ⟨n, hm, hn⟩ := except_bind_eq_ok.mp hn
  obtain rfl := Except.ok.inj hn
  rw [hp, ha, ht] at hm
  have hsum : n = utf8Len d.body + utf8Len consumer := by
    obtain ⟨m0, k0, h0, hm0, rfl⟩ := measureAll_cons hm
    obtain ⟨m1, k1, h1, hm1, rfl⟩ := measureAll_cons hm0
    obtain ⟨m2, k2, h2, hm2, rfl⟩ := measureAll_cons hm1
    obtain ⟨m3, k3, h3, hm3, rfl⟩ := measureAll_cons hm2
    have h4 : k3 = ([consumer].map utf8Len).sum := measureAll_texts hm3
    have h5 := measure_eq_ok h0
    cases h1
    cases h2
    cases h3
    simp only [List.map_cons, List.map_nil, List.sum_cons, List.sum_nil] at h4
    omega
  simp only [Act.charge, hbody, hc, hsum]

/-- **A control note adds one slot and its charge**; if it is refused, it adds nothing. -/
theorem Draws.note {s : Service} {r : Object} {pid : ℕ} {consumer : Text} {w w' : World}
    {res : Except Exc Noted} (hbare : (Act.request s r pid).bare = true)
    (hc : consumerOf r = .ok consumer)
    (h : note H s.repo consumer (noteArgs r) pid w = (res, w')) (hd : Draws n b w.db) :
    Draws (n + 1) (b + (Act.request s r pid).charge) w'.db ∧
      ((∃ code d c, res = .error (.refused code d c)) → Draws n b w'.db) := by
  have hkept (hd' : Draws n b w'.db) : Draws (n + 1) (b + (Act.request s r pid).charge) w'.db ∧
      ((∃ code d c, res = .error (.refused code d c)) → Draws n b w'.db) :=
    ⟨hd'.mono (Nat.le_succ n) (Nat.le_add_right _ _), fun _ => hd'⟩
  obtain ⟨hm, -⟩ | ⟨d, hchecks, ⟨hi, -⟩ | ⟨w1, x, key, due, hm, hof, hkey, hcom, hres⟩⟩ :=
    note_inv h
  · exact hkept (statements_keepsReserve.maints hm hd)
  · exact hkept (hi.db.symm ▸ hd)
  · have hd1 := statements_keepsReserve.maints hm hd
    obtain ⟨need, hneed, -⟩ := hcom.charged
    have hnull : (noteArgs r).key.isNull = true := by
      simp only [Act.bare, Bool.and_eq_true] at hbare
      exact hbare.1.1.1
    have hnone : x.idem = none := by
      rcases hkey with ⟨rfl, -⟩ | ⟨-, hsome, -⟩
      · simpa using hof.idem
      · rw [hnull] at hsome
        cases hsome
    rw [hof.consumer, hof.args, hof.draft, hnone] at hneed
    obtain ⟨htext, rfl⟩ := noteCharge_bare hbare hc hchecks hneed
    have hgrow : w'.db.usage.logical = w1.db.usage.logical + (Act.request s r pid).charge :=
      (hcom.effect.logical (hof.args ▸ htext)
        (by rw [hof.consumer, hof.args, hof.draft, hnone]; exact hneed)).1
    refine ⟨⟨?_, ?_⟩, ?_⟩
    · have h1 := hcom.effect.slot
      have h2 := hd1.entries
      omega
    · have h2 := hd1.logical
      omega
    · rintro ⟨code, d', c, he⟩
      rcases hres with hres | hres
      · rw [hres] at he
        cases he
      · rw [hres] at he
        cases he

end draws

/-! ## What a control note is refused for -/

/-- A refusal for pages, and not for slots or bytes: the store that is left has a slot and room for
the row, and there were too many pages before the note or with it, or the engine had none to
give. -/
structure ForPages (w : World) (need : ℕ) (d : Text) (c : Option SqliteError) : Prop where
  room : Room w.db need 1 true
  pages : admitCap true < w.pages ∨ (∃ n, pageCap true < n ∧ d = overPages n) ∨ c = some .full

/-- A store that has drawn little has room for one more control note. -/
theorem Draws.room {n b need : ℕ} {db : Db} (h : Draws n b db) (hn : n + 1 ≤ reservedEntries)
    (hb : b + need ≤ reservedBytes) : Room db need 1 true := by
  have h1 : entryCap true = entryCap false + reservedEntries := by decide
  have h2 : byteCap true = byteCap false + reservedBytes := by decide
  have h3 := h.entries
  have h4 := h.logical
  exact ⟨by omega, by omega⟩

/-- Upkeep refuses for capacity only when a page is missing. -/
theorem Upkeep.pages_of_capacity {d : Text} {c : Option SqliteError}
    (h : Upkeep (.refused .capacity d c)) :
    (∃ n, pageCap true < n ∧ d = overPages n) ∨ c = some .full := by
  cases h with
  | engine => exact .inr rfl
  | pages n h => exact .inl ⟨n, h, rfl⟩

/-- A transaction depends on its body at the moments that differ in nothing durable. -/
theorem transaction_congr {α : Type} {control blocking : Bool} {body body' : M α} {w : World}
    (h : ∀ v, Idle w v → body v = body' v) :
    transaction H control blocking body w = transaction H control blocking body' w := by
  rcases transaction_gate control blocking body w with ⟨ho, hc, hb⟩ | ⟨-, _, _, _, _, -, hall⟩
  · rcases transaction_gate control blocking body' w with ⟨-, -, hb'⟩ | ⟨hn, -⟩
    · have hsame := h { w with tick := w.tick + 1 } ⟨⟨Nat.le_succ _, rfl⟩, rfl⟩
      rw [hb, hb']
      unfold begun
      rw [get_bind, get_bind]
      exact bind_congr_at (tryCatch_congr_at (bind_congr_at hsame _) _) _
    · exact absurd ⟨ho, hc⟩ hn
  · rw [hall body, hall body']

/-- An admission under the reserve is refused for pages where there is room. -/
theorem admission_refused {need slots : ℕ} {w w' : World} {d : Text} {c : Option SqliteError}
    (hroom : Room w'.db need slots true)
    (h : admission H need slots true w = (.error (.refused .capacity d c), w')) :
    admitCap true < w'.pages ∨ (∃ n, pageCap true < n ∧ d = overPages n) ∨ c = some .full := by
  unfold admission at h
  rw [get_bind] at h
  split at h
  · cases h
  · obtain ⟨e, h1, he⟩ | ⟨n, u, h1, h2⟩ := bind_inv h
    · cases he
      exact .inr (upkeep_reclaim _ _ _ h1).pages_of_capacity
    · rw [get_bind] at h2
      split at h2
      · cases h2
      · rename_i hadm
        cases h2
        simp only [World.admits, Bool.and_eq_true, decide_eq_true_eq, not_and, not_le] at hadm
        exact .inl (hadm ⟨hroom.entries, hroom.logical⟩)

/-- The appending transaction of a note whose row has room is refused for pages. -/
theorem append_refused {consumer : Text} {a : NoteArgs} {pid : ℕ} {dr : Draft}
    {mark : Text} {due : ℚ}
    {need : ℕ} {w w' : World} {d : Text} {c : Option SqliteError} (ht : a.Textual)
    (hx : checkExclusive a = .ok ()) (hn : noteCharge consumer a dr none = .ok need)
    (hroom : Room w.db need 1 true)
    (h : mutate H need true (appendRow H consumer a pid dr none mark due) w
      = (.error (.refused .capacity d c), w')) :
    (∃ n, pageCap true < n ∧ d = overPages n) ∨ c = some .full := by
  -- The check behind the append passes, so the body is the append alone.
  have hcheck : ∀ v, Idle w v → (do
      let p ← appendRow H consumer a pid dr none mark due
      if need ≠ 0 then enforceLogical true
      return p : M (ℕ × Option ℕ)) v = appendRow H consumer a pid dr none mark due v := by
    intro v hv
    rcases happ : appendRow H consumer a pid dr none mark due v with ⟨e | p, u⟩
    · rw [bind_error happ]
    · have hpass := enforceLogical_appendRow ht hx hn (hv.db.symm ▸ hroom) happ
      rw [bind_ok happ, if_pos (noteCharge_pos hn).ne', bind_ok hpass]
      rfl
  unfold mutate at h
  rw [transaction_congr hcheck] at h
  have hraise : Raises (fun e => Upkeep e ∨ Unstored e)
      (transaction H true true (appendRow H consumer a pid dr none mark due)) :=
    raises_controlled (fun _ he => .inl he) ((raises_appendRow consumer a pid dr none mark due).mono
      fun _ he => .inr he)
  rcases hraise _ _ _ h with he | he
  · exact he.pages_of_capacity
  · cases he

/-- **A control note that has room is refused for pages.** -/
theorem note_refused {s : Service} {r : Object} {pid : ℕ} {consumer : Text} {w w' : World}
    {d : Text}
    {c : Option SqliteError} {n b : ℕ} (hctl : (Act.request s r pid).control = true)
    (hbare : (Act.request s r pid).bare = true) (hc : consumerOf r = .ok consumer)
    (hd : Draws n b w.db)
    (hn : n + 1 ≤ reservedEntries) (hb : b + (Act.request s r pid).charge ≤ reservedBytes)
    (h : note H s.repo consumer (noteArgs r) pid w = (.error (.refused .capacity d c), w')) :
    ForPages w' (Act.request s r pid).charge d c := by
  have hleft : Draws n b w'.db := (hd.note hbare hc h).2 ⟨_, d, c, rfl⟩
  refine ⟨hleft.room hn hb, ?_⟩
  simp only [Act.control, Bool.and_eq_true] at hctl
  have hnull : (noteArgs r).key.isNull = true := by
    simp only [Act.bare, Bool.and_eq_true] at hbare
    exact hbare.1.1.1
  unfold note at h
  obtain ⟨e, he, hr, -⟩ | ⟨dr, hdr, h1⟩ := lift_bind_inv h
  · cases hr
    cases noteChecks_unchecked he
  dsimp only at h1
  rw [if_pos hnull] at h1
  unfold noteAppend at h1
  obtain ⟨e, he, hr, -⟩ | ⟨need, hneed, h2⟩ := lift_bind_inv h1
  · cases hr
    cases noteCharge_unstored he
  obtain ⟨htext, rfl⟩ := noteCharge_bare hbare hc hdr hneed
  obtain ⟨e, h3, he⟩ | ⟨p, u, -, h4⟩ := bind_inv h2
  swap
  · cases h4
  cases he
  obtain ⟨_, -, he⟩ | ⟨e, v, h5, h6⟩ := tryCatch_inv h3
  · cases he
  -- A database error is reported under another code, everything else is passed on.
  have hraised : e = .refused .capacity d c ∧ w' = v := by
    cases e with
    | refused code d' c' =>
      cases h6
      exact ⟨rfl, rfl⟩
    | _ => cases h6
  obtain ⟨rfl, rfl⟩ := hraised
  rw [hctl.2] at h5
  obtain ⟨e, h7, he⟩ | ⟨_, u, h7, h8⟩ := bind_inv h5
  · cases he
    exact admission_refused (hleft.room hn hb) h7
  · have hx := (noteChecks_eq_ok.mp hdr).2.2.2.2.2
    exact .inr (append_refused htext hx hneed (admission_room h7) h8)

/-! ## Events -/

/-- An ordinary request draws nothing on the reserve. -/
theorem keepsReserve_command {n b : ℕ} {s : Service} {r : Object} {pid : ℕ}
    (hctl : (Act.request s r pid).control = false) : Keeps (Between (KeepsReserve n b))
    (command H s r pid) := by
  rcases hop : (r.get (lit "op")).isText (lit "recover") with _ | _
  · refine attends_keepsReserve.command s r pid hop fun consumer hnote _ => ?_
    rw [Act.control, hnote, Bool.true_and] at hctl
    exact keepsReserve_note hctl s.repo consumer pid
  · exact Keeps.mono (fun _ _ => Between.idle) (keeps_recovering s r pid hop)

/-- An event that is no control note goes no further into the reserve. -/
theorem Draws.ordinary {n b : ℕ} {e : Event H} (hctl : e.act.control = false)
    (h : Draws n b e.before.db) :
    Draws n b e.after.db := by
  obtain ⟨act, w, res, w', hp⟩ := e
  dsimp only at hctl h ⊢
  cases act with
  | request s r pid =>
    obtain ⟨_, hcmd, -⟩ := request_inv hp
    exact (keepsReserve_command hctl).run hcmd h
  | expire =>
    have hkeep : Keeps (Between (KeepsReserve n b)) (Act.perform H .expire) :=
      Keeps.bind statements_keepsReserve.maintains.expire fun _ => Keeps.pure _
    exact hkeep.run hp h
  | reclaim =>
    have hkeep : Keeps (Between (KeepsReserve n b)) (Act.perform H .reclaim) :=
      Keeps.bind statements_keepsReserve.maintains.reclaim fun _ => Keeps.pure _
    exact hkeep.run hp h
  | restart fts =>
    obtain ⟨-, sx, ix, hdb⟩ :=
      (Keeps.bind (keeps_reopen fts) fun _ => Keeps.pure _ : Keeps Reindexed _).run hp
    rw [hdb]
    exact ⟨h.entries, h.logical⟩

/-- A control note goes further by its row. -/
theorem Draws.control {n b : ℕ} {e : Event H} (hctl : e.act.control = true)
    (hbare : e.act.bare = true)
    (h : Draws n b e.before.db) : Draws (n + 1) (b + e.act.charge) e.after.db := by
  obtain ⟨act, w, res, w', hp⟩ := e
  dsimp only at hctl hbare h ⊢
  cases act with
  | request s r pid =>
    obtain ⟨_, hcmd, -⟩ := request_inv hp
    have hop : r.get (lit "op") = .str (lit "note") := by
      simp only [Act.control, Bool.and_eq_true] at hctl
      exact Json.isText_iff.mp hctl.1
    have hmore (hd : Draws n b w'.db) : Draws (n + 1) (b + (Act.request s r pid).charge) w'.db :=
      hd.mono (Nat.le_succ n) (Nat.le_add_right _ _)
    cases command_inv hcmd with
    | read hi _ => exact hmore (hi.db.symm ▸ h)
    | maintained hm _ _ => exact hmore (statements_keepsReserve.maints hm h)
    | note u consumer _ _ _ hu hc hn _ =>
      exact ((statements_keepsReserve.maints (maybeExpire_maint hu) h).note hbare hc hn).1
    | sync _ _ hsync _ _ =>
      rw [hop] at hsync
      cases hsync
    | ack _ _ hack _ _ =>
      rw [hop] at hack
      cases hack
  | expire => cases hctl
  | reclaim => cases hctl
  | restart fts => cases hctl

/-- The check of the repository is no capacity refusal. -/
theorem validateTarget_error {s : Service} {r : Object} {d : Text} {c : Option SqliteError} :
    validateTarget s r ≠ .error (.refused .capacity d c) := by
  intro h
  unfold validateTarget at h
  split at h
  · cases h
  · dsimp only at h
    split at h
    · cases h
    · split at h <;> cases h

/-- The check of the consumer is no capacity refusal. -/
theorem consumerOf_error {r : Object} {d : Text} {c : Option SqliteError} :
    consumerOf r ≠ .error (.refused .capacity d c) := by
  intro h
  unfold consumerOf at h
  split at h
  · split at h <;> cases h
  · cases h

/-- **A control note that the reserve has room for is refused for pages.** -/
theorem Draws.refused {n b : ℕ} {e : Event H} {d : Text} {c : Option SqliteError}
    (hctl : e.act.control = true) (hbare : e.act.bare = true) (h : Draws n b e.before.db)
    (hn : n + 1 ≤ reservedEntries) (hb : b + e.act.charge ≤ reservedBytes)
    (hres : e.result = .error (.refused .capacity d c)) : ForPages e.after e.act.charge d c := by
  obtain ⟨act, w, res, w', hp⟩ := e
  dsimp only at hctl hbare h hb hres ⊢
  cases act with
  | request s r pid =>
    obtain ⟨res', hcmd, hmap⟩ := request_inv hp
    have hcap : res' = .error (.refused .capacity d c) := by
      rw [hres] at hmap
      cases res' <;> cases hmap
      rfl
    subst hcap
    have hop : r.get (lit "op") = .str (lit "note") := by
      simp only [Act.control, Bool.and_eq_true] at hctl
      exact Json.isText_iff.mp hctl.1
    unfold command at hcmd
    rw [hop] at hcmd
    obtain ⟨e, he, hr, -⟩ | ⟨_, -, h1⟩ := lift_bind_inv hcmd
    · cases hr
      exact absurd he validateTarget_error
    obtain ⟨e, h2, he⟩ | ⟨_, u, h2, h3⟩ := bind_inv h1
    · cases he
      have hleft := statements_keepsReserve.maints (maybeExpire_maint h2) h
      exact ⟨hleft.room hn hb, .inr (upkeep_maybeExpire _ _ _ h2).pages_of_capacity⟩
    have hu := statements_keepsReserve.maints (maybeExpire_maint h2) h
    change (Prog.lift (consumerOf r) >>= fun consumer =>
      Memory.note H s.repo consumer (noteArgs r) pid >>= fun result => pure (Reply.noted result)) u
        = _ at h3
    obtain ⟨e, he, hr, -⟩ | ⟨consumer, hc, h4⟩ := lift_bind_inv h3
    · cases hr
      exact absurd he consumerOf_error
    obtain ⟨e, h5, he⟩ | ⟨_, v, -, h6⟩ := bind_inv h4
    · cases he
      exact note_refused hctl hbare hc hu hn hb h5
    · cases h6
  | expire => cases hctl
  | reclaim => cases hctl
  | restart fts => cases hctl

/-! ## Runs -/

/-- The control notes among some events. -/
def controls (past : List (Event H)) : List (Event H) := past.filter fun e => e.act.control

/-- What their rows are charged together. -/
def charged (past : List (Event H)) : ℕ := ((controls past).map fun e => e.act.charge).sum

/-- The control notes of two stretches are those of both. -/
theorem controls_append (past future : List (Event H)) :
    controls (past ++ future) = controls past ++ controls future := List.filter_append ..

/-- The charges of two stretches add up. -/
theorem charged_append (past future : List (Event H)) :
    charged (past ++ future) = charged past + charged future := by
  simp [charged, controls_append]

/-- How far a run has gone into the reserve. -/
theorem Run.draws {storeId : Text} {pages : ℕ} {fts : Bool} {past : List (Event H)} {w : World}
    (h : Run H (World.initial storeId pages fts) past w)
    (hbare : ∀ e ∈ past, e.act.control = true → e.act.bare = true) :
    Draws (controls past).length (charged past) w.db := by
  induction h with
  | nil => exact .initial storeId
  | @snoc past w h e he ih =>
    have hd := ih fun e' he' => hbare e' (by simp [he'])
    subst he
    rw [controls_append, charged_append, List.length_append]
    rcases hctl : e.act.control with _ | _
    · have hnone : controls [e] = [] := by simp [controls, hctl]
      simp only [hnone, charged, List.length_nil, List.map_nil, List.sum_nil]
      exact hd.ordinary hctl
    · have hone : controls [e] = [e] := by simp [controls, hctl]
      simp only [hone, charged, List.length_singleton, List.map_singleton, List.sum_singleton]
      exact hd.control hctl (hbare e (by simp) hctl)

/-- **The reserve serves control notes.** In every run from an empty store, with any requests,
expiries and restarts, whose control notes carry no key, path, author or scope target: if there are
at most `RESERVED_ENTRIES` of them and their rows are charged at most `RESERVED_BYTES` together,
then none is refused with `capacity` for slots or bytes. -/
theorem reserve_serves {storeId : Text} {pages : ℕ} {fts : Bool} {past : List (Event H)} {w : World}
    (h : Run H (World.initial storeId pages fts) past w)
    (hbare : ∀ e ∈ past, e.act.control = true → e.act.bare = true)
    (hslots : (controls past).length ≤ reservedEntries) (hbytes : charged past ≤ reservedBytes) :
    ∀ e ∈ past, e.act.control = true → ∀ d c, e.result = .error (.refused .capacity d c) →
      ForPages e.after e.act.charge d c := by
  intro e he hctl d c hres
  obtain ⟨earlier, later, rfl⟩ := List.append_of_mem he
  have hd := (h.at rfl).draws fun e' he' => hbare e' (by simp [he'])
  have hone : controls (e :: later) = e :: controls later := by simp [controls, hctl]
  rw [controls_append, hone, List.length_append, List.length_cons] at hslots
  rw [charged_append, charged, charged, hone, List.map_cons, List.sum_cons] at hbytes
  refine hd.refused hctl (hbare e he hctl) (by omega) ?_ hres
  rw [charged]
  omega

/-- A note and a note that replaces it. -/
def replacing : List Act :=
  [ask (lit "note") (lit "a") [(lit "type", .str (lit "finding")), (lit "body", .str (lit "x"))],
   ask (lit "note") (lit "a") [(lit "type", .str (lit "finding")), (lit "body", .str (lit "y")),
     (lit "supersedes", .int 1)]]

/-- A host on which the second of them would allocate more pages than there may be. -/
def Host.flooded : Host := { Host.steady with grow := fun n => if n < 14 then 0 else maxPages }

/-- The replacement is refused, for pages. -/
theorem reserve_serves_flooded :
    let run := play Host.flooded (World.initial (lit "store") 10 true) replacing
    (run.1.map fun e => (e.act.control, refusalOf e.result))
        = [(false, none), (true, some (.capacity, overPages (maxPages + 10)))] ∧
      ∀ e ∈ run.1, e.act.control = true → ∀ d c, e.result = .error (.refused .capacity d c) →
        ForPages e.after e.act.charge d c := by
  intro run
  obtain ⟨hanswers, hall, hslots, hbytes⟩ :
      (run.1.map fun e => (e.act.control, refusalOf e.result))
        = [(false, none), (true, some (.capacity, overPages (maxPages + 10)))] ∧
      (run.1.all fun e => e.act.bare) = true ∧
      (controls run.1).length ≤ reservedEntries ∧
      charged run.1 ≤ reservedBytes := by
    decide +kernel
  have hbare : ∀ e ∈ run.1, e.act.bare = true := List.all_eq_true.mp hall
  exact ⟨hanswers, reserve_serves (run_play (H := Host.flooded) _ replacing)
    (fun e he _ => hbare e he) hslots hbytes⟩

/-! ## A full store -/

/-- The request for a note with the body `p` that supersedes what `sup` names, if it names
anything. -/
def fullNote (p : Text) (sup : Json) : Object :=
  [(lit "op", .str (lit "note")), (lit "consumer", .str (lit "a")),
    (lit "type", .str (lit "finding")),
    (lit "body", .str p), (lit "supersedes", sup)]

def fullAct (p : Text) (sup : Json) : Act :=
  .request ⟨lit "repo", lit "generation"⟩ (fullNote p sup) 7

/-- What the checks of that request establish. -/
def fullDraft (p : Text) : Draft := ⟨.finding, .repo, p⟩

/-- The fields of the full note. -/
theorem noteArgs_fullNote (p : Text) (sup : Json) : noteArgs (fullNote p sup)
    = ⟨.str (lit "finding"), .str p, .str (lit "repo"), .null, .null, sup, .null, .null,
      .null, .null,
      .null⟩ := rfl

/-- The two values of the field: nothing, and the first entry. -/
inductive Supersedes : Json → Prop
  | nothing : Supersedes .null
  | first : Supersedes (.int 1)

/-- A store with `m` rows of such notes and nothing else, on working storage. -/
structure Filled (m : ℕ) (w : World) : Prop where
  blocked : w.blocked = none
  pages : w.pages = 10
  fts : w.fts = false
  expiredAt : w.expiredAt = 1700000000
  head : w.db.head = m
  seqs : ∀ e ∈ w.db.entries, e.seq ≤ m
  first : 0 < m → ∃ e ∈ w.db.entries, e.seq = 1
  lasting : ∀ e ∈ w.db.entries, e.expires = .null
  entries : w.db.usage.entries = m
  logical : w.db.usage.logical = m * 8705
  idem : w.db.idem = .empty
  cursors : w.db.cursors = .empty
  retired : w.db.retired = .empty
  snapshots : w.db.snapshots = .empty
  items : w.db.items = .empty

/-- Time does not empty a store. -/
theorem Filled.at {m : ℕ} {w : World} (h : Filled m w) (n : ℕ) : Filled m { w with tick := n } :=
  ⟨h.blocked, h.pages, h.fts, h.expiredAt, h.head, h.seqs, h.first, h.lasting, h.entries,
    h.logical, h.idem,
    h.cursors, h.retired, h.snapshots, h.items⟩

/-- Nothing but the content and the moment has changed. -/
structure Aside (w w' : World) : Prop where
  blocked : w'.blocked = w.blocked
  pages : w'.pages = w.pages
  fts : w'.fts = w.fts
  expiredAt : w'.expiredAt = w.expiredAt

instance : Std.Refl Aside := ⟨fun _ => ⟨rfl, rfl, rfl, rfl⟩⟩

instance : IsTrans World Aside :=
  ⟨fun _ _ _ h h' => ⟨h'.blocked.trans h.blocked, h'.pages.trans h.pages, h'.fts.trans h.fts,
    h'.expiredAt.trans h.expiredAt⟩⟩

/-- Asking a working engine for a write changes the moment at most. -/
theorem aside_write (hH : H.Works) : Keeps Aside (write H) := by
  intro w
  rw [hH.write w]
  exact ⟨rfl, rfl, rfl, rfl⟩

/-- The clock changes the moment only. -/
theorem aside_time : Keeps Aside (time H) := fun _ => ⟨rfl, rfl, rfl, rfl⟩

/-- A statement changes the content only. -/
theorem aside_execute (f : Db → Db) : Keeps Aside (execute f) := fun _ => ⟨rfl, rfl, rfl, rfl⟩

/-- The links an append makes leave the lifetimes. -/
theorem Append.relink_expires (x : Append) (seq : ℕ) (e : Entry) :
    (x.relink seq e).expires = e.expires := by
  unfold Append.relink Entry.link
  split
  · split <;> rfl
  · rfl

/-- The still host always works. -/
theorem still_works : Host.still.Works :=
  ⟨fun _ => rfl, fun _ => rfl, fun _ => rfl, fun _ => rfl, fun _ => rfl, fun _ => rfl⟩

/-- Nothing expires while the clock stands still. -/
theorem Filled.maybeExpire {m : ℕ} {w : World} (h : Filled m w) :
    maybeExpire Host.still w = (.ok (), { w with tick := w.tick + 1 }) := by
  have hrecent : ¬ Host.still.clock w.tick - w.expiredAt ≥ expiryInterval := by
    rw [h.expiredAt]
    change ¬ (1700000000 - 1700000000 : ℚ) ≥ expiryInterval
    decide +kernel
  unfold Memory.maybeExpire
  rw [time_bind, get_bind, if_neg hrecent]
  rfl

/-- There is nothing to expire, to retire or to prune. -/
theorem Filled.upkeep {m : ℕ} {w : World} (h : Filled m w) (now : ℚ) :
    w.db.expiredBatch now = [] ∧ w.db.retire now = w.db ∧ w.db.prune now = w.db := by
  refine ⟨?_, ?_, ?_⟩
  · have hnone : w.db.entries.rows.filter (fun e => e.expires.before now) = [] := by
      rw [List.filter_eq_nil_iff]
      intro e he
      rw [h.lasting e he]
      simp [Sql.before]
    rw [Db.expiredBatch, hnone]
    rfl
  · obtain ⟨db, _, _, _, _, _⟩ := w
    obtain ⟨head, floor, indexed, store, entries, idem, cursors, retired, snapshots, items,
        search⟩ := db
    obtain rfl : idem = .empty := h.idem
    obtain rfl : cursors = .empty := h.cursors
    obtain rfl : retired = .empty := h.retired
    obtain rfl : snapshots = .empty := h.snapshots
    obtain rfl : items = .empty := h.items
    rfl
  · obtain ⟨db, _, _, _, _, _⟩ := w
    obtain ⟨head, floor, indexed, store, entries, idem, cursors, retired, snapshots, items,
        search⟩ := db
    obtain rfl : idem = .empty := h.idem
    rfl

/-- A transaction of one statement on working storage. -/
theorem statement_works (hH : H.Works) {control blocking : Bool} {w : World} (hw : w.blocked = none)
    (hp : w.pages ≤ pageCap control) (f : Db → Db) :
    transaction H control blocking (do write H; execute f) w
      = (.ok (), { w with db := f w.db, tick := w.tick + 5 }) := by
  have hbody : (do write H; execute f : M Unit) { w with tick := w.tick + 1 }
      = (.ok (), { w with db := f w.db, tick := w.tick + 2 }) := by
    rw [bind_ok (hH.write _)]
    rfl
  exact transaction_works hH hw hbody hp

/-- A reclamation finds nothing. -/
theorem Filled.reclaim {m : ℕ} {w : World} (h : Filled m w) :
    ∃ t, reclaim Host.still w = (.ok 0, { w with tick := t }) := by
  have hcap : 10 ≤ pageCap true := by decide
  have hloop (fuel n : ℕ) : expireLoop Host.still 1700000000 fuel 0 { w with tick := n }
      = (.ok 0, { w with tick := n }) := by
    cases fuel with
    | zero => rfl
    | succ fuel =>
      unfold expireLoop
      rw [database_bind, (h.at n).upkeep _ |>.1]
      rfl
  have hretire (n : ℕ) : transaction Host.still true true (do
      write Host.still
      execute (Db.retire 1700000000)) { w with tick := n }
        = (.ok (), { w with tick := n + 5 }) := by
    rw [statement_works still_works (h.at n).blocked ((h.at n).pages.trans_le hcap),
      ((h.at n).upkeep _).2.1]
  have hprune (n : ℕ) : transaction Host.still true true (do
      write Host.still
      execute (Db.prune 1700000000)) { w with tick := n } = (.ok (), { w with tick := n + 5 }) := by
    rw [statement_works still_works (h.at n).blocked ((h.at n).pages.trans_le hcap),
      ((h.at n).upkeep _).2.2]
  have hexpire : expire Host.still w = (.ok 0, { w with tick := w.tick + 6 }) := by
    unfold expire
    rw [time_bind, database_bind]
    refine (bind_ok (hloop _ _)).trans ((bind_ok (hretire _)).trans ?_)
    rw [modify_bind]
    change (_, { w with expiredAt := 1700000000, tick := _ }) = _
    rw [← h.expiredAt]
  refine ⟨w.tick + 15, ?_⟩
  unfold Memory.reclaim
  rw [bind_ok hexpire, time_bind]
  refine (bind_ok (hprune _)).trans ((bind_ok (still_works.resetLog _)).trans ?_)
  refine (bind_ok (show vacuum Host.still _ = (.ok (), _) from rfl)).trans ?_
  exact (bind_ok (still_works.resetLog _)).trans rfl

section full

variable {p : Text} {sup : Json} (hp : Plain p 8192) (hs : (strip p).isEmpty = false)
  (hsup : Supersedes sup)
include hp

/-- The probe of a full note passes the budget. -/
theorem probe_fullNote (hsup : Supersedes sup) :
    encodedLen (probeRow (lit "a") (noteArgs (fullNote p sup)) 7 (fullDraft p)) ≤ frameBudget := by
  rw [noteArgs_fullNote, probeRow, encodedLen_row rfl]
  cases hsup with
  | nothing =>
    simp only [fullDraft, List.map_cons, List.map_nil, List.sum_cons, List.sum_nil, dumpsLen_str,
      hp.escaped]
    decide +kernel
  | first =>
    simp only [fullDraft, List.map_cons, List.map_nil, List.sum_cons, List.sum_nil, dumpsLen_str,
      hp.escaped]
    decide +kernel

include hs hsup in
/-- A full note passes its checks. -/
theorem noteChecks_fullNote :
    noteChecks H (lit "a") (noteArgs (fullNote p sup)) 7 = .ok (fullDraft p) := by
  have hprobe := probe_fullNote hp hsup
  refine noteChecks_eq_ok.mpr ⟨rfl, rfl, rfl, ?_, ?_, ?_⟩
  · rw [noteArgs_fullNote, checkBody, hs, if_neg (by decide), measure, if_pos hp.encodable, hp.utf8]
    rfl
  · have hlimit : frameBudget ≤ limit := by decide
    rw [checkProbe, lenEncode_eq, if_neg (by omega)]
    exact if_neg (not_lt.mpr hprobe)
  · cases hsup <;> rfl

/-- A full note is charged its body, its consumer and the overhead. -/
theorem noteCharge_fullNote :
    noteCharge (lit "a") (noteArgs (fullNote p sup)) (fullDraft p) none = .ok 8705 := by
  rw [noteArgs_fullNote, noteCharge, fullDraft, measureAll, measureOr, measure, if_pos hp.encodable,
    hp.utf8]
  rfl

include hsup in
/-- The columns of a full note can be bound. -/
theorem bindColumns_fullNote : ∃ sql, bindColumns H (lit "a") (noteArgs (fullNote p sup))
    (fullDraft p)
    = .ok ⟨none, none, none, sql, .null, .null⟩ := by
  have hbody : Sql.ofJson (.str p) = .ok (.text p) := by
    rw [Sql.ofJson.eq_def]
    exact if_pos hp.encodable
  cases hsup with
  | nothing =>
    refine ⟨.null, ?_⟩
    rw [noteArgs_fullNote, bindColumns, fullDraft]
    dsimp only
    rw [hbody]
    rfl
  | first =>
    refine ⟨H.integerAffinity (.int 1), ?_⟩
    rw [noteArgs_fullNote, bindColumns, fullDraft]
    dsimp only
    rw [hbody]
    rfl

omit hp in
/-- The replaced entry is there. -/
theorem replacement_found {target : Json} {v : Sql} {found : Entry} {w : World}
    (htarget : target.truthy = true) (hv : Sql.ofJson target = .ok v)
    (hf : w.db.target H v = some found) :
    replacement H target w = (.ok (found.revision + 1, found.supersededBy <|> found.revokedBy),
      w) := by
  unfold replacement
  rw [if_pos htarget, hv, lift_bind]
  change (database >>= _) w = _
  rw [database_bind, hf]
  rfl

include hsup in
/-- The append of such a note runs to its end. -/
theorem appendRow_fullNote {m : ℕ} {w : World} (hH : H.Works) (h : Filled m w)
    (hm : sup = .int 1 → 0 < m) (mark : Text) (due : ℚ) :
    ∃ q w', appendRow H (lit "a") (noteArgs (fullNote p sup)) 7 (fullDraft p) none mark due w
    = (.ok q, w') := by
  obtain ⟨sql, hcols⟩ := bindColumns_fullNote (H := H) hp hsup
  have hrep : ∃ q, replacement H (noteArgs (fullNote p sup)).target w = (.ok q, w) := by
    cases hsup with
    | nothing => exact ⟨(1, none), rfl⟩
    | first =>
      obtain ⟨e, he, hseq⟩ := h.first (hm rfl)
      have hfind : (w.db.target H (.int 1)).isSome = true := by
        rw [Db.target, List.find?_isSome]
        exact ⟨e, he, by rw [hseq]; rfl⟩
      obtain ⟨f, hf⟩ := Option.isSome_iff_exists.mp hfind
      refine ⟨(f.revision + 1, f.supersededBy <|> f.revokedBy), ?_⟩
      exact replacement_found rfl rfl hf
  obtain ⟨⟨revision, conflict⟩, hrep⟩ := hrep
  have hlink (seq : ℕ) (v : World) : ∃ f : Db → Db,
      linkReplaced H (noteArgs (fullNote p sup)) conflict seq v
      = (.ok (), { v with db := f v.db }) := by
    cases hsup with
    | nothing => exact ⟨id, rfl⟩
    | first =>
      rcases conflict with _ | k
      · exact ⟨fun db => db.linkSuperseded H (.int 1) seq, rfl⟩
      · exact ⟨id, rfl⟩
  have hindex (seq : ℕ) (v : World) (hv : v.fts = false) : indexEntry seq p v = (.ok (), v) := by
    unfold indexEntry
    rw [get_bind, if_neg (by simp [hv])]
    rfl
  have hfresh : ∀ e ∈ w.db.entries, e.seq ≠ w.db.head + 1 := by
    intro e he
    have hle := h.seqs e he
    rw [h.head]
    omega
  let row : Entry := ⟨w.db.head + 1, H.clock (w.tick + 1), .finding, .repo, none, none, p, none,
    7, lit "a",
    revision, sql, .null, none, none, conflict, .null⟩
  obtain ⟨t, ht⟩ : ∃ t, w.db.entries.insert? row = some t := by
    rcases hins : w.db.entries.insert? row with _ | t
    · obtain ⟨e, he, hkey⟩ := Table.insert?_eq_none.mp hins
      exact absurd hkey (hfresh e he)
    · exact ⟨t, rfl⟩
  have hinsert (v : World) : insertInto w.db.entries row v = (.ok t, v) := by
    rw [insertInto, ht]
    rfl
  unfold appendRow
  rw [bind_ok hrep]
  dsimp only
  rw [bind_ok (hH.write w), database_bind, time_bind,
    bind_ok (show (Prog.lift (bindColumns H (lit "a") (noteArgs (fullNote p sup)) (fullDraft p)) :
      M _) _
      = (.ok _, _) by rw [lift_apply, hcols]), database_bind]
  let v : World := { w with db := Db.appendEntry (w.db.head + 1) t w.db, tick := w.tick + 2 }
  obtain ⟨f, hf⟩ := hlink (w.db.head + 1) v
  have hlast := hindex (w.db.head + 1) { v with db := f v.db } h.fts
  exact ⟨(w.db.head + 1, conflict), { v with db := f v.db },
    (bind_ok (hinsert _)).trans ((bind_ok hf).trans (bind_ok hlast))⟩

include hsup in
/-- The append adds one row. -/
theorem Filled.append {m : ℕ} {w w' : World} {q : ℕ × Option ℕ} {mark : Text} {due : ℚ}
    (hH : H.Works)
    (h : Filled m w)
    (happ : appendRow H (lit "a") (noteArgs (fullNote p sup)) 7 (fullDraft p) none mark due w
      = (.ok q, w')) :
    Filled (m + 1) w' := by
  have haside : Aside w w' :=
    (appendRow_keeps (aside_write hH) aside_time (fun f _ => aside_execute f) _ _ _ _ _ _ _).run
    happ
  have hx : ¬ ((noteArgs (fullNote p sup)).supersedes.truthy = true ∧
      (noteArgs (fullNote p sup)).revokes.truthy = true) := by
    rintro ⟨-, h⟩
    cases h
  obtain ⟨x, hconsumer, hargs, -, hdraft, hidem, -, -, ha, -⟩ := appendRow_inv hx happ
  have hnone : x.idem = none := by simpa using hidem
  have htext : x.args.Textual := by
    rw [hargs]
    exact ⟨.inl rfl, .inl rfl, .inl rfl⟩
  have hcharge : noteCharge x.consumer x.args x.draft (x.idem.map Idem.key) = .ok 8705 := by
    rw [hconsumer, hargs, hdraft, hnone]
    exact noteCharge_fullNote hp
  have hexpires : x.cols.expires = .null := by
    obtain ⟨sql, hcols⟩ := bindColumns_fullNote (H := H) hp hsup
    have hbound := ha.cols
    rw [hconsumer, hargs, hdraft, hcols] at hbound
    rw [← Except.ok.inj hbound]
  have hidem' : w'.db.idem = w.db.idem := by
    rcases ha.idem with ⟨-, h⟩ | ⟨i, h, -⟩
    · exact h
    · rw [hnone] at h
      cases h
  have hgrow := ha.logical htext hcharge
  refine ⟨haside.blocked.trans h.blocked, haside.pages.trans h.pages, haside.fts.trans h.fts,
    haside.expiredAt.trans h.expiredAt, ha.head.trans (by rw [h.head]), ?_, ?_, ?_,
    hgrow.2.trans (by rw [h.entries]),
    hgrow.1.trans (by rw [h.logical]; omega), hidem'.trans h.idem, ha.cursors.trans h.cursors,
    ha.retired.trans h.retired, ha.snapshots.trans h.snapshots, ha.items.trans h.items⟩
  · intro e he
    rcases ha.mem_entries.mp he with ⟨f, hf, rfl⟩ | rfl
    · rw [Append.relink_seq]
      exact (h.seqs f hf).trans (Nat.le_succ m)
    · change w.db.head + 1 ≤ m + 1
      rw [h.head]
  · intro _
    rcases Nat.eq_zero_or_pos m with hm | hm
    · refine ⟨_, ha.mem_entries.mpr (.inr rfl), ?_⟩
      change w.db.head + 1 = 1
      rw [h.head, hm]
    · obtain ⟨e, he, hseq⟩ := h.first hm
      exact ⟨_, ha.mem_entries.mpr (.inl ⟨e, he, rfl⟩), by rw [Append.relink_seq, hseq]⟩
  · intro e he
    rcases ha.mem_entries.mp he with ⟨f, hf, rfl⟩ | rfl
    · rw [Append.relink_expires]
      exact h.lasting f hf
    · exact hexpires

include hs hsup in
/-- **A note that is admitted adds one row.** -/
theorem perform_fullNote {m : ℕ} {w : World} (h : Filled m w) (hm : sup = .int 1 → 0 < m)
    (hslots : m + 1 ≤ entryCap sup.truthy) (hbytes : (m + 1) * 8705 ≤ byteCap sup.truthy) :
    ∃ n w', (fullAct p sup).perform Host.still w = (.ok (some (.noted n)), w')
    ∧ Filled (m + 1) w' := by
  have hexpire := h.maybeExpire
  have hu := h.at (w.tick + 1)
  let mark := fingerprint Host.still (payload (noteArgs (fullNote p sup)) (fullDraft p))
  obtain ⟨q, w2, happ⟩ := appendRow_fullNote hp hsup still_works (hu.at (w.tick + 2)) hm mark 0
  have hfilled : Filled (m + 1) w2 := (hu.at (w.tick + 2)).append hp hsup still_works happ
  have hcap : pageCap sup.truthy ≥ 10 ∧ admitCap sup.truthy ≥ 10 := by
    rcases sup.truthy with _ | _ <;> decide
  have hadm : { w with tick := w.tick + 1 }.admits 8705 1 sup.truthy = true := by
    have h1 := h.entries
    have h2 := h.logical
    have h3 := h.pages
    simp only [World.admits, Bool.and_eq_true, decide_eq_true_eq]
    exact ⟨⟨by omega, by omega⟩, by omega⟩
  have hmut := mutation_works still_works hu.blocked hadm happ (hfilled.pages.trans_le hcap.1)
    (hfilled.logical.trans_le hbytes)
  refine ⟨⟨q.1, false, q.2, .null⟩, { w2 with tick := w2.tick + 3 }, ?_, hfilled.at _⟩
  have hctl :
    ((noteArgs (fullNote p sup)).supersedes.truthy || (noteArgs (fullNote p sup)).revokes.truthy)
      = sup.truthy := by
    rw [noteArgs_fullNote]
    exact Bool.or_false _
  have hnote : note Host.still (lit "repo") (lit "a") (noteArgs (fullNote p sup)) 7 { w with tick :=
    w.tick + 1 }
      = (.ok ⟨q.1, false, q.2, .null⟩, { w2 with tick := w2.tick + 3 }) := by
    unfold note
    rw [bind_ok (show (Prog.lift (noteChecks Host.still (lit "a") (noteArgs (fullNote p sup)) 7) :
      M _) _
      = (.ok _, _) by rw [lift_apply, noteChecks_fullNote hp hs hsup]),
      if_pos (show (noteArgs (fullNote p sup)).key.isNull = true from rfl), noteAppend,
      bind_ok (show (Prog.lift (noteCharge (lit "a") (noteArgs (fullNote p sup))
        (fullDraft p) none) : M _) _
        = (.ok _, _) by rw [lift_apply, noteCharge_fullNote hp]), hctl]
    exact bind_ok (tryCatch_ok hmut)
  have hcommand : command Host.still ⟨lit "repo", lit "generation"⟩ (fullNote p sup) 7 w
      = (.ok (.noted ⟨q.1, false, q.2, .null⟩), { w2 with tick := w2.tick + 3 }) :=
    (bind_ok hexpire).trans (bind_ok hnote)
  exact bind_ok hcommand

include hs in
/-- **A replacement that would take the store above the byte budget is refused.** -/
theorem refuse_fullNote {m : ℕ} {w : World} (h : Filled m w)
    (hbytes : byteCap true < (m + 1) * 8705) :
    ∃ d w', (fullAct p (.int 1)).perform Host.still w = (.error (.refused .capacity d none), w') ∧
      Filled m w' := by
  have hu := h.at (w.tick + 1)
  obtain ⟨t, hreclaim⟩ := hu.reclaim
  have hfull (n : ℕ) : ¬ { w with tick := n }.admits 8705 1 true = true := by
    have h2 := h.logical
    simp only [World.admits, Bool.and_eq_true, decide_eq_true_eq]
    omega
  have hadm : ∃ d, admission Host.still 8705 1 true { w with tick := w.tick + 1 }
      = (.error (.refused .capacity d none), { w with tick := t }) := by
    unfold admission
    rw [get_bind, if_neg (hfull _), bind_ok hreclaim, get_bind, if_neg (hfull t)]
    exact ⟨_, rfl⟩
  obtain ⟨d, hadm⟩ := hadm
  refine ⟨d, { w with tick := t }, ?_, h.at t⟩
  have hnote : note Host.still (lit "repo") (lit "a") (noteArgs (fullNote p (.int 1))) 7
      { w with tick := w.tick + 1 } = (.error (.refused .capacity d none),
        { w with tick := t }) := by
    unfold note
    rw [bind_ok
      (show (Prog.lift (noteChecks Host.still (lit "a") (noteArgs (fullNote p (.int 1))) 7) : M _) _
      = (.ok _, _) by rw [lift_apply, noteChecks_fullNote hp hs .first]),
      if_pos (show (noteArgs (fullNote p (.int 1))).key.isNull = true from rfl), noteAppend,
      bind_ok (show (Prog.lift (noteCharge (lit "a") (noteArgs (fullNote p (.int 1)))
        (fullDraft p) none) : M _) _
        = (.ok _, _) by rw [lift_apply, noteCharge_fullNote hp])]
    exact bind_error ((tryCatch_error (bind_error hadm)).trans rfl)
  have hcommand : command Host.still ⟨lit "repo", lit "generation"⟩ (fullNote p (.int 1)) 7 w
      = (.error (.refused .capacity d none), { w with tick := t }) :=
    (bind_ok h.maybeExpire).trans
    ((bind_ok (show (Prog.lift (consumerOf (fullNote p (.int 1))) : M Text) _
      = (.ok (lit "a"), _) from rfl)).trans (bind_error hnote))
  exact bind_error hcommand

include hs hsup in
/-- Accepted notes, one after the other. -/
theorem run_fullNotes {start : World} {m : ℕ} (h : Filled m start)
    (hm : sup = .int 1 → 0 < m) (k : ℕ) (hslots : m + k ≤ entryCap sup.truthy)
    (hbytes : (m + k) * 8705 ≤ byteCap sup.truthy) :
    ∃ (past : List (Event Host.still)) (w : World), Run Host.still start past w ∧ Filled (m + k) w ∧
      past.length = k ∧ ∀ e ∈ past, e.act = fullAct p sup ∧ ∃ n,
      e.result = .ok (some (.noted n)) := by
  induction k with
  | zero => exact ⟨[], start, .nil, h, rfl, by simp⟩
  | succ k ih =>
    obtain ⟨past, w, hrun, hw, hlen, hpast⟩ := ih (by omega)
      ((Nat.mul_le_mul_right _ (by omega)).trans hbytes)
    obtain ⟨n, w', hperform, hw'⟩ := perform_fullNote hp hs hsup hw
      (fun hfirst => (hm hfirst).trans_le (Nat.le_add_right _ _)) hslots hbytes
    refine ⟨past ++ [⟨fullAct p sup, w, _, w', hperform⟩], w', .snoc hrun _ rfl, hw',
      by simp [hlen], ?_⟩
    intro e he
    rcases List.mem_append.mp he with he | he
    · exact hpast e he
    · obtain rfl := List.mem_singleton.mp he
      exact ⟨rfl, n, rfl⟩

end full

/-- The longest body that is accepted. -/
def fullBody : Text := List.replicate 8192 0x70

/-- The full body is plain text. -/
theorem plain_fullBody : Plain fullBody 8192 := plain_replicate 8192

/-- The full body is not blank. -/
theorem strip_fullBody : (strip fullBody).isEmpty = false := by
  have hne := strip_ne_nil (t := fullBody) (c := 0x70) (List.mem_replicate.mpr ⟨by decide, rfl⟩)
    (by decide)
  rwa [← Bool.not_eq_true, List.isEmpty_iff]

/-- The act of a full note carries its charge. -/
theorem charge_fullAct {p : Text} (hp : Plain p 8192) (sup : Json) :
    (fullAct p sup).charge = 8705 := by
  change utf8Len p + utf8Len (lit "a") + entryOverhead = 8705
  rw [hp.utf8]
  decide

/-- An empty store, after the first expiry. -/
def sweptWorld : World := ⟨Db.initial (lit "store"), 10, none, false, 1700000000, 6⟩

/-- The store after its first sweep holds no row. -/
theorem filled_sweptWorld : Filled 0 sweptWorld :=
  ⟨rfl, rfl, rfl, rfl, rfl, fun e he => absurd he (Table.not_mem_empty e), fun h =>
    absurd h (lt_irrefl 0),
    fun e he => absurd he (Table.not_mem_empty e), rfl, rfl, rfl, rfl, rfl, rfl, rfl⟩

/-- The first expiry. -/
def sweeping : Event Host.still where
  act := .expire
  before := World.initial (lit "store") 10 false
  result := .ok none
  after := sweptWorld
  performed := rfl

/-- **A reserved slot without room for its row.** 3794 ordinary notes with bodies of 8192 bytes fill
the store up to the reserve. 60 notes with bodies of that length supersede the first entry. The next
one is refused with `capacity` although the pages permit it and slots of the reserve are left: there
is no room for its row. -/
theorem reserve_runs_out_of_bytes :
    ∃ (ordinary replacements : List (Event Host.still)) (e : Event Host.still) (d : Text),
      Run Host.still (World.initial (lit "store") 10 false)
      (ordinary ++ (replacements ++ [e])) e.after ∧
      (∀ x ∈ ordinary, x.act.control = false) ∧
      (∀ x ∈ replacements ++ [e], x.act = fullAct fullBody (.int 1)) ∧
      (fullAct fullBody (.int 1)).control = true ∧ (fullAct fullBody (.int 1)).bare = true ∧
      utf8Len fullBody ≤ maxBody ∧ (replacements ++ [e]).length = 61 ∧ 61 ≤ reservedEntries ∧
      (∀ x ∈ replacements, ∃ n, x.result = .ok (some (.noted n))) ∧
      (∃ t ∈ e.before.db.entries, t.seq = 1) ∧ e.after.pages ≤ admitCap true ∧
      e.result = .error (.refused .capacity d none) ∧ ¬ ForPages e.after e.act.charge d none := by
  obtain ⟨ordinary, w1, hrun1, hw1, -, hord⟩ := run_fullNotes plain_fullBody strip_fullBody .nothing
    filled_sweptWorld nofun 3794 (by decide) (by decide)
  obtain ⟨replacements, w2, hrun2, hw2, hlen, hrep⟩ :=
    run_fullNotes plain_fullBody strip_fullBody .first hw1
    (fun _ => by decide) 60 (by decide) (by decide)
  obtain ⟨d, w3, hperform, hw3⟩ := refuse_fullNote plain_fullBody strip_fullBody hw2 (by decide)
  let e : Event Host.still := ⟨fullAct fullBody (.int 1), w2, _, w3, hperform⟩
  have hfirst : Run Host.still (World.initial (lit "store") 10 false)
      ([] ++ [sweeping]) sweptWorld :=
    .snoc .nil sweeping rfl
  have hrun := (hfirst.append hrun1).append (.snoc hrun2 e rfl)
  refine ⟨sweeping :: ordinary, replacements, e, d, hrun, ?_, ?_, rfl, rfl, ?_, ?_,
    by decide, ?_, ?_, ?_, rfl, ?_⟩
  · intro x hx
    rcases List.mem_cons.mp hx with rfl | hx
    · rfl
    · rw [(hord x hx).1]
      rfl
  · intro x hx
    rcases List.mem_append.mp hx with hx | hx
    · exact (hrep x hx).1
    · rw [List.mem_singleton.mp hx]
  · rw [plain_fullBody.utf8]
    decide
  · simp [hlen]
  · exact fun x hx => (hrep x hx).2
  · exact hw2.first (by decide)
  · exact hw3.pages.trans_le (by decide)
  · intro hpages
    have hroom := hpages.room.logical
    change w3.db.usage.logical + (fullAct fullBody (.int 1)).charge ≤ byteCap true at hroom
    rw [hw3.logical, charge_fullAct plain_fullBody] at hroom
    exact absurd hroom (by decide)

end PeerBridge.Memory
