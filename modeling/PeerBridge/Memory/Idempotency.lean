import PeerBridge.Memory.Budget

/-!
# A keyed note is appended at most once

A `note` with a key leaves a deduplication row that holds its content mark and its retry deadline.
The row goes away only once a time past its deadline was read (`Retained`), and a request is looked
up only while its deadline lies ahead of the clock. So with a clock that never goes back, a request
that meets a live row with its key finds that row (`Keyed.live`), and the guarantees follow: two
appends never carry the same key and deadline, a repeat is answered from the row, a late one is
refused, and a live key with other content or another deadline is refused.

One gap is left. The checks before the lookup encode a row with the process number of the sender, so
a repeat from a process with a longer number can be refused as too large although the first one was
stored (`repeat_refused_as_too_large`); `idempotent_note` states exactly when the repeat is
answered.

Source: `memory.py`, `Store.note`, `Store.expire`, `Store.reclaim`.
-/

namespace PeerBridge.Memory

open Py Relational Effects Effects.Prog Relation

variable {H : Host}

/-! ## Retention -/

/-- The deduplication row is stored, or a time past its deadline has been read. -/
def Retained (H : Host) (i : Idem) (w : World) : Prop :=
  i ∈ w.db.idem ∨ ∃ j, j < w.tick ∧ i.deadline < H.clock j

/-- A key stays retained while its row is not dropped. -/
theorem Retained.later {i : Idem} {w w' : World} (ht : w.tick ≤ w'.tick)
    (hd : i ∈ w.db.idem → Retained H i w') (h : Retained H i w) : Retained H i w' := by
  rcases h with h | ⟨j, hj, h⟩
  · exact hd h
  · exact .inr ⟨j, hj.trans_le ht, h⟩

/-- A step of maintenance retains a key up to its deadline. -/
theorem Retained.maint {k : ℕ} {i : Idem} {w w' : World} (hw : Maint H k w w')
    (h : Retained H i w) : Retained H i w' := by
  -- A row is dropped only by a statement that compares its deadline with a time read before.
  have hgone {t : ℚ} (ht : Reading H k w' t) (hlt : i.deadline < t) : Retained H i w' := by
    obtain ⟨j, -, hj, rfl⟩ := ht
    exact .inr ⟨j, hj, hlt⟩
  refine h.later hw.later.tick fun hi => ?_
  rcases hw with hw | ⟨t, hl, ht, hd⟩ | ⟨t, hl, ht, hd⟩
  · obtain ⟨es, fl, ix, se, hd, -⟩ := hw.frame
    exact .inl (by rw [hd]; exact hi)
  · obtain ⟨cs, rs, hr, -⟩ := retire_spec t w.db
    rw [hr] at hd
    by_cases hlt : i.deadline < t
    · exact hgone ht hlt
    · refine .inl ?_
      rw [hd]
      exact Table.mem_remove.mpr ⟨hi, by simpa using hlt⟩
  · by_cases hlt : i.deadline < t
    · exact hgone ht hlt
    · refine .inl ?_
      rw [hd]
      refine Table.mem_remove.mpr ⟨hi, ?_⟩
      rw [List.any_eq_false]
      intro p hp hkey
      -- A prunable row with this key would be this row, whose deadline is not past.
      have hp' := List.mem_of_mem_drop hp
      rw [List.mem_insertionSort, List.mem_filter] at hp'
      obtain rfl := Table.eq_of_key (t := w.db.idem) hp'.1 hi (by simpa using hkey)
      exact hlt (by simpa using hp'.2)

/-- Maintenance retains a key up to its deadline. -/
theorem Retained.maints {k : ℕ} {i : Idem} {w w' : World} (hw : Maints H k w w')
    (h : Retained H i w) : Retained H i w' :=
  keeps_of_reflTransGen (I := Retained H i) (fun _ _ => Retained.maint) hw h

/-- A step of the protocol retains a key up to its deadline. -/
theorem Retained.change {k : ℕ} {i : Idem} {w w' : World} (hw : Change H k w w')
    (h : Retained H i w) : Retained H i w' := by
  refine h.later hw.later.tick fun hi => ?_
  rcases hw with hq | ⟨_, _, _, _, _, _, _, _, _, _, _, _, _, _, hf⟩ | ⟨_, _, _, _, _, _,
    _, _, hd⟩ |
    ⟨_, _, _, _, _, _, _, _, _, hd⟩ | ⟨_, _, hb⟩ | ⟨_, _, ha⟩
  · rcases hq with hm | ⟨x, hc, -⟩ | ⟨_, _, _, _, _, _, hd⟩ | ⟨_, _, _, _, hd⟩ | ⟨_, _, _,
      _, _, _, hd⟩
    · exact Retained.maint hm (.inl hi)
    · refine .inl ?_
      rcases hc.effect.idem with ⟨-, he⟩ | ⟨n, -, -, -, he⟩
      · rw [he]
        exact hi
      · exact (Table.mem_insert? he).mpr (.inl hi)
    · exact .inl (by rw [hd]; exact hi)
    · exact .inl (by rw [hd]; exact hi)
    · exact .inl (by rw [hd]; exact hi)
  · obtain ⟨_, _, _, _, _, _, hd⟩ := hf.sizes
    exact .inl (by rw [hd]; exact hi)
  · exact .inl (by rw [hd]; exact hi)
  · exact .inl (by rw [hd]; exact hi)
  · obtain ⟨_, -, hd⟩ := hb.effect
    exact .inl (by rw [hd]; exact hi)
  · exact .inl (by rw [ha.effect]; exact hi)

/-- **No run drops a deduplication row before its deadline.** -/
theorem Run.retained {start w : World} {past : List (Event H)} {i : Idem} (h : Run H start past w)
    (h0 : Retained H i start) : Retained H i w := by
  refine h.invariant (I := Retained H i) (fun _ _ _ => Retained.change) (fun v v' hr hv => ?_) h0
  obtain ⟨s, x, hd⟩ := hr.db
  exact hv.later hr.tick fun hi => .inl (by rw [hd]; exact hi)

/-- Up to its deadline a retained key is stored. -/
theorem Retained.mem (hmono : Monotone H.clock) {i : Idem} {w : World} (h : Retained H i w)
    (hlive : H.clock w.tick ≤ i.deadline) : i ∈ w.db.idem := by
  rcases h with h | ⟨j, hj, hlt⟩
  · exact h
  · exact absurd (hmono hj.le) (not_le.mpr (hlive.trans_lt hlt))

/-! ## Keyed appends -/

/-- The event appended the entry `seq` for a keyed request and left the row `i`. -/
structure Wrote (e : Event H) (s : Service) (x : Append) (i : Idem) : Prop where
  appends : ∃ r v, Appends e s r x v ∧ i.seq = v.db.head + 1
  keyed : ∃ u, Keyed e s x u i

/-- A keyed append records its key. -/
theorem Appends.wrote {e : Event H} {s : Service} {r : Object} {x : Append} {v : World}
    (h : Appends e s r x v) (hk : x.args.key.isNull = false) : ∃ i, Wrote e s x i := by
  rcases h.idem with ⟨-, hn⟩ | ⟨-, u, i, hi⟩
  · rw [hk] at hn
    cases hn
  · refine ⟨i, ⟨r, v, h, ?_⟩, u, hi⟩
    rcases h.commits.effect.idem with ⟨hn, -⟩ | ⟨j, hj, hseq, -⟩
    · rw [hi.idem] at hn
      cases hn
    · rw [hi.idem] at hj
      cases hj
      exact hseq

/-- The key is stored after the append. -/
theorem Wrote.mem {e : Event H} {s : Service} {x : Append} {i : Idem} (h : Wrote e s x i) :
    i ∈ e.after.db.idem := by
  obtain ⟨r, v, ha, -⟩ := h.appends
  obtain ⟨u, hk⟩ := h.keyed
  rcases ha.commits.effect.idem with ⟨hn, -⟩ | ⟨j, hj, -, -, hins⟩
  · rw [hk.idem] at hn
    cases hn
  · rw [hk.idem] at hj
    cases hj
    exact (Table.mem_insert? hins).mpr (.inr rfl)

/-- **A live row is found.** A later request of the run whose lookup is not past the deadline of the
row finds it. -/
theorem Wrote.found (hmono : Monotone H.clock) {e : Event H} {s : Service} {x : Append} {i : Idem}
    (h : Wrote e s x i) {between : List (Event H)} {w u : World} (hrun : Run H e.after between w)
    {r : Except Exc Unit} (hu : maybeExpire H w = (r, u)) (hlive : H.clock u.tick ≤ i.deadline) :
    u.db.idem.find i.key = some i := by
  have hret : Retained H i u := (hrun.retained (.inl h.mem)).maints (maybeExpire_maint hu)
  exact Table.find_eq_some.mpr ⟨hret.mem hmono hlive, rfl⟩

/-! ## Repeats -/

/-- The probe passes exactly within the budget. -/
theorem checkProbe_eq_ok {frame : Json} : checkProbe frame = .ok ()
    ↔ encodedLen frame ≤ frameBudget := by
  have hlimit : frameBudget ≤ limit := by decide
  unfold checkProbe
  rw [lenEncode_eq, except_bind_eq_ok]
  constructor
  · rintro ⟨n, hn, h⟩
    split at hn
    · cases hn
    · cases hn
      split at h
      · cases h
      · exact not_lt.mp ‹_›
  · intro h
    refine ⟨encodedLen frame, if_neg (not_lt.mpr (h.trans hlimit)), ?_⟩
    rw [if_neg (not_lt.mpr h)]
    rfl

/-- The draft of a note does not depend on the process that writes it. -/
theorem noteChecks_draft {consumer : Text} {a : NoteArgs} {pid pid' : ℕ} {d d' : Draft}
    (h : noteChecks H consumer a pid = .ok d) (h' : noteChecks H consumer a pid' = .ok d') :
    d' = d := by
  obtain ⟨h1, h2, -, h4, -⟩ := noteChecks_eq_ok.mp h
  obtain ⟨h1', h2', -, h4', -⟩ := noteChecks_eq_ok.mp h'
  obtain ⟨kind, scope, body⟩ := d
  obtain ⟨kind', scope', body'⟩ := d'
  obtain rfl : kind' = kind := Except.ok.inj (h1'.symm.trans h1)
  obtain rfl : scope' = scope := Except.ok.inj (h2'.symm.trans h2)
  obtain rfl : body' = body := Except.ok.inj (h4'.symm.trans h4)
  rfl

/-- The checks of a repeat differ in the process number the probe encodes. -/
theorem noteChecks_repeat {consumer : Text} {a : NoteArgs} {pid : ℕ} {d : Draft}
    (pid' : ℕ) (h : noteChecks H consumer a pid = .ok d) : noteChecks H consumer a pid' = .ok d ↔
      encodedLen (probeRow consumer a pid' d) ≤ frameBudget := by
  obtain ⟨h1, h2, h3, h4, -, h6⟩ := noteChecks_eq_ok.mp h
  rw [noteChecks_eq_ok, checkProbe_eq_ok]
  exact ⟨fun h' => h'.2.2.2.2.1, fun h' => ⟨h1, h2, h3, h4, h', h6⟩⟩

/-- A keyed request that passes the checks and finds its row is answered from it. -/
theorem note_found {repo consumer : Text} {a : NoteArgs} {pid : ℕ} {d : Draft} {i : Idem}
    {w : World}
    (hd : noteChecks H consumer a pid = .ok d) (hk : a.key.isNull = false)
    (hdue : deadlineValue a.deadline = .ok i.deadline) (hlt : H.clock w.tick < i.deadline)
    (hle : i.deadline ≤ H.clock w.tick + idemTtl) (hkey : i.key = scopedKey H repo consumer a.key)
    (henc : ∃ n, measure i.key = .ok n) (hf : w.db.idem.find i.key = some i)
    (hm : i.fingerprint = fingerprint H (payload a d)) :
    note H repo consumer a pid w
      = (.ok ⟨i.seq, true, none, .float (.fin i.deadline)⟩, { w with tick := w.tick + 1 }) := by
  obtain ⟨n, hn⟩ := henc
  rw [hkey] at hn hf
  have hdl : a.deadline.isNull = false := by
    rcases hj : a.deadline with _ | _ | _ | _ | _ | _ | _
    · rw [hj] at hdue
      cases hdue
    all_goals rfl
  have hlook : noteLookup H (scopedKey H repo consumer a.key)
    (fingerprint H (payload a d)) a.deadline w
      = (.ok (i.deadline, some ⟨i.seq, true, none, .float (.fin i.deadline)⟩),
        { w with tick := w.tick + 1 }) := by
    unfold noteLookup
    rw [if_neg (by simp [hdl]), time_bind, bind_ok (show (Prog.lift _ : M ℚ) _ = (.ok _, _) by
      rw [lift_apply, hdue]), if_neg (not_lt.mpr hle), if_neg (not_le.mpr hlt),
      bind_ok (show (Prog.lift _ : M ℕ) _ = (.ok _, _) by rw [lift_apply, hn]), database_bind, hf]
    simp only [hm, ne_eq, not_true_eq_false, if_false]
    rfl
  unfold note
  rw [bind_ok (show (Prog.lift _ : M Draft) _ = (.ok _, _) by rw [lift_apply, hd]),
    if_neg (by simp [hk]), bind_ok hlook]
  rfl

/-- **A repeat before the deadline is answered exactly when its probe fits.** -/
theorem Wrote.repeat (hmono : Monotone H.clock) {e e' : Event H} {s s' : Service} {x : Append}
    {i : Idem} (h : Wrote e s x i) {between : List (Event H)}
    (hrun : Run H e.after between e'.before)
    {r : Object} {pid : ℕ} {u : World} {n : Except Exc Noted}
    (hn : Notes e' s' r pid x.consumer u n)
    (hrepo : s'.repo = s.repo) (hargs : noteArgs r = x.args) (hlt : H.clock u.tick < i.deadline) :
    Shrinks e'.before e'.after ∧ (n = .ok ⟨i.seq, true, none, .float (.fin i.deadline)⟩ ↔
      encodedLen (probeRow x.consumer x.args pid x.draft) ≤ frameBudget) := by
  obtain ⟨r0, v, ha, -⟩ := h.appends
  obtain ⟨u0, hk⟩ := h.keyed
  have hnull : x.args.key.isNull = false := by
    rcases ha.idem with ⟨hnone, -⟩ | ⟨hnull, -⟩
    · rw [hk.idem] at hnone
      cases hnone
    · exact hnull
  have hm := maybeExpire_maint hn.maintained
  have hfind := h.found hmono hrun hn.maintained hlt.le
  have hrun' : note H s.repo x.consumer x.args pid u = (n, e'.after) := by
    rw [← hrepo, ← hargs]
    exact hn.run
  -- The first lookup was no later, so the deadline is still within the horizon.
  have hle : i.deadline ≤ H.clock u.tick + idemTtl := by
    have hmon : H.clock u0.tick ≤ H.clock u.tick := by
      exact hmono (hk.tick.le.trans (hrun.tick_le.trans hm.later.tick))
    linarith [hk.horizon]
  by_cases hfit : encodedLen (probeRow x.consumer x.args pid x.draft) ≤ frameBudget
  · have hchecks := (noteChecks_repeat pid ha.checks).mpr hfit
    rw [note_found hchecks hnull hk.deadline hlt hle hk.key hk.encodes hfind hk.mark] at hrun'
    obtain ⟨rfl, hafter⟩ := Prod.mk.inj hrun'
    refine ⟨hm.shrinks.trans (.idle ?_), iff_of_true rfl hfit⟩
    rw [← hafter]
    exact ⟨⟨Nat.le_succ _, rfl⟩, rfl⟩
  · obtain ⟨c, hc⟩ : ∃ c, noteChecks H x.consumer x.args pid = .error c := by
      rcases hc : noteChecks H x.consumer x.args pid with c | d
      · exact ⟨c, rfl⟩
      · rw [noteChecks_draft ha.checks hc] at hc
        exact absurd ((noteChecks_repeat pid ha.checks).mp hc) hfit
    unfold note at hrun'
    rw [bind_error (show (Prog.lift _ : M Draft) _ = (.error _, _) by rw [lift_apply, hc])] at hrun'
    obtain ⟨rfl, hafter⟩ := Prod.mk.inj hrun'
    exact ⟨hafter ▸ hm.shrinks, iff_of_false nofun hfit⟩

/-- A `note` request that ended without an append and without an earlier row to answer from was
refused. -/
theorem Notes.refused {e : Event H} {s : Service} {r : Object} {pid : ℕ} {consumer : Text}
    {u : World}
    {n : Except Exc Noted} (h : Notes e s r pid consumer u n)
    (hdup : ∀ d f, noteChecks H consumer (noteArgs r) pid = .ok d →
      deadlineValue (noteArgs r).deadline = .ok f.deadline → H.clock u.tick < f.deadline →
      u.db.idem.find (scopedKey H s.repo consumer (noteArgs r).key) = some f →
      f.fingerprint ≠ fingerprint H (payload (noteArgs r) d))
    (hnew : ∀ x v, Appends e s r x v → x.consumer = consumer → False) :
    Shrinks e.before e.after ∧ ∃ x, n = .error x := by
  obtain ⟨hs, he | ⟨d, f, due, -, hd, -, hdue, hlt, hf, hm, rfl, -⟩⟩ | ⟨x, v, ha, hc, -⟩ := h.inv
  · exact ⟨hs, he⟩
  · exact absurd hm (hdup d f hd hdue hlt hf)
  · exact (hnew x v ha hc).elim

/-- The content a keyed write is identified by, in the text that is hashed. -/
def canonical (a : NoteArgs) (d : Draft) : Text := dumps (sortKeys (payload a d))

/-- **A request whose deadline has come is refused.** -/
theorem Notes.late {e : Event H} {s : Service} {r : Object} {pid : ℕ} {consumer : Text} {u : World}
    {n : Except Exc Noted} (h : Notes e s r pid consumer u n) (hk : (noteArgs r).key.isNull = false)
    {due : ℚ} (hdue : deadlineValue (noteArgs r).deadline = .ok due)
    (hlate : due ≤ H.clock u.tick) :
    Shrinks e.before e.after ∧ ∃ c, n = .error c := by
  refine h.refused (fun d f _ hf hlt _ _ => ?_) fun x v ha _ => ?_
  · obtain rfl := Except.ok.inj (hdue.symm.trans hf)
    exact not_lt.mpr hlate hlt
  · rcases ha.idem with ⟨-, hn⟩ | ⟨-, u', i, hi⟩
    · rw [ha.args, hk] at hn
      cases hn
    · obtain rfl := (Prod.mk.inj (hi.maintained.symm.trans h.maintained)).2
      have heq := hi.deadline
      rw [ha.args] at heq
      obtain rfl := Except.ok.inj (hdue.symm.trans heq)
      exact not_lt.mpr hlate hi.ahead

/-- **A live key with other content or another deadline is refused.** -/
theorem Wrote.conflict (hmono : Monotone H.clock) {e e' : Event H} {s s' : Service} {x : Append}
    {i : Idem} (h : Wrote e s x i) {between : List (Event H)}
    (hrun : Run H e.after between e'.before)
    {r : Object} {pid : ℕ} {consumer : Text} {u : World} {n : Except Exc Noted}
    (hn : Notes e' s' r pid consumer u n) (hkey : (noteArgs r).key.isNull = false)
    (hsame : scopedKey H s'.repo consumer (noteArgs r).key = i.key)
    (hlive : H.clock u.tick ≤ i.deadline)
    (hdiff : deadlineValue (noteArgs r).deadline ≠ .ok i.deadline ∨
      ∀ d, noteChecks H consumer (noteArgs r) pid = .ok d →
        H.digest (canonical (noteArgs r) d) ≠ H.digest (canonical x.args x.draft)) :
    Shrinks e'.before e'.after ∧ ∃ c, n = .error c := by
  have hfind := h.found hmono hrun hn.maintained hlive
  obtain ⟨u0, hk⟩ := h.keyed
  refine hn.refused (fun d f hd hf _ hfound hm => ?_) fun y v ha hc => ?_
  · rw [hsame] at hfound
    obtain rfl := Option.some.inj (hfind.symm.trans hfound)
    rcases hdiff with hdiff | hdiff
    · exact hdiff hf
    · exact hdiff d hd (hm.symm.trans hk.mark)
  · rcases ha.idem with ⟨-, hnull⟩ | ⟨-, u', j, hj⟩
    · rw [ha.args, hkey] at hnull
      cases hnull
    · obtain rfl := (Prod.mk.inj (hj.maintained.symm.trans hn.maintained)).2
      have hjk : j.key = i.key := by rw [hj.key, hc, ha.args, hsame]
      have habsent := hj.absent
      rw [hjk, hfind] at habsent
      cases habsent

/-- **Two appends never carry the same key and deadline.** -/
theorem Wrote.once (hmono : Monotone H.clock) {e e' : Event H} {s s' : Service} {x x' : Append}
    {i i' : Idem} (h : Wrote e s x i) {between : List (Event H)}
    (hrun : Run H e.after between e'.before) (h' : Wrote e' s' x' i') (hkey : i'.key = i.key) :
    i'.deadline ≠ i.deadline := by
  intro hdl
  obtain ⟨u, hk⟩ := h'.keyed
  have hfind := h.found hmono hrun hk.maintained (hdl ▸ hk.ahead).le
  have habsent := hk.absent
  rw [hkey, hfind] at habsent
  cases habsent

/-! ## Runs -/

/-- The event `e` comes before the event `e'`. -/
def Precedes (past : List (Event H)) (e e' : Event H) : Prop :=
  ∃ earlier between later, past = earlier ++ e :: (between ++ e' :: later)

/-- Between two events of a run lies a run. -/
theorem Run.between {start w : World} {past : List (Event H)} (h : Run H start past w)
    {e e' : Event H}
    (hp : Precedes past e e') : ∃ between, Run H e.after between e'.before := by
  obtain ⟨earlier, between, later, hp⟩ := hp
  exact ⟨between, (h.since hp).at rfl⟩

/-- **A keyed note is appended at most once.** In every run with a clock that never goes back, after
an event that appended an entry for a keyed request: no later event appends with the same key and
deadline; a later repeat of the request before its deadline appends nothing, and it is answered with
the first sequence and `duplicate` set exactly when the probe of its own row fits the page budget;
and a later request with the same key, while it is live, but with another deadline or other content
(of a different digest) is refused and appends nothing. Any keyed request looked up at or after its
deadline is refused and appends nothing. -/
theorem idempotent_note (hmono : Monotone H.clock) {storeId : Text} {pages : ℕ} {fts : Bool}
    {past : List (Event H)} {w : World} (h : Run H (World.initial storeId pages fts) past w) :
    (∀ e e', Precedes past e e' → ∀ s x i, Wrote e s x i →
      (∀ s' x' i', Wrote e' s' x' i' → i'.key = i.key → i'.deadline ≠ i.deadline) ∧
      (∀ s' r pid u n, Notes e' s' r pid x.consumer u n → s'.repo = s.repo → noteArgs r = x.args →
        H.clock u.tick < i.deadline → Shrinks e'.before e'.after ∧
          (n = .ok ⟨i.seq, true, none, .float (.fin i.deadline)⟩ ↔
            encodedLen (probeRow x.consumer x.args pid x.draft) ≤ frameBudget)) ∧
      ∀ s' r pid consumer u n, Notes e' s' r pid consumer u n → (noteArgs r).key.isNull = false →
        scopedKey H s'.repo consumer (noteArgs r).key = i.key → H.clock u.tick ≤ i.deadline →
        (deadlineValue (noteArgs r).deadline ≠ .ok i.deadline ∨
          ∀ d, noteChecks H consumer (noteArgs r) pid = .ok d →
            H.digest (canonical (noteArgs r) d) ≠ H.digest (canonical x.args x.draft)) →
        Shrinks e'.before e'.after ∧ ∃ c, n = .error c) ∧
    ∀ e ∈ past, ∀ s r pid consumer u n due, Notes e s r pid consumer u n →
      (noteArgs r).key.isNull = false → deadlineValue (noteArgs r).deadline = .ok due →
      due ≤ H.clock u.tick → Shrinks e.before e.after ∧ ∃ c, n = .error c := by
  refine ⟨fun e e' hp s x i hw => ?_, fun e _ s r pid consumer u n due hn hk hdue =>
    hn.late hk hdue⟩
  obtain ⟨between, hrun⟩ := h.between hp
  refine ⟨fun s' x' i' hw' hkey => hw.once hmono hrun hw' hkey,
    fun s' r pid u n hn hrepo hargs hlt => hw.repeat hmono hrun hn hrepo hargs hlt,
    fun s' r pid consumer u n hn hkey hsame hlive hdiff =>
      hw.conflict hmono hrun hn hkey hsame hlive hdiff⟩

/-- A `note` addressed to this service runs behind its maintenance. -/
theorem Event.notes {e : Event H} {s : Service} {r : Object} {pid : ℕ} {consumer : Text} {u : World}
    (hact : e.act = .request s r pid) (hval : validateTarget s r = .ok ())
    (hop : (r.get (lit "op")).isText (lit "note") = true) (hc : consumerOf r = .ok consumer)
    (hu : maybeExpire H e.before = (.ok (), u)) : ∃ n, Notes e s r pid consumer u n := by
  obtain ⟨res, hd, hres⟩ := e.dispatched hact hval (not_readOnly hop (by decide)) hu
  have hd' : (do
      let consumer ← Prog.lift (consumerOf r)
      let result ← note H s.repo consumer (noteArgs r) pid
      return Reply.noted result : M Reply) u = (res, e.after) := by
    rw [← hd, Json.isText_iff.mp hop]
    rfl
  rw [bind_ok (show (Prog.lift _ : M Text) _ = (.ok _, _) by rw [lift_apply, hc])] at hd'
  obtain ⟨x, h1, rfl⟩ | ⟨n, v, h1, h2⟩ := bind_inv hd'
  · exact ⟨_, hact, hval, hop, hc, hu, h1, hres⟩
  · cases h2
    exact ⟨_, hact, hval, hop, hc, hu, h1, hres⟩

/-! ## The run of one request made twice -/

/-- A keyed request. -/
def keyedRequest : Object :=
  [(lit "op", .str (lit "note")), (lit "consumer", .str (lit "a")),
    (lit "type", .str (lit "finding")),
    (lit "body", .str (lit "x")), (lit "key", .str (lit "k")), (lit "deadline", .int 1700000100)]

/-- The event of a request. -/
def eventAt (w : World) (r : Object) (pid : ℕ) : Event Host.steady where
  act := .request ⟨lit "repo", lit "generation"⟩ r pid
  before := w
  result := (Act.perform Host.steady (.request ⟨lit "repo", lit "generation"⟩ r pid) w).1
  after := (Act.perform Host.steady (.request ⟨lit "repo", lit "generation"⟩ r pid) w).2
  performed := Prod.mk.eta.symm

/-- The request is made a second time: it is answered from the row of the first. -/
theorem idempotent_note_twice :
    let first := eventAt (World.initial (lit "store") 10 true) keyedRequest 7
    let second := eventAt first.after keyedRequest 7
    Run Host.steady (World.initial (lit "store") 10 true) [first, second] second.after ∧
      ∃ seq, second.result = .ok (some (.noted ⟨seq, true, none, .float (.fin 1700000100)⟩)) := by
  intro first second
  have hrun : Run Host.steady (World.initial (lit "store") 10 true) [first, second] second.after :=
    .snoc (.snoc .nil first rfl) second rfl
  let u := (maybeExpire Host.steady second.before).2
  obtain ⟨hhead, hkept, hclock, hprobe⟩ : first.after.db.head = 1 ∧
      (maybeExpire Host.steady second.before).1 = .ok () ∧ Host.steady.clock u.tick < 1700000100 ∧
      encodedLen (probeRow (lit "a") (noteArgs keyedRequest) 7 ⟨.finding, .repo, lit "x"⟩)
        ≤ frameBudget := by
    decide +kernel
  have hu : maybeExpire Host.steady second.before = (.ok (), u) := Prod.ext hkept rfl
  obtain ⟨s, r, x, v, ha⟩ : ∃ s r x v, Appends first s r x v := by
    rcases first.shrinks_or_appends with h | h
    · exact absurd (hhead.symm.trans h.head) (by decide)
    · exact h
  obtain ⟨rfl, rfl, hpid⟩ :=
    Act.request.inj (ha.act.symm.trans (show first.act = .request _ _ _ from rfl))
  have hcon : x.consumer = lit "a" :=
    Except.ok.inj (ha.consumer.symm.trans (by decide +kernel))
  have hkey : x.args.key.isNull = false := by
    rw [ha.args]
    rfl
  obtain ⟨i, hw⟩ := ha.wrote hkey
  obtain ⟨u0, hk⟩ := hw.keyed
  have hdue : i.deadline = 1700000100 := by
    have h1 := hk.deadline
    rw [ha.args, show deadlineValue (noteArgs keyedRequest).deadline = .ok 1700000100 by
      decide +kernel] at h1
    exact (Except.ok.inj h1).symm
  obtain ⟨n, hn⟩ := Event.notes (show second.act = _ from rfl) rfl (by decide +kernel)
    (show consumerOf _ = .ok (lit "a") by decide +kernel) hu
  have hlt : Host.steady.clock u.tick < i.deadline := hdue ▸ hclock
  have hd : x.draft = ⟨.finding, .repo, lit "x"⟩ := by
    have h1 := ha.checks
    rw [hcon, ha.args, hpid] at h1
    have h2 : noteChecks Host.steady (lit "a") (noteArgs keyedRequest) 7
        = .ok ⟨.finding, .repo, lit "x"⟩ :=
      noteChecks_eq_ok.mpr ⟨rfl, rfl, rfl, rfl, checkProbe_eq_ok.mpr hprobe, rfl⟩
    exact Except.ok.inj (h1.symm.trans h2)
  have hfit : encodedLen (probeRow x.consumer x.args 7 x.draft) ≤ frameBudget := by
    rw [hcon, ha.args, hd]
    exact hprobe
  have hafter :=
    ((idempotent_note monotone_steady hrun).1 first second ⟨[], [], [], rfl⟩ _ x i hw).2.1
    _ _ _ u n (hcon ▸ hn) rfl ha.args.symm hlt
  refine ⟨hrun, i.seq, ?_⟩
  rw [hn.result, hafter.2.mpr hfit, hdue]
  rfl

/-! ## A repeat that is refused -/

/-- The key the row of the first request is stored under. -/
def retryKey : Text := scopedKey Host.steady (lit "repo") (lit "a") (.str (lit "k"))

/-- A note that passes its other checks is refused with what its probe is refused with. -/
theorem noteChecks_of_probe {consumer : Text} {a : NoteArgs} {pid : ℕ} {d : Draft} {e : Exc}
    (hkind : checkKind H a.kind = .ok d.kind) (hscope : checkScope H a.scope = .ok d.scope)
    (htarget : checkScopeTarget d.scope a.scopeTarget = .ok ())
    (hbody : checkBody a.body = .ok d.body)
    (hprobe : checkProbe (probeRow consumer a pid d) = .error e) :
    noteChecks H consumer a pid = .error e := by
  simp only [noteChecks, hkind, hscope, htarget, hbody, hprobe, bind, Except.bind]

section long

variable {p : Text} (hp : Plain p longLen)
include hp

/-- The long note under a key is accepted. -/
theorem note_keyedLong {w : World} (hw : Ready w) (htick : w.tick = 7) :
    ∃ w', note Host.steady (lit "repo") (lit "a")
        (noteArgs (longNote p (.str (lit "k")) (.int 1700000100))) 7 w
      = (.ok ⟨1, false, none, .int 1700000100⟩, w') ∧ w'.tick = 15 ∧ w'.expiredAt = 1700000001 := by
  have hready : Ready { w with tick := 9 } := ⟨hw.blocked, hw.pages, hw.db, hw.fts, hw.expiredAt⟩
  obtain ⟨v, hlong, hv, happend⟩ := appendRow_longNote hp (.str (lit "k")) (.int 1700000100)
    hready
  obtain ⟨mark, hmark⟩ : ∃ mark, fingerprint Host.steady
      (payload (noteArgs (longNote p (.str (lit "k")) (.int 1700000100))) longDraft) = mark :=
        ⟨_, rfl⟩
  obtain ⟨t, ht, hrows⟩ := Table.insert?_empty Idem.key
    ⟨retryKey, mark, 1, Host.steady.clock v.tick, 1700000100⟩
  have hempty : v.db.idem = .empty := Table.ext hlong.idem
  let w2 : World := { v with db := { v.db with idem := t }, tick := v.tick + 1 }
  have hrec : recordIdem Host.steady (some retryKey) mark 1700000100 1 v = (.ok (), w2) := by
    have hheld : v.db.idem.rows.length = 0 := by rw [hlong.idem]; rfl
    have hins : insertInto v.db.idem ⟨retryKey, mark, 1, Host.steady.clock v.tick, 1700000100⟩
        { v with tick := v.tick + 1 } = (.ok t, { v with tick := v.tick + 1 }) := by
      rw [hempty, insertInto, ht]
      rfl
    unfold recordIdem
    simp only [database_bind, hheld]
    rw [if_neg (by decide), time_bind, database_bind, bind_ok hins]
    rfl
  have hneed :
    noteCharge (lit "a") (noteArgs (longNote p (.str (lit "k")) (.int 1700000100))) longDraft
      (some retryKey) = .ok 254247 := by
    rw [noteCharge_longNote hp]
    decide +kernel
  have hadm : { w with tick := 8 }.admits 254247 1 false = true := by
    rw [World.admits, hw.db, hw.pages]
    decide +kernel
  have hkey : utf8Len retryKey = 8 := by decide +kernel
  have hlogical : w2.db.usage.logical = 254247 := by
    have h1 := hlong.logical hp
    simp only [Db.usage, hlong.idem, List.map_nil, List.sum_nil] at h1
    simp only [Db.usage, w2, hrows, List.map_cons, List.map_nil, List.sum_cons, List.sum_nil, hkey]
    omega
  have hmut :=
    mutation_works steady_works (show { w with tick := 8 }.blocked = none from hw.blocked) hadm
    (happend (some retryKey) mark 1700000100 w2 hrec) (hlong.pages.trans_le (by decide +kernel))
    (hlogical.trans_le (by decide +kernel))
  have hlook : noteLookup Host.steady retryKey mark
      (noteArgs (longNote p (.str (lit "k")) (.int 1700000100))).deadline w
      = (.ok (1700000100, none), { w with tick := 8 }) := by
    rw [noteArgs_longNote]
    have hdue : deadlineValue (.int 1700000100) = .ok 1700000100 := by decide +kernel
    have hmeasure : measure retryKey = .ok 8 := by decide +kernel
    unfold noteLookup
    rw [if_neg (by simp [Json.isNull]), time_bind, htick,
      bind_ok (show (Prog.lift _ : M ℚ) _ = (.ok _, _) by
      rw [lift_apply, hdue]), if_neg (by decide +kernel), if_neg (by decide +kernel),
      bind_ok (show (Prog.lift _ : M ℕ) _ = (.ok _, _) by rw [lift_apply, hmeasure]), database_bind]
    simp only [hw.db]
    rfl
  refine ⟨{ w2 with tick := w2.tick + 3 }, ?_, ?_, hlong.expiredAt⟩
  · unfold note
    rw [bind_ok (show (Prog.lift _ : M Draft) _ = (.ok _, _) by
      rw [lift_apply, noteChecks_longNote hp]),
      if_neg (by simp [noteArgs_longNote, Json.isNull]), hmark,
      show scopedKey Host.steady (lit "repo")
      (lit "a") (noteArgs (longNote p (.str (lit "k")) (.int 1700000100))).key = retryKey from rfl,
      bind_ok hlook]
    dsimp only
    rw [noteAppend, bind_ok (show (Prog.lift _ : M ℕ) _ = (.ok _, _) by rw [lift_apply, hneed])]
    exact bind_ok (tryCatch_ok hmut)
  · change v.tick + 1 + 3 = 15
    rw [hv]

/-- The same request from a process with a two-digit number does not pass the probe. -/
theorem noteChecks_keyedLong :
    ∃ d, noteChecks Host.steady (lit "a")
    (noteArgs (longNote p (.str (lit "k")) (.int 1700000100))) 70
      = .error (refusal .entryTooLarge d) := by
  have hlen : encodedLen (probeRow (lit "a")
      (noteArgs (longNote p (.str (lit "k")) (.int 1700000100))) 70 longDraft)
        = frameBudget + 1 := by
    rw [noteArgs_longNote, probeRow, encodedLen_row rfl]
    simp only [List.map_cons, List.map_nil, List.sum_cons, List.sum_nil, dumpsLen_str, hp.escaped]
    decide +kernel
  have hprobe : ∃ d, checkProbe (probeRow (lit "a")
      (noteArgs (longNote p (.str (lit "k")) (.int 1700000100))) 70 longDraft)
      = .error (refusal .entryTooLarge d) := by
    rw [checkProbe, lenEncode_eq, hlen]
    exact ⟨_, rfl⟩
  obtain ⟨d, hd⟩ := hprobe
  exact ⟨d, noteChecks_of_probe (d := longDraft) rfl rfl rfl rfl hd⟩

end long

/-- The service the requests are sent to. -/
def retryService : Service := ⟨lit "repo", lit "generation"⟩

section long

variable {p : Text} (hp : Plain p longLen)
include hp

/-- The keyed long note is stored. -/
theorem perform_keyedLong :
    ∃ w, Act.perform Host.steady (.request retryService (longNote p (.str (lit "k"))
      (.int 1700000100)) 7)
        (World.initial (lit "store") 10 true)
      = (.ok (some (.noted ⟨1, false, none, .int 1700000100⟩)), w) ∧
      w.tick = 15 ∧ w.expiredAt = 1700000001 := by
  obtain ⟨w, hnote, htick, hexpired⟩ := note_keyedLong hp ready_expired rfl
  have hcommand : command Host.steady retryService (longNote p (.str (lit "k")) (.int 1700000100)) 7
      (World.initial (lit "store") 10 true) = (.ok (.noted ⟨1, false, none, .int 1700000100⟩), w) :=
    (command_longNote _ _ _ _ _ maybeExpire_initial).trans (bind_ok hnote)
  exact ⟨w, bind_ok hcommand, htick, hexpired⟩

/-- The second request is due no expiry, and its checks fail before the lookup. -/
theorem perform_repeat {w : World} (htick : w.tick = 15) (hexpired : w.expiredAt = 1700000001) :
    ∃ d, Act.perform Host.steady (.request retryService (longNote p (.str (lit "k"))
      (.int 1700000100)) 70)
      w = (.error (refusal .entryTooLarge d), { w with tick := 16 }) := by
  obtain ⟨d, hd⟩ := noteChecks_keyedLong hp
  have hmaintain : maybeExpire Host.steady w = (.ok (), { w with tick := 16 }) := by
    unfold maybeExpire
    rw [time_bind, get_bind, htick, hexpired, if_neg (by decide +kernel)]
    rfl
  have hrefused : note Host.steady (lit "repo") (lit "a")
      (noteArgs (longNote p (.str (lit "k")) (.int 1700000100))) 70 { w with tick := 16 }
      = (.error (refusal .entryTooLarge d), { w with tick := 16 }) :=
    bind_error (by rw [lift_apply, hd])
  have hcommand :
    command Host.steady retryService (longNote p (.str (lit "k")) (.int 1700000100)) 70 w
      = (.error (refusal .entryTooLarge d), { w with tick := 16 }) :=
    (command_longNote _ _ _ _ _ hmaintain).trans (bind_error hrefused)
  exact ⟨d, bind_error hcommand⟩

end long

/-- **A repeat is refused although the first request was stored.** The probe of the first request is
exactly at the page budget. Repeated seconds later, well before its deadline, by a process whose
number has one digit more, the same request is refused as too large. -/
theorem repeat_refused_as_too_large :
    ∃ first second : Event Host.steady, ∃ d,
      Run Host.steady (World.initial (lit "store") 10 true) [first, second] second.after ∧
      first.act = .request retryService (longNote longPath (.str (lit "k")) (.int 1700000100)) 7 ∧
      first.result = .ok (some (.noted ⟨1, false, none, .int 1700000100⟩)) ∧
      second.act = .request retryService (longNote longPath (.str (lit "k")) (.int 1700000100)) 70 ∧
      Host.steady.clock second.after.tick < 1700000100 ∧
      second.result = .error (refusal .entryTooLarge d) := by
  obtain ⟨w, hfirst, htick, hexpired⟩ := perform_keyedLong plain_longPath
  obtain ⟨d, hsecond⟩ := perform_repeat plain_longPath htick hexpired
  have hrun : Run Host.steady (World.initial (lit "store") 10 true)
      [⟨_, _, _, _, hfirst⟩, ⟨_, _, _, _, hsecond⟩] { w with tick := 16 } :=
    .snoc (.snoc .nil ⟨_, _, _, _, hfirst⟩ rfl) ⟨_, _, _, _, hsecond⟩ rfl
  refine ⟨_, _, d, hrun, rfl, rfl, rfl, ?_, rfl⟩
  change Host.steady.clock 16 < 1700000100
  decide +kernel

end PeerBridge.Memory
