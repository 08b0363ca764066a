import PeerBridge.Notify.Ledger

/-!
# The journal never invalidates itself

Every operation ends by validating what it is about to commit. From a valid journal that validation
passes: what an operation builds is valid again, so the only refusals are those of its own checks.

The validity of the attempt depends on the reserved rows alone. `SameReserved` says that an
operation leaves them; then the attempt is as good as it was (`attemptOk_congr`). Reserving and
settling are the two operations that do change them.

* `journal_stays_valid`: the nine operations, from every valid journal and with any arguments.
* `reserve_due`: what is due can be reserved.
-/

namespace PeerBridge.Notify.Journal

open Py Relational Effects PeerBridge.Service PeerBridge.Bridge PeerBridge.Hints

variable {j j' k : Journal}

/-! ## Counters -/

/-- A counter stays a safe integer. -/
theorem counters_count (h : ∀ c, j.counters c ≤ maxSequence) (c : Counter) (n : ℕ) :
    ∀ d, (j.count c n).counters d ≤ maxSequence := by
  intro d
  by_cases hd : d = c
  · subst hd
    simp [count]
  · simpa [count, Function.update_of_ne hd] using h d

/-- Counters stay safe integers. -/
theorem counters_countAll (h : ∀ c, j.counters c ≤ maxSequence) (ds : List Disposition) :
    ∀ c, (j.countAll ds).counters c ≤ maxSequence := by
  induction ds generalizing j with
  | nil => exact h
  | cons d ds ih =>
    rw [countAll, List.foldl_cons]
    rcases counterOf d with _ | c
    · exact ih h
    · exact ih (counters_count h c 1)

/-! ## The reserved rows -/

/-- The two journals have the same reserved rows. -/
def SameReserved (j k : Journal) : Prop :=
  ∀ n w, w.disposition = .reserved → (k.row n = some w ↔ j.row n = some w)

/-- All reserved rows are peer frames, or there is only one of them. -/
def OneKind (j : Journal) : Prop :=
  (∀ n w, j.row n = some w → w.disposition = .reserved → w.isPeer = true)
    ∨ ∃ m, ∀ n w, j.row n = some w → w.disposition = .reserved → n = m

/-- The reserved rows are distinct. -/
theorem nodup_reservedRows (j : Journal) : (j.reservedRows.map Work.seq).Nodup := by
  have hrows : (j.rows.map Work.seq).Nodup :=
    ((List.mergeSort_perm j.work.1.rows _).map Work.seq).nodup_iff.mpr j.work.1.nodup
  exact hrows.sublist (List.filter_sublist.map Work.seq)

/-- The reserved rows are all from peers, or one row alone. -/
theorem oneKind_iff (hne : ∃ n w, j.row n = some w ∧ w.disposition = .reserved) :
    (j.reservedRows.all Work.isPeer = true ∨ j.reservedRows.length = 1) ↔ OneKind j := by
  have hmem : ∀ n w, j.row n = some w → w.disposition = .reserved → w ∈ j.reservedRows :=
    fun n w hw hr => mem_reservedRows.mpr ⟨seq_of_row hw ▸ hw, hr⟩
  constructor
  · rintro (hall | hlen)
    · exact .inl fun n w hw hr => List.all_eq_true.mp hall w (hmem n w hw hr)
    · obtain ⟨v, hv⟩ := List.length_eq_one_iff.mp hlen
      refine .inr ⟨v.seq, fun n w hw hr => ?_⟩
      have := hmem n w hw hr
      rw [hv, List.mem_singleton] at this
      rw [← this, seq_of_row hw]
  · rintro (hall | ⟨m, hone⟩)
    · refine .inl (List.all_eq_true.mpr fun w hw => ?_)
      obtain ⟨hrow, hr⟩ := mem_reservedRows.mp hw
      exact hall _ w hrow hr
    · right
      -- Rows with the same sequence are one row, and there is one.
      have hseqs : ∀ x ∈ j.reservedRows.map Work.seq, x = m := by
        intro x hx
        obtain ⟨w, hw, rfl⟩ := List.mem_map.mp hx
        obtain ⟨hrow, hr⟩ := mem_reservedRows.mp hw
        exact hone _ w hrow hr
      have hle : (j.reservedRows.map Work.seq).length ≤ 1 := by
        have hrep := List.eq_replicate_of_mem hseqs
        have hnodup := nodup_reservedRows j
        rw [hrep] at hnodup
        simpa using List.nodup_replicate.mp hnodup
      obtain ⟨n, w, hw, hr⟩ := hne
      have hpos := List.length_pos_of_mem (hmem n w hw hr)
      rw [List.length_map] at hle
      omega

/-- An attempt is as good as it was when the reserved rows are the same. -/
theorem attemptOk_congr (h : SameReserved j k) (hattempt : k.attempt = j.attempt)
    (hconfirmed : j.activationConfirmed = true → k.activationConfirmed = true)
    (hseeded : j.pointersSeeded = true → k.pointersSeeded = true) (hok : j.attemptOk = true) :
    k.attemptOk = true := by
  rcases ha : j.attempt with _ | a
  · have hnone : ∀ w, w ∉ k.reservedRows := by
      intro w hw
      obtain ⟨hrow, hr⟩ := mem_reservedRows.mp hw
      have hj : w ∈ j.reservedRows := mem_reservedRows.mpr ⟨(h _ w hr).mp hrow, hr⟩
      rw [attemptOk, ha] at hok
      simp only [List.isEmpty_iff] at hok
      rw [hok] at hj
      cases hj
    rw [attemptOk, hattempt, ha]
    simpa using List.eq_nil_iff_forall_not_mem.mpr hnone
  · have hopen := (attemptOk_some ha).mp hok
    have hiff : ∀ n, (∃ w, k.row n = some w ∧ w.disposition = .reserved)
        ↔ ∃ w, j.row n = some w ∧ w.disposition = .reserved := by
      intro n
      refine exists_congr fun w => and_congr_left fun hr => ?_
      exact h n w hr
    obtain ⟨n, hn⟩ := List.exists_mem_of_ne_nil _ hopen.nonempty
    have hj : ∃ n w, j.row n = some w ∧ w.disposition = .reserved := ⟨n, (hopen.members n).mp hn⟩
    have hk : ∃ n w, k.row n = some w ∧ w.disposition = .reserved :=
      ⟨n, (hiff n).mpr ((hopen.members n).mp hn)⟩
    refine (attemptOk_some (hattempt.trans ha)).mpr ⟨hopen.nonempty, hopen.length, hopen.started,
      hconfirmed hopen.confirmed, hseeded hopen.seeded, ?_, fun n =>
        (hopen.members n).trans (hiff n).symm⟩
    rw [oneKind_iff hk]
    rcases (oneKind_iff hj).mp hopen.kinds with hall | ⟨m, hone⟩
    · exact .inl fun n w hw hr => hall n w ((h n w hr).mp hw) hr
    · exact .inr ⟨m, fun n w hw hr => hone n w ((h n w hr).mp hw) hr⟩

/-- Without an attempt no row may be reserved. -/
theorem attemptOk_none (hattempt : k.attempt = none)
    (h : ∀ n w, k.row n = some w → w.disposition ≠ .reserved) : k.attemptOk = true := by
  rw [attemptOk, hattempt]
  simp only [List.isEmpty_iff]
  refine List.eq_nil_iff_forall_not_mem.mpr fun w hw => ?_
  obtain ⟨hrow, hr⟩ := mem_reservedRows.mp hw
  exact h _ w hrow hr

/-! ## What the operations build is valid -/

/-- A fresh row passes its check. -/
theorem rowOk_fresh {r : Record} (h1 : 1 ≤ r.seq) (hmax : r.seq ≤ maxSequence) :
    rowOk (fresh r) = true := by
  rw [rowOk_iff]
  refine ⟨⟨h1, hmax, Nat.zero_le _, Nat.zero_le _⟩, ?_, ?_, ?_, ?_, ?_⟩
  · intro _ h
    cases h
  · rintro (h | h) <;> cases h
  · intro h
    cases h
  · intro h
    cases h
  · intro h
    exact absurd rfl h

/-- Admissions keep a journal valid. -/
theorem Valid.admitted (h : Valid j) {historical : Bool} {records : List Record}
    (hadm : Admitted historical records j k) (hcounters : ∀ c, k.counters c ≤ maxSequence) :
    Valid k := by
  refine ⟨?_, ?_, ?_, ?_, hcounters, ?_, ?_⟩
  · rw [hadm.identity.imported, hadm.scan]
    exact h.imported_le
  · rw [hadm.scan, hadm.enumerated]
    exact h.scan_le
  · rw [hadm.enumerated]
    exact h.enumerated_le
  · rw [hadm.acknowledged, hadm.identity.lost]
    exact h.acknowledged
  · intro n w hw
    rcases hadm.row n with hsame | ⟨-, r, -, hseq, hrow, h1, hmax, -⟩
    · rw [hsame] at hw
      exact h.rows n w hw
    · rw [hrow] at hw
      cases hw
      subst hseq
      exact rowOk_fresh h1 hmax
  · refine attemptOk_congr ?_ hadm.attempt (fun hc => hadm.identity.confirmed.trans hc)
      (fun hs => hadm.seeded.trans hs) h.attempt
    intro n w hr
    rcases hadm.row n with hsame | ⟨hnone, r, -, -, hrow, -⟩
    · rw [hsame]
    · rw [hrow, hnone]
      constructor
      · intro hw
        cases hw
        cases hr
      · intro hw
        cases hw

/-- An advance keeps a journal valid. -/
theorem Valid.advanced (h : Valid j) (hadv : Advanced j k)
    (hmax : k.enumeratedThrough ≤ maxSequence)
    (hack : k.historyAcknowledged = j.historyAcknowledged)
    (hcounters : ∀ c, k.counters c ≤ maxSequence) :
    Valid k := by
  refine ⟨?_, ?_, hmax, ?_, hcounters, ?_, ?_⟩
  · rw [hadv.identity.imported]
    exact h.imported_le.trans hadv.le
  · have := hadv.bound
    have := h.scan_le
    have := hadv.enumerated_le
    omega
  · rw [hack, hadv.identity.lost]
    exact h.acknowledged
  · intro n w hw
    rcases hadv.row_cases n with ⟨-, hnone⟩ | ⟨w', hw', hk | ⟨hnone, -⟩⟩
    · rw [hnone] at hw
      cases hw
    · rw [hk] at hw
      cases hw
      exact h.rows n _ hw'
    · rw [hnone] at hw
      cases hw
  · refine attemptOk_congr ?_ hadv.attempt (fun hc => hadv.identity.confirmed.trans hc)
      (fun hs => hadv.seeded.trans hs) h.attempt
    intro n w hr
    rcases hadv.row_cases n with ⟨hnone, hnone'⟩ | ⟨w', hw', hk | ⟨hnone, -, hfolds⟩⟩
    · rw [hnone, hnone']
    · rw [hk, hw']
    · rw [hnone, hw']
      constructor
      · intro hw
        cases hw
      · intro hw
        cases hw
        rw [hr] at hfolds
        cases hfolds

/-- An advance to a safe position keeps a journal valid. -/
theorem Valid.advanceTo (h : Valid j) {high : ℕ} (hhigh : j.enumeratedThrough ≤ high)
    (hmax : high ≤ maxSequence) : Valid (j.advanceTo high) := by
  have hsame := sameButCounters_countAll j
    ((j.rows.filter (isOver (max j.scanThrough (j.eligible high)))).map Work.disposition)
  exact h.advanced (advanced_advanceTo j hhigh) hmax hsame.acknowledged
    (counters_countAll h.counters _)

/-- A reserved row still passes its check once it is settled. -/
theorem rowOk_settleRow {o : Outcome} {now : ℕ} {w : Work} (h : rowOk w = true)
    (hr : w.disposition = .reserved) : rowOk (settleRow o now w) = true := by
  obtain ⟨⟨h1, h2, h3, h4⟩, -, hattempts, -⟩ := rowOk_iff.mp h
  have hpos : w.attempts ≠ 0 := hattempts (.inl hr)
  rw [rowOk_iff]
  unfold settleRow
  by_cases ho : o = .delivered
  · simp [ho, h1, h2, h4, hpos]
  · by_cases hmax : maxAttempts ≤ w.attempts
    · by_cases hu : (w.uncertain || decide (o = .unknown)) = true
      · simp [ho, hmax, hu, h1, h2, h4]
      · have heq : w.attempts = maxAttempts := le_antisymm h4 hmax
        simp [ho, hu, h1, h2, heq]
    · have hne : w.attempts ≠ maxAttempts := by omega
      simp [ho, hmax, h1, h2, h4, hne]

/-- The attempt of a valid journal settled. -/
theorem Valid.settleAll (h : Valid j) {a : Attempt} (ha : j.attempt = some a) (o : Outcome)
    (now : ℕ) :
    Valid (j.settleAll a.members o now) := by
  have hopen := h.openOk ha
  have hsame := sameButCounters_countAll j
    ((((j.rows.filter fun w => a.members.contains w.seq).map (settleRow o now)).filter
      (·.disposition.exhausted)).map Work.disposition)
  have hrow : ∀ n w, (j.settleAll a.members o now).row n = some w →
      rowOk w = true ∧ w.disposition ≠ .reserved := by
    intro n w hw
    rw [row_settleAll] at hw
    obtain ⟨w₀, hw₀, rfl⟩ := Option.map_eq_some_iff.mp hw
    by_cases hn : n ∈ a.members
    · have hres : w₀.disposition = .reserved := by
        obtain ⟨w', hw', hres⟩ := (hopen.members n).mp hn
        rw [hw₀] at hw'
        cases hw'
        exact hres
      have heq : resolveRow a.members o now w₀ = settleRow o now w₀ := by
        unfold resolveRow
        rw [seq_of_row hw₀, if_pos (by simpa using hn)]
      rw [heq]
      refine ⟨rowOk_settleRow (h.rows n w₀ hw₀) hres, ?_⟩
      unfold settleRow
      by_cases ho : o = .delivered
      · simp [ho]
      · by_cases hmax : maxAttempts ≤ w₀.attempts
        · by_cases hu : (w₀.uncertain || decide (o = .unknown)) = true
          · simp [ho, hmax, hu]
          · simp [ho, hmax, hu]
        · simp [ho, hmax]
    · have heq : resolveRow a.members o now w₀ = w₀ := by
        unfold resolveRow
        rw [seq_of_row hw₀, if_neg (by simpa using hn)]
      rw [heq]
      exact ⟨h.rows n w₀ hw₀, fun hres => hn ((hopen.members n).mpr ⟨w₀, hw₀, hres⟩)⟩
  refine ⟨?_, ?_, ?_, ?_, counters_countAll h.counters _, fun n w hw => (hrow n w hw).1, ?_⟩
  · exact hsame.imported ▸ hsame.scan ▸ h.imported_le
  · exact hsame.scan ▸ hsame.enumerated ▸ h.scan_le
  · exact hsame.enumerated ▸ h.enumerated_le
  · exact hsame.acknowledged ▸ hsame.lost ▸ h.acknowledged
  · exact attemptOk_none rfl fun n w hw => (hrow n w hw).2

/-- A row that is not reserved passes its check once it is judged, and is not reserved. -/
theorem rowOk_judged {s : Snapshot} {records : List Record} {w : Work} (h : rowOk w = true)
    (hr : w.disposition ≠ .reserved) :
    rowOk (judged s records w) = true ∧ (judged s records w).disposition ≠ .reserved := by
  obtain ⟨⟨h1, h2, h3, h4⟩, -⟩ := rowOk_iff.mp h
  unfold judged
  rcases hv : judge s records w with e | v
  · exact ⟨h, hr⟩
  · rcases judge_cases hv with rfl | ⟨-, rfl | rfl | ⟨rfl, -⟩⟩
    · exact ⟨h, hr⟩
    · refine ⟨rowOk_iff.mpr ?_, by simp [applyVerdict]⟩
      simp [applyVerdict, h1, h2, h4]
    · refine ⟨rowOk_iff.mpr ?_, by simp [applyVerdict]⟩
      simp [applyVerdict, h1, h2, h4]
    · refine ⟨rowOk_iff.mpr ?_, by simp [applyVerdict]⟩
      simp [applyVerdict, h1, h2, h4]

/-- Judging keeps a journal without an attempt valid. -/
theorem Valid.judgeAll (h : Valid j) (ha : j.attempt = none) (s : Snapshot)
    (records : List Record) :
    Valid (j.judgeAll s records) := by
  have hsame :=
    sameButCounters_countAll j (((j.gone s records).filter (·.disposition ≠ .unknown)).map fun _ =>
    Disposition.unknown)
  have hrow : ∀ n w, (j.judgeAll s records).row n = some w →
      rowOk w = true ∧ w.disposition ≠ .reserved := by
    intro n w hw
    rw [row_judgeAll] at hw
    obtain ⟨w₀, hw₀, rfl⟩ := Option.map_eq_some_iff.mp hw
    exact rowOk_judged (h.rows n w₀ hw₀) (h.not_reserved ha hw₀)
  refine ⟨?_, ?_, ?_, ?_, counters_countAll h.counters _, fun n w hw => (hrow n w hw).1, ?_⟩
  · exact hsame.imported ▸ hsame.scan ▸ h.imported_le
  · exact hsame.scan ▸ hsame.enumerated ▸ h.scan_le
  · exact hsame.enumerated ▸ h.enumerated_le
  · exact hsame.acknowledged ▸ hsame.lost ▸ h.acknowledged
  · exact attemptOk_none (hsame.attempt.trans ha) fun n w hw => (hrow n w hw).2

/-- Dropping rows keeps a journal without an attempt valid. -/
theorem Valid.dropGone (h : Valid j) (ha : j.attempt = none) (gone : List Work) :
    Valid (j.dropGone gone) := by
  have hrow : ∀ n w, (j.dropGone gone).row n = some w → j.row n = some w := by
    intro n w hw
    rcases row_dropGone_cases j gone n with hsame | ⟨hnone, -⟩
    · rw [← hsame]
      exact hw
    · rw [hnone] at hw
      cases hw
  exact ⟨h.imported_le, h.scan_le, h.enumerated_le, h.acknowledged, h.counters,
    fun n w hw => h.rows n w (hrow n w hw),
    attemptOk_none ha fun n w hw => h.not_reserved ha (hrow n w hw)⟩

/-- A manual retry keeps a journal valid. -/
theorem Valid.retried (h : Valid j) {sequences : List ℕ}
    (hselected : ∀ n ∈ sequences, ∃ w, j.row n = some w ∧ w.disposition.exhausted = true) :
    Valid { j with work := j.work.set (retryRow sequences) (seq_retryRow sequences) } := by
  have hcases : ∀ n w₀, j.row n = some w₀ →
      retryRow sequences w₀ = w₀ ∧ n ∉ sequences
        ∨ retryRow sequences w₀ = { w₀ with disposition := .pending, attempts := 0, retryAt := 0 }
          ∧ w₀.disposition.exhausted = true := by
    intro n w₀ hw₀
    by_cases hn : n ∈ sequences
    · obtain ⟨w, hw, he⟩ := hselected n hn
      rw [hw₀] at hw
      cases hw
      refine .inr ⟨?_, he⟩
      unfold retryRow
      rw [seq_of_row hw₀, if_pos (by simpa using hn)]
    · refine .inl ⟨?_, hn⟩
      unfold retryRow
      rw [seq_of_row hw₀, if_neg (by simpa using hn)]
  refine ⟨h.imported_le, h.scan_le, h.enumerated_le, h.acknowledged, h.counters, ?_, ?_⟩
  · intro n w hw
    rw [row_retry] at hw
    obtain ⟨w₀, hw₀, rfl⟩ := Option.map_eq_some_iff.mp hw
    rcases hcases n w₀ hw₀ with ⟨heq, -⟩ | ⟨heq, -⟩
    · rw [heq]
      exact h.rows n w₀ hw₀
    · obtain ⟨⟨h1, h2, -, -⟩, -⟩ := rowOk_iff.mp (h.rows n w₀ hw₀)
      rw [heq, rowOk_iff]
      simp [h1, h2, maxAttempts]
  · refine attemptOk_congr (j := j) ?_ rfl id id h.attempt
    intro n w hr
    rw [row_retry]
    constructor
    · intro hw
      obtain ⟨w₀, hw₀, rfl⟩ := Option.map_eq_some_iff.mp hw
      rcases hcases n w₀ hw₀ with ⟨heq, -⟩ | ⟨heq, -⟩
      · rw [heq]
        exact hw₀
      · rw [heq] at hr
        cases hr
    · intro hw
      rcases hcases n w hw with ⟨heq, -⟩ | ⟨-, he⟩
      · rw [hw, Option.map_some, heq]
      · rw [hr] at he
        cases he

/-- A reservation of pending rows of one kind. -/
theorem Valid.reserveAll (h : Valid j) (ha : j.attempt = none) {sequences : List ℕ} {now : ℕ}
    (hconfirmed : j.activationConfirmed = true) (hseeded : j.pointersSeeded = true)
    (hgood : goodSequences sequences = true) (hnow : now ≤ maxSequence)
    (hselected : ∀ n ∈ sequences, ∃ w, j.row n = some w ∧ reservable now w = true)
    (hkinds : (∀ n ∈ sequences, ∀ w, j.row n = some w → w.isPeer = true) ∨ sequences.length = 1) :
    Valid (j.reserveAll sequences now) := by
  have hcases : ∀ n w₀, j.row n = some w₀ →
      reserveRow sequences w₀ = w₀ ∧ n ∉ sequences
        ∨ reserveRow sequences w₀
            = { w₀ with disposition := .reserved, attempts := w₀.attempts + 1, retryAt := 0 }
          ∧ n ∈ sequences ∧ w₀.attempts < maxAttempts := by
    intro n w₀ hw₀
    by_cases hn : n ∈ sequences
    · obtain ⟨w, hw, hr⟩ := hselected n hn
      rw [hw₀] at hw
      cases hw
      simp only [reservable, Bool.and_eq_true, decide_eq_true_eq] at hr
      refine .inr ⟨?_, hn, hr.2⟩
      unfold reserveRow
      rw [seq_of_row hw₀, if_pos (by simpa using hn)]
    · refine .inl ⟨?_, hn⟩
      unfold reserveRow
      rw [seq_of_row hw₀, if_neg (by simpa using hn)]
  have hrow : ∀ n w, (j.reserveAll sequences now).row n = some w → rowOk w = true
      ∧ (w.disposition = .reserved → n ∈ sequences ∧ ∃ w₀, j.row n = some w₀
        ∧ w.isPeer = w₀.isPeer) := by
    intro n w hw
    rw [row_reserveAll] at hw
    obtain ⟨w₀, hw₀, rfl⟩ := Option.map_eq_some_iff.mp hw
    rcases hcases n w₀ hw₀ with ⟨heq, -⟩ | ⟨heq, hn, hlt⟩
    · rw [heq]
      exact ⟨h.rows n w₀ hw₀, fun hres => absurd hres (h.not_reserved ha hw₀)⟩
    · obtain ⟨⟨h1, h2, -, -⟩, -⟩ := rowOk_iff.mp (h.rows n w₀ hw₀)
      refine ⟨?_, fun _ => ⟨hn, w₀, hw₀, by rw [heq]; rfl⟩⟩
      rw [heq, rowOk_iff]
      simp [h1, h2]
      omega
  have hmember : ∀ n ∈ sequences, ∃ w, (j.reserveAll sequences now).row n = some w
      ∧ w.disposition = .reserved := by
    intro n hn
    obtain ⟨w, hw, -⟩ := hselected n hn
    rcases hcases n w hw with ⟨-, hnot⟩ | ⟨heq, -⟩
    · exact absurd hn hnot
    · refine ⟨reserveRow sequences w, ?_, by rw [heq]⟩
      rw [row_reserveAll, hw, Option.map_some]
  simp only [goodSequences, Bool.and_eq_true, decide_eq_true_eq] at hgood
  obtain ⟨⟨⟨hlen, hmax⟩, -⟩, -⟩ := hgood
  have hne : sequences ≠ [] := by
    rintro rfl
    simp at hlen
  refine ⟨h.imported_le, h.scan_le, h.enumerated_le, h.acknowledged,
    counters_count h.counters _ _, fun n w hw => (hrow n w hw).1, ?_⟩
  refine (attemptOk_some rfl).mpr ⟨hne, hmax, hnow, hconfirmed, hseeded, ?_, ?_⟩
  · obtain ⟨n, hn⟩ := List.exists_mem_of_ne_nil _ hne
    rw [oneKind_iff ⟨n, hmember n hn⟩]
    rcases hkinds with hall | hone
    · refine .inl fun m w hw hres => ?_
      obtain ⟨hm, w₀, hw₀, hpeer⟩ := (hrow m w hw).2 hres
      rw [hpeer]
      exact hall m hm w₀ hw₀
    · obtain ⟨m, rfl⟩ := List.length_eq_one_iff.mp hone
      refine .inr ⟨m, fun n w hw hres => ?_⟩
      exact List.mem_singleton.mp ((hrow n w hw).2 hres).1
  · intro n
    refine ⟨hmember n, ?_⟩
    rintro ⟨w, hw, hres⟩
    exact ((hrow n w hw).2 hres).1

/-! ## What can be refused -/

/-- A valid journal commits. -/
theorem commit_of_valid (h : Valid j) : j.commit = .ok j := commit_eq_ok.mpr ⟨valid_iff.mpr h, rfl⟩

/-- The check of an integer fails outside its bounds only. -/
theorem integer_eq_error {n m : ℕ} {e : Exc} (h : integer n m = .error e) :
    e = .journal .invalidCounter ∧ ¬ (m ≤ n ∧ n ≤ maxSequence) := by
  unfold integer at h
  split at h
  · cases h
  · next hn => exact ⟨(Except.error.inj h).symm, hn⟩

/-- An insertion fails on a full table only. -/
theorem insert_eq_error {t : Works} {w : Work} {e : Exc} (h : t.insert w = .error e) :
    e = .journal .capacity := by
  unfold Works.insert at h
  split at h
  · cases h
  · exact (Except.error.inj h).symm

/-- Why a record is not admitted. -/
theorem addRecord_eq_error {historical : Bool} {r : Record} {e : Exc}
    (h : addRecord historical j r = .error e) :
    e = .journal .invalidCounter ∧ ¬ (1 ≤ r.seq ∧ r.seq ≤ maxSequence)
      ∨ e = .journal .sourceChanged ∧ (∃ old, j.row r.seq = some old ∧ old.origin ≠ r.origin)
      ∨ e = .journal .capacity := by
  rcases except_bind_eq_error.mp h with h | ⟨_, -, h⟩
  · exact .inl (integer_eq_error h)
  · split at h
    · cases h
    · rcases hold : j.work.1.find r.seq with _ | old
      · rw [hold] at h
        rcases except_bind_eq_error.mp h with h | ⟨_, -, h⟩
        · exact .inr (.inr (insert_eq_error h))
        · cases h
      · rw [hold] at h
        simp only at h
        split at h
        · cases h
        · next hne =>
          cases h
          exact .inr (.inl ⟨rfl, old, hold, hne⟩)

/-- The first record that is not admitted. -/
theorem add_eq_error {historical : Bool} {records : List Record} {e : Exc}
    (h : j.add records historical = .error e) :
    ∃ pre r post m, records = pre ++ r :: post ∧ Admitted historical pre j m
      ∧ addRecord historical m r = .error e := by
  induction records generalizing j with
  | nil => cases h
  | cons r records ih =>
    rw [add, List.foldlM_cons] at h
    rcases except_bind_eq_error.mp h with h | ⟨m, hm, h⟩
    · exact ⟨[], r, records, j, rfl, .nil historical j, h⟩
    · obtain ⟨pre, r', post, m', rfl, hadm, he⟩ := ih h
      exact ⟨r :: pre, r', post, m', rfl, (admitted_addRecord hm).trans hadm, he⟩

/-- Adding records counts nothing. -/
theorem counters_add {historical : Bool} {records : List Record}
    (h : j.add records historical = .ok k) :
    k.counters = j.counters := by
  induction records generalizing j with
  | nil =>
    obtain rfl : j = k := Except.ok.inj h
    rfl
  | cons r records ih =>
    rw [add, List.foldlM_cons] at h
    obtain ⟨m, hm, h⟩ := except_bind_eq_ok.mp h
    refine (ih h).trans ?_
    obtain ⟨_, -, hm⟩ := except_bind_eq_ok.mp hm
    split at hm
    · cases hm
      rfl
    · split at hm
      · split at hm
        · cases hm
          rfl
        · cases hm
      · obtain ⟨_, -, hm⟩ := except_bind_eq_ok.mp hm
        cases hm
        rfl

/-- Why a scan is not taken in: its form, or a record that is not admitted. -/
theorem ingest_eq_error (hv : Valid j) {s : Scanned} {e : Exc} (h : j.ingest s = .error e) :
    e = .journal .invalidCounter ∧ ¬ (j.scanThrough ≤ s.through ∧ s.through ≤ maxSequence)
      ∨ e = .journal .sourceChanged ∧
        ((scanLimit < s.records.length || s.records.any (s.through < ·.seq)) = true
          ∨ (scanLimit < s.ignored.length + s.records.length
            || s.ignored.any (fun n => n = 0 || s.through < n) || !decide s.ignored.Nodup
            || s.ignored.any (fun n => s.records.any (·.seq = n))) = true)
      ∨ j.add s.records false = .error e := by
  rcases except_bind_eq_error.mp h with h | ⟨_, hthrough, h⟩
  · exact .inl (integer_eq_error h)
  · rcases except_bind_eq_error.mp h with h | ⟨_, -, h⟩
    · obtain ⟨hc, rfl⟩ := raiseIf_eq_error.mp h
      exact .inr (.inl ⟨rfl, .inl hc⟩)
    · rcases except_bind_eq_error.mp h with h | ⟨_, -, h⟩
      · obtain ⟨hc, rfl⟩ := raiseIf_eq_error.mp h
        exact .inr (.inl ⟨rfl, .inr hc⟩)
      · rcases except_bind_eq_error.mp h with h | ⟨m, hm, h⟩
        · rcases except_bind_eq_error.mp h with h | ⟨_, -, h⟩
          · exact .inr (.inr h)
          · cases h
        · obtain ⟨m', hm', hcount⟩ := except_bind_eq_ok.mp hm
          cases hcount
          have hadm := (admitted_add hm').count (sameButCounters_count m' .ignored
            (s.ignored.filter (j.enumeratedThrough < ·)).length)
          have hcounters : ∀ c, m'.counters c ≤ maxSequence := by
            rw [counters_add hm']
            exact hv.counters
          have hvm := hv.admitted hadm (counters_count hcounters _ _)
          obtain ⟨hlow, hhigh⟩ := integer_eq_ok.mp hthrough
          rcases except_bind_eq_error.mp h with h | ⟨k, hk, h⟩
          · rcases except_bind_eq_error.mp h with h | ⟨_, -, h⟩
            · obtain ⟨-, hnot⟩ := integer_eq_error h
              rw [hadm.scan] at hnot
              exact absurd ⟨hlow, hhigh⟩ hnot
            · cases h
          · obtain ⟨-, rfl⟩ := advance_some.mp hk
            have hmax : max (m'.count .ignored
                (s.ignored.filter (j.enumeratedThrough < ·)).length).enumeratedThrough s.through
                  ≤ maxSequence := max_le hvm.enumerated_le hhigh
            rw [commit_of_valid (hvm.advanceTo (Nat.le_max_left _ _) hmax)] at h
            cases h

/-- Why a seeding is refused. -/
theorem seedPointers_eq_error (hv : Valid j) {records : List Record} {e : Exc}
    (h : j.seedPointers records = .error e) :
    j.pointersSeeded = false ∧
      (e = .journal .sourceChanged ∧ (pointerLimit < records.length ∨ ∃ r ∈ records,
        r.origin = .peer)
        ∨ j.add records true = .error e) := by
  unfold seedPointers at h
  split at h
  · rw [commit_of_valid hv] at h
    cases h
  · next hs =>
    refine ⟨by simpa using hs, ?_⟩
    rcases except_bind_eq_error.mp h with h | ⟨_, -, h⟩
    · obtain ⟨hc, rfl⟩ := raiseIf_eq_error.mp h
      refine .inl ⟨rfl, ?_⟩
      simpa [Bool.or_eq_true, List.any_eq_true] using hc
    · rcases except_bind_eq_error.mp h with h | ⟨m, hm, h⟩
      · exact .inr h
      · have hcounters : ∀ c, m.counters c ≤ maxSequence := by
          rw [counters_add hm]
          exact hv.counters
        have hvm := hv.admitted (admitted_add hm) hcounters
        have hvk : Valid { m with pointersSeeded := true } :=
          ⟨hvm.imported_le, hvm.scan_le, hvm.enumerated_le, hvm.acknowledged,
            hvm.counters, hvm.rows,
            attemptOk_congr (j := m) (fun _ _ _ => Iff.rfl) rfl id (fun _ => rfl) hvm.attempt⟩
        rw [commit_of_valid hvk] at h
        cases h

/-- Resolving fails without an attempt or at a time that is no safe integer. -/
theorem resolve_eq_error (hv : Valid j) {o : Outcome} {now : ℕ} {e : Exc}
    (h : j.resolve o now = .error e) :
    e = .journal .invalidCounter ∧ maxSequence < now ∨ e = .journal .noAttempt
    ∧ j.attempt = none := by
  rcases except_bind_eq_error.mp h with h | ⟨_, -, h⟩
  · obtain ⟨he, hn⟩ := integer_eq_error h
    exact .inl ⟨he, by omega⟩
  · rcases ha : j.attempt with _ | a
    · rw [ha] at h
      cases h
      exact .inr ⟨rfl, rfl⟩
    · rw [ha] at h
      have hvs := hv.settleAll ha o now
      rcases except_bind_eq_error.mp h with h | ⟨k, hk, h⟩
      · cases h
      · rw [advance_none] at hk
        cases hk
        rw [commit_of_valid (hvs.advanceTo le_rfl hvs.enumerated_le)] at h
        cases h

/-- A reconciliation fails in an attempt or on a row the sources disagree about. -/
theorem reconcile_eq_error (hv : Valid j) {s : Snapshot} {records : List Record} {e : Exc}
    (h : j.reconcile s records = .error e) :
    e = .journal .attemptInProgress ∧ j.attempt ≠ none ∨ ∃ w ∈ j.rows, judge s records w
    = .error e := by
  rcases except_bind_eq_error.mp h with h | ⟨_, hopen, h⟩
  · obtain ⟨hc, rfl⟩ := raiseIf_eq_error.mp h
    refine .inl ⟨rfl, ?_⟩
    rw [Option.isSome_iff_ne_none] at hc
    exact hc
  · rcases except_bind_eq_error.mp h with h | ⟨_, -, h⟩
    · exact .inr (except_mapM_eq_error h)
    · have hnone := raiseIf_eq_ok.mp hopen
      simp only [Option.isSome_eq_false_iff, Option.isNone_iff_eq_none] at hnone
      have hvs := hv.judgeAll hnone s records
      rcases except_bind_eq_error.mp h with h | ⟨k, hk, h⟩
      · cases h
      · rw [advance_none] at hk
        cases hk
        have hva := hvs.advanceTo le_rfl hvs.enumerated_le
        have hnone' :
          ((j.judgeAll s records).advanceTo (j.judgeAll s records).enumeratedThrough).attempt
            = none := by
          rw [(advanced_advanceTo (j.judgeAll s records) le_rfl).attempt]
          exact (sameIdentity_judgeAll j s records).2.2.2.trans hnone
        rw [commit_of_valid (hva.dropGone hnone' _)] at h
        cases h

/-- A manual retry fails on its selection only. -/
theorem retry_eq_error (hv : Valid j) {sequences : List ℕ} {e : Exc}
    (h : j.retry sequences = .error e) :
    e = .journal .invalidRetry := by
  rcases except_bind_eq_error.mp h with h | ⟨_, -, h⟩
  · exact (raiseIf_eq_error.mp h).2.symm
  · rcases except_bind_eq_error.mp h with h | ⟨_, hrows, h⟩
    · exact (raiseIf_eq_error.mp h).2.symm
    · have hrows' := raiseIf_eq_ok.mp hrows
      simp only [Bool.not_eq_false', List.all_map, List.all_eq_true] at hrows'
      rw [commit_of_valid (hv.retried fun n hn => (Option.any_eq_true _ _).mp (hrows' n hn))] at h
      cases h

/-- Why a reservation is refused; never because of what it would commit. -/
theorem reserve_eq_error (hv : Valid j) {sequences : List ℕ} {now : ℕ} {e : Exc}
    (h : j.reserve sequences now = .error e) :
    e = .journal .invalidCounter ∧ maxSequence < now
      ∨ e = .journal .notReady ∧ (j.activationConfirmed = false ∨ j.pointersSeeded = false)
      ∨ e = .journal .attemptInProgress ∧ j.attempt ≠ none
      ∨ e = .journal .invalidReservation ∧ ¬ (goodSequences sequences = true
        ∧ (∀ n ∈ sequences, ∃ w, j.row n = some w ∧ reservable now w = true)
        ∧ ((∀ n ∈ sequences, ∀ w, j.row n = some w → w.isPeer = true) ∨ sequences.length = 1)) := by
  have hselected : (sequences.map fun n => j.work.1.find n).all (fun w => w.any (reservable now))
    = true
      ↔ ∀ n ∈ sequences, ∃ w, j.row n = some w ∧ reservable now w = true := by
    simp only [List.all_map, List.all_eq_true, Function.comp_apply, Option.any_eq_true]
    exact Iff.rfl
  rcases except_bind_eq_error.mp h with h | ⟨_, hnow, h⟩
  · obtain ⟨he, hn⟩ := integer_eq_error h
    exact .inl ⟨he, by omega⟩
  rcases except_bind_eq_error.mp h with h | ⟨_, hgood, h⟩
  · obtain ⟨hc, rfl⟩ := raiseIf_eq_error.mp h
    refine .inr (.inr (.inr ⟨rfl, fun hall => ?_⟩))
    rw [hall.1] at hc
    cases hc
  rcases except_bind_eq_error.mp h with h | ⟨_, hready, h⟩
  · obtain ⟨hc, rfl⟩ := raiseIf_eq_error.mp h
    refine .inr (.inl ⟨rfl, ?_⟩)
    simpa using hc
  rcases except_bind_eq_error.mp h with h | ⟨_, hopen, h⟩
  · obtain ⟨hc, rfl⟩ := raiseIf_eq_error.mp h
    rw [Option.isSome_iff_ne_none] at hc
    exact .inr (.inr (.inl ⟨rfl, hc⟩))
  rcases except_bind_eq_error.mp h with h | ⟨_, hrows, h⟩
  · obtain ⟨hc, rfl⟩ := raiseIf_eq_error.mp h
    refine .inr (.inr (.inr ⟨rfl, fun hall => ?_⟩))
    rw [hselected.mpr hall.2.1] at hc
    cases hc
  have hrows' := hselected.mp (by simpa using raiseIf_eq_ok.mp hrows)
  have hkinds : (sequences.map fun n => j.work.1.find n).all (fun w => w.any Work.isPeer) = true
      ↔ ∀ n ∈ sequences, ∀ w, j.row n = some w → w.isPeer = true := by
    simp only [List.all_map, List.all_eq_true, Function.comp_apply, Option.any_eq_true]
    refine forall₂_congr fun n hn => ?_
    obtain ⟨w, hw, -⟩ := hrows' n hn
    constructor
    · rintro ⟨w', hw', hp⟩ v hv
      have hv' : j.work.1.find n = some v := hv
      rw [hv'] at hw'
      cases hw'
      exact hp
    · intro hall
      exact ⟨w, hw, hall w hw⟩
  rcases except_bind_eq_error.mp h with h | ⟨_, hkind, h⟩
  · obtain ⟨hc, rfl⟩ := raiseIf_eq_error.mp h
    refine .inr (.inr (.inr ⟨rfl, fun hall => ?_⟩))
    rcases hall.2.2 with hpeer | hone
    · rw [hkinds.mpr hpeer] at hc
      cases hc
    · rw [List.length_map, hone] at hc
      simp at hc
  exfalso
  have hready' := raiseIf_eq_ok.mp hready
  simp only [Bool.or_eq_false_iff, Bool.not_eq_false'] at hready'
  have hnone := raiseIf_eq_ok.mp hopen
  simp only [Option.isSome_eq_false_iff, Option.isNone_iff_eq_none] at hnone
  have hkind' := raiseIf_eq_ok.mp hkind
  simp only [Bool.not_eq_false', Bool.or_eq_true, hkinds, List.length_map,
    decide_eq_true_eq] at hkind'
  have hvr := hv.reserveAll hnone hready'.1 hready'.2 (by simpa using raiseIf_eq_ok.mp hgood)
    (integer_eq_ok.mp hnow).2 hrows' hkind'
  rcases except_bind_eq_error.mp h with h | ⟨_, -, h⟩
  · rw [commit_of_valid hvr] at h
    cases h
  · cases h

/-- A confirmation fails on a mismatch only. -/
theorem confirmActivation_eq_error (hv : Valid j) {evidence : Activation} {e : Exc}
    (h : j.confirmActivation evidence = .error e) : e = .journal .activationMismatch := by
  rcases except_bind_eq_error.mp h with h | ⟨_, -, h⟩
  · exact (raiseIf_eq_error.mp h).2.symm
  · have hvk : Valid { j with activationConfirmed := true } :=
      ⟨hv.imported_le, hv.scan_le, hv.enumerated_le, hv.acknowledged, hv.counters, hv.rows,
        attemptOk_congr (j := j) (fun _ _ _ => Iff.rfl) rfl (fun _ => rfl) id hv.attempt⟩
    rw [commit_of_valid hvk] at h
    cases h

/-- A health acknowledgement is never refused. -/
theorem acknowledgeHealth_eq_ok (hv : Valid j) : ∃ k, j.acknowledgeHealth = .ok k := by
  refine ⟨_, commit_of_valid ⟨hv.imported_le, hv.scan_le, hv.enumerated_le, ?_, ?_, hv.rows, ?_⟩⟩
  · intro hack
    rcases Bool.or_eq_true_iff.mp hack with h | h
    · exact hv.acknowledged h
    · exact h
  · intro c
    exact Nat.zero_le _
  · exact attemptOk_congr (j := j) (fun _ _ _ => Iff.rfl) rfl id id hv.attempt

/-! ## Calls -/

/-- A call of an operation that changes the journal. -/
inductive Call where
  | ingest (s : Scanned)
  | seedPointers (records : List Record)
  | reserve (sequences : List ℕ) (now : ℕ)
  | resolve (outcome : Outcome) (now : ℕ)
  | recoverAttempt (now : ℕ)
  | retry (sequences : List ℕ)
  | reconcile (s : Snapshot) (records : List Record)
  | confirmActivation (evidence : Activation)
  | acknowledgeHealth

/-- The transaction of a call. -/
def Call.run (j : Journal) : Call → Except Exc Journal
  | .ingest s => j.ingest s
  | .seedPointers records => j.seedPointers records
  | .reserve sequences now => (j.reserve sequences now).map Prod.snd
  | .resolve outcome now => j.resolve outcome now
  | .recoverAttempt now => j.recoverAttempt now
  | .retry sequences => j.retry sequences
  | .reconcile s records => j.reconcile s records
  | .confirmActivation evidence => j.confirmActivation evidence
  | .acknowledgeHealth => j.acknowledgeHealth

/-- The journal after a call, and what the call raised: an exception rolls the transaction back. -/
def Call.transact (c : Call) (j : Journal) : Journal × Option Exc :=
  match c.run j with
  | .ok k => (k, none)
  | .error e => (j, some e)

/-- The refusals of the operations' own checks. -/
def checks : List JournalCode :=
  [.invalidCounter, .sourceChanged, .sourceMissing, .capacity, .notReady, .attemptInProgress,
    .invalidReservation, .noAttempt, .invalidRetry, .activationMismatch]

/-- Adding records fails with one of the checks. -/
theorem add_refusal {historical : Bool} {records : List Record} {e : Exc}
    (h : j.add records historical = .error e) : ∃ c ∈ checks, e = .journal c := by
  obtain ⟨_, _, _, _, -, -, h⟩ := add_eq_error h
  rcases addRecord_eq_error h with ⟨rfl, -⟩ | ⟨rfl, -⟩ | rfl
  · exact ⟨_, by simp [checks], rfl⟩
  · exact ⟨_, by simp [checks], rfl⟩
  · exact ⟨_, by simp [checks], rfl⟩

/-- Resolving fails with one of the checks. -/
theorem resolve_refusal (hv : Valid j) {o : Outcome} {now : ℕ} {e : Exc}
    (h : j.resolve o now = .error e) :
    ∃ c ∈ checks, e = .journal c := by
  rcases resolve_eq_error hv h with ⟨rfl, -⟩ | ⟨rfl, -⟩
  · exact ⟨_, by simp [checks], rfl⟩
  · exact ⟨_, by simp [checks], rfl⟩

/-- Judging a row fails when its source has changed or is missing. -/
theorem judge_refusal {s : Snapshot} {records : List Record} {w : Work} {e : Exc}
    (h : judge s records w = .error e) : e = .journal .sourceChanged
    ∨ e = .journal .sourceMissing := by
  unfold judge at h
  repeat' split at h
  all_goals cases h
  · exact .inl rfl
  · exact .inr rfl
  · exact .inr rfl

/-- **From a valid journal a call is refused by a check of its own, or not at all.** -/
theorem Call.refusal (hv : Valid j) {c : Call} {e : Exc} (h : c.run j = .error e) :
    ∃ code ∈ checks, e = .journal code := by
  cases c with
  | ingest s =>
    rcases ingest_eq_error hv h with ⟨rfl, -⟩ | ⟨rfl, -⟩ | h
    · exact ⟨_, by simp [checks], rfl⟩
    · exact ⟨_, by simp [checks], rfl⟩
    · exact add_refusal h
  | seedPointers records =>
    rcases (seedPointers_eq_error hv h).2 with ⟨rfl, -⟩ | h
    · exact ⟨_, by simp [checks], rfl⟩
    · exact add_refusal h
  | reserve sequences now =>
    rcases hr : j.reserve sequences now with e' | p
    · simp only [Call.run, hr, Except.map] at h
      obtain rfl : e' = e := Except.error.inj h
      rcases reserve_eq_error hv hr with ⟨rfl, -⟩ | ⟨rfl, -⟩ | ⟨rfl, -⟩ | ⟨rfl, -⟩
      all_goals exact ⟨_, by simp [checks], rfl⟩
    · simp only [Call.run, hr, Except.map] at h
      cases h
  | resolve outcome now => exact resolve_refusal hv h
  | recoverAttempt now =>
    simp only [Call.run, Journal.recoverAttempt] at h
    split at h
    · cases h
    · exact resolve_refusal hv h
  | retry sequences => exact ⟨_, by simp [checks], retry_eq_error hv h⟩
  | reconcile s records =>
    rcases reconcile_eq_error hv h with ⟨rfl, -⟩ | ⟨w, -, h⟩
    · exact ⟨_, by simp [checks], rfl⟩
    · rcases judge_refusal h with rfl | rfl
      · exact ⟨_, by simp [checks], rfl⟩
      · exact ⟨_, by simp [checks], rfl⟩
  | confirmActivation evidence => exact ⟨_, by simp [checks], confirmActivation_eq_error hv h⟩
  | acknowledgeHealth =>
    obtain ⟨k, hk⟩ := acknowledgeHealth_eq_ok hv
    rw [Call.run, hk] at h
    cases h

/-- What a call commits is valid. -/
theorem Call.valid (hv : j.valid = true) {c : Call} (h : c.run j = .ok k) : k.valid = true := by
  cases c with
  | ingest s =>
    obtain ⟨_, -, -, hk, -⟩ := ingest_eq_ok h
    exact hk
  | seedPointers records => exact (seedPointers_eq_ok h).1
  | reserve sequences now =>
    rcases hr : j.reserve sequences now with e | ⟨rows, k'⟩
    · simp only [Call.run, hr, Except.map] at h
      cases h
    · simp only [Call.run, hr, Except.map] at h
      obtain rfl : k' = k := Except.ok.inj h
      exact (reserve_eq_ok hr).2.2.2.1
  | resolve outcome now =>
    obtain ⟨_, -, -, hk, -⟩ := resolve_eq_ok h
    exact hk
  | recoverAttempt now =>
    simp only [Call.run, Journal.recoverAttempt] at h
    split at h
    · obtain rfl : j = k := Except.ok.inj h
      exact hv
    · obtain ⟨_, -, -, hk, -⟩ := resolve_eq_ok h
      exact hk
  | retry sequences => exact (retry_eq_ok h).1
  | reconcile s records => exact (reconcile_eq_ok h).2.1
  | confirmActivation evidence =>
    obtain ⟨_, -, h⟩ := except_bind_eq_ok.mp h
    obtain ⟨hk, rfl⟩ := commit_eq_ok.mp h
    exact hk
  | acknowledgeHealth =>
    obtain ⟨hk, rfl⟩ := commit_eq_ok.mp h
    exact hk

/-! ## What is due -/

/-- What is selected: due rows, few enough, all from peers or one row alone. -/
theorem sublist_selection (now : ℕ) (rows : List Work) :
    ∃ told : List Work, told.Sublist rows ∧ selection now rows = told.map Work.seq
    ∧ told.length ≤ maxMembers
      ∧ (∀ w ∈ told, w.retryAt ≤ now) ∧ ((∀ w ∈ told, w.isPeer = true) ∨ told.length = 1) := by
  rcases rows with _ | ⟨first, rest⟩
  · exact ⟨[], List.Sublist.refl _, rfl, Nat.zero_le _, by simp, .inl (by simp)⟩
  · unfold selection
    by_cases hwait : now < first.retryAt
    · exact ⟨[], List.nil_sublist _, by simp [hwait], Nat.zero_le _, by simp, .inl (by simp)⟩
    · by_cases hpeer : first.isPeer = true
      · let run := (first :: rest).takeWhile fun w => w.isPeer && w.retryAt ≤ now
        have hrun : ∀ w ∈ run.take maxMembers, w.isPeer = true ∧ w.retryAt ≤ now := by
          intro w hw
          have hall := List.mem_takeWhile_imp (List.mem_of_mem_take hw)
          simpa using hall
        refine ⟨run.take maxMembers, (List.take_sublist _ _).trans (List.takeWhile_sublist _), ?_,
          List.length_take_le _ _, fun w hw => (hrun w hw).2, .inl fun w hw => (hrun w hw).1⟩
        simp [hwait, hpeer, run]
      · refine ⟨[first], (List.nil_sublist rest).cons_cons first,
          by simp [hwait, hpeer], ?_, ?_, .inr rfl⟩
        · simp [maxMembers]
        · intro w hw
          rw [List.mem_singleton.mp hw]
          exact not_lt.mp hwait

/-- **What is due can be reserved.** -/
theorem reserve_due (hv : Valid j) (hconfirmed : j.activationConfirmed = true)
    (hseeded : j.pointersSeeded = true) (hnone : j.attempt = none) {now : ℕ}
    {memoryAvailable : Bool}
    {sequences : List ℕ} (hdue : j.due now memoryAvailable = .ok sequences) (hne : sequences ≠ []) :
    ∃ p, j.reserve sequences now = .ok p := by
  obtain ⟨_, hnow, hsel⟩ := except_bind_eq_ok.mp hdue
  obtain ⟨told, hsub, heq, hlen, hretry, hkinds⟩ := sublist_selection now (j.ready memoryAvailable)
  obtain rfl : told.map Work.seq = sequences := heq.symm.trans (Except.ok.inj hsel)
  have hrow : ∀ w ∈ told, j.row w.seq = some w ∧ w.disposition = .pending := by
    intro w hw
    have hready := List.mem_filter.mp (hsub.subset hw)
    simp only [Bool.and_eq_true, decide_eq_true_eq] at hready
    exact ⟨row_of_mem hready.1, hready.2.1⟩
  have hnodup : (told.map Work.seq).Nodup := by
    have hrows : (j.rows.map Work.seq).Nodup :=
      ((List.mergeSort_perm j.work.1.rows _).map Work.seq).nodup_iff.mpr j.work.1.nodup
    exact hrows.sublist ((hsub.trans List.filter_sublist).map Work.seq)
  rcases hr : j.reserve (told.map Work.seq) now with e | p
  · exfalso
    rcases reserve_eq_error hv hr with ⟨-, h⟩ | ⟨-, h⟩ | ⟨-, h⟩ | ⟨-, h⟩
    · have := (integer_eq_ok.mp hnow).2
      omega
    · simp [hconfirmed, hseeded] at h
    · exact h hnone
    · apply h
      refine ⟨?_, ?_, ?_⟩
      · have hpos : ∀ n ∈ told.map Work.seq, 0 < n := by
          intro n hn
          obtain ⟨w, hw, rfl⟩ := List.mem_map.mp hn
          exact (RowOk.of (hv.rows _ w (hrow w hw).1)).positive
        have hone : 1 ≤ (told.map Work.seq).length := List.length_pos_iff.mpr hne
        simp only [goodSequences, Bool.and_eq_true, decide_eq_true_eq, List.all_eq_true]
        exact ⟨⟨⟨hone, by simpa using hlen⟩, hpos⟩, hnodup⟩
      · intro n hn
        obtain ⟨w, hw, rfl⟩ := List.mem_map.mp hn
        have hlt := (RowOk.of (hv.rows _ w (hrow w hw).1)).pending (hrow w hw).2
        exact ⟨w, (hrow w hw).1, by simp [reservable, (hrow w hw).2, hretry w hw, hlt]⟩
      · rcases hkinds with hall | hone
        · left
          intro n hn w hw
          obtain ⟨v, hv', rfl⟩ := List.mem_map.mp hn
          rw [(hrow v hv').1] at hw
          cases hw
          exact hall _ hv'
        · exact .inr (by simpa using hone)
  · exact ⟨p, rfl⟩

/-- **The journal never invalidates itself.** From a valid journal, whatever is called with whatever
arguments: the journal after the call is valid, the call does not find that it needs recovery, and a
call that raises leaves the journal as it was. And what is due can be reserved. -/
theorem journal_stays_valid (j : Journal) (hv : j.valid = true) :
    (∀ c : Call, (c.transact j).1.valid = true
        ∧ (∀ e, (c.transact j).2 = some e → (c.transact j).1 = j ∧ ∃ code ∈ checks,
          e = .journal code)
        ∧ (c.transact j).2 ≠ some (.journal .recoveryRequired))
      ∧ (j.activationConfirmed = true → j.pointersSeeded = true → j.attempt = none →
        ∀ now memoryAvailable sequences, j.due now memoryAvailable = .ok sequences →
        sequences ≠ [] →
          ((Call.reserve sequences now).transact j).2 = none) := by
  have hvalid := valid_iff.mp hv
  constructor
  · intro c
    rcases hc : c.run j with e | k
    · obtain ⟨code, hmem, rfl⟩ := Call.refusal hvalid hc
      simp only [Call.transact, hc]
      refine ⟨hv, ?_, ?_⟩
      · intro e he
        cases he
        exact ⟨trivial, code, hmem, rfl⟩
      · intro he
        cases he
        simp [checks] at hmem
    · simp only [Call.transact, hc]
      exact ⟨Call.valid hv hc, by simp, by simp⟩
  · intro hconfirmed hseeded hnone now memoryAvailable sequences hdue hne
    obtain ⟨p, hp⟩ := reserve_due hvalid hconfirmed hseeded hnone hdue hne
    simp [Call.transact, Call.run, hp, Except.map]

/-- A journal with one message that is due. -/
def oneDue : Journal :=
  { initial (.codex (.ofDigit 64 0xa)) (.ofDigit 32 1) 0 false with
    enumeratedThrough := 1
    pointersSeeded := true
    activationConfirmed := true
    work := ⟨Table.empty.put (fresh ⟨1, .peer⟩), by decide⟩ }

/-- The message is due, and can be reserved. -/
theorem journal_stays_valid_due : oneDue.due 7 false = .ok [1]
    ∧ ((Call.reserve [1] 7).transact oneDue).2 = none := by
  have hdue : oneDue.due 7 false = .ok [1] := by decide +kernel
  have hvalid : oneDue.valid = true := by decide +kernel
  exact ⟨hdue, (journal_stays_valid oneDue hvalid).2 rfl rfl rfl 7 false [1] hdue (by decide)⟩

end PeerBridge.Notify.Journal
