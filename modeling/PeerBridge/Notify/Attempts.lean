import PeerBridge.Notify.Steps

/-!
# Told once, tried at most three times

What the trace of a run of the notifier can look like, whatever fails, is cancelled or dies on the
way.

* Every call of the provider carries exactly the rows of a reservation that is committed and not yet
  resolved, and no reservation is committed while another is open (`Sane`).
* A sequence is in at most `maxAttempts` calls since it was admitted or last retried (`callsSince`).
* A sequence whose delivery has been committed is in no later call.

The invariant has two halves. `Accounted` ties the trace to the journal: every stage of the worker
keeps it, wherever it is run. `Ordered` ties the delivery loop to the worker's queue: while the loop
renders or calls, only an operator's requests can be waiting, and these leave an open attempt alone.
-/

namespace PeerBridge.Notify

open Py Relational Effects Transition PeerBridge.Service PeerBridge.Bridge

variable {caps : Capabilities}

/-! ## Reading a trace -/

/-- The rows of the reservation that is still open. -/
def openAttempt : List Obs → Option (List ℕ)
  | [] => none
  | .reserved rows :: _ => some rows
  | .resolved .. :: _ => none
  | _ :: t => openAttempt t

/-- The provider has been called since the last reservation. -/
def callMade : List Obs → Bool
  | [] => false
  | .reserved _ :: _ => false
  | .resolved .. :: _ => false
  | .called _ :: _ => true
  | _ :: t => callMade t

/-- The calls with a sequence since it was last retried. -/
def callsSince (n : ℕ) : List Obs → ℕ
  | [] => 0
  | .called rows :: t => callsSince n t + if n ∈ rows then 1 else 0
  | .retried rows :: t => if n ∈ rows then 0 else callsSince n t
  | _ :: t => callsSince n t

/-- A delivery of the sequence has been committed. -/
def Delivered (n : ℕ) (t : List Obs) : Prop := ∃ rows, .resolved .delivered rows ∈ t ∧ n ∈ rows

/-- Calls carry open reservations of rows not yet delivered, and reservations do not overlap. -/
def Sane : List Obs → Prop
  | [] => True
  | .called rows :: t =>
      (∃ reserved, openAttempt t = some reserved ∧ ∀ n, n ∈ rows ↔ n ∈ reserved)
        ∧ (∀ n ∈ rows, ¬ Delivered n t) ∧ Sane t
  | .reserved _ :: t => openAttempt t = none ∧ Sane t
  | _ :: t => Sane t

/-- An observation that says nothing about attempts. -/
def Obs.silent : Obs → Bool
  | .seeded _ | .scanned .. | .folded _ => true
  | _ => false

/-- The observation of lost rows is silent. -/
theorem silent_lost (m j : Journal) : ∀ o ∈ lost m j, o.silent = true := by
  intro o ho
  obtain ⟨w, -, rfl⟩ := List.mem_map.mp ho
  rfl

section silent

variable {s t : List Obs}

/-- Silent observations open and close no attempt. -/
theorem openAttempt_silent (h : ∀ o ∈ s, o.silent = true) :
    openAttempt (s ++ t) = openAttempt t := by
  induction s with
  | nil => rfl
  | cons o s ih =>
    have ho := h o (List.mem_cons_self ..)
    have ih' := ih fun p hp => h p (List.mem_cons_of_mem _ hp)
    cases o <;> first | exact ih' | cases ho

/-- Silent observations are no calls. -/
theorem callMade_silent (h : ∀ o ∈ s, o.silent = true) : callMade (s ++ t) = callMade t := by
  induction s with
  | nil => rfl
  | cons o s ih =>
    have ho := h o (List.mem_cons_self ..)
    have ih' := ih fun p hp => h p (List.mem_cons_of_mem _ hp)
    cases o <;> first | exact ih' | cases ho

/-- Silent observations count no calls. -/
theorem callsSince_silent (h : ∀ o ∈ s, o.silent = true) (n : ℕ) :
    callsSince n (s ++ t) = callsSince n t := by
  induction s with
  | nil => rfl
  | cons o s ih =>
    have ho := h o (List.mem_cons_self ..)
    have ih' := ih fun p hp => h p (List.mem_cons_of_mem _ hp)
    cases o <;> first | exact ih' | cases ho

/-- Silent observations in front of a trace keep it sane. -/
theorem sane_silent (h : ∀ o ∈ s, o.silent = true) : Sane (s ++ t) ↔ Sane t := by
  induction s with
  | nil => exact Iff.rfl
  | cons o s ih =>
    have ho := h o (List.mem_cons_self ..)
    have ih' := ih fun p hp => h p (List.mem_cons_of_mem _ hp)
    cases o <;> first | exact ih' | cases ho

/-- Silent observations deliver nothing. -/
theorem delivered_silent (h : ∀ o ∈ s, o.silent = true) (n : ℕ) :
    Delivered n (s ++ t) ↔ Delivered n t := by
  constructor
  · rintro ⟨rows, hmem, hn⟩
    rcases List.mem_append.mp hmem with hs | ht
    · cases h _ hs
    · exact ⟨rows, ht, hn⟩
  · rintro ⟨rows, hmem, hn⟩
    exact ⟨rows, List.mem_append_right _ hmem, hn⟩

end silent

/-- An observation that is not a delivery delivers nothing. -/
theorem delivered_cons {o : Obs} {n : ℕ} {t : List Obs}
    (h : ∀ rows, o ≠ .resolved .delivered rows) :
    Delivered n (o :: t) ↔ Delivered n t := by
  constructor
  · rintro ⟨rows, hmem, hn⟩
    rcases List.mem_cons.mp hmem with heq | ht
    · exact absurd heq.symm (h rows)
    · exact ⟨rows, ht, hn⟩
  · rintro ⟨rows, hmem, hn⟩
    exact ⟨rows, List.mem_cons_of_mem _ hmem, hn⟩

/-! ## The trace and the journal -/

/-- One more call is due for a reserved row that has not been called for. -/
def callDue (t : List Obs) (w : Work) : ℕ :=
  if w.disposition = .reserved ∧ callMade t = false then 1 else 0

/-- The journal accounts for the trace. -/
structure Accounted (j : Journal) (t : List Obs) : Prop where
  valid : j.valid = true
  sane : Sane t
  attempt : openAttempt t = j.attempt.map Attempt.members
  /-- A row's attempts bound its calls, with the one that is still due. -/
  calls : ∀ n w, j.row n = some w → callsSince n t + callDue t w ≤ w.attempts
  /-- A sequence without a row is behind the scan, or has not been called for. -/
  absent : ∀ n, j.row n = none → callsSince n t ≤ maxAttempts
    ∧ (j.scanThrough < n → callsSince n t = 0)
  delivered : ∀ n, Delivered n t → (∃ w, j.row n = some w ∧ w.disposition.folds = true)
    ∨ j.row n = none ∧ n ≤ j.scanThrough
  /-- Before the first seeding nothing has been called for. -/
  fresh : j.pointersSeeded = false → ∀ n, callsSince n t = 0 ∧ ¬ Delivered n t

/-- An accounted journal is valid. -/
theorem Accounted.valid' {j : Journal} {t : List Obs} (h : Accounted j t) : Journal.Valid j :=
  Journal.valid_iff.mp h.valid

/-- No row of an accounted journal has more attempts than the limit. -/
theorem Accounted.attempts_le {j : Journal} {t : List Obs} (h : Accounted j t) {n : ℕ} {w : Work}
    (hw : j.row n = some w) : w.attempts ≤ maxAttempts :=
  (Journal.RowOk.of (h.valid'.rows n w hw)).attempts

/-- What a step of the journal may do to the row of one sequence. -/
inductive RowStep (j k : Journal) (t t' : List Obs) (n : ℕ) : Prop where
  | gone (hk : k.row n = none) (h : j.row n = none ∨ n ≤ k.scanThrough)
  | fresh {w : Work} (hj : j.row n = none) (hk : k.row n = some w) (hw : w.disposition = .pending)
      (h : j.scanThrough < n ∨ j.pointersSeeded = false)
  | kept {w w' : Work} (hj : j.row n = some w) (hk : k.row n = some w')
      (hcalls : callsSince n t + callDue t w ≤ w.attempts → callsSince n t' + callDue t' w'
        ≤ w'.attempts)
      (hfolds : w.disposition.folds = true → w'.disposition.folds = true)

/-- A journal that changes row by row in these ways still accounts for the trace. -/
theorem Accounted.of_rows {j k : Journal} {t t' : List Obs} (h : Accounted j t)
    (hvalid : k.valid = true)
    (hsane : Sane t') (hattempt : openAttempt t' = k.attempt.map Attempt.members)
    (hscan : j.scanThrough ≤ k.scanThrough) (hseeded : k.pointersSeeded = false →
      j.pointersSeeded = false)
    (hcalls : ∀ n, callsSince n t' ≤ callsSince n t)
    (hdelivered : ∀ n, Delivered n t' → Delivered n t
      ∨ j.pointersSeeded = true ∧ ((∃ w, k.row n = some w ∧ w.disposition.folds = true)
        ∨ k.row n = none ∧ n ≤ k.scanThrough))
    (hrow : ∀ n, RowStep j k t t' n) : Accounted k t' := by
  refine ⟨hvalid, hsane, hattempt, ?_, ?_, ?_, ?_⟩
  · intro n w' hw'
    rcases hrow n with ⟨hk, -⟩ | ⟨hj, hk, hp, hpast⟩ | ⟨hj, hk, hc, -⟩
    · rw [hk] at hw'
      cases hw'
    · -- A new row: nothing has been called for it.
      have hzero : callsSince n t = 0 := by
        rcases hpast with hpast | hpast
        · exact (h.absent n hj).2 hpast
        · exact (h.fresh hpast n).1
      rw [hk] at hw'
      cases hw'
      have := hcalls n
      simp only [callDue, hp, reduceCtorEq, false_and, if_false]
      omega
    · rw [hk] at hw'
      cases hw'
      exact hc (h.calls n _ hj)
  · intro n hn
    rcases hrow n with ⟨-, hgone⟩ | ⟨-, hk, -⟩ | ⟨-, hk, -⟩
    · have hle := hcalls n
      rcases hj : j.row n with _ | w
      · obtain ⟨h3, hpast⟩ := h.absent n hj
        refine ⟨hle.trans h3, fun hlt => ?_⟩
        have := hpast (by omega)
        omega
      · have hc := h.calls n w hj
        have ha := h.attempts_le hj
        refine ⟨by omega, fun hlt => ?_⟩
        rcases hgone with hgone | hgone
        · rw [hgone] at hj
          cases hj
        · omega
    · rw [hk] at hn
      cases hn
    · rw [hk] at hn
      cases hn
  · intro n hn
    rcases hdelivered n hn with hd | ⟨-, hd⟩
    · rcases hrow n with ⟨hk, hgone⟩ | ⟨hj, hk, -, hpast⟩ | ⟨hj, hk, -, hfolds⟩
      · refine .inr ⟨hk, ?_⟩
        rcases hgone with hj | hle
        · rcases h.delivered n hd with ⟨w, hw, -⟩ | ⟨-, hle⟩
          · rw [hj] at hw
            cases hw
          · omega
        · exact hle
      · exfalso
        rcases h.delivered n hd with ⟨w, hw, -⟩ | ⟨-, hle⟩
        · rw [hj] at hw
          cases hw
        · rcases hpast with hpast | hpast
          · omega
          · exact (h.fresh hpast n).2 hd
      · rcases h.delivered n hd with ⟨w, hw, hf⟩ | ⟨hnone, -⟩
        · rw [hj] at hw
          cases hw
          exact .inl ⟨_, hk, hfolds hf⟩
        · rw [hj] at hnone
          cases hnone
    · exact hd
  · intro hk n
    have hj := hseeded hk
    obtain ⟨hzero, hd⟩ := h.fresh hj n
    refine ⟨by have := hcalls n; omega, fun hn => ?_⟩
    rcases hdelivered n hn with h' | ⟨h', -⟩
    · exact hd h'
    · rw [hj] at h'
      cases h'

/-! ## Each operation -/

/-- Settled rows are neither reserved nor retried. -/
theorem disposition_settleRow (o : Journal.Outcome) (now : ℕ) (w : Work) :
    (Journal.settleRow o now w).disposition ≠ .reserved
      ∧ (Journal.settleRow o now w).attempts = w.attempts
      ∧ (o = .delivered → (Journal.settleRow o now w).disposition = .delivered) := by
  unfold Journal.settleRow
  by_cases ho : o = .delivered
  · simp [ho]
  · by_cases ha : maxAttempts ≤ w.attempts
    · by_cases hu : (w.uncertain || decide (o = .unknown)) = true
      · simp [ho, ha, hu]
      · simp [ho, ha, hu]
    · simp [ho, ha]

/-- Only a reserved row can be owed a call. -/
theorem callDue_of_ne {t : List Obs} {w : Work} (h : w.disposition ≠ .reserved) :
    callDue t w = 0 := by
  simp [callDue, h]

/-- Resolving the open attempt keeps the journal accounted. -/
theorem Accounted.resolved {j k : Journal} {t : List Obs} (h : Accounted j t) {a : Attempt}
    {o : Journal.Outcome} {now : ℕ} (ha : j.attempt = some a) (hr : j.resolve o now = .ok k) :
    Accounted k (lost (j.settleAll a.members o now) k ++ [.resolved o a.members] ++ t) := by
  obtain ⟨a', ha', hadv, hvalid, -⟩ := Journal.resolve_eq_ok hr
  rw [ha] at ha'
  cases ha'
  obtain ⟨hid, hscan, hseeded⟩ := Journal.sameIdentity_settleAll j a.members o now
  have hopen := h.valid'.openOk ha
  have hsilent := silent_lost (j.settleAll a.members o now) k
  -- The row of each sequence, settled where it is a member.
  have hsettled : ∀ n w, j.row n = some w →
      (j.settleAll a.members o now).row n = some (Journal.resolveRow a.members o now w) := by
    intro n w hw
    rw [Journal.row_settleAll, hw, Option.map_some]
  have hmember : ∀ n w, j.row n = some w → n ∈ a.members →
      Journal.resolveRow a.members o now w = Journal.settleRow o now w := by
    intro n w hw hn
    unfold Journal.resolveRow
    rw [Journal.seq_of_row hw, if_pos (by simpa using hn)]
  have hother : ∀ n w, j.row n = some w → n ∉ a.members → Journal.resolveRow a.members o now w
      = w := by
    intro n w hw hn
    unfold Journal.resolveRow
    rw [Journal.seq_of_row hw, if_neg (by simpa using hn)]
  rw [List.append_assoc, List.singleton_append]
  apply h.of_rows hvalid
  · rw [sane_silent hsilent]
    exact h.sane
  · rw [openAttempt_silent hsilent, hadv.attempt]
    rfl
  · exact hscan ▸ hadv.le
  · intro hk
    rw [hadv.seeded, hseeded] at hk
    exact hk
  · intro n
    rw [callsSince_silent hsilent]
    exact le_rfl
  · intro n hn
    rw [delivered_silent hsilent] at hn
    by_cases hmem : o = .delivered ∧ n ∈ a.members
    · refine .inr ⟨hopen.seeded, ?_⟩
      obtain ⟨w, hw, -⟩ := (hopen.members n).mp hmem.2
      have hrow := hsettled n w hw
      rw [hmember n w hw hmem.2] at hrow
      rcases hadv.row_cases n with ⟨hnone, -⟩ | ⟨w', hw', hk | ⟨hk, hle, -⟩⟩
      · rw [hrow] at hnone
        cases hnone
      · rw [hrow] at hw'
        cases hw'
        refine .inl ⟨_, hk, ?_⟩
        rw [(disposition_settleRow o now w).2.2 hmem.1]
        rfl
      · exact .inr ⟨hk, hle⟩
    · left
      obtain ⟨rows, hrows, hn⟩ := hn
      rcases List.mem_cons.mp hrows with heq | hrows
      · cases heq
        exact absurd ⟨rfl, hn⟩ hmem
      · exact ⟨rows, hrows, hn⟩
  · intro n
    rcases hj : j.row n with _ | w
    · rcases hadv.row_cases n with ⟨-, hk⟩ | ⟨w', hw', -⟩
      · exact .gone hk (.inl hj)
      · rw [Journal.row_settleAll, hj] at hw'
        cases hw'
    · have hrow := hsettled n w hj
      rcases hadv.row_cases n with ⟨hnone, -⟩ | ⟨w', hw', hk | ⟨hk, hle, -⟩⟩
      · rw [hrow] at hnone
        cases hnone
      · rw [hrow] at hw'
        cases hw'
        by_cases hn : n ∈ a.members
        · rw [hmember n w hj hn] at hk
          obtain ⟨hne, hattempts, -⟩ := disposition_settleRow o now w
          refine .kept hj hk ?_ ?_
          · intro hc
            rw [callsSince_silent hsilent, callDue_of_ne hne, hattempts]
            exact (Nat.le_add_right _ _).trans hc
          · intro hf
            -- A member is reserved, so it is not over.
            obtain ⟨w', hw', hres⟩ := (hopen.members n).mp hn
            rw [hj] at hw'
            cases hw'
            rw [hres] at hf
            cases hf
        · rw [hother n w hj hn] at hk
          have hne : w.disposition ≠ .reserved :=
            fun hres => hn ((hopen.members n).mpr ⟨w, hj, hres⟩)
          refine .kept hj hk ?_ id
          intro hc
          rw [callsSince_silent hsilent, callDue_of_ne hne]
          exact (Nat.le_add_right _ _).trans hc
      · exact .gone hk (.inr hle)

/-- Silent observations leave the call a row is owed as it is. -/
theorem callDue_silent {s t : List Obs} (h : ∀ o ∈ s, o.silent = true) (w : Work) :
    callDue (s ++ t) w = callDue t w := by
  unfold callDue
  rw [callMade_silent h]

/-- Nothing but silent observations: every row is kept, new, or behind the scan. -/
theorem Accounted.of_silent {j k : Journal} {s t : List Obs} (h : Accounted j t)
    (hs : ∀ o ∈ s, o.silent = true) (hvalid : k.valid = true) (hattempt : k.attempt = j.attempt)
    (hscan : j.scanThrough ≤ k.scanThrough) (hseeded : k.pointersSeeded = false →
      j.pointersSeeded = false)
    (hrow : ∀ n, RowStep j k t (s ++ t) n) : Accounted k (s ++ t) := by
  apply h.of_rows hvalid
  · rw [sane_silent hs]
    exact h.sane
  · rw [openAttempt_silent hs, hattempt]
    exact h.attempt
  · exact hscan
  · exact hseeded
  · intro n
    rw [callsSince_silent hs]
  · intro n hn
    rw [delivered_silent hs] at hn
    exact .inl hn
  · exact hrow

/-- A row that is as it was has taken an admissible step. -/
theorem RowStep.same {j k : Journal} {s t : List Obs} (hs : ∀ o ∈ s, o.silent = true) {n : ℕ}
    (h : k.row n = j.row n) : RowStep j k t (s ++ t) n := by
  rcases hj : j.row n with _ | w
  · exact .gone (h.trans hj) (.inl hj)
  · refine .kept hj (h.trans hj) ?_ id
    rw [callsSince_silent hs, callDue_silent hs]
    exact id

/-- Ingesting a scan keeps the journal accounted. -/
theorem Accounted.ingested {j m k : Journal} {t : List Obs} (h : Accounted j t) {s : Scanned}
    (hm : j.admitAll s = .ok m) (hk : j.ingest s = .ok k) (after through : ℕ) (found : List Row) :
    Accounted k (lost m k ++ [.scanned after through found] ++ t) := by
  obtain ⟨m', hadm, hadv, hvalid, -, hm'⟩ := Journal.ingest_eq_ok hk
  rw [hm] at hm'
  cases hm'
  have hs : ∀ o ∈ lost m k ++ [Obs.scanned after through found], o.silent = true := by
    intro o ho
    rcases List.mem_append.mp ho with ho | ho
    · exact silent_lost m k o ho
    · rw [List.mem_singleton.mp ho]
      rfl
  apply h.of_silent hs hvalid
  · rw [hadv.attempt, hadm.attempt]
  · exact hadm.scan ▸ hadv.le
  · intro hseeded
    rw [hadv.seeded, hadm.seeded] at hseeded
    exact hseeded
  · intro n
    rcases hadv.row_cases n with ⟨hnone, hk⟩ | ⟨w, hw, hk | ⟨hk, hle, -⟩⟩
    · rcases hadm.row n with hsame | ⟨hj, r, -, -, hrow, -⟩
      · exact .gone hk (.inl (hsame ▸ hnone))
      · exact .gone hk (.inl hj)
    · rcases hadm.row n with hsame | ⟨hj, r, -, -, hrow, -, -, hpast⟩
      · exact .same hs (hk.trans (hsame ▸ hw).symm)
      · rw [hrow] at hw
        cases hw
        refine .fresh hj hk rfl (.inl ?_)
        simpa using hpast
    · exact .gone hk (.inr hle)

/-- Seeding the pointers keeps the journal accounted. -/
theorem Accounted.seeded {j k : Journal} {t : List Obs} (h : Accounted j t) {records : List Record}
    (hs : j.pointersSeeded = false) (hk : j.seedPointers records = .ok k) :
    Accounted k ([.seeded records] ++ t) := by
  obtain ⟨hvalid, ⟨htrue, -⟩ | ⟨-, -, m, hadm, rfl⟩⟩ := Journal.seedPointers_eq_ok hk
  · rw [hs] at htrue
    cases htrue
  · have hsilent : ∀ o ∈ [Obs.seeded records], o.silent = true := by simp [Obs.silent]
    have hrow : ∀ n, Journal.row { m with pointersSeeded := true } n = m.row n :=
      fun n => Journal.row_congr rfl n
    apply h.of_silent hsilent hvalid
    · exact hadm.attempt
    · exact hadm.scan.ge
    · intro hfalse
      cases hfalse
    · intro n
      rcases hadm.row n with hsame | ⟨hj, r, -, -, hnew, -⟩
      · exact .same hsilent ((hrow n).trans hsame)
      · exact .fresh hj ((hrow n).trans hnew) rfl (.inr hs)

/-- A reconciliation keeps the journal accounted. -/
theorem Accounted.reconciled {j k : Journal} {t : List Obs} (h : Accounted j t) {s : Snapshot}
    {records : List Record} (hk : j.reconcile s records = .ok k) :
    Accounted k (lost (j.judgeAll s records) k ++ t) := by
  obtain ⟨hnone, hvalid, -, m, hadv, -, rfl⟩ := Journal.reconcile_eq_ok hk
  obtain ⟨hid, hscan, hseeded, hattempt⟩ := Journal.sameIdentity_judgeAll j s records
  have hs := silent_lost (j.judgeAll s records) (m.dropGone (j.gone s records))
  apply h.of_silent hs hvalid
  · exact hadv.attempt.trans hattempt
  · exact hscan ▸ hadv.le
  · intro hfalse
    exact hseeded.symm.trans (hadv.seeded.symm.trans hfalse)
  · intro n
    rcases Journal.row_dropGone_cases m (j.gone s records) n with hsame | ⟨hgone, hle, -⟩
    · rcases hj : j.row n with _ | w
      · rcases hadv.row_cases n with ⟨-, hm⟩ | ⟨w', hw', -⟩
        · exact .gone (hsame.trans hm) (.inl hj)
        · rw [Journal.row_judgeAll, hj] at hw'
          cases hw'
      · rcases hadv.row_cases n with ⟨hnone', -⟩ | ⟨w', hw', hm | ⟨hm, hle, -⟩⟩
        · rw [Journal.row_judgeAll, hj] at hnone'
          cases hnone'
        · rw [Journal.row_judgeAll, hj] at hw'
          cases hw'
          obtain ⟨hattempts, -, hfolds, hcases⟩ := Journal.judged_spec s records w
          have hne : (Journal.judged s records w).disposition ≠ .reserved := by
            rcases hcases with hsame' | hd | hd | hd
            · rw [hsame']
              exact h.valid'.not_reserved hnone hj
            all_goals
              rw [hd]
              simp
          refine .kept hj (hsame.trans hm) ?_ ?_
          · intro hc
            rw [callsSince_silent hs, callDue_of_ne hne, hattempts]
            exact (Nat.le_add_right _ _).trans hc
          · intro hf
            rw [hfolds hf]
            exact hf
        · exact .gone (hsame.trans hm) (.inr hle)
    · exact .gone hgone (.inr hle)

/-- A reservation keeps the journal accounted. -/
theorem Accounted.reserved {j k : Journal} {t : List Obs} (h : Accounted j t) {sequences : List ℕ}
    {now : ℕ} {rows : List Work} (hk : j.reserve sequences now = .ok (rows, k)) :
    Accounted k ([.reserved sequences] ++ t) := by
  obtain ⟨hnone, -, -, hvalid, hselected, rfl, -, -⟩ := Journal.reserve_eq_ok hk
  have hopen : openAttempt t = none := by
    rw [h.attempt, hnone]
    rfl
  rw [List.singleton_append]
  apply h.of_rows hvalid
  · exact ⟨hopen, h.sane⟩
  · rfl
  · exact le_rfl
  · exact id
  · intro n
    exact le_rfl
  · intro n hn
    exact .inl ((delivered_cons (by simp)).mp hn)
  · intro n
    have hrow := Journal.row_reserveAll j sequences now n
    rcases hj : j.row n with _ | w
    · rw [hj] at hrow
      exact .gone hrow (.inl hj)
    · rw [hj, Option.map_some] at hrow
      have hne := h.valid'.not_reserved hnone hj
      refine .kept hj hrow ?_ ?_
      · intro hc
        have hcalls : callsSince n (.reserved sequences :: t) = callsSince n t := rfl
        rw [hcalls]
        unfold Journal.reserveRow
        split
        · have : callDue (.reserved sequences :: t)
              { w with disposition := .reserved, attempts := w.attempts + 1, retryAt :=
                0 } ≤ 1 := by
            unfold callDue
            split
            · exact le_rfl
            · exact Nat.zero_le _
          simp only
          omega
        · rw [callDue_of_ne hne]
          exact (Nat.le_add_right _ _).trans hc
      · intro hf
        unfold Journal.reserveRow
        split
        · next hmem =>
          -- A selected row is pending.
          rw [Journal.seq_of_row hj, List.contains_iff_mem] at hmem
          obtain ⟨w', hw', hr⟩ := hselected n hmem
          rw [hj] at hw'
          cases hw'
          simp only [Journal.reservable, Bool.and_eq_true, decide_eq_true_eq] at hr
          rw [hr.1.1] at hf
          cases hf
        · exact hf

/-- A manual retry keeps the journal accounted. -/
theorem Accounted.retried {j k : Journal} {t : List Obs} (h : Accounted j t) {sequences : List ℕ}
    (hk : j.retry sequences = .ok k) : Accounted k ([.retried sequences] ++ t) := by
  obtain ⟨hvalid, hselected, rfl⟩ := Journal.retry_eq_ok hk
  have hcalls : ∀ n, callsSince n (.retried sequences :: t)
      = if n ∈ sequences then 0 else callsSince n t := fun n => rfl
  rw [List.singleton_append]
  apply h.of_rows hvalid
  · exact h.sane
  · exact h.attempt
  · exact le_rfl
  · exact id
  · intro n
    rw [hcalls]
    split
    · exact Nat.zero_le _
    · exact le_rfl
  · intro n hn
    exact .inl ((delivered_cons (by simp)).mp hn)
  · intro n
    have hrow := Journal.row_retry j sequences n
    rcases hj : j.row n with _ | w
    · rw [hj] at hrow
      exact .gone hrow (.inl hj)
    · rw [hj, Option.map_some] at hrow
      by_cases hn : n ∈ sequences
      · have hrow' : Journal.retryRow sequences w
            = { w with disposition := .pending, attempts := 0, retryAt := 0 } := by
          unfold Journal.retryRow
          rw [Journal.seq_of_row hj, if_pos (by simpa using hn)]
        refine .kept hj hrow ?_ ?_
        · intro _
          rw [hcalls, if_pos hn, hrow', callDue_of_ne (by simp)]
        · intro hf
          obtain ⟨w', hw', he⟩ := hselected n hn
          rw [hj] at hw'
          cases hw'
          revert hf he
          cases w.disposition <;> simp [Disposition.folds, Disposition.exhausted]
      · have hrow' : Journal.retryRow sequences w = w := by
          unfold Journal.retryRow
          rw [Journal.seq_of_row hj, if_neg (by simpa using hn)]
        rw [hrow'] at hrow
        refine .kept hj hrow ?_ id
        intro hc
        rw [hcalls, if_neg hn]
        exact hc

/-- **Every stage keeps the account.** -/
theorem Accounted.transacts {db : Db} {j k : Journal} {t s : List Obs} {stage : Stage}
    (h : Accounted j t) (hstage : Transacts caps db j stage k s) : Accounted k (s ++ t) := by
  cases hstage with
  | nothing => exact h
  | resolved _ ha hr => exact h.resolved ha hr
  | seeded hs _ hk => exact h.seeded hs hk
  | reconciled _ hk => exact h.reconciled hk
  | ingested _ hm hk => exact h.ingested hm hk _ _ _
  | reserved _ hk => exact h.reserved hk
  | retried hk => exact h.retried hk
  | acknowledged hk =>
    obtain ⟨hvalid, rfl⟩ := Journal.commit_eq_ok.mp hk
    refine h.of_silent (s := []) (by simp) hvalid rfl le_rfl id fun n => ?_
    exact .same (s := []) (by simp) (Journal.row_congr rfl n)

/-! ## The loop and the queue -/

/-- An operator's request. -/
def Entry.Operators (e : Entry) : Prop :=
  e.owner = .operator
    ∧ ∀ stage ∈ e.stages, stage = .reconcile ∨ (∃ l, stage = .retry l) ∨ stage = .acknowledgeHealth

/-- The stages still to run of the job the loop is waiting for. -/
def Awaits (p : Phase) (l : List Stage) : Prop :=
  l ≠ [] ∧ match p with
    | .ready => ∃ now, l <:+ readyJob now
    | .prepare => ∃ now, l <:+ prepareJob now
    | .reserve _ => ∃ now, l <:+ reserveJob now
    | .resolve _ => ∃ o now, l <:+ resolveJob o now
    | _ => False

/-- The rows of the notice the loop is at. -/
def Phase.rows : Phase → Option (List Work)
  | .render rows _ _ | .deliver rows _ _ | .calling rows _ => some rows
  | _ => none

/-- The notice is not yet with the provider. -/
def Phase.uncalled : Phase → Bool
  | .render .. | .deliver .. => true
  | _ => false

/-- Which jobs can be waiting in each phase of the loop. -/
inductive Shape (q : List Entry) : Phase → Prop where
  | idle (h : ∀ e ∈ q, e.owner ≠ .loop) : Shape q .idle
  | waiting {p : Phase} {pre post : List Entry} {stages : List Stage}
      (hq : q = pre ++ ⟨stages, .loop⟩ :: post) (hpre : ∀ e ∈ pre, e.owner ≠ .loop)
      (hpost : ∀ e ∈ post, e.Operators) (h : Awaits p stages) : Shape q p
  | acting {p : Phase} {rows : List Work} (hp : p.rows = some rows) (h : ∀ e ∈ q, e.Operators) :
      Shape q p

/-- The loop, the queue and the journal fit together. -/
structure Ordered (w : World) : Prop where
  shape : Shape w.queue w.loop.phase
  holds : ∀ rows, w.loop.phase.rows = some rows → ∃ a, w.journal.attempt = some a
    ∧ ∀ n, n ∈ rows.map Work.seq ↔ n ∈ a.members
  uncalled : w.loop.phase.uncalled = true → callMade w.trace = false

/-- An operator's entry is not one of the loop. -/
theorem Entry.Operators.owner_ne {e : Entry} (h : e.Operators) : e.owner ≠ .loop := by
  rw [h.1]
  simp

/-- With an idle loop and none of its entries waiting the world is ordered. -/
theorem Ordered.idle {w : World} (hp : w.loop.phase = .idle) (h : ∀ e ∈ w.queue, e.owner ≠ .loop) :
    Ordered w := by
  refine ⟨?_, ?_, ?_⟩
  · rw [hp]
    exact .idle h
  · rw [hp]
    intro rows hrows
    cases hrows
  · rw [hp]
    intro hu
    cases hu

/-- In every phase that does not wait, the queue holds nothing of the loop. -/
theorem Shape.owner_ne {q : List Entry} {p : Phase} (h : Shape q p) (hp : ∀ l, ¬ Awaits p l) :
    ∀ e ∈ q, e.owner ≠ .loop := by
  cases h with
  | idle h => exact h
  | waiting _ _ _ h => exact absurd h (hp _)
  | acting _ h =>
    intro e he
    exact (h e he).owner_ne

/-- A loop that waits for a job has no rows in hand. -/
theorem Awaits.rows {p : Phase} {l : List Stage} (h : Awaits p l) :
    p.rows = none ∧ p.uncalled = false := by
  cases p <;> first | exact ⟨rfl, rfl⟩ | exact h.2.elim

/-- Posting the job the loop then waits for keeps the order. -/
theorem Ordered.post {w : World} (hq : ∀ e ∈ w.queue, e.owner ≠ .loop) {stages : List Stage}
    {p : Phase}
    (hp : Awaits p stages) (full : Bool) : Ordered (w.post stages p full) := by
  unfold World.post
  split
  · exact .idle rfl hq
  · have hrows := hp.rows
    refine ⟨.waiting rfl hq (by simp) hp, ?_, ?_⟩
    · intro rows h
      exact absurd h (by simp [World.setPhase, hrows.1])
    · intro h
      exact absurd h (by simp [World.setPhase, hrows.2])

/-- The phase that waits for the readiness job. -/
theorem awaits_readyJob (now : ℕ) : Awaits .ready (readyJob now) :=
  ⟨by simp [readyJob], now, List.suffix_refl _⟩

/-- The phase that waits for the preparation. -/
theorem awaits_prepareJob (now : ℕ) : Awaits .prepare (prepareJob now) :=
  ⟨by simp [prepareJob], now, List.suffix_refl _⟩

/-- The phase that waits for a reservation. -/
theorem awaits_reserveJob (b : Bool) (now : ℕ) : Awaits (.reserve b) (reserveJob now) :=
  ⟨by simp [reserveJob], now, List.suffix_refl _⟩

/-- The phase that waits for a resolution. -/
theorem awaits_resolveJob (b : Bool) (o : Journal.Outcome) (now : ℕ) :
    Awaits (.resolve b) (resolveJob o now) :=
  ⟨by simp [resolveJob], o, now, List.suffix_refl _⟩

/-- The last stage of a job with two. -/
theorem last_of_suffix {a b c : Stage} (h : [c] <:+ [a, b]) : c = b := by
  obtain ⟨l, hl⟩ := h
  have := congrArg List.getLast? hl
  simpa using this

/-- What the last stage of an awaited job returns. -/
theorem Awaits.last {p : Phase} {stage : Stage} (h : Awaits p [stage]) {v : Value}
    (hv : stage.returns v) : p = .ready ∧ v = .done
      ∨ p = .prepare ∧ (∃ l b, v = .due l b)
      ∨ (∃ b, p = .reserve b) ∧ (∃ rows, v = .rows rows)
      ∨ (∃ b, p = .resolve b) ∧ v = .done := by
  obtain ⟨-, h⟩ := h
  cases p with
  | ready =>
    obtain ⟨now, h⟩ := h
    obtain rfl := last_of_suffix h
    exact .inl ⟨rfl, hv⟩
  | prepare =>
    obtain ⟨now, h⟩ := h
    obtain rfl := last_of_suffix h
    exact .inr (.inl ⟨rfl, hv⟩)
  | reserve b =>
    obtain ⟨now, h⟩ := h
    obtain rfl := last_of_suffix h
    exact .inr (.inr (.inl ⟨⟨b, rfl⟩, hv⟩))
  | resolve b =>
    obtain ⟨o, now, h⟩ := h
    have hstage : stage = .resolve o now := by
      obtain ⟨l, hl⟩ := h
      simpa [resolveJob] using congrArg List.getLast? hl
    subst hstage
    exact .inr (.inr (.inr ⟨⟨b, rfl⟩, hv⟩))
  | idle => exact h.elim
  | render => exact h.elim
  | deliver => exact h.elim
  | calling => exact h.elim

/-- The rest of an awaited job is awaited too. -/
theorem Awaits.tail {p : Phase} {stage : Stage} {stages : List Stage}
    (h : Awaits p (stage :: stages))
    (hne : stages ≠ []) : Awaits p stages := by
  refine ⟨hne, ?_⟩
  have hsuffix : stages <:+ stage :: stages := List.suffix_cons _ _
  obtain ⟨-, h⟩ := h
  cases p with
  | ready => exact h.imp fun now h => hsuffix.trans h
  | prepare => exact h.imp fun now h => hsuffix.trans h
  | reserve b => exact h.imp fun now h => hsuffix.trans h
  | resolve b => exact h.imp fun o h => h.imp fun now h => hsuffix.trans h
  | idle => exact h
  | render => exact h
  | deliver => exact h
  | calling => exact h

/-- The first job of the queue is the loop's, and then only an operator's requests are behind it; or
it is somebody else's, and the rest is as before. -/
theorem Shape.pop {stages : List Stage} {owner : Owner} {rest : List Entry} {p : Phase}
    (h : Shape (⟨stages, owner⟩ :: rest) p) :
    owner = .loop ∧ (∀ e ∈ rest, e.Operators) ∧ Awaits p stages
      ∨ owner ≠ .loop ∧ Shape rest p ∧ ∀ l, (∀ s ∈ l, s ∈ stages) →
      Shape (⟨l, owner⟩ :: rest) p := by
  cases h with
  | idle h =>
    have hne : owner ≠ .loop := h _ (List.mem_cons_self ..)
    have hrest : ∀ e ∈ rest, e.owner ≠ .loop := fun e he => h e (List.mem_cons_of_mem _ he)
    refine .inr ⟨hne, .idle hrest, fun l _ => .idle ?_⟩
    intro e he
    rcases List.mem_cons.mp he with rfl | he
    · exact hne
    · exact hrest e he
  | @waiting _ pre post stages' hq hpre hpost h =>
    cases pre with
    | nil =>
      rw [List.nil_append, List.cons.injEq] at hq
      obtain ⟨he, rfl⟩ := hq
      cases he
      exact .inl ⟨rfl, hpost, h⟩
    | cons e pre =>
      rw [List.cons_append, List.cons.injEq] at hq
      obtain ⟨rfl, rfl⟩ := hq
      have hne : owner ≠ .loop := hpre _ (List.mem_cons_self ..)
      have hpre' : ∀ e ∈ pre, e.owner ≠ .loop := fun e he => hpre e (List.mem_cons_of_mem _ he)
      refine .inr ⟨hne, .waiting rfl hpre' hpost h, fun l _ => ?_⟩
      refine .waiting (List.cons_append ..).symm ?_ hpost h
      intro e he
      rcases List.mem_cons.mp he with rfl | he
      · exact hne
      · exact hpre' e he
  | acting hp h =>
    have hhead := h _ (List.mem_cons_self ..)
    have hrest : ∀ e ∈ rest, e.Operators := fun e he => h e (List.mem_cons_of_mem _ he)
    refine .inr ⟨hhead.owner_ne, .acting hp hrest, fun l hl => .acting hp ?_⟩
    intro e he
    rcases List.mem_cons.mp he with rfl | he
    · exact ⟨hhead.1, fun s hs => hhead.2 s (hl s hs)⟩
    · exact hrest e he

/-- An operator's request leaves an open attempt alone. -/
theorem operator_attempt {db : Db} {j k : Journal} {t s : List Obs} {stage : Stage} {a : Attempt}
    (ha : j.attempt = some a)
    (hstage : stage = .reconcile ∨ (∃ l, stage = .retry l) ∨ stage = .acknowledgeHealth)
    (h : Transacts caps db j stage k s) : k.attempt = some a ∧ callMade (s ++ t) = callMade t := by
  cases h with
  | nothing => exact ⟨ha, rfl⟩
  | resolved hs => rcases hstage with rfl | ⟨l, rfl⟩ | rfl <;> cases hs
  | seeded => rcases hstage with h | ⟨l, h⟩ | h <;> cases h
  | reconciled _ hk =>
    obtain ⟨hnone, -⟩ := Journal.reconcile_eq_ok hk
    rw [ha] at hnone
    cases hnone
  | ingested => rcases hstage with h | ⟨l, h⟩ | h <;> cases h
  | reserved => rcases hstage with h | ⟨l, h⟩ | h <;> cases h
  | retried hk =>
    obtain ⟨-, -, rfl⟩ := Journal.retry_eq_ok hk
    exact ⟨ha, rfl⟩
  | acknowledged hk =>
    obtain ⟨-, rfl⟩ := Journal.commit_eq_ok.mp hk
    exact ⟨ha, rfl⟩

/-- The answer to an operator leaves the loop and the queue alone. -/
theorem loop_answer {w : World} {owner : Owner} (h : owner ≠ .loop) (r : Except Exc Value) (now : ℕ)
    (full : Bool) : (w.answer owner r now full).loop = w.loop
      ∧ (w.answer owner r now full).queue = w.queue := by
  cases owner with
  | loop => exact absurd rfl h
  | nobody => exact ⟨rfl, rfl⟩
  | operator =>
    cases r with
    | ok v => exact ⟨rfl, rfl⟩
    | error e =>
      simp only [World.answer, World.refuseOperator]
      split
      · split <;> exact ⟨rfl, rfl⟩
      · exact ⟨rfl, rfl⟩
      · exact ⟨rfl, rfl⟩
      · split <;> exact ⟨rfl, rfl⟩

/-- The job of somebody else: the loop stays where it is. -/
theorem Ordered.answer {w : World} (h : Ordered w) {owner : Owner} (hne : owner ≠ .loop)
    (r : Except Exc Value) (now : ℕ) (full : Bool) : Ordered (w.answer owner r now full) := by
  obtain ⟨hloop, hqueue⟩ := loop_answer (w := w) hne r now full
  have hsame := sameStores_answer w owner r now full
  refine ⟨?_, ?_, ?_⟩
  · rw [hloop, hqueue]
    exact h.shape
  · rw [hloop, hsame.journal]
    exact h.holds
  · rw [hloop, hsame.trace]
    exact h.uncalled

/-- The loop's own job has failed. -/
theorem Ordered.raise {w : World} (hq : ∀ e ∈ w.queue, e.Operators) (e : Exc) :
    Ordered (w.raise e) :=
  .idle rfl fun x hx => (hq x hx).owner_ne

/-- The loop's own job has returned. -/
theorem Ordered.resume {w : World} {stage : Stage} {v : Value} (hq : ∀ e ∈ w.queue, e.Operators)
    (hawaits : Awaits w.loop.phase [stage]) (hv : stage.returns v)
    (hrows : ∀ rows, v = .rows rows → rows ≠ [] → callMade w.trace = false
      ∧ ∃ a, w.journal.attempt = some a ∧ ∀ n, n ∈ rows.map Work.seq ↔ n ∈ a.members)
    (now : ℕ) (full : Bool) : Ordered (w.resume (.ok v) now full) := by
  have hq' : ∀ e ∈ w.queue, e.owner ≠ .loop := fun e he => (hq e he).owner_ne
  rcases hawaits.last hv with ⟨hp, rfl⟩ | ⟨hp, l, b, rfl⟩ | ⟨⟨b, hp⟩, rows, rfl⟩ | ⟨⟨b, hp⟩, rfl⟩
  · simp only [World.resume, hp]
    refine Ordered.post ?_ (awaits_prepareJob now) full
    exact hq'
  · simp only [World.resume, hp]
    split
    · exact .idle rfl hq'
    · refine Ordered.post ?_ (awaits_reserveJob b now) full
      exact hq'
  · simp only [World.resume, hp]
    split
    · exact .idle rfl hq'
    · next hne =>
      obtain ⟨hcall, hholds⟩ := hrows rows rfl (by simpa using hne)
      refine ⟨.acting rfl hq, ?_, fun _ => hcall⟩
      intro rows' hrows'
      cases hrows'
      exact hholds
  · simp only [World.resume, hp]
    exact .idle rfl hq'

/-- While the loop is at a notice, an operator's stage changes nothing about it. -/
theorem Ordered.staged {w w' : World} (h : Ordered w) {stage : Stage} {stages : List Stage}
    {owner : Owner}
    {rest : List Entry} (hq : w.queue = ⟨stage :: stages, owner⟩ :: rest)
    (hloop : w'.loop = w.loop) (hshape : Shape w'.queue w.loop.phase)
    (hjournal : w'.journal = (runStage caps w.bridge.db w.journal stage).journal)
    (htrace : w'.trace = (runStage caps w.bridge.db w.journal stage).noted ++ w.trace) :
    Ordered w' := by
  have htransacts := @transacts_runStage caps w.bridge.db w.journal stage
  have hkeep : ∀ rows, w.loop.phase.rows = some rows → ∀ a, w.journal.attempt = some a →
      w'.journal.attempt = some a ∧ callMade w'.trace = callMade w.trace := by
    intro rows hrows a ha
    have hshape := h.shape
    rw [hq] at hshape
    generalize w.loop.phase = p at hshape hrows
    cases hshape with
    | idle => cases hrows
    | waiting _ _ _ hawaits => exact absurd hrows (by simp [hawaits.rows.1])
    | acting _ hops =>
      obtain ⟨-, hstage⟩ := hops _ (List.mem_cons_self ..)
      rw [hjournal, htrace]
      exact operator_attempt ha (hstage stage (List.mem_cons_self ..)) htransacts
  refine ⟨hloop ▸ hshape, ?_, ?_⟩
  · intro rows hrows
    rw [hloop] at hrows
    obtain ⟨a, ha, hmembers⟩ := h.holds rows hrows
    exact ⟨a, (hkeep rows hrows a ha).1, hmembers⟩
  · intro hu
    rw [hloop] at hu
    obtain ⟨rows, hrows⟩ : ∃ rows, w.loop.phase.rows = some rows := by
      revert hu
      cases w.loop.phase <;> simp [Phase.uncalled, Phase.rows]
    obtain ⟨a, ha, -⟩ := h.holds rows hrows
    rw [(hkeep rows hrows a ha).2]
    exact h.uncalled hu

/-- A job the worker executes keeps the order. -/
theorem Ordered.work {w w' : World} (h : Ordered w) {failure : Option (Exc × Bool)} {now : ℕ}
    {full : Bool}
    (hw : w.work caps failure now full = some w') : Ordered w' := by
  unfold World.work at hw
  split at hw
  · cases hw
  · next owner rest hq =>
    -- A job without stages is nobody's.
    cases hw
    have hshape := h.shape
    rw [hq] at hshape
    rcases hshape.pop with ⟨-, -, hawaits⟩ | ⟨-, hrest, -⟩
    · exact absurd rfl hawaits.1
    · exact ⟨hrest, h.holds, h.uncalled⟩
  · next stage stages owner rest hq =>
    have hshape := h.shape
    rw [hq] at hshape
    rcases hshape.pop with ⟨rfl, hops, hawaits⟩ | ⟨hne, hrest, hagain⟩
    · -- The job the loop is waiting for.
      split at hw
      · cases hw
        exact .raise hops _
      · simp only at hw
        split at hw
        · cases hw
          exact .raise hops _
        · cases hw
          exact .raise hops _
        · next v hv _ =>
          split at hw
          · next hlast =>
            cases hw
            obtain rfl : stages = [] := by simpa using hlast
            apply Ordered.resume
            · exact hops
            · exact hawaits
            · exact returns_of_runStage hv
            · rintro rows rfl hrows
              obtain ⟨a, ha, hmembers, hnoted⟩ := rows_of_runStage hv hrows
              refine ⟨?_, a, ha, hmembers⟩
              show callMade (_ ++ w.trace) = false
              rw [hnoted]
              rfl
          · next hlast =>
            cases hw
            have hawaits' := hawaits.tail (by simpa using hlast)
            refine ⟨.waiting (List.nil_append _).symm (by simp) hops hawaits', ?_, ?_⟩
            · intro rows hrows
              exact absurd hrows (by simp [hawaits.rows.1])
            · intro hu
              exact absurd hu (by simp [hawaits.rows.2])
    · -- Somebody else's job.
      split at hw
      · cases hw
        refine Ordered.answer ?_ hne _ now full
        exact ⟨hrest, h.holds, h.uncalled⟩
      · simp only at hw
        split at hw
        · cases hw
          refine Ordered.answer ?_ hne _ now full
          exact h.staged hq rfl hrest rfl rfl
        · cases hw
          refine Ordered.answer ?_ hne _ now full
          exact h.staged hq rfl hrest rfl rfl
        · split at hw
          · cases hw
            refine Ordered.answer ?_ hne _ now full
            exact h.staged hq rfl hrest rfl rfl
          · cases hw
            refine h.staged hq rfl (hagain stages ?_) rfl rfl
            intro st hst
            exact List.mem_cons_of_mem _ hst

/-- A request of an operator behind everything else. -/
theorem Ordered.append {w : World} (h : Ordered w) {e : Entry} (he : e.Operators) :
    Ordered { w with queue := w.queue ++ [e] } := by
  refine ⟨?_, h.holds, h.uncalled⟩
  have hshape := h.shape
  show Shape (w.queue ++ [e]) w.loop.phase
  generalize w.loop.phase = p at hshape
  have hmem : ∀ {P : Entry → Prop} {l : List Entry}, (∀ x ∈ l, P x) → P e →
      ∀ x ∈ l ++ [e], P x := by
    intro P l hl hp x hx
    rcases List.mem_append.mp hx with hx | hx
    · exact hl x hx
    · rw [List.mem_singleton.mp hx]
      exact hp
  cases hshape with
  | idle hidle => exact .idle (hmem hidle he.owner_ne)
  | @waiting _ pre post stages hq hpre hpost hawaits =>
    exact .waiting (by rw [hq]; simp) hpre (hmem hpost he) hawaits
  | acting hp hops => exact .acting hp (hmem hops he)

/-- Every step of the notifier keeps the order. -/
theorem Ordered.next {w w' : World} (h : Ordered w) {e : WorldEvent}
    (hn : (notifier caps).next w e = some w') : Ordered w' := by
  have hpop : ∀ p, w.loop.phase = p → (∀ l, ¬ Awaits p l) → ∀ e ∈ w.queue, e.owner ≠ .loop := by
    rintro p rfl hp
    exact h.shape.owner_ne hp
  cases e with
  | bridge op =>
    obtain ⟨-, rfl⟩ := Option.ite_some_none_eq_some.mp hn
    exact ⟨h.shape, h.holds, h.uncalled⟩
  | begin now full =>
    simp only [notifier, World.next] at hn
    split at hn
    · next hp =>
      have hq := hpop .idle hp fun l hl => hl.2
      split at hn
      · cases hn
      · split at hn
        · cases hn
          exact .post hq (awaits_readyJob now) full
        · cases hn
          exact .post hq (awaits_prepareJob now) full
    · cases hn
  | work failure now full =>
    obtain ⟨-, hn⟩ := Option.ite_none_left_eq_some.mp hn
    exact h.work hn
  | page reply =>
    simp only [notifier, World.next] at hn
    split at hn
    · next rows admission answers hp =>
      cases hn
      have hshape := h.shape
      have hholds := h.holds rows (by rw [hp]; rfl)
      have huncalled := h.uncalled (by rw [hp]; rfl)
      refine ⟨?_, ?_, fun _ => huncalled⟩
      · rw [hp] at hshape
        cases hshape with
        | waiting _ _ _ hawaits => exact hawaits.2.elim
        | acting _ hops => exact .acting rfl hops
      · intro rows' hrows'
        cases hrows'
        exact hholds
    · cases hn
  | rendered =>
    simp only [notifier, World.next] at hn
    split at hn
    · next rows admission answers hp =>
      have hshape := h.shape
      have hholds := h.holds rows (by rw [hp]; rfl)
      have huncalled := h.uncalled (by rw [hp]; rfl)
      split at hn
      · cases hn
        refine ⟨?_, ?_, fun _ => huncalled⟩
        · rw [hp] at hshape
          cases hshape with
          | waiting _ _ _ hawaits => exact hawaits.2.elim
          | acting _ hops => exact .acting rfl hops
        · intro rows' hrows'
          cases hrows'
          exact hholds
      · cases hn
        exact .idle rfl (hpop _ hp fun l hl => hl.2)
    · cases hn
  | call =>
    simp only [notifier, World.next] at hn
    split at hn
    · next rows admission notice hp =>
      cases hn
      have hshape := h.shape
      have hholds := h.holds rows (by rw [hp]; rfl)
      refine ⟨?_, ?_, fun hu => by cases hu⟩
      · rw [hp] at hshape
        cases hshape with
        | waiting _ _ _ hawaits => exact hawaits.2.elim
        | acting _ hops => exact .acting rfl hops
      · intro rows' hrows'
        cases hrows'
        exact hholds
    · cases hn
  | outcome o now full =>
    simp only [notifier, World.next] at hn
    split at hn
    · next rows admission hp =>
      split at hn
      · cases hn
      · cases hn
        exact .post (hpop _ hp fun l hl => hl.2) (awaits_resolveJob admission o now) full
    · cases hn
  | providerFails =>
    simp only [notifier, World.next] at hn
    split at hn
    · next rows admission hp =>
      cases hn
      exact .idle rfl (hpop _ hp fun l hl => hl.2)
    · cases hn
  | cancel =>
    cases hn
    refine .idle rfl ?_
    intro e he
    obtain ⟨e', -, rfl⟩ := List.mem_map.mp he
    split
    · simp
    · next hne => exact hne
  | crash =>
    cases hn
    exact .idle rfl (by simp [World.crash])
  | operatorRetry sequences =>
    cases hn
    refine h.append ⟨rfl, ?_⟩
    intro stage hstage
    simp only [retryJob, List.mem_cons, List.not_mem_nil, or_false] at hstage
    rcases hstage with rfl | rfl
    · exact .inl rfl
    · exact .inr (.inl ⟨sequences, rfl⟩)
  | operatorAcknowledge =>
    cases hn
    refine h.append ⟨rfl, ?_⟩
    intro stage hstage
    simp only [acknowledgeJob, List.mem_singleton] at hstage
    exact .inr (.inr hstage)

/-! ## A call of the provider -/

/-- A call in an open attempt, the first one in it, keeps the journal accounted. -/
theorem Accounted.called {j : Journal} {t : List Obs} (h : Accounted j t) {rows : List ℕ}
    {a : Attempt}
    (ha : j.attempt = some a) (hrows : ∀ n, n ∈ rows ↔ n ∈ a.members) (hcall : callMade t = false) :
    Accounted j (.called rows :: t) := by
  have hopen := h.valid'.openOk ha
  have hreserved : ∀ n, n ∈ rows ↔ ∃ w, j.row n = some w ∧ w.disposition = .reserved :=
    fun n => (hrows n).trans (hopen.members n)
  have hdelivered : ∀ n, Delivered n (.called rows :: t) ↔ Delivered n t :=
    fun n => delivered_cons (by simp)
  have hcalls : ∀ n, callsSince n (.called rows :: t) = callsSince n t + if n ∈ rows then 1
      else 0 :=
    fun n => rfl
  refine ⟨h.valid, ⟨⟨a.members, ?_, hrows⟩, ?_, h.sane⟩, h.attempt, ?_, ?_, ?_, ?_⟩
  · rw [h.attempt, ha]
    rfl
  · intro n hn hd
    obtain ⟨w, hw, hres⟩ := (hreserved n).mp hn
    rcases h.delivered n hd with ⟨w', hw', hf⟩ | ⟨hnone, -⟩
    · rw [hw] at hw'
      cases hw'
      rw [hres] at hf
      cases hf
    · rw [hw] at hnone
      cases hnone
  · intro n w hw
    have hc := h.calls n w hw
    have hnow : callDue (.called rows :: t) w = 0 := by simp [callDue, callMade]
    rw [hcalls, hnow]
    by_cases hn : n ∈ rows
    · obtain ⟨w', hw', hres⟩ := (hreserved n).mp hn
      rw [hw] at hw'
      cases hw'
      have hdue : callDue t w = 1 := by simp [callDue, hres, hcall]
      rw [if_pos hn]
      omega
    · rw [if_neg hn]
      omega
  · intro n hn
    have hnot : n ∉ rows := by
      intro hmem
      obtain ⟨w, hw, -⟩ := (hreserved n).mp hmem
      rw [hn] at hw
      cases hw
    rw [hcalls, if_neg hnot]
    exact h.absent n hn
  · intro n hn
    exact h.delivered n ((hdelivered n).mp hn)
  · intro hs
    rw [hopen.seeded] at hs
    cases hs

/-! ## Every run -/

/-- Every step of the notifier keeps the journal accounted for by the trace. -/
theorem Accounted.next {w w' : World} (h : Accounted w.journal w.trace) (ho : Ordered w)
    {e : WorldEvent}
    (hn : (notifier caps).next w e = some w') : Accounted w'.journal w'.trace := by
  rcases moves_of_next hn with hsame | ⟨op, -, -, hj, ht⟩ | ⟨stage, hstage⟩ | ⟨rows, b, notice, hp,
    -, hj, ht⟩
  · rw [hsame.journal, hsame.trace]
    exact h
  · rw [hj, ht]
    exact h
  · rw [hstage.journal, hstage.trace]
    exact h.transacts (transacts_runStage _ _ _)
  · rw [hj, ht]
    obtain ⟨a, ha, hmembers⟩ := ho.holds rows (by rw [hp]; rfl)
    exact h.called ha hmembers (ho.uncalled (by rw [hp]; rfl))

/-- A notifier starts with an accounted journal. -/
theorem accounted_initial {w : World} (h : World.initial caps w) : Accounted w.journal w.trace := by
  obtain ⟨-, ⟨p, nonce, through, lost, hle, hj⟩, -, -, -, ht⟩ := h
  have hvalid : w.journal.valid = true := by
    rw [hj]
    refine Journal.valid_of_empty rfl rfl rfl rfl hle ?_ fun c => Nat.zero_le _
    intro h
    cases h
  have hrow : ∀ n, w.journal.row n = none := by
    intro n
    rw [hj]
    rfl
  rw [ht]
  refine ⟨hvalid, trivial, ?_, ?_, ?_, ?_, ?_⟩
  · rw [hj]
    rfl
  · intro n r hr
    rw [hrow] at hr
    cases hr
  · intro n _
    exact ⟨Nat.zero_le _, fun _ => rfl⟩
  · rintro n ⟨rows, hrows, -⟩
    cases hrows
  · intro _ n
    refine ⟨rfl, ?_⟩
    rintro ⟨rows, hrows, -⟩
    cases hrows

/-- In every reachable state the trace accounts for the journal. -/
theorem accounted_of_reachable {w : World} (h : (notifier caps).Reachable w) :
    Accounted w.journal w.trace ∧ Ordered w := by
  refine h.invariant (I := fun w => Accounted w.journal w.trace ∧ Ordered w) ?_ ?_
  · intro w hw
    refine ⟨accounted_initial hw, ?_⟩
    obtain ⟨-, -, hq, hl, -⟩ := hw
    refine .idle (by rw [hl]; rfl) ?_
    rw [hq]
    simp
  · rintro w e w' ⟨ha, ho⟩ hn
    exact ⟨ha.next ho hn, ho.next hn⟩

/-- The earlier part of a sane trace is sane. -/
theorem Sane.suffix {t u : List Obs} (h : Sane (t ++ u)) : Sane u := by
  induction t with
  | nil => exact h
  | cons o t ih =>
    cases o with
    | called rows => exact ih h.2.2
    | reserved rows => exact ih h.2
    | seeded => exact ih h
    | scanned => exact ih h
    | resolved => exact ih h
    | retried => exact ih h
    | folded => exact ih h

/-- **A sequence is told once and tried at most three times.** In every run of the notifier, with
exceptions, cancellations and crashes anywhere and any acknowledgements and retries in between:
every call of the provider is made while a reservation of exactly its rows is committed and
unresolved; a sequence is in at most `maxAttempts` calls since its admission or its last retry; no
reservation is committed while an earlier one is unresolved; and a sequence whose delivery has been
committed is in no later call. -/
theorem told_once (caps : Capabilities) {w : World} (h : (notifier caps).Reachable w) :
    (∀ t rows u, w.trace = t ++ .called rows :: u →
        ∃ reserved, openAttempt u = some reserved ∧ ∀ n, n ∈ rows ↔ n ∈ reserved)
      ∧ (∀ n, callsSince n w.trace ≤ maxAttempts)
      ∧ (∀ t rows u, w.trace = t ++ .reserved rows :: u → openAttempt u = none)
      ∧ (∀ t rows u, w.trace = t ++ .called rows :: u → ∀ n ∈ rows, ¬ Delivered n u) := by
  obtain ⟨ha, -⟩ := accounted_of_reachable h
  refine ⟨?_, ?_, ?_, ?_⟩
  · intro t rows u ht
    have hsane := ha.sane
    rw [ht] at hsane
    exact hsane.suffix.1
  · intro n
    rcases hn : w.journal.row n with _ | r
    · exact (ha.absent n hn).1
    · have hc := ha.calls n r hn
      have hle := ha.attempts_le hn
      omega
  · intro t rows u ht
    have hsane := ha.sane
    rw [ht] at hsane
    exact hsane.suffix.1
  · intro t rows u ht
    have hsane := ha.sane
    rw [ht] at hsane
    exact hsane.suffix.2.1

/-! ### One message -/

/-- A bridge with all capabilities. -/
def fullCaps : Capabilities := ⟨true, true, fun _ => rfl⟩

/-- A message for the user. -/
def userFrame : Json :=
  .obj [(lit "type", .str (lit "user")),
    (lit "message", .obj [(lit "content", .str (lit "hello"))])]

/-- A notifier that has just activated its journal, beside an empty bridge. -/
def freshWorld : World where
  bridge := .empty
  journal := { Journal.initial (.codex (.ofDigit 64 0xa)) (.ofDigit 32 1) 0 false with
    activationConfirmed := true }
  queue := []
  loop := .new
  health := .starting
  trace := []

/-- The fresh world is one a notifier starts from. -/
theorem freshWorld_initial (caps : Capabilities) : World.initial caps freshWorld :=
  ⟨.init rfl, ⟨_, _, 0, false, Nat.zero_le _, rfl⟩, rfl, rfl, rfl, rfl⟩

/-- A message is stored, scanned, reserved, told and delivered. -/
def deliveringRun : List WorldEvent :=
  [.bridge (.store 0 1 userFrame), .begin 1 false, .work none 1 false, .work none 1 false,
    .work none 2 false, .work none 2 false, .work none 3 false, .work none 3 false,
    .rendered, .call,
    .outcome .delivered 4 false, .work none 5 false]

/-- The message is in one call, and its delivery is committed. -/
theorem told_once_delivered : ∃ w, (notifier fullCaps).run freshWorld deliveringRun = some w
    ∧ callsSince 1 w.trace = 1 ∧ callsSince 1 w.trace ≤ maxAttempts := by
  have hcalls : ((notifier fullCaps).run freshWorld deliveringRun).map (fun w =>
    callsSince 1 w.trace)
      = some 1 := by decide +kernel
  obtain ⟨w, hw, hone⟩ := Option.map_eq_some_iff.mp hcalls
  have hreach := (System.Reachable.init (freshWorld_initial fullCaps)).run hw
  exact ⟨w, hw, hone, (told_once fullCaps hreach).2.1 1⟩

end PeerBridge.Notify
