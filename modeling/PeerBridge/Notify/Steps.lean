import PeerBridge.Notify.Delivery

/-!
# What one step of the notifier can do

The inversion of `runStage` and of `World.next` that every invariant of the system is proved from: a
stage leaves the journal as it is or carries out one of its operations (`Transacts`), and an event
of the system is an operation of the bridge, a stage of the worker, a call of the provider, or
touches neither the databases nor the trace (`Moves`).
-/

namespace PeerBridge.Notify

open Py Relational Effects Transition PeerBridge.Service PeerBridge.Bridge

variable {caps : Capabilities}

/-! ## A stage -/

/-- The stages that end an attempt. -/
def Stage.ends : Stage → Bool
  | .recover _ | .resolve .. => true
  | _ => false

/-- What a stage does to the journal, and what is noted down of it. -/
inductive Transacts (caps : Capabilities) (db : Db) (j : Journal) : Stage → Journal → List Obs →
    Prop where
  | nothing (stage : Stage) : Transacts caps db j stage j []
  | resolved {stage : Stage} {a : Attempt} {o : Journal.Outcome} {now : ℕ} {k : Journal}
      (hs : stage.ends = true) (ha : j.attempt = some a) (h : j.resolve o now = .ok k) :
      Transacts caps db j stage k (lost (j.settleAll a.members o now) k ++ [.resolved o a.members])
  | seeded {records : List Record} {k : Journal} (hs : j.pointersSeeded = false)
      (hread : (if caps.pointers then readSeed caps db else .ok []) = .ok records)
      (h : j.seedPointers records = .ok k) : Transacts caps db j .seed k [.seeded records]
  | reconciled {s : Snapshot} {records : List Record} {k : Journal}
      (hread : retained caps db (j.rows.map Work.seq) = .ok (s, records))
      (h : j.reconcile s records = .ok k) :
      Transacts caps db j .reconcile k (lost (j.judgeAll s records) k)
  | ingested {now : ℕ} {s : Scanned} {m k : Journal}
    (hread : scan caps db j.enumeratedThrough = .ok s)
      (hm : j.admitAll s = .ok m) (h : j.ingest s = .ok k) :
      Transacts caps db j (.ingest now) k (lost m k ++
        [.scanned j.enumeratedThrough s.through (covered db j.enumeratedThrough s.through)])
  | reserved {now : ℕ} {sequences : List ℕ} {rows : List Work} {k : Journal}
      (hdue : j.due now caps.pointers = .ok sequences)
      (h : j.reserve sequences now = .ok (rows, k)) :
      Transacts caps db j (.reserve now) k [.reserved sequences]
  | retried {sequences : List ℕ} {k : Journal} (h : j.retry sequences = .ok k) :
      Transacts caps db j (.retry sequences) k [.retried sequences]
  | acknowledged {k : Journal} (h : j.acknowledgeHealth = .ok k) :
      Transacts caps db j .acknowledgeHealth k []

/-- A stage that is one transaction does what the transaction's body does. -/
theorem transacts_transacted {db : Db} {j : Journal} {stage : Stage} {x : Except Exc Journal}
    {noted : Journal → List Obs} (h : ∀ k, x = .ok k → Transacts caps db j stage k (noted k)) :
    Transacts caps db j stage (transacted j x noted).journal (transacted j x noted).noted := by
  rcases x with e | k
  · exact .nothing stage
  · exact h k rfl

/-- The stage that ingests a scan is one of its transactions. -/
theorem transacts_ingestStage {db : Db} {j : Journal} (now : ℕ) :
    Transacts caps db j (.ingest now)
      (ingestStage caps db j now (scan caps db j.enumeratedThrough)).journal
      (ingestStage caps db j now (scan caps db j.enumeratedThrough)).noted := by
  rcases hread : scan caps db j.enumeratedThrough with e | s
  · exact .nothing _
  · rcases hm : j.admitAll s with e | m
    · rcases h : j.ingest s with e' | k
      · simp only [ingestStage, hm, h]
        split
        · exact .nothing _
        · exact .nothing _
      · obtain ⟨m, -, -, -, -, hm'⟩ := Journal.ingest_eq_ok h
        rw [hm] at hm'
        cases hm'
    · rcases h : j.ingest s with e' | k
      · simp only [ingestStage, hm, h]
        split
        · exact .nothing _
        · exact .nothing _
      · simp only [ingestStage, hm, h]
        exact .ingested hread hm h

/-- The stage that reserves is one of its transactions. -/
theorem transacts_reserveStage {db : Db} {j : Journal} (now : ℕ) :
    Transacts caps db j (.reserve now) (reserveStage caps j now).journal
      (reserveStage caps j now).noted := by
  unfold reserveStage
  rcases hdue : j.due now caps.pointers with e | sequences
  · exact .nothing _
  · simp only
    split
    · exact .nothing _
    · rcases h : j.reserve sequences now with e | ⟨rows, k⟩
      · exact .nothing _
      · exact .reserved hdue h

/-- **What a stage can do.** -/
theorem transacts_runStage (db : Db) (j : Journal) (stage : Stage) :
    Transacts caps db j stage (runStage caps db j stage).journal
    (runStage caps db j stage).noted := by
  cases stage with
  | recover now =>
    unfold runStage
    rcases ha : j.attempt with _ | a
    · exact .nothing _
    · exact transacts_transacted fun k h => .resolved rfl ha h
  | seed =>
    unfold runStage
    by_cases hs : j.pointersSeeded = true
    · simp only [hs, if_true]
      exact .nothing _
    · rw [if_neg hs]
      unfold seedStage
      rcases hread : (if caps.pointers = true then readSeed caps db else .ok []) with e | records
      · exact .nothing _
      · exact transacts_transacted fun k h => .seeded (by simpa using hs) hread h
  | reconcile =>
    unfold runStage reconcileStage
    rcases hread : retained caps db (j.rows.map Work.seq) with e | ⟨s, records⟩
    · exact .nothing _
    · exact transacts_transacted fun k h => .reconciled hread h
  | ingest now => exact transacts_ingestStage now
  | reserve now => exact transacts_reserveStage now
  | resolve outcome now =>
    unfold runStage
    rcases ha : j.attempt with _ | a
    · exact .nothing _
    · exact transacts_transacted fun k h => .resolved rfl ha h
  | retry sequences => exact transacts_transacted fun k h => .retried h
  | acknowledgeHealth => exact transacts_transacted fun k h => .acknowledged h

/-- The form of what a stage returns. -/
def Stage.returns : Stage → Value → Prop
  | .ingest _, v => ∃ sequences admission, v = .due sequences admission
  | .reserve _, v => ∃ rows, v = .rows rows
  | _, v => v = .done

/-- A transaction returns nothing. -/
theorem value_transacted {j : Journal} {x : Except Exc Journal} {noted : Journal → List Obs}
    {v : Value}
    (h : (transacted j x noted).result = .ok v) : v = .done := by
  rcases x with e | k
  · cases h
  · cases h
    rfl

/-- What is due is the journal's list, at the time of the question. -/
theorem value_dueOf {j : Journal} {now : ℕ} {b : Bool} {v : Value}
    (h : dueOf caps j now b = .ok v) :
    ∃ sequences, j.due now caps.pointers = .ok sequences ∧ v = .due sequences b := by
  unfold dueOf at h
  rcases hd : j.due now caps.pointers with e | sequences
  · rw [hd] at h
    cases h
  · rw [hd] at h
    cases h
    exact ⟨sequences, rfl, rfl⟩

/-- A stage returns a value of its own kind. -/
theorem returns_of_runStage {db : Db} {j : Journal} {stage : Stage} {v : Value}
    (h : (runStage caps db j stage).result = .ok v) : stage.returns v := by
  cases stage with
  | recover now =>
    simp only [runStage] at h
    rcases ha : j.attempt with _ | a
    · rw [ha] at h
      cases h
      rfl
    · rw [ha] at h
      exact value_transacted h
  | seed =>
    simp only [runStage] at h
    split at h
    · cases h
      rfl
    · simp only [seedStage] at h
      split at h
      · cases h
      · exact value_transacted h
  | reconcile =>
    simp only [runStage, reconcileStage] at h
    split at h
    · cases h
    · exact value_transacted h
  | ingest now =>
    simp only [runStage, ingestStage] at h
    split at h
    · cases h
    · split at h
      · obtain ⟨sequences, -, hv⟩ := value_dueOf h
        exact ⟨sequences, _, hv⟩
      · split at h
        · obtain ⟨sequences, -, hv⟩ := value_dueOf h
          exact ⟨sequences, _, hv⟩
        · cases h
      · obtain ⟨sequences, -, hv⟩ := value_dueOf h
        exact ⟨sequences, _, hv⟩
  | reserve now =>
    simp only [runStage, reserveStage] at h
    split at h
    · cases h
    · split at h
      · cases h
        exact ⟨[], rfl⟩
      · split at h
        · cases h
          exact ⟨_, rfl⟩
        · cases h
  | resolve outcome now =>
    simp only [runStage] at h
    rcases ha : j.attempt with _ | a
    · rw [ha] at h
      cases h
    · rw [ha] at h
      exact value_transacted h
  | retry sequences => exact value_transacted h
  | acknowledgeHealth => exact value_transacted h

/-- A stage that returns rows has just reserved them. -/
theorem rows_of_runStage {db : Db} {j : Journal} {stage : Stage} {rows : List Work}
    (h : (runStage caps db j stage).result = .ok (.rows rows)) (hne : rows ≠ []) :
    ∃ a, (runStage caps db j stage).journal.attempt = some a
      ∧ (∀ n, n ∈ rows.map Work.seq ↔ n ∈ a.members)
      ∧ (runStage caps db j stage).noted = [.reserved a.members] := by
  have hreturns := returns_of_runStage h
  cases stage with
  | reserve now =>
    simp only [runStage, reserveStage] at h ⊢
    rcases hdue : j.due now caps.pointers with e | sequences
    · rw [hdue] at h
      cases h
    · rw [hdue] at h
      simp only at h ⊢
      split at h
      · cases h
        exact absurd rfl hne
      · next hseqs =>
        rw [if_neg hseqs]
        rcases hr : j.reserve sequences now with e | ⟨rows', k⟩
        · rw [hr] at h
          cases h
        · rw [hr] at h
          cases h
          obtain ⟨-, -, -, -, hselected, rfl, rfl, -⟩ := Journal.reserve_eq_ok hr
          refine ⟨⟨now, sequences⟩, rfl, ?_, rfl⟩
          intro n
          simp only [List.mem_map, List.mem_filter, List.contains_iff_mem]
          constructor
          · rintro ⟨w, ⟨-, hw⟩, rfl⟩
            exact hw
          · intro hn
            obtain ⟨w, hw, -⟩ := hselected n hn
            have hrow := Journal.row_reserveAll j sequences now n
            rw [hw, Option.map_some] at hrow
            have hseq := Journal.seq_of_row hrow
            exact ⟨_, ⟨Journal.mem_of_row hrow, hseq ▸ hn⟩, hseq⟩
  | ingest now =>
    obtain ⟨sequences, b, hv⟩ := hreturns
    cases hv
  | recover now => cases hreturns
  | seed => cases hreturns
  | reconcile => cases hreturns
  | resolve outcome now => cases hreturns
  | retry sequences => cases hreturns
  | acknowledgeHealth => cases hreturns

/-! ## The loop touches neither database -/

/-- The databases and the trace are the same. -/
structure SameStores (w w' : World) : Prop where
  bridge : w'.bridge = w.bridge
  journal : w'.journal = w.journal
  trace : w'.trace = w.trace

/-- No step leaves the stores as they are. -/
theorem SameStores.rfl {w : World} : SameStores w w := by
  constructor <;> rfl

/-- Stores that stay as they are stay so in a chain. -/
theorem SameStores.trans {a b c : World} (h : SameStores a b) (h' : SameStores b c) :
    SameStores a c where
  bridge := h'.bridge.trans h.bridge
  journal := h'.journal.trans h.journal
  trace := h'.trace.trans h.trace

/-- An exception of the loop leaves the stores as they are. -/
theorem sameStores_raise (w : World) (e : Exc) : SameStores w (w.raise e) := by
  constructor <;> rfl

/-- The end of the loop leaves the stores as they are. -/
theorem sameStores_finish (w : World) (b : Bool) : SameStores w (w.finish b) := by
  constructor <;> rfl

/-- Posting a job leaves the stores as they are. -/
theorem sameStores_post (w : World) (stages : List Stage) (p : Phase) (full : Bool) :
    SameStores w (w.post stages p full) := by
  unfold World.post
  split
  · exact sameStores_raise w _
  · constructor <;> rfl

/-- Resuming the loop leaves the stores as they are. -/
theorem sameStores_resume (w : World) (r : Except Exc Value) (now : ℕ) (full : Bool) :
    SameStores w (w.resume r now full) := by
  unfold World.resume
  split
  · exact sameStores_raise w _
  · split
    · exact .trans (by constructor <;> rfl) (sameStores_post _ _ _ _)
    · split
      · exact sameStores_finish w _
      · exact .trans (by constructor <;> rfl) (sameStores_post _ _ _ _)
    · split
      · exact .trans (by constructor <;> rfl) (sameStores_finish _ _)
      · constructor <;> rfl
    · exact .trans (by constructor <;> rfl) (sameStores_finish _ _)
    · exact sameStores_raise w _

/-- Refusing an operator leaves the stores as they are. -/
theorem sameStores_refuseOperator (w : World) (e : Exc) : SameStores w (w.refuseOperator e) := by
  unfold World.refuseOperator
  simp only
  split
  · split <;> constructor <;> rfl
  · constructor <;> rfl
  · constructor <;> rfl
  · split <;> constructor <;> rfl

/-- An answer leaves the stores as they are. -/
theorem sameStores_answer (w : World) (owner : Owner) (r : Except Exc Value) (now : ℕ)
    (full : Bool) :
    SameStores w (w.answer owner r now full) := by
  unfold World.answer
  split
  · exact sameStores_resume w r now full
  · split
    · exact .rfl
    · exact sameStores_refuseOperator w _
  · exact .rfl

/-! ## An event -/

/-- The worker runs the first stage of its first job. -/
structure Staged (caps : Capabilities) (w w' : World) (stage : Stage) : Prop where
  head : ∃ stages owner rest, w.queue = ⟨stage :: stages, owner⟩ :: rest
  bridge : w'.bridge = w.bridge
  journal : w'.journal = (runStage caps w.bridge.db w.journal stage).journal
  trace : w'.trace = (runStage caps w.bridge.db w.journal stage).noted ++ w.trace

/-- What an event can do to the databases and to the trace. -/
inductive Moves (caps : Capabilities) (w w' : World) : Prop where
  | quiet (h : SameStores w w')
  | bridge (op : BridgeOp) (ha : op.allowed caps w.bridge) (hb : w'.bridge = w.bridge.after op)
      (hj : w'.journal = w.journal) (ht : w'.trace = w.trace)
  | stage (stage : Stage) (h : Staged caps w w' stage)
  | call (rows : List Work) (admission : Bool) (notice : Notice)
      (hp : w.loop.phase = .deliver rows admission notice) (hb : w'.bridge = w.bridge)
      (hj : w'.journal = w.journal) (ht : w'.trace = .called (rows.map Work.seq) :: w.trace)

/-- A step of the worker is a move. -/
theorem work_moves {w w' : World} {failure : Option (Exc × Bool)} {now : ℕ} {full : Bool}
    (h : w.work caps failure now full = some w') : Moves caps w w' := by
  unfold World.work at h
  split at h
  · cases h
  · cases h
    exact .quiet (by constructor <;> rfl)
  · next stage stages owner rest hq =>
    split at h
    · cases h
      exact .quiet (.trans (by constructor <;> rfl) (sameStores_answer _ _ _ _ _))
    · simp only at h
      refine .stage stage ?_
      split at h
      · cases h
        exact ⟨⟨stages, owner, rest, hq⟩, (sameStores_answer _ _ _ _ _).bridge,
          (sameStores_answer _ _ _ _ _).journal, (sameStores_answer _ _ _ _ _).trace⟩
      · cases h
        exact ⟨⟨stages, owner, rest, hq⟩, (sameStores_answer _ _ _ _ _).bridge,
          (sameStores_answer _ _ _ _ _).journal, (sameStores_answer _ _ _ _ _).trace⟩
      · split at h
        · cases h
          exact ⟨⟨stages, owner, rest, hq⟩, (sameStores_answer _ _ _ _ _).bridge,
            (sameStores_answer _ _ _ _ _).journal, (sameStores_answer _ _ _ _ _).trace⟩
        · cases h
          exact ⟨⟨stages, owner, rest, hq⟩, rfl, rfl, rfl⟩

/-- **What an event can do.** -/
theorem moves_of_next {w w' : World} {e : WorldEvent} (h : (notifier caps).next w e = some w') :
    Moves caps w w' := by
  cases e with
  | bridge op =>
    obtain ⟨ha, h⟩ := Option.ite_some_none_eq_some.mp h
    subst h
    exact .bridge op ha rfl rfl rfl
  | begin now full =>
    simp only [notifier, World.next] at h
    split at h
    · split at h
      · cases h
      · split at h
        · cases h
          exact .quiet (sameStores_post _ _ _ _)
        · cases h
          exact .quiet (sameStores_post _ _ _ _)
    · cases h
  | work failure now full =>
    obtain ⟨-, h⟩ := Option.ite_none_left_eq_some.mp h
    exact work_moves h
  | page reply =>
    simp only [notifier, World.next] at h
    split at h
    · cases h
      exact .quiet (by constructor <;> rfl)
    · cases h
  | rendered =>
    simp only [notifier, World.next] at h
    split at h
    · split at h
      · cases h
        exact .quiet (by constructor <;> rfl)
      · cases h
        exact .quiet (sameStores_raise _ _)
    · cases h
  | call =>
    simp only [notifier, World.next] at h
    split at h
    · next rows admission notice hp =>
      cases h
      exact .call rows admission notice hp rfl rfl rfl
    · cases h
  | outcome o now full =>
    simp only [notifier, World.next] at h
    split at h
    · split at h
      · cases h
      · cases h
        exact .quiet (sameStores_post _ _ _ _)
    · cases h
  | providerFails =>
    simp only [notifier, World.next] at h
    split at h
    · cases h
      exact .quiet (sameStores_raise _ _)
    · cases h
  | cancel =>
    cases h
    exact .quiet (by constructor <;> rfl)
  | crash =>
    cases h
    exact .quiet (by constructor <;> rfl)
  | operatorRetry sequences =>
    cases h
    exact .quiet (by constructor <;> rfl)
  | operatorAcknowledge =>
    cases h
    exact .quiet (by constructor <;> rfl)

end PeerBridge.Notify
