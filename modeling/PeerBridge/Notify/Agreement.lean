import PeerBridge.Notify.Attempts
import PeerBridge.Notify.Explained
import PeerBridge.Notify.Soundness

/-!
# The bridge and the journal agree

The journal attributes each row that has disappeared from the inbox to an acknowledgement, a
replacement or the end of a binding, from a later snapshot alone. Beside a bridge that keeps all
three kinds of evidence it is never at a loss.

* Reading: a snapshot of a well-formed database is never refused (`snapshot_eq_ok`), and a scan of
  it has the form a journal takes (`scan_spec`).
* The journal holds only what the inbox has held (`Agreed`), under the origin it had there.
* So what has disappeared is explained (`Explained`), and what has not is as it was
  (`bridge_journal_agree`).
-/

namespace PeerBridge.Notify

open Py Relational Effects Transition PeerBridge.Service PeerBridge.Bridge

variable {caps : Capabilities} {db : Db}

/-! ## Rows -/

/-- A row of a well-formed inbox can be read. -/
theorem readRecord_eq_ok (h : db.WellFormed) {r : Row} (hr : r ∈ db.inbox) :
    readRecord caps r = .ok ⟨r.seq, if caps.pointers then r.origin else .peer⟩ := by
  obtain ⟨hlow, hhigh⟩ := h.rows r hr
  unfold readRecord
  rw [if_pos ⟨by omega, hhigh.trans h.head_le⟩]

/-! ## Snapshots -/

/-- A row that is not a peer frame is a pointer. -/
theorem Row.pointer_of_isPeer {r : Row} (h : r.isPeer = false) :
    ∃ key inst, r.origin = .pointer key inst := by
  unfold Row.isPeer at h
  rcases ho : r.origin with _ | ⟨key, inst⟩
  · simp [ho] at h
  · exact ⟨key, inst, rfl⟩

/-- There are at most as many pointers as bindings. -/
theorem length_pointers (h : db.WellFormed) :
    ((orderedRows db).filter fun r => !r.isPeer).length ≤ pointerLimit := by
  -- The key of each pointer is the key of a binding, and no two pointers have the same.
  let pointers := (orderedRows db).filter fun r => !r.isPeer
  have hmem : ∀ r ∈ pointers, r ∈ db.inbox ∧ r.isPeer = false := by
    intro r hr
    obtain ⟨hr, hp⟩ := List.mem_filter.mp hr
    exact ⟨mem_orderedRows.mp hr, by simpa using hp⟩
  have hnodup : (pointers.map Row.target?).Nodup := by
    refine (List.Nodup.of_map Row.seq ?_).map_on ?_
    · exact (nodup_orderedRows db).sublist (List.filter_sublist.map Row.seq)
    · intro r hr r' hr' heq
      obtain ⟨hin, hpeer⟩ := hmem r hr
      obtain ⟨k, inst, horigin⟩ := Row.pointer_of_isPeer hpeer
      have hk : r.target? = some k := Row.target?_eq_some.mpr (Row.pointsTo_iff.mpr ⟨inst, horigin⟩)
      exact h.one r hin r' (hmem r' hr').1 k (Row.target?_eq_some.mp hk)
        (Row.target?_eq_some.mp (heq ▸ hk))
  have hsub : pointers.map Row.target? ⊆ db.bindings.rows.map fun b => some b.binding := by
    intro o ho
    obtain ⟨r, hr, rfl⟩ := List.mem_map.mp ho
    obtain ⟨hin, hpeer⟩ := hmem r hr
    obtain ⟨k, inst, horigin⟩ := Row.pointer_of_isPeer hpeer
    obtain ⟨b, hb, rfl, -⟩ := h.owner r hin k inst horigin
    rw [Row.target?_eq_some.mpr (Row.pointsTo_iff.mpr ⟨inst, horigin⟩)]
    exact List.mem_map.mpr ⟨b, hb, rfl⟩
  have hle := (hnodup.subperm hsub).length_le
  rw [List.length_map, List.length_map] at hle
  exact hle.trans h.bindings

/-- The instance of a stored binding is found under its key. -/
theorem instanceOf_eq_some {key : Hex 64} {inst : Instance}
    (h : ∃ b ∈ db.bindings, b.binding = key ∧ b.bindingInstance = inst) :
    instanceOf (instances db) key = some inst := by
  obtain ⟨b, hb, rfl, rfl⟩ := h
  unfold instanceOf instances
  have hnodup := db.bindings.nodup
  have hmem := Table.mem_def.mp hb
  generalize db.bindings.rows = rows at hnodup hmem
  induction rows with
  | nil => cases hmem
  | cons c rows ih =>
    rw [List.map_cons, List.nodup_cons] at hnodup
    rw [List.map_cons]
    rcases List.mem_cons.mp hmem with rfl | hmem
    · rw [List.lookup_cons_self]
    · have hne : b.binding ≠ c.binding := by
        intro heq
        exact hnodup.1 (heq ▸ List.mem_map_of_mem hmem)
      rw [List.lookup_cons]
      simp only [beq_eq_false_iff_ne.mpr hne]
      exact ih hnodup.2 hmem

/-- Pointers of different bindings, each with the instance its binding has, are all taken. -/
theorem collectPointers_eq_ok {bindings : List (Hex 64 × Instance)} {taken rest : List Record}
    (horigin : ∀ r ∈ rest, ∃ key inst, r.origin = .pointer key inst ∧ instanceOf bindings key
      = some inst)
    (hdistinct : (taken ++ rest).Pairwise fun a b => ∀ key, a.pointsTo key = true → b.pointsTo key
      = false) :
    collectPointers bindings taken rest = .ok (taken ++ rest) := by
  induction rest generalizing taken with
  | nil => rw [collectPointers, List.append_nil]
  | cons r rest ih =>
    obtain ⟨key, inst, ho, hinst⟩ := horigin r (by simp)
    have hnot : taken.any (Record.pointsTo key) = false := by
      rw [List.any_eq_false]
      intro a ha hpoints
      have hr : r.pointsTo key = true := by simp [Record.pointsTo, ho]
      have := (List.pairwise_append.mp hdistinct).2.2 a ha r (by simp) key hpoints
      rw [hr] at this
      cases this
    rw [collectPointers]
    simp only [ho, hnot, Bool.false_eq_true, hinst, ne_eq, not_true_eq_false, or_self, if_false]
    rw [ih (fun r hr => horigin r (by simp [hr])) (by simpa using hdistinct)]
    simp

/-- An instance is found under a key exactly when a stored binding has both. -/
theorem instanceOf_eq_some_iff {key : Hex 64} {inst : Instance} :
    instanceOf (instances db) key = some inst
      ↔ ∃ b ∈ db.bindings, b.binding = key ∧ b.bindingInstance = inst := by
  refine ⟨?_, instanceOf_eq_some⟩
  intro h
  obtain ⟨l₁, l₂, heq, -⟩ := List.lookup_eq_some_iff.mp h
  have hmem : (key, inst) ∈ instances db := by
    rw [heq]
    simp
  obtain ⟨b, hb, hpair⟩ := List.mem_map.mp hmem
  obtain ⟨rfl, rfl⟩ := Prod.mk.inj hpair
  exact ⟨b, hb, rfl, rfl⟩

/-- The record of a row, beside a bridge that keeps bindings. -/
def recordOf (r : Row) : Record := ⟨r.seq, r.origin⟩

/-- The pointers of a well-formed inbox. -/
def pointerRecords (db : Db) : List Record :=
  ((orderedRows db).filter fun r => !r.isPeer).map recordOf

/-- The rows of a well-formed database are read as their records. -/
theorem mapM_readRecord (hp : caps.pointers = true) (h : db.WellFormed) {rows : List Row}
    (hrows : ∀ r ∈ rows, r ∈ db.inbox) : rows.mapM (readRecord caps) = .ok (rows.map recordOf) := by
  induction rows with
  | nil => rfl
  | cons r rows ih =>
    rw [List.mapM_cons, readRecord_eq_ok h (hrows r (by simp)), ih fun r hr =>
      hrows r (by simp [hr])]
    simp only [hp, if_true]
    rfl

/-- The pointers of a well-formed database are read. -/
theorem readPointers_eq_ok (hp : caps.pointers = true) (h : db.WellFormed) :
    readPointers caps db = .ok (pointerRecords db) := by
  have hlen := length_pointers h
  have htake : ((orderedRows db).filter fun r => !r.isPeer).take (pointerLimit + 1)
      = (orderedRows db).filter fun r => !r.isPeer := List.take_of_length_le (by omega)
  have hmem : ∀ r ∈ (orderedRows db).filter fun r => !r.isPeer, r ∈ db.inbox
      ∧ r.isPeer = false := by
    intro r hr
    obtain ⟨hr, hpeer⟩ := List.mem_filter.mp hr
    exact ⟨mem_orderedRows.mp hr, by simpa using hpeer⟩
  have hroom : raiseIf (decide (pointerLimit < ((orderedRows db).filter fun r => !r.isPeer).length))
      (Exc.source .pointerCapacity) = .ok () := raiseIf_eq_ok.mpr (by simpa using hlen)
  unfold readPointers
  simp only [htake]
  rw [hroom, mapM_readRecord hp h fun r hr => (hmem r hr).1]
  refine collectPointers_eq_ok ?_ ?_
  · intro rec hrec
    obtain ⟨r, hr, rfl⟩ := List.mem_map.mp hrec
    obtain ⟨key, inst, horigin⟩ := Row.pointer_of_isPeer (hmem r hr).2
    exact ⟨key, inst, horigin, instanceOf_eq_some (h.owner r (hmem r hr).1 key inst horigin)⟩
  · rw [List.nil_append, List.pairwise_map]
    have hnodup : ((orderedRows db).filter fun r => !r.isPeer).Nodup :=
      (List.Nodup.of_map Row.seq (nodup_orderedRows db)).filter _
    refine List.Pairwise.imp_of_mem ?_ hnodup
    intro a b ha hb hne key hpa
    rw [Bool.eq_false_iff]
    intro hpb
    exact hne (h.one a (hmem a ha).1 b (hmem b hb).1 key hpa hpb)

/-- **A snapshot of a well-formed inbox is never refused.** -/
theorem snapshot_eq_ok (hp : caps.pointers = true) (h : db.WellFormed) :
    snapshot caps db = .ok ⟨some db.ackThrough, db.activation, some (instances db),
      some (pointerRecords db)⟩ := by
  have hack := caps.watermarked hp
  have hlen : db.bindings.rows.length ≤ pointerLimit := h.bindings
  have hroom : raiseIf (decide (pointerLimit < db.bindings.rows.length))
    (Exc.source .bindingCapacity)
      = .ok () := raiseIf_eq_ok.mpr (by simpa using hlen)
  unfold snapshot
  simp only [hp, hack, if_true]
  rw [hroom, readPointers_eq_ok hp h]
  rfl

/-- The pointer of a binding, in a snapshot. -/
theorem pointerOf_eq_some (h : db.WellFormed) {r : Row} {key : Hex 64} (hr : r ∈ db.inbox)
    (hpoints : r.pointsTo key = true) : pointerOf (pointerRecords db) key = some (recordOf r) := by
  have hpeer : r.isPeer = false := by
    obtain ⟨inst, horigin⟩ := Row.pointsTo_iff.mp hpoints
    simp [Row.isPeer, horigin]
  have hmem : recordOf r ∈ pointerRecords db :=
    List.mem_map_of_mem (List.mem_filter.mpr ⟨mem_orderedRows.mpr hr, by simp [hpeer]⟩)
  unfold pointerOf
  rcases hfind : (pointerRecords db).find? (Record.pointsTo key) with _ | rec
  · have := List.find?_eq_none.mp hfind _ hmem
    exact absurd hpoints this
  · have hrec := List.find?_some hfind
    obtain ⟨r', hr', rfl⟩ := List.mem_map.mp (List.mem_of_find?_eq_some hfind)
    have hin := mem_orderedRows.mp (List.mem_filter.mp hr').1
    rw [h.one r' hin r hr key hrec hpoints]

/-! ## Scans -/

/-- What a scan has found of the rows it went over. -/
structure ScanSpec (s s' : Scanned) (rows : List Row) : Prop where
  /-- Every row is a record or is ignored. -/
  perm : (s'.ignored ++ s'.records.map Record.seq).Perm
    (s.ignored ++ s.records.map Record.seq ++ rows.map Row.seq)
  records : ∀ rec ∈ s'.records, rec ∈ s.records ∨ ∃ r ∈ rows, rec = recordOf r
  last : s'.through = s.through ∨ ∃ r ∈ rows, s'.through = r.seq
  through_le : (∀ r ∈ rows, s.through ≤ r.seq) → rows.Pairwise (fun a b => a.seq ≤ b.seq) →
    s.through ≤ s'.through ∧ ∀ r ∈ rows, r.seq ≤ s'.through

/-- One more row in front of a scan. -/
theorem scanSpec_cons {s m s' : Scanned} {r : Row} {rows : List Row} (h : ScanSpec m s' rows)
    (hthrough : m.through = r.seq)
    (hperm : (m.ignored ++ m.records.map Record.seq).Perm
      (s.ignored ++ s.records.map Record.seq ++ [r.seq]))
    (hrecords : ∀ rec ∈ m.records, rec ∈ s.records ∨ rec = recordOf r) :
    ScanSpec s s' (r :: rows) := by
  refine ⟨?_, ?_, ?_, ?_⟩
  · refine h.perm.trans ?_
    rw [List.map_cons]
    have hcomm := hperm.append_right (rows.map Row.seq)
    simpa [List.append_assoc] using hcomm
  · intro rec hrec
    rcases h.records rec hrec with hm | ⟨r', hr', rfl⟩
    · rcases hrecords rec hm with hs | rfl
      · exact .inl hs
      · exact .inr ⟨r, by simp, rfl⟩
    · exact .inr ⟨r', by simp [hr'], rfl⟩
  · rcases h.last with heq | ⟨r', hr', heq⟩
    · exact .inr ⟨r, by simp, heq.trans hthrough⟩
    · exact .inr ⟨r', by simp [hr'], heq⟩
  · intro hlow hsorted
    obtain ⟨hfirst, hrest⟩ := List.pairwise_cons.mp hsorted
    obtain ⟨hle, hall⟩ := h.through_le (fun r' hr' => hthrough ▸ hfirst r' hr') hrest
    rw [hthrough] at hle
    refine ⟨(hlow r (by simp)).trans hle, ?_⟩
    intro r' hr'
    rcases List.mem_cons.mp hr' with rfl | hr'
    · exact hle
    · exact hall r' hr'

/-- A scan takes every row as a record or ignores it, in order. -/
theorem scanRows_spec (hp : caps.pointers = true) (h : db.WellFormed) {s s' : Scanned}
    {rows : List Row}
    (hrows : ∀ r ∈ rows, r ∈ db.inbox) (hscan : scanRows caps s rows = .ok s') :
    ScanSpec s s' rows := by
  induction rows generalizing s with
  | nil =>
    obtain rfl : s = s' := Except.ok.inj hscan
    exact ⟨by simp, fun _ => .inl, .inl rfl, fun _ _ => ⟨le_rfl, by simp⟩⟩
  | cons r rows ih =>
    have hrest : ∀ r ∈ rows, r ∈ db.inbox := fun r hr => hrows r (by simp [hr])
    rw [scanRows, readRecord_eq_ok h (hrows r (by simp))] at hscan
    simp only [hp, if_true] at hscan
    -- A record is appended behind the records, an ignored row behind the ignored ones.
    have hrecord : ∀ m : Scanned, m = { s with through := r.seq, records :=
      s.records ++ [recordOf r] } →
        scanRows caps m rows = .ok s' → ScanSpec s s' (r :: rows) := by
      rintro m rfl hm
      refine scanSpec_cons (ih hrest hm) rfl ?_ ?_
      · simp [recordOf]
      · intro rec hrec
        simpa using hrec
    obtain ⟨_, hok, hscan⟩ := except_bind_eq_ok.mp hscan
    obtain rfl := Except.ok.inj hok
    simp only at hscan
    split at hscan
    · exact hrecord _ rfl (by simpa [recordOf] using hscan)
    · next hpeer =>
      split at hscan
      · split at hscan
        · exact hrecord _ rfl (by simpa [recordOf] using hscan)
        · refine scanSpec_cons (ih hrest hscan) rfl ?_ fun _ => .inl
          simp only [List.append_assoc]
          exact List.Perm.append_left _ List.perm_append_comm
      · cases hscan

/-- **What a scan of a well-formed inbox says.** Its records are rows behind its start, and it has
the form a journal takes. -/
theorem scan_spec (hp : caps.pointers = true) (h : db.WellFormed) {after : ℕ} {s : Scanned}
    (hscan : scan caps db after = .ok s) :
    (∀ rec ∈ s.records, ∃ r ∈ db.inbox, after < r.seq ∧ rec = recordOf r)
      ∧ (after ≤ s.through ∧ s.through ≤ maxSequence)
      ∧ s.records.length ≤ scanLimit ∧ (∀ rec ∈ s.records, rec.seq ≤ s.through)
      ∧ s.ignored.length + s.records.length ≤ scanLimit
      ∧ (∀ n ∈ s.ignored, n ≠ 0 ∧ n ≤ s.through) ∧ s.ignored.Nodup
      ∧ ∀ n ∈ s.ignored, ∀ rec ∈ s.records, rec.seq ≠ n := by
  obtain ⟨_, hmax, hscan⟩ := except_bind_eq_ok.mp hscan
  obtain ⟨_, -, hscan⟩ := except_bind_eq_ok.mp hscan
  let rows := ((orderedRows db).filter fun r => after < r.seq).take scanLimit
  have hsub : rows.Sublist (orderedRows db) := (List.take_sublist _ _).trans List.filter_sublist
  have hrows : ∀ r ∈ rows, r ∈ db.inbox ∧ after < r.seq := by
    intro r hr
    obtain ⟨hr, hlt⟩ := List.mem_filter.mp (List.mem_of_mem_take hr)
    exact ⟨mem_orderedRows.mp hr, by simpa using hlt⟩
  have hspec : ScanSpec ⟨after, [], []⟩ s rows :=
    scanRows_spec hp h (fun r hr => (hrows r hr).1) hscan
  have hperm : (s.ignored ++ s.records.map Record.seq).Perm (rows.map Row.seq) := by
    simpa using hspec.perm
  obtain ⟨hle, hall⟩ := hspec.through_le (fun r hr => (hrows r hr).2.le)
    ((pairwise_orderedRows db).sublist hsub)
  have hseq : ∀ n ∈ s.ignored ++ s.records.map Record.seq, after < n ∧ n ≤ s.through := by
    intro n hn
    obtain ⟨r, hr, rfl⟩ := List.mem_map.mp (hperm.mem_iff.mp hn)
    exact ⟨(hrows r hr).2, hall r hr⟩
  have hnodup : (s.ignored ++ s.records.map Record.seq).Nodup :=
    hperm.nodup_iff.mpr ((nodup_orderedRows db).sublist (hsub.map Row.seq))
  obtain ⟨hignored, -, hdisjoint⟩ := List.nodup_append.mp hnodup
  have hlen : s.ignored.length + s.records.length ≤ scanLimit := by
    have heq := hperm.length_eq
    rw [List.length_append, List.length_map, List.length_map] at heq
    rw [heq]
    exact List.length_take_le _ _
  refine ⟨?_, ⟨hle, ?_⟩, by omega, ?_, hlen, ?_, hignored, ?_⟩
  · intro rec hrec
    rcases hspec.records rec hrec with hnil | ⟨r, hr, rfl⟩
    · cases hnil
    · exact ⟨r, (hrows r hr).1, (hrows r hr).2, rfl⟩
  · rcases hspec.last with heq | ⟨r, hr, heq⟩
    · rw [heq]
      simpa using raiseIf_eq_ok.mp hmax
    · rw [heq]
      exact (h.rows r (hrows r hr).1).2.trans h.head_le
  · intro rec hrec
    exact (hseq rec.seq (List.mem_append_right _ (List.mem_map_of_mem hrec))).2
  · intro n hn
    obtain ⟨hlow, hhigh⟩ := hseq n (List.mem_append_left _ hn)
    exact ⟨by omega, hhigh⟩
  · intro n hn rec hrec heq
    exact hdisjoint n hn rec.seq (List.mem_map_of_mem hrec) heq.symm

/-- What a journal asks the inbox for is exactly what is still there. -/
theorem retained_spec (hp : caps.pointers = true) (h : db.WellFormed) {sequences : List ℕ}
    {s : Snapshot}
    {records : List Record} (hread : retained caps db sequences = .ok (s, records)) :
    s = ⟨some db.ackThrough, db.activation, some (instances db), some (pointerRecords db)⟩
      ∧ (∀ rec ∈ records, ∃ r ∈ db.inbox, rec = recordOf r)
      ∧ ∀ r ∈ db.inbox, r.seq ∈ sequences → recordOf r ∈ records := by
  obtain ⟨_, -, hread⟩ := except_bind_eq_ok.mp hread
  rw [snapshot_eq_ok hp h] at hread
  have hmem : ∀ r ∈ (orderedRows db).filter fun r => sequences.contains r.seq, r ∈ db.inbox :=
    fun r hr => mem_orderedRows.mp (List.mem_filter.mp hr).1
  obtain ⟨_, hs, hread⟩ := except_bind_eq_ok.mp hread
  obtain rfl := Except.ok.inj hs
  rw [mapM_readRecord hp h hmem] at hread
  obtain ⟨rfl, rfl⟩ := Prod.mk.inj (Except.ok.inj hread)
  refine ⟨rfl, ?_, ?_⟩
  · intro rec hrec
    obtain ⟨r, hr, rfl⟩ := List.mem_map.mp hrec
    exact ⟨r, hmem r hr, rfl⟩
  · intro r hr hseq
    exact List.mem_map_of_mem (List.mem_filter.mpr ⟨mem_orderedRows.mpr hr, by simpa using hseq⟩)

/-! ## What the journal holds -/

/-- Every row of the journal was a row of the inbox, with the same origin. -/
def Agreed (log : List Row) (j : Journal) : Prop :=
  ∀ n w, j.row n = some w → ∃ r ∈ log, r.seq = n ∧ r.origin = w.origin

section agreed

variable {log : List Row} {j k m : Journal}

/-- A journal whose rows keep their origins still agrees with the log. -/
theorem Agreed.of_rows (h : Agreed log j)
    (hk : ∀ n w, k.row n = some w → ∃ v, j.row n = some v ∧ v.origin = w.origin) :
    Agreed log k := by
  intro n w hw
  obtain ⟨v, hv, ho⟩ := hk n w hw
  obtain ⟨r, hr, hseq, hor⟩ := h n v hv
  exact ⟨r, hr, hseq, hor.trans ho⟩

/-- Admitting records of the log keeps the journal in agreement. -/
theorem Agreed.admitted (h : Agreed log j) {historical : Bool} {records : List Record}
    (hrecords : ∀ rec ∈ records, ∃ r ∈ log, rec = recordOf r)
    (hadm : Journal.Admitted historical records j k) : Agreed log k := by
  intro n w hw
  rcases hadm.row n with hsame | ⟨-, rec, hrec, hseq, hrow, -⟩
  · rw [hsame] at hw
    exact h n w hw
  · rw [hrow] at hw
    cases hw
    obtain ⟨r, hr, rfl⟩ := hrecords rec hrec
    exact ⟨r, hr, hseq, rfl⟩

/-- An advance keeps the journal in agreement. -/
theorem Agreed.advanced (h : Agreed log j) (hadv : Journal.Advanced j k) : Agreed log k := by
  refine h.of_rows ?_
  intro n w hw
  rcases hadv.row_cases n with ⟨-, hnone⟩ | ⟨v, hv, hk | ⟨hnone, -⟩⟩
  · rw [hnone] at hw
    cases hw
  · rw [hk] at hw
    cases hw
    exact ⟨w, hv, rfl⟩
  · rw [hnone] at hw
    cases hw

/-- Resolving a row keeps its origin. -/
theorem origin_resolveRow (members : List ℕ) (o : Journal.Outcome) (now : ℕ) (w : Work) :
    (Journal.resolveRow members o now w).origin = w.origin := by
  unfold Journal.resolveRow Journal.settleRow
  repeat' split
  all_goals rfl

/-- The rows of a table rewritten with their origins kept. -/
theorem Agreed.mapped (h : Agreed log j) {f : Work → Work} (hf : ∀ w, (f w).origin = w.origin)
    (hk : ∀ n, k.row n = (j.row n).map f) : Agreed log k := by
  refine h.of_rows ?_
  intro n w hw
  rw [hk] at hw
  obtain ⟨v, hv, rfl⟩ := Option.map_eq_some_iff.mp hw
  exact ⟨v, hv, (hf v).symm⟩

/-- Every stage keeps the agreement. -/
theorem Agreed.transacts (hp : caps.pointers = true) (hwf : db.WellFormed)
    (hlog : ∀ r ∈ db.inbox, r ∈ log)
    (h : Agreed log j) {stage : Stage} {t : List Obs} (hs : Transacts caps db j stage k t) :
    Agreed log k := by
  cases hs with
  | nothing => exact h
  | resolved _ ha hr =>
    obtain ⟨a, -, hadv, -⟩ := Journal.resolve_eq_ok hr
    exact (h.mapped (origin_resolveRow _ _ _) (Journal.row_settleAll j a.members _ _)).advanced hadv
  | @seeded records _ hseeded hread hk =>
    obtain ⟨-, ⟨htrue, -⟩ | ⟨-, -, m, hadm, rfl⟩⟩ := Journal.seedPointers_eq_ok hk
    · rw [hseeded] at htrue
      cases htrue
    · suffices Agreed log m from this
      refine h.admitted ?_ hadm
      intro rec hrec
      rw [if_pos hp] at hread
      obtain ⟨s, hsnap, hread⟩ := except_bind_eq_ok.mp hread
      rw [snapshot_eq_ok hp hwf] at hsnap
      obtain rfl := Except.ok.inj hsnap
      obtain rfl := Except.ok.inj hread
      obtain ⟨r, hr, rfl⟩ := List.mem_map.mp hrec
      exact ⟨r, hlog r (mem_orderedRows.mp (List.mem_filter.mp hr).1), rfl⟩
  | @reconciled s records _ hread hk =>
    obtain ⟨-, -, -, m, hadv, -, rfl⟩ := Journal.reconcile_eq_ok hk
    have hjudged : Agreed log (j.judgeAll s records) :=
      h.mapped (fun w => (Journal.judged_spec s records w).2.1) (Journal.row_judgeAll j s records)
    refine (hjudged.advanced hadv).of_rows ?_
    intro n w hw
    rcases Journal.row_dropGone_cases m (j.gone s records) n with hsame | ⟨hnone, -⟩
    · rw [hsame] at hw
      exact ⟨w, hw, rfl⟩
    · rw [hnone] at hw
      cases hw
  | ingested hread hm hk =>
    obtain ⟨m, hadm, hadv, -, -, hm'⟩ := Journal.ingest_eq_ok hk
    refine Agreed.advanced (h.admitted ?_ hadm) hadv
    intro rec hrec
    obtain ⟨r, hr, -, rfl⟩ := (scan_spec hp hwf hread).1 rec hrec
    exact ⟨r, hlog r hr, rfl⟩
  | reserved hdue hk =>
    obtain ⟨-, -, -, -, -, rfl, -⟩ := Journal.reserve_eq_ok hk
    refine h.mapped ?_ (Journal.row_reserveAll j _ _)
    intro w
    unfold Journal.reserveRow
    split <;> rfl
  | retried hk =>
    obtain ⟨-, -, rfl⟩ := Journal.retry_eq_ok hk
    refine h.mapped ?_ (Journal.row_retry j _)
    intro w
    unfold Journal.retryRow
    split <;> rfl
  | acknowledged hk =>
    obtain ⟨-, rfl⟩ := Journal.commit_eq_ok.mp hk
    exact h

end agreed

/-! ## What is never raised -/

section refusals

variable {b : Inbox} {j : Journal} {e : Exc}

/-- Records the inbox holds are not taken for others. -/
theorem add_agrees (hb : Recorded b) (h : Agreed b.log j) {historical : Bool}
    {records : List Record}
    (hrecords : ∀ rec ∈ records, ∃ r ∈ b.db.inbox, rec = recordOf r)
    (hadd : j.add records historical = .error e) : e = .journal .capacity := by
  obtain ⟨pre, rec, post, m, rfl, hadm, hadmit⟩ := Journal.add_eq_error hadd
  have hlog : ∀ rec ∈ pre, ∃ r ∈ b.log, rec = recordOf r := by
    intro rec hrec
    obtain ⟨r, hr, heq⟩ := hrecords rec (by simp [hrec])
    exact ⟨r, hb.inbox r hr, heq⟩
  obtain ⟨r, hr, rfl⟩ := hrecords rec (by simp)
  rcases Journal.addRecord_eq_error hadmit with ⟨-, hrange⟩ | ⟨-, old, hold, hne⟩ | hcapacity
  · obtain ⟨hlow, hhigh⟩ := hb.wf.rows r hr
    have := hb.wf.head_le
    exact absurd ⟨by simp only [recordOf]; omega, hhigh.trans this⟩ hrange
  · obtain ⟨r', hr', hseq, horigin⟩ := h.admitted hlog hadm _ old hold
    obtain rfl := hb.unique r' hr' r (hb.inbox r hr) hseq
    exact absurd horigin.symm hne
  · exact hcapacity

/-- A scan is refused for want of room only. -/
theorem ingest_agrees (hp : caps.pointers = true) (hb : Recorded b) (h : Agreed b.log j)
    (hv : Journal.Valid j) {s : Scanned} (hread : scan caps b.db j.enumeratedThrough = .ok s)
    (hingest : j.ingest s = .error e) : e = .journal .capacity := by
  obtain ⟨hrecords, ⟨hafter, hmax⟩, hlen, hbound, htotal, hignored, hnodup, hdisjoint⟩ :=
    scan_spec hp hb.wf hread
  rcases Journal.ingest_eq_error hv hingest with ⟨-, hrange⟩ | ⟨-, hform | hform⟩ | hadd
  · exact absurd ⟨hv.scan_le.trans hafter, hmax⟩ hrange
  · rw [Bool.or_eq_true, decide_eq_true_eq, List.any_eq_true] at hform
    rcases hform with hlong | ⟨rec, hrec, hlt⟩
    · omega
    · have := hbound rec hrec
      simp only [decide_eq_true_eq] at hlt
      omega
  · rw [Bool.or_eq_true, Bool.or_eq_true, Bool.or_eq_true, decide_eq_true_eq, List.any_eq_true,
      List.any_eq_true] at hform
    rcases hform with ((hlong | ⟨n, hn, hbad⟩) | hdup) | ⟨n, hn, hsame⟩
    · omega
    · have := hignored n hn
      simp only [Bool.or_eq_true, decide_eq_true_eq] at hbad
      omega
    · simp [hnodup] at hdup
    · obtain ⟨rec, hrec, heq⟩ := List.any_eq_true.mp hsame
      exact absurd (by simpa using heq) (hdisjoint n hn rec hrec)
  · refine add_agrees hb h ?_ hadd
    intro rec hrec
    obtain ⟨r, hr, -, heq⟩ := hrecords rec hrec
    exact ⟨r, hr, heq⟩

/-- **Whatever has disappeared is explained, and what has not is as it was.** -/
theorem judge_agrees (hp : caps.pointers = true) (hb : Recorded b) (h : Agreed b.log j)
    {s : Snapshot} {records : List Record} (hread : retained caps b.db (j.rows.map Work.seq)
      = .ok (s, records))
    {w : Work} (hw : w ∈ j.rows) : ∃ v, Journal.judge s records w = .ok v := by
  obtain ⟨rfl, hfound, hkept⟩ := retained_spec hp hb.wf hread
  obtain ⟨r, hr, hseq, horigin⟩ := h w.seq w (Journal.row_of_mem hw)
  unfold Journal.judge
  split
  · exact ⟨_, rfl⟩
  · split
    · exact ⟨_, rfl⟩
    · next hnack =>
      have hack : ¬ r.seq ≤ b.db.ackThrough := by
        simpa [hseq] using hnack
      rcases hfind : records.find? (fun rec => decide (rec.seq = w.seq)) with _ | rec
      · -- The row is not in the inbox, and it is not acknowledged.
        have hgone : r ∉ b.db.inbox := by
          intro hin
          have hmem := hkept r hin (by rw [hseq]; exact List.mem_map_of_mem hw)
          have := List.find?_eq_none.mp hfind _ hmem
          simp [recordOf, hseq] at this
        rcases hb.explained r hr with hin | hle | ⟨key, inst, ho, hreason⟩
        · exact absurd hin hgone
        · exact absurd hle hack
        · rw [hfind, ← horigin, ho]
          simp only
          rw [if_pos]
          · exact ⟨_, rfl⟩
          · rcases hreason with hended | ⟨r', hr', ho', hlt⟩
            · left
              intro hinst
              obtain ⟨x, hx, hkey, hxinst⟩ := instanceOf_eq_some_iff.mp hinst
              exact hended x hx hkey hxinst
            · right
              have hpoints := Row.pointsTo_iff.mpr ⟨inst, ho'⟩
              simp only [Journal.replaced, pointerOf_eq_some hb.wf hr' hpoints, recordOf, ho',
                decide_true, Bool.true_and, decide_eq_true_eq]
              omega
      · have hrec : rec.seq = w.seq := by simpa using List.find?_some hfind
        obtain ⟨r', hr', rfl⟩ := hfound rec (List.mem_of_find?_eq_some hfind)
        obtain rfl := hb.unique r' (hb.inbox r' hr') r hr (hrec.trans hseq.symm)
        have hsame : (recordOf r').origin = w.origin := horigin
        rw [hfind]
        simp only
        rw [if_pos hsame]
        exact ⟨_, rfl⟩

end refusals

/-! ## Every run -/

/-- The bridge's past and the journal fit together. -/
structure Fits (w : World) : Prop where
  bridge : Recorded w.bridge
  journal : Agreed w.bridge.log w.journal

/-- Every step keeps bridge and journal fitting. -/
theorem Fits.next (hp : caps.pointers = true) {w w' : World} (h : Fits w) {e : WorldEvent}
    (hn : (notifier caps).next w e = some w') : Fits w' := by
  cases moves_of_next hn with
  | quiet hsame => exact ⟨hsame.bridge ▸ h.bridge, hsame.bridge ▸ hsame.journal ▸ h.journal⟩
  | bridge op ha hb hj _ =>
    refine ⟨hb ▸ h.bridge.after ha, ?_⟩
    rw [hb, hj]
    obtain ⟨-, -, hsame | ⟨-, hlog⟩⟩ := after_spec w.bridge op
    · rw [hsame]
      exact h.journal
    · intro n v hv
      obtain ⟨r, hr, hrest⟩ := h.journal n v hv
      exact ⟨r, (hlog r).mpr (.inl hr), hrest⟩
  | stage stage hs =>
    refine ⟨hs.bridge ▸ h.bridge, ?_⟩
    rw [hs.bridge, hs.journal]
    exact h.journal.transacts hp h.bridge.wf h.bridge.inbox
      (transacts_runStage w.bridge.db w.journal stage)
  | call rows admission notice _ hb hj _ => exact ⟨hb ▸ h.bridge, hb ▸ hj ▸ h.journal⟩

/-- In every reachable state bridge and journal fit. -/
theorem fits_of_reachable (hp : caps.pointers = true) {w : World}
    (h : (notifier caps).Reachable w) :
    Fits w := by
  refine h.invariant (I := Fits) ?_ fun _ _ _ hs hn => hs.next hp hn
  rintro s ⟨hbridge, ⟨p, nonce, through, lost, -, hjournal⟩, -⟩
  refine ⟨recorded_of_reachable hbridge, ?_⟩
  intro n w hw
  have hnone : s.journal.row n = none := by
    rw [hjournal]
    rfl
  rw [hnone] at hw
  cases hw

/-- The exceptions that say the inbox contradicts itself or the journal. -/
def Contradicts (e : Exc) : Prop :=
  e = .source .pointerInvalid ∨ e = .source .pointerCapacity ∨ e = .journal .sourceMissing
    ∨ e = .journal .sourceChanged

/-- What a scan fails with is no contradiction. -/
theorem scanRows_error {s : Scanned} {rows : List Row} {e : Exc}
    (h : scanRows caps s rows = .error e) :
    ¬ Contradicts e := by
  induction rows generalizing s with
  | nil => cases h
  | cons r rows ih =>
    rw [scanRows] at h
    rcases except_bind_eq_error.mp h with h | ⟨rec, -, h⟩
    · unfold readRecord at h
      split at h
      · cases h
      · cases h
        simp [Contradicts]
    · split at h
      · exact ih h
      · split at h
        · split at h
          · exact ih h
          · exact ih h
        · cases h
          simp [Contradicts]

/-- **The bridge and the journal agree.** Beside a bridge that keeps acknowledgements and bindings,
after any operations of both and any failures of the notifier: a snapshot of the inbox is never
refused, no read of it finds a pointer without its binding or too many of them, and neither taking
in a scan nor a reconciliation finds a row missing without a reason or changed. -/
theorem bridge_journal_agree (caps : Capabilities) (hp : caps.pointers = true) {w : World}
    (h : (notifier caps).Reachable w) :
    (∃ s, snapshot caps w.bridge.db = .ok s)
      ∧ (∀ e, readSeed caps w.bridge.db ≠ .error e)
      ∧ (∀ after e, scan caps w.bridge.db after = .error e → ¬ Contradicts e)
      ∧ (∀ sequences e, retained caps w.bridge.db sequences = .error e → ¬ Contradicts e)
      ∧ (∀ s e, scan caps w.bridge.db w.journal.enumeratedThrough = .ok s →
        w.journal.ingest s = .error e → ¬ Contradicts e)
      ∧ ∀ s records e, retained caps w.bridge.db (w.journal.rows.map Work.seq) = .ok (s, records) →
        w.journal.reconcile s records = .error e → ¬ Contradicts e := by
  obtain ⟨hb, hj⟩ := fits_of_reachable hp h
  have hv := (accounted_of_reachable h).1.valid'
  have hsnap := snapshot_eq_ok hp hb.wf
  refine ⟨⟨_, hsnap⟩, ?_, ?_, ?_, ?_, ?_⟩
  · intro e he
    rw [readSeed, hsnap] at he
    cases he
  · intro after e he
    rcases except_bind_eq_error.mp he with he | ⟨_, -, he⟩
    · obtain ⟨-, rfl⟩ := raiseIf_eq_error.mp he
      simp [Contradicts]
    · rw [hsnap] at he
      exact scanRows_error he
  · intro sequences e he
    rcases except_bind_eq_error.mp he with he | ⟨_, -, he⟩
    · obtain ⟨-, rfl⟩ := raiseIf_eq_error.mp he
      simp [Contradicts]
    · rw [hsnap] at he
      have hmem : ∀ r ∈ (orderedRows w.bridge.db).filter fun r => sequences.contains r.seq,
          r ∈ w.bridge.db.inbox := fun r hr => mem_orderedRows.mp (List.mem_filter.mp hr).1
      rcases except_bind_eq_error.mp he with he | ⟨_, -, he⟩
      · cases he
      · rw [mapM_readRecord hp hb.wf hmem] at he
        cases he
  · intro s e hread he
    rw [ingest_agrees hp hb hj hv hread he]
    simp [Contradicts]
  · intro s records e hread he
    rcases Journal.reconcile_eq_error hv he with ⟨rfl, -⟩ | ⟨v, hmem, hjudge⟩
    · simp [Contradicts]
    · obtain ⟨verdict, hok⟩ := judge_agrees hp hb hj hread hmem
      rw [hok] at hjudge
      cases hjudge

/-- A memory service, as it is bound. -/
def someRoute : Route :=
  ⟨.ofDigit 64 0xa, lit "/r", .ofDigit 16 0xc, lit "/m"⟩

/-- A lifetime of its binding. -/
def someInstance : Instance := .ones

/-- The binding before its first observation. -/
def unobservedBinding : Binding :=
  ⟨someRoute.binding, someRoute.repoPath, someRoute.repoKey, someRoute.memoryStateDir,
    someInstance, none, 0⟩

/-- The service is bound and refreshed, its pointer is taken into the journal, and the service is
unbound. -/
def unboundRun : List WorldEvent :=
  [.bridge (.bind someRoute someInstance),
    .bridge (.refresh unobservedBinding ⟨.ofDigit 32 0xb, 1, 9⟩ 0),
    .begin 1 false, .work none 1 false, .work none 1 false, .bridge (.unbind someRoute.binding)]

/-- The journal holds a pointer that is gone, and reconciliation does not stumble over it. -/
theorem bridge_journal_agree_unbound : ∃ w, (notifier fullCaps).run freshWorld unboundRun = some w
    ∧ w.journal.rows.map Work.seq = [1] ∧ w.bridge.db.inbox.rows.map Row.seq = []
    ∧ ∀ s records e, retained fullCaps w.bridge.db (w.journal.rows.map Work.seq)
    = .ok (s, records) →
      w.journal.reconcile s records = .error e → ¬ Contradicts e := by
  have hrun : ((notifier fullCaps).run freshWorld unboundRun).map (fun w =>
      (w.journal.rows.map Work.seq, w.bridge.db.inbox.rows.map Row.seq)) = some ([1], []) := by
    decide +kernel
  obtain ⟨w, hw, hview⟩ := Option.map_eq_some_iff.mp hrun
  obtain ⟨hrows, hinbox⟩ := Prod.mk.inj hview
  have hreach := (System.Reachable.init (freshWorld_initial fullCaps)).run hw
  exact ⟨w, hw, hrows, hinbox, (bridge_journal_agree fullCaps rfl hreach).2.2.2.2.2⟩

end PeerBridge.Notify
