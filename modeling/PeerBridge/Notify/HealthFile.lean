import PeerBridge.Notify.Journal
import PeerBridge.State.Durable

/-!
# The health file

The notifier tells others how delivery does through a small state file: the journal's counts, the
reasons why delivery is not in order, and a state made from both. Three sets of rules meet in it.
`snapshot` builds the value, `validate` checks it before it is published and again when it is read,
and the size limit of state files holds for its rendering. A reader trusts it only from the process
that it has verified, and only for a while.

* `validate_build`, `length_build`: a value that was built passes the check, and fits;
* `healthy_iff`: when it says that delivery is in order;
* `judge_build_same`, `judge_build_other`: what a reader makes of it;
* `snapshot_published`: all of these, through the file.

Source: `notification_health.py`; `notification_journal.py` `Journal.status`.
-/

namespace PeerBridge.Notify

open Py PeerBridge.Bridge

/-! ## The journal's own account -/

/-- The name of a counter. Source: `COUNTERS` -/
def Counter.key : Counter → Text
  | .delivered => lit "delivered"
  | .acknowledged => lit "acknowledged"
  | .obsolete => lit "obsolete"
  | .failed => lit "failed"
  | .unknown => lit "unknown"
  | .missing => lit "missing"
  | .attempts => lit "attempts"
  | .ignored => lit "ignored"

/-- Source: `COUNTERS` -/
def counters : List Counter :=
  [.delivered, .acknowledged, .obsolete, .failed, .unknown, .missing, .attempts, .ignored]

namespace Journal

/-- The rows of which delivery has still to be told. -/
def pendingCount (j : Journal) : ℕ := j.rows.countP fun w => w.disposition.waits

def exhaustedCount (j : Journal) : ℕ := j.rows.countP fun w => w.disposition.exhausted

def uncertainCount (j : Journal) : ℕ := j.rows.countP Work.uncertain

/-- Messages were lost, and nobody has taken note of it. -/
def lostUnacknowledged (j : Journal) : Bool := j.historyLost && !j.historyAcknowledged

/-- Source: `Journal.status` -/
def status (j : Journal) : Object :=
  [(lit "imported_through", .int j.importedThrough), (lit "scan_through", .int j.scanThrough),
    (lit "enumerated_through", .int j.enumeratedThrough),
    (lit "counters", .obj (Notify.counters.map fun c => (c.key, .int (j.counters c)))),
    (lit "pending", .int j.pendingCount), (lit "exhausted", .int j.exhaustedCount),
    (lit "uncertain", .int j.uncertainCount), (lit "history_lost", .bool j.lostUnacknowledged),
    (lit "activation_confirmed", .bool j.activationConfirmed),
    (lit "pointers_seeded", .bool j.pointersSeeded)]

end Journal

namespace HealthFile

/-! ## Values -/

/-- Source: `FRESHNESS_MS` -/
def freshnessMs : ℕ := 15000

/-- Source: `REASONS` -/
def reasons : List Text :=
  [lit "storage_wait", lit "storage_error", lit "version_compatibility", lit "journal_capacity",
    lit "journal_recovery_required", lit "journal_upgrade_required", lit "journal_unsafe_state",
    lit "journal_unsupported_runtime", lit "source_fault", lit "pending_delivery",
    lit "exhausted_delivery", lit "uncertain_delivery", lit "history_lost", lit "internal_error",
    lit "health_publication_failed", lit "memory_unavailable", lit "memory_operator_action",
    lit "bridge_unavailable", lit "starting"]

/-- Source: `IDENTITY_FIELDS` -/
def identityFields : List Text :=
  [lit "owner", lit "bridge_pid", lit "notifier_pid", lit "proc_start"]

/-- Source: `valid_journal`, `flags` -/
def flagFields : List Text :=
  [lit "history_lost", lit "activation_confirmed", lit "pointers_seeded"]

/-- Source: `valid_journal`, `counts` -/
def countFields : List Text :=
  [lit "imported_through", lit "scan_through", lit "enumerated_through", lit "pending",
    lit "exhausted",
    lit "uncertain"]

/-- Source: `JOURNAL_FIELDS` -/
def journalFields : List Text := lit "counters" :: countFields ++ flagFields

/-- Source: `validate`, `fields` -/
def snapshotFields : List Text :=
  lit "version" :: identityFields ++ [lit "updated_at_ms", lit "state", lit "reasons",
    lit "journal"]

/-- `set(value) == fields` -/
def hasKeys (m : Object) (fields : List Text) : Bool :=
  m.all (fun p => fields.contains p.1) && fields.all (Object.has m)

/-- Source: `uint` -/
def uint : Json → Bool
  | .int n => 0 ≤ n && n ≤ maxSequence
  | _ => false

/-- The number of a value that `uint` accepts. -/
def number : Json → ℤ
  | .int n => n
  | _ => 0

def isBool : Json → Bool
  | .bool _ => true
  | _ => false

/-- A positive `uint`. -/
def isPid (v : Json) : Bool := uint v && 0 < number v

/-- Source: `hex_value` -/
def isHex (n : ℕ) : Json → Bool
  | .str t => hexValue t n
  | _ => false

/-- A start marker of a process. Source: `valid_identity` -/
def isStart : Json → Bool
  | .str t => 0 < t.length && t.length ≤ 128 && !t.any fun c => c.val < 32 || c.val == 127
  | _ => false

/-- Source: `valid_identity` -/
def validIdentity : Json → Bool
  | .obj m => isHex 32 (Object.get m (lit "owner")) && [lit "bridge_pid", lit "notifier_pid"].all
    (fun k => isPid (Object.get m k))
      && isStart (Object.get m (lit "proc_start"))
  | _ => false

/-- The counters of a journal. Source: `valid_journal` -/
def validCounters : Json → Bool
  | .obj m => hasKeys m (counters.map Counter.key) && m.all fun p => uint p.2
  | _ => false

/-- Source: `valid_journal` -/
def validJournal : Json → Bool
  | .obj m => hasKeys m journalFields && flagFields.all (fun k => isBool (Object.get m k))
      && countFields.all (fun k => uint (Object.get m k))
      && number (Object.get m (lit "pending")) + number (Object.get m (lit "exhausted")) ≤ maxWork
      && number (Object.get m (lit "uncertain")) ≤ maxWork
      && number (Object.get m (lit "imported_through")) ≤ number (Object.get m (lit "scan_through"))
      && number (Object.get m (lit "scan_through"))
      ≤ number (Object.get m (lit "enumerated_through"))
      && validCounters (Object.get m (lit "counters"))
  | _ => false

/-- What a journal gives reason for, field by field. Source: `journal_reasons` -/
def fieldReasons : List (Text × Text) :=
  [(lit "pending", lit "pending_delivery"), (lit "exhausted", lit "exhausted_delivery"),
    (lit "uncertain", lit "uncertain_delivery"), (lit "history_lost", lit "history_lost")]

/-- Source: `journal_reasons` -/
def journalReasons (journal : Object) : List Text :=
  (fieldReasons.filter fun p => (journal.get p.1).truthy).map Prod.snd
    ++ if !(journal.get (lit "activation_confirmed")).truthy
    || !(journal.get (lit "pointers_seeded")).truthy
      then [lit "starting"] else []

/-- The reasons that a journal gives, where there is one. -/
def reasonsOf : Json → List Text
  | .obj journal => journalReasons journal
  | _ => []

def isReason : Json → Bool
  | .str t => reasons.contains t
  | _ => false

/-- The texts of a list. -/
def texts : Json → List Text
  | .arr items => items.filterMap fun v => match v with
      | .str t => some t
      | _ => none
  | _ => []

/-- The checks on `reasons`. Source: `validate` -/
def validReasons (v : Json) : Bool :=
  match v with
  | .arr items => items.length ≤ reasons.length && items.all isReason && decide (texts v).Nodup
  | _ => false

def isState (v : Json) : Bool := [lit "healthy", lit "degraded", lit "unknown"].any v.isText

/-- Source: `validate`, `version` -/
def isVersion : Json → Bool
  | .int n => n == 1
  | _ => false

/-- The checks on each field by itself. Source: `validate` -/
def wellFormed (m : Object) : Bool :=
  hasKeys m snapshotFields && isVersion (Object.get m (lit "version"))
    && validIdentity (.obj m) && uint (Object.get m (lit "updated_at_ms"))
    && isState (Object.get m (lit "state"))
    && validReasons (Object.get m (lit "reasons"))
    && ((Object.get m (lit "journal")).isNull || validJournal (Object.get m (lit "journal")))

/-- Source: `validate` -/
def validate : Json → Except Text Json
  | .obj m => do
      Effects.raiseIf (!wellFormed m) (lit "invalid notifier health snapshot")
      Effects.raiseIf (!(reasonsOf (Object.get m (lit "journal"))).all
        (texts (Object.get m (lit "reasons"))).contains)
        (lit "notifier snapshot conceals journal state")
      Effects.raiseIf ((Object.get m (lit "state")).isText (lit "healthy")
        && ((Object.get m (lit "reasons")).truthy || (Object.get m (lit "journal")).isNull))
          (lit "invalid healthy notifier snapshot")
      Effects.raiseIf ((Object.get m (lit "state")).isText (lit "degraded")
        && !(Object.get m (lit "reasons")).truthy)
        (lit "degraded notifier snapshot requires reasons")
      return .obj m
  | _ => .error (lit "invalid notifier health snapshot")

/-- `sorted` of a set of texts. -/
def sortedTexts (flags : List Text) : List Text := flags.dedup.insertionSort (· ≤ ·)

/-- Source: `snapshot`, `state` -/
def stateOf (flags : List Text) (journal : Json) : Text :=
  if flags ≠ [] then lit "degraded" else if !journal.isNull then lit "healthy" else lit "unknown"

/-- The value of a snapshot. Source: `snapshot` -/
def build (owner : Object) (flags : List Text) (now : ℤ) (journal : Json) : Object :=
  [(lit "version", .int 1), (lit "owner", owner.get (lit "owner")),
    (lit "bridge_pid", owner.get (lit "bridge_pid")),
    (lit "notifier_pid", owner.get (lit "notifier_pid")),
    (lit "proc_start", owner.get (lit "proc_start")),
    (lit "updated_at_ms", .int now),
    (lit "state", .str (stateOf flags journal)),
    (lit "reasons", .arr ((sortedTexts flags).map .str)),
    (lit "journal", journal)]

/-- The journal in what the notifier keeps of its last look at it. Source: `snapshot` -/
def journalOf : Option Object → Json
  | some status => status.get (lit "journal")
  | none => .null

/-- Source: `snapshot`, `status.get('compatibility')` -/
def incompatible : Option Object → Bool
  | some status => (status.get (lit "compatibility")).truthy
  | none => false

/-- Every reason there is. Source: `snapshot`, `flags` -/
def allReasons (status : Option Object) (given : List Text) : List Text :=
  given ++ reasonsOf (journalOf status) ++ if incompatible status then [lit "version_compatibility"]
  else []

/-- Source: `snapshot` -/
def snapshot (owner : Object) (status : Option Object) (given : List Text) (now : ℤ) :
    Except Text Json := do
  Effects.raiseIf (!validIdentity (.obj owner)) (lit "invalid notifier health owner")
  Effects.raiseIf (!given.all reasons.contains) (lit "unclassified notifier health reason")
  Effects.raiseIf (!(journalOf status).isNull && !validJournal (journalOf status))
    (lit "invalid journal health")
  validate (.obj (build owner (allReasons status given) now (journalOf status)))

/-! ## Readers -/

/-- Source: `read`, `unknown` -/
def unknown (reason : Text) : Object :=
  [(lit "state", .str (lit "unknown")), (lit "reasons", .arr [.str reason]), (lit "journal", .null)]

/-- `==` on the fields of an identity, which are texts and integers. -/
def sameField : Json → Json → Bool
  | .str s, .str t => s == t
  | .int m, .int n => m == n
  | _, _ => false

/-- What a reader makes of the file's value. Source: `read` -/
def judge (verifiedOwner : Object) (now : ℤ) (value : Option Object) : Object :=
  match value with
  | none => unknown (lit "health_missing")
  | some m =>
      match validate (.obj m) with
      | .error _ => unknown (lit "health_unreadable")
      | .ok _ =>
          if identityFields.any fun k => !sameField (Object.get m k) (verifiedOwner.get k) then
            unknown (lit "health_owner_mismatch")
          else if !uint (.int now) || !(0 ≤ now - number (Object.get m (lit "updated_at_ms"))
              && now - number (Object.get m (lit "updated_at_ms")) ≤ freshnessMs) then
            unknown (lit "health_stale")
          else [(lit "state", Object.get m (lit "state")),
            (lit "reasons", Object.get m (lit "reasons")),
            (lit "journal", Object.get m (lit "journal"))]

/-- Source: `read` -/
def read (p : State.Place) (verifiedOwner : Object) (now : ℤ) :
    Files.Calls State.Failure State.Name Object :=
  if !validIdentity (.obj verifiedOwner) then pure (unknown (lit "health_owner_unverified"))
  else tryCatch (do return judge verifiedOwner now (← State.read p)) fun stop =>
    match stop with
    | .raised _ => pure (unknown (lit "health_unreadable"))
    | .crashed => throw .crashed

/-- Source: `HealthFile.publish` -/
def publish (p : State.Place) (value : Json) :
    Except Text (Files.Calls State.Failure State.Name Unit) :=
  (validate value).map fun v => State.publish p v

/-! ## The counts of a journal -/

section journal

variable {j : Journal}

/-- The journal never holds more rows than its table has room for. -/
theorem length_rows (j : Journal) : j.rows.length ≤ maxWork := by
  rw [Journal.rows, List.length_mergeSort]
  exact j.work.2

/-- No row both waits and is exhausted. -/
theorem pending_add_exhausted (j : Journal) :
    j.pendingCount + j.exhaustedCount ≤ j.rows.length := by
  unfold Journal.pendingCount Journal.exhaustedCount
  induction j.rows with
  | nil => exact le_rfl
  | cons w rows ih =>
    have hboth : ¬ (w.disposition.waits = true ∧ w.disposition.exhausted = true) := by
      cases w.disposition <;> simp [Disposition.waits, Disposition.exhausted]
    simp only [List.countP_cons, List.length_cons]
    split_ifs with h1 h2 h2
    · exact absurd ⟨h1, h2⟩ hboth
    · omega
    · omega
    · omega

/-- The count of uncertain rows is bounded by the size of the table. -/
theorem uncertain_le (j : Journal) : j.uncertainCount ≤ maxWork :=
  List.countP_le_length.trans (length_rows j)

/-- A counter of a valid journal is a safe integer. -/
theorem counter_le (hj : j.valid = true) (c : Counter) : j.counters c ≤ maxSequence := by
  simp only [Journal.valid, Bool.and_eq_true] at hj
  have hall := hj.1.1.2
  cases c <;> simp_all

/-- The positions of a valid journal are in order. -/
theorem positions_le (hj : j.valid = true) : j.importedThrough ≤ j.scanThrough ∧
    j.scanThrough ≤ j.enumeratedThrough ∧ j.enumeratedThrough ≤ maxSequence := by
  simp only [Journal.valid, Bool.and_eq_true, decide_eq_true_eq] at hj
  exact ⟨hj.1.1.1.1.1.1, hj.1.1.1.1.1.2, hj.1.1.1.1.2⟩

/-- A natural number within the bound is an unsigned integer of the file. -/
theorem uint_natCast {n : ℕ} (h : n ≤ maxSequence) : uint (.int n) = true := by
  simpa [uint] using h

/-- **The account of a valid journal passes the check.** -/
theorem validJournal_status (hj : j.valid = true) : validJournal (.obj j.status) = true := by
  obtain ⟨h1, h2, h3⟩ := positions_le hj
  have hrows := pending_add_exhausted j
  have hlen := length_rows j
  have hunc := uncertain_le j
  have hwork : maxWork ≤ maxSequence := by decide
  have hcounters : validCounters (.obj (Notify.counters.map fun c => (c.key, .int (j.counters c))))
      = true := by
    have hkeys : hasKeys (Notify.counters.map fun c => (c.key, .int (j.counters c)))
      (Notify.counters.map Counter.key)
        = true := rfl
    rw [validCounters, hkeys, Bool.true_and, List.all_map, List.all_eq_true]
    exact fun c _ => uint_natCast (counter_le hj c)
  have hkeys : hasKeys j.status journalFields = true := rfl
  have hflags : (flagFields.all fun k => isBool (Object.get j.status k)) = true := rfl
  have hcounts : (countFields.all fun k => uint (Object.get j.status k)) = true := by
    have hall : (countFields.all fun k => uint (Object.get j.status k))
        = (uint (.int j.importedThrough)
          && (uint (.int j.scanThrough) && (uint (.int j.enumeratedThrough)
          && (uint (.int j.pendingCount) && (uint (.int j.exhaustedCount)
            && (uint (.int j.uncertainCount)
            && true)))))) := rfl
    rw [hall, uint_natCast (by omega), uint_natCast (by omega), uint_natCast (by omega),
      uint_natCast (by omega),
      uint_natCast (by omega), uint_natCast (by omega)]
    rfl
  have hget : Object.get j.status (lit "pending") = .int j.pendingCount
      ∧ Object.get j.status (lit "exhausted") = .int j.exhaustedCount
      ∧ Object.get j.status (lit "uncertain") = .int j.uncertainCount
      ∧ Object.get j.status (lit "imported_through") = .int j.importedThrough
      ∧ Object.get j.status (lit "scan_through") = .int j.scanThrough
      ∧ Object.get j.status (lit "enumerated_through") = .int j.enumeratedThrough
      ∧ Object.get j.status (lit "counters") = .obj (Notify.counters.map fun c =>
        (c.key, .int (j.counters c))) :=
    ⟨rfl, rfl, rfl, rfl, rfl, rfl, rfl⟩
  obtain ⟨hp, he, hu, hi, hs, hn, hc⟩ := hget
  simp only [validJournal, Bool.and_eq_true, decide_eq_true_eq]
  rw [hp, he, hu, hi, hs, hn, hc]
  simp only [number]
  exact ⟨⟨⟨⟨⟨⟨⟨hkeys, hflags⟩, hcounts⟩, by omega⟩, by omega⟩, by omega⟩, by omega⟩, hcounters⟩

end journal

/-! ## A value that was built -/

/-- Sorting texts and dropping repetitions keeps their members. -/
theorem mem_sortedTexts {t : Text} {flags : List Text} : t ∈ sortedTexts flags ↔ t ∈ flags := by
  rw [sortedTexts, (List.perm_insertionSort _ _).mem_iff, List.mem_dedup]

/-- The sorted texts are distinct. -/
theorem nodup_sortedTexts (flags : List Text) : (sortedTexts flags).Nodup :=
  (List.perm_insertionSort _ _).nodup_iff.mpr (List.nodup_dedup flags)

/-- The texts of an array of texts are those texts. -/
theorem texts_map (ts : List Text) : texts (.arr (ts.map .str)) = ts := by
  change (ts.map Json.str).filterMap _ = ts
  rw [List.filterMap_map]
  exact List.filterMap_some

/-- There is a reason in the list exactly when one was given. -/
theorem sortedTexts_eq_nil {flags : List Text} : sortedTexts flags = [] ↔ flags = [] := by
  rw [List.eq_nil_iff_forall_not_mem, List.eq_nil_iff_forall_not_mem]
  exact forall_congr' fun t => not_congr mem_sortedTexts

/-- A journal gives only reasons of the list. -/
theorem journalReasons_subset (m : Object) : journalReasons m ⊆ reasons := by
  have hfields : (∀ p ∈ fieldReasons, p.2 ∈ reasons) ∧ lit "starting" ∈ reasons := by
    unfold fieldReasons reasons
    repeat rw [lit_ofList]
    decide
  intro t ht
  rw [journalReasons, List.mem_append, List.mem_map] at ht
  rcases ht with ⟨p, hp, rfl⟩ | ht
  · exact hfields.1 p (List.mem_of_mem_filter hp)
  · split_ifs at ht
    · rw [List.mem_singleton.mp ht]
      exact hfields.2
    · cases ht

/-- Every reason that is reported is one of the reasons the file may name. -/
theorem allReasons_subset {status : Option Object} {given : List Text} (h : given ⊆ reasons) :
    allReasons status given ⊆ reasons := by
  have hcompat : lit "version_compatibility" ∈ reasons := by decide
  intro t ht
  rw [allReasons, List.append_assoc, List.mem_append, List.mem_append] at ht
  rcases ht with ht | ht | ht
  · exact h ht
  · cases hj : journalOf status with
    | obj m =>
      rw [hj] at ht
      exact journalReasons_subset m ht
    | _ =>
      rw [hj] at ht
      cases ht
  · split_ifs at ht
    · rw [List.mem_singleton.mp ht]
      exact hcompat
    · cases ht

/-- A health is healthy exactly when it names no reason and has a journal. -/
theorem stateOf_eq_healthy {flags : List Text} {journal : Json} :
    stateOf flags journal = lit "healthy" ↔ flags = [] ∧ journal.isNull = false := by
  have hne : lit "degraded" ≠ lit "healthy" ∧ lit "unknown" ≠ lit "healthy" := by decide
  unfold stateOf
  split_ifs with h1 h2
  · exact iff_of_false hne.1 fun h => h1 h.1
  · exact iff_of_true rfl ⟨not_not.mp h1, by simpa using h2⟩
  · exact iff_of_false hne.2 fun h => h2 (by simpa using h.2)

/-- A health is degraded exactly when it names a reason. -/
theorem stateOf_eq_degraded {flags : List Text} {journal : Json} :
    stateOf flags journal = lit "degraded" ↔ flags ≠ [] := by
  have hne : lit "healthy" ≠ lit "degraded" ∧ lit "unknown" ≠ lit "degraded" := by decide
  unfold stateOf
  split_ifs with h1 h2
  · exact iff_of_true rfl h1
  · exact iff_of_false hne.1 h1
  · exact iff_of_false hne.2 h1

section build

variable {owner : Object} {flags : List Text} {now : ℕ} {journal : Json}

/-- The fields of a value that was built. -/
theorem get_build (owner : Object) (flags : List Text) (now : ℤ) (journal : Json) :
    Object.get (build owner flags now journal) (lit "version") = .int 1
      ∧ (∀ k ∈ identityFields, Object.get (build owner flags now journal) k = owner.get k)
      ∧ Object.get (build owner flags now journal) (lit "updated_at_ms") = .int now
      ∧ Object.get (build owner flags now journal) (lit "state") = .str (stateOf flags journal)
      ∧ Object.get (build owner flags now journal) (lit "reasons")
      = .arr ((sortedTexts flags).map .str)
      ∧ Object.get (build owner flags now journal) (lit "journal") = journal := by
  refine ⟨rfl, ?_, rfl, rfl, rfl, rfl⟩
  rw [identityFields]
  simp only [List.forall_mem_cons]
  exact ⟨rfl, rfl, rfl, rfl, fun _ h => by cases h⟩

/-- The check of an identity reads its four fields. -/
theorem validIdentity_congr {m n : Object}
    (h : ∀ k ∈ identityFields, Object.get m k = Object.get n k) :
    validIdentity (.obj m) = validIdentity (.obj n) := by
  simp only [identityFields, List.forall_mem_cons] at h
  obtain ⟨h1, h2, h3, h4, -⟩ := h
  simp only [validIdentity, List.all_cons, List.all_nil, h1, h2, h3, h4]

/-- The list of reasons is truthy exactly when it is not empty. -/
theorem truthy_reasons (ts : List Text) : (Json.arr (ts.map .str)).truthy = !ts.isEmpty := by
  cases ts <;> rfl

/-- **A value that was built passes the check.** -/
theorem validate_build (howner : validIdentity (.obj owner) = true) (hnow : now ≤ maxSequence)
    (hflags : flags ⊆ reasons) (hjournal : journal.isNull = true ∨ validJournal journal = true)
    (hreasons : reasonsOf journal ⊆ flags) :
    validate (.obj (build owner flags now journal))
    = .ok (.obj (build owner flags now journal)) := by
  obtain ⟨hversion, hidentity, hupdated, hstate, hlist, hlast⟩ := get_build owner flags now journal
  have hvalid : validReasons (.arr ((sortedTexts flags).map .str)) = true := by
    have hlen : (sortedTexts flags).length ≤ reasons.length :=
      ((nodup_sortedTexts flags).subperm fun t ht => hflags (mem_sortedTexts.mp ht)).length_le
    have hall : ((sortedTexts flags).map Json.str).all isReason = true := by
      rw [List.all_map, List.all_eq_true]
      exact fun t ht => List.contains_iff_mem.mpr (hflags (mem_sortedTexts.mp ht))
    rw [validReasons, texts_map, hall, List.length_map, Bool.and_true, Bool.and_eq_true,
      decide_eq_true_eq,
      decide_eq_true_eq]
    exact ⟨hlen, nodup_sortedTexts flags⟩
  have hmember : isState (.str (stateOf flags journal)) = true := by
    unfold stateOf
    split_ifs
    · rfl
    · rfl
    · rfl
  have hwell : wellFormed (build owner flags now journal) = true := by
    have hkeys : hasKeys (build owner flags now journal) snapshotFields = true := rfl
    rw [wellFormed, hkeys, hversion, validIdentity_congr hidentity, howner, hupdated,
      uint_natCast hnow, hstate, hmember,
      hlist, hvalid, hlast]
    have hone : isVersion (.int 1) = true := rfl
    simpa [hone] using hjournal
  have hconceals : ((reasonsOf journal).all (sortedTexts flags).contains) = true := by
    rw [List.all_eq_true]
    exact fun t ht => List.contains_iff_mem.mpr (mem_sortedTexts.mpr (hreasons ht))
  have hhealthy : ((Json.str (stateOf flags journal)).isText (lit "healthy")
      && (!(sortedTexts flags).isEmpty || journal.isNull)) = false := by
    rw [Bool.and_eq_false_imp, Json.isText_iff, Json.str.injEq, stateOf_eq_healthy]
    rintro ⟨rfl, hnull⟩
    exact hnull
  have hdegraded : ((Json.str (stateOf flags journal)).isText (lit "degraded")
      && !!(sortedTexts flags).isEmpty) = false := by
    rw [Bool.and_eq_false_imp, Json.isText_iff, Json.str.injEq, stateOf_eq_degraded, Bool.not_not,
      List.isEmpty_eq_false_iff]
    exact fun hne h => hne (sortedTexts_eq_nil.mp h)
  rw [validate, hwell, hlast, hlist, hstate, texts_map, hconceals, truthy_reasons, hhealthy,
    hdegraded]
  rfl

end build

/-! ## Lengths -/

section lengths

variable {owner : Object} {flags : List Text} {now : ℕ} {journal : Json}

/-- An unsigned integer of the file takes nineteen digits at most. -/
theorem decimalLen_uint {n : ℕ} (h : n ≤ maxSequence) : decimalLen n ≤ 19 := by
  rw [decimalLen_le_iff (by omega)]
  exact lt_of_le_of_lt h (by decide)

/-- The fields of an identity that passes the check. -/
theorem identity_fields (h : validIdentity (.obj owner) = true) : ∃ key bridge notifier start,
    owner.get (lit "owner") = .str key ∧ hexValue key 32 = true ∧ owner.get (lit "bridge_pid")
    = .int (bridge : ℕ) ∧
    bridge ≤ maxSequence ∧ owner.get (lit "notifier_pid") = .int (notifier : ℕ)
    ∧ notifier ≤ maxSequence ∧
    owner.get (lit "proc_start") = .str start ∧ start.length ≤ 128 := by
  have hpid : ∀ v, isPid v = true → ∃ n : ℕ, v = .int n ∧ n ≤ maxSequence := by
    intro v hv
    rw [isPid, Bool.and_eq_true] at hv
    cases v with
    | int n =>
      simp only [uint, Bool.and_eq_true, decide_eq_true_eq] at hv
      exact ⟨n.toNat, by rw [Int.toNat_of_nonneg hv.1.1], by omega⟩
    | _ => cases hv.1
  simp only [validIdentity, List.all_cons, List.all_nil, Bool.and_true, Bool.and_eq_true] at h
  obtain ⟨⟨hkey, hbridge, hnotifier⟩, hstart⟩ := h
  obtain ⟨bridge, hb, hble⟩ := hpid _ hbridge
  obtain ⟨notifier, hn, hnle⟩ := hpid _ hnotifier
  obtain ⟨key, hk, hkey'⟩ : ∃ key, owner.get (lit "owner") = .str key ∧ hexValue key 32 = true := by
    cases hv : owner.get (lit "owner") with
    | str t => exact ⟨t, rfl, by rwa [hv] at hkey⟩
    | _ => rw [hv] at hkey; cases hkey
  obtain ⟨start, hs, hlen⟩ : ∃ start, owner.get (lit "proc_start") = .str start
      ∧ start.length ≤ 128 := by
    cases hv : owner.get (lit "proc_start") with
    | str t =>
      rw [hv] at hstart
      simp only [isStart, Bool.and_eq_true, decide_eq_true_eq] at hstart
      exact ⟨t, rfl, hstart.1.2⟩
    | _ => rw [hv] at hstart; cases hstart
  exact ⟨key, bridge, notifier, start, hk, hkey', hb, hble, hn, hnle, hs, hlen⟩

/-- The rendering of the account of a journal. -/
theorem length_status {j : Journal} (hj : j.valid = true) :
    (compact (.obj j.status)).length ≤ 700 := by
  obtain ⟨h1, h2, h3⟩ := positions_le hj
  have hrows := pending_add_exhausted j
  have hlen := length_rows j
  have hunc := uncertain_le j
  have hwork : maxWork ≤ maxSequence := by decide
  have hcounters :
      (compact (.obj (Notify.counters.map fun c => (c.key, .int (j.counters c))))).length
      ≤ 300 := by
    have hne : (Notify.counters.map fun c => (c.key, Json.int (j.counters c))) ≠ [] := by
      simp [Notify.counters]
    have hterm : ∀ c ∈ Notify.counters,
      escapedLen c.key + 4 + (compact (.int (j.counters c))).length
        ≤ escapedLen c.key + 23 := by
      intro c _
      rw [length_compact_natCast]
      have := decimalLen_uint (counter_le hj c)
      omega
    have hsum : (Notify.counters.map fun c => escapedLen c.key + 23).sum ≤ 299 := by decide +kernel
    rw [length_compact_obj hne, List.map_map]
    have := List.sum_le_sum hterm
    simp only [Function.comp_def]
    omega
  have hkeys : escapedLen (lit "imported_through") = 16 ∧ escapedLen (lit "scan_through") = 12
      ∧ escapedLen (lit "enumerated_through") = 18 ∧ escapedLen (lit "counters") = 8
      ∧ escapedLen (lit "pending") = 7
      ∧ escapedLen (lit "exhausted") = 9 ∧ escapedLen (lit "uncertain") = 9
      ∧ escapedLen (lit "history_lost") = 12
      ∧ escapedLen (lit "activation_confirmed") = 20 ∧ escapedLen (lit "pointers_seeded") = 15 := by
    repeat rw [lit_ofList]
    decide
  obtain ⟨k1, k2, k3, k4, k5, k6, k7, k8, k9, k10⟩ := hkeys
  have hnum : ∀ n : ℕ, n ≤ maxSequence → (compact (.int n)).length ≤ 19 := by
    intro n hn
    rw [length_compact_natCast]
    exact decimalLen_uint hn
  have n1 := hnum j.importedThrough (by omega)
  have n2 := hnum j.scanThrough (by omega)
  have n3 := hnum j.enumeratedThrough (by omega)
  have n4 := hnum j.pendingCount (by omega)
  have n5 := hnum j.exhaustedCount (by omega)
  have n6 := hnum j.uncertainCount (by omega)
  have b1 := length_compact_bool j.lostUnacknowledged
  have b2 := length_compact_bool j.activationConfirmed
  have b3 := length_compact_bool j.pointersSeeded
  rw [length_compact_obj (by simp [Journal.status])]
  simp only [Journal.status, List.map_cons, List.map_nil, List.sum_cons, List.sum_nil, k1, k2, k3,
    k4, k5, k6, k7, k8,
    k9, k10]
  clear h1 h2 h3 hrows hlen hunc hwork k1 k2 k3 k4 k5 k6 k7 k8 k9 k10
  omega

/-- The rendering of some of the reasons. -/
theorem length_reasons (hflags : flags ⊆ reasons) :
    (compact (.arr ((sortedTexts flags).map .str))).length ≤ 500 := by
  have hsub : List.Subperm (sortedTexts flags) reasons :=
    (nodup_sortedTexts flags).subperm fun t ht => hflags (mem_sortedTexts.mp ht)
  rcases hcases : sortedTexts flags with _ | ⟨t, rest⟩
  · decide
  · have hsum : ((sortedTexts flags).map fun t => escapedLen t + 3).sum ≤ (reasons.map fun t =>
        escapedLen t + 3).sum := by
      obtain ⟨l, hperm, hl⟩ := hsub
      rw [← (hperm.map _).sum_eq]
      exact (hl.map _).sum_le_sum fun _ _ => Nat.zero_le _
    have hall : (reasons.map fun t => escapedLen t + 3).sum ≤ 499 := by
      unfold reasons
      repeat rw [lit_ofList]
      decide
    rw [hcases] at hsum
    rw [length_compact_arr (by simp), List.map_map]
    have hterm : ((fun v => (compact v).length + 1) ∘ Json.str) = fun t => escapedLen t + 3 := by
      funext t
      rw [Function.comp_apply, length_compact_str]
    rw [hterm]
    omega

/-- **A value that was built fits a state file.** -/
theorem length_build (howner : validIdentity (.obj owner) = true) (hnow : now ≤ maxSequence)
    (hflags : flags ⊆ reasons) (hjournal : (compact journal).length ≤ 700) :
    (State.encoding (build owner flags now journal)).length ≤ State.maxBytes := by
  obtain ⟨key, bridge, notifier, start, hk, hkey, hb, hble, hn, hnle, hs, hlen⟩ :=
    identity_fields howner
  have hstate : (compact (.str (stateOf flags journal))).length ≤ 10 := by
    unfold stateOf
    split_ifs <;> decide
  have hkeys : escapedLen (lit "version") = 7 ∧ escapedLen (lit "owner") = 5
    ∧ escapedLen (lit "bridge_pid") = 10
      ∧ escapedLen (lit "notifier_pid") = 12 ∧ escapedLen (lit "proc_start") = 10
      ∧ escapedLen (lit "updated_at_ms") = 13
      ∧ escapedLen (lit "state") = 5 ∧ escapedLen (lit "reasons") = 7
      ∧ escapedLen (lit "journal") = 7 := by
    repeat rw [lit_ofList]
    decide
  obtain ⟨k1, k2, k3, k4, k5, k6, k7, k8, k9⟩ := hkeys
  have hone : (compact (.int 1)).length = 1 := by decide
  have hkeylen := escapedLen_hex hkey
  have h1 := decimalLen_uint hble
  have h2 := decimalLen_uint hnle
  have h3 := decimalLen_uint hnow
  have h4 := (escapedLen_le start).2
  have h5 := length_reasons hflags
  have hbuild : build owner flags now journal ≠ [] := by simp [build]
  rw [State.encoding_eq, List.length_map, length_compact_obj hbuild]
  simp only [build, hk, hb, hn, hs, List.map_cons, List.map_nil, List.sum_cons, List.sum_nil, k1,
    k2, k3, k4, k5, k6, k7,
    k8, k9, hone, length_compact_natCast, length_compact_str (t := key),
    length_compact_str (t := start), hkeylen]
  change _ ≤ 4096
  omega

end lengths

/-! ## Reading back

A reader gets the members in the order of their keys. No check looks at their order. -/

section canonical

open PeerBridge.State (canonical)

variable {m : Object}

/-- A field of the canonical document is the sorted field of the document. -/
theorem get_canonical (hm : (m.map Prod.fst).Nodup) (key : Text) :
    Object.get (canonical m) key = (Object.get m key).sorted := sorted_getD hm key .null

/-- The canonical document has the same keys. -/
theorem hasKeys_canonical (m : Object) (fields : List Text) :
    hasKeys (canonical m) fields = hasKeys m fields := by
  have hperm := sorted_keys_perm m
  have hall : ∀ n : Object, (n.all fun p => fields.contains p.1)
      = (n.map Prod.fst).all fields.contains := by
    intro n
    rw [List.all_map]
    rfl
  have hhas : ∀ (n : Object) (key : Text), Object.has n key = (n.map Prod.fst).contains key := by
    intro n key
    rw [Object.has, Bool.eq_iff_iff, List.any_eq_true, List.contains_iff_mem, List.mem_map]
    simp only [beq_iff_eq]
  have hkeys : ((canonical m).map Prod.fst).all fields.contains
      = (m.map Prod.fst).all fields.contains := hperm.all_eq
  rw [hasKeys, hasKeys, hall, hall, hkeys]
  congr 1
  refine congrArg (List.all fields) (funext fun key => ?_)
  rw [hhas, hhas, Bool.eq_iff_iff, List.contains_iff_mem, List.contains_iff_mem]
  exact hperm.mem_iff

/-- Sorting its keys does not make a value an unsigned integer. -/
theorem uint_sorted (v : Json) : uint v.sorted = uint v := by cases v <;> rfl

/-- Sorting its keys does not make a value a number. -/
theorem number_sorted (v : Json) : number v.sorted = number v := by cases v <;> rfl

/-- Sorting its keys does not make a value a truth value. -/
theorem isBool_sorted (v : Json) : isBool v.sorted = isBool v := by cases v <;> rfl

/-- Sorting its keys does not make a value null. -/
theorem isNull_sorted (v : Json) : v.sorted.isNull = v.isNull := by cases v <;> rfl

/-- Sorting its keys does not make a value a text. -/
theorem isText_sorted (v : Json) (t : Text) : v.sorted.isText t = v.isText t := by cases v <;> rfl

/-- Sorting its keys does not change what a value is compared as. -/
theorem sameField_sorted (v w : Json) : sameField v.sorted w = sameField v w := by cases v <;> rfl

/-- Sorting its keys does not change the truth of a value. -/
theorem truthy_sorted (v : Json) : v.sorted.truthy = v.truthy := by
  cases v with
  | arr items => simp [Json.sorted, Json.truthy, sortedItems_eq]
  | obj members =>
    have hlen : ((sortedMembers members).insertionSort keyLE).length = members.length := by
      rw [List.length_insertionSort, sortedMembers_eq, List.length_map]
    rw [Json.sorted, Json.truthy, Json.truthy, Bool.eq_iff_iff]
    simp only [Bool.not_eq_true', List.isEmpty_eq_false_iff, ← List.length_pos_iff, hlen]
  | _ => rfl

/-- The check of the identity does not depend on the order of the keys. -/
theorem validIdentity_canonical (hm : (m.map Prod.fst).Nodup) :
    validIdentity (.obj (canonical m)) = validIdentity (.obj m) := by
  have hpid : ∀ v : Json, isPid v.sorted = isPid v := by
    intro v
    rw [isPid, uint_sorted, number_sorted, isPid]
  have hhex : ∀ v : Json, isHex 32 v.sorted = isHex 32 v := fun v => by cases v <;> rfl
  have hstart : ∀ v : Json, isStart v.sorted = isStart v := fun v => by cases v <;> rfl
  simp only [validIdentity, get_canonical hm, hpid, hhex, hstart]

/-- The check of the counters does not depend on the order of the keys. -/
theorem validCounters_sorted (v : Json) : validCounters v.sorted = validCounters v := by
  cases v with
  | obj members =>
    have hall : ((canonical members).all fun p => uint p.2) = members.all fun p => uint p.2 := by
      rw [canonical, (sorted_perm members).all_eq, List.all_map]
      simp only [Function.comp_def, uint_sorted]
    change (hasKeys (canonical members) _ && (canonical members).all fun p => uint p.2) = _
    rw [hasKeys_canonical, hall, validCounters]
  | _ => rfl

/-- The check of the journal does not depend on the order of the keys. -/
theorem validJournal_sorted {v : Json} (hv : Denotable v) :
    validJournal v.sorted = validJournal v := by
  cases v with
  | obj members =>
    change validJournal (.obj (canonical members)) = _
    simp only [validJournal, hasKeys_canonical, get_canonical hv.1, isBool_sorted, uint_sorted,
      number_sorted,
      validCounters_sorted]
  | _ => rfl

/-- The reasons a journal gives do not depend on the order of the keys. -/
theorem reasonsOf_sorted {v : Json} (hv : Denotable v) : reasonsOf v.sorted = reasonsOf v := by
  cases v with
  | obj members =>
    change journalReasons (canonical members) = journalReasons members
    simp only [journalReasons, get_canonical hv.1, truthy_sorted]
  | _ => rfl

/-- The texts of an array do not depend on the order of the keys. -/
theorem texts_sorted (v : Json) : texts v.sorted = texts v := by
  cases v with
  | arr items =>
    rw [Json.sorted, sortedItems_eq]
    change (items.map Json.sorted).filterMap _ = items.filterMap _
    rw [List.filterMap_map]
    refine List.filterMap_congr fun v _ => ?_
    cases v <;> rfl
  | _ => rfl

/-- The check of the reasons does not depend on the order of the keys. -/
theorem validReasons_sorted (v : Json) : validReasons v.sorted = validReasons v := by
  cases v with
  | arr items =>
    have hreason : ∀ v : Json, isReason v.sorted = isReason v := fun v => by cases v <;> rfl
    have htexts := texts_sorted (.arr items)
    rw [Json.sorted] at htexts ⊢
    rw [validReasons, validReasons, htexts, sortedItems_eq, List.length_map, List.all_map]
    simp only [Function.comp_def, hreason]
  | _ => rfl

/-- A member of a denotable object is denotable. -/
theorem denotable_get (hm : Denotable (.obj m)) (key : Text) : Denotable (Object.get m key) := by
  unfold Object.get Object.getD
  split
  · next p hp => exact (denotableMembers_iff.mp hm.2 p (List.mem_of_find?_eq_some hp)).2
  · trivial

/-- The check of the whole file does not depend on the order of the keys. -/
theorem wellFormed_canonical (hm : Denotable (.obj m)) :
    wellFormed (canonical m) = wellFormed m := by
  have hversion : ∀ v : Json, isVersion v.sorted = isVersion v := fun v => by cases v <;> rfl
  have hstate : ∀ v : Json, isState v.sorted = isState v := fun v => by cases v <;> rfl
  simp only [wellFormed, hasKeys_canonical, get_canonical hm.1, validIdentity_canonical hm.1,
    uint_sorted, hstate,
    validReasons_sorted, isNull_sorted, validJournal_sorted (denotable_get hm _), hversion]

/-- The check passes or fails whatever the order. -/
theorem validate_canonical (hm : Denotable (.obj m)) :
    validate (.obj (canonical m)) = (validate (.obj m)).map fun _ => .obj (canonical m) := by
  simp only [validate, wellFormed_canonical hm, get_canonical hm.1,
    reasonsOf_sorted (denotable_get hm _), texts_sorted,
    isText_sorted, truthy_sorted, isNull_sorted]
  have hguard : ∀ (c : Bool) (e : Text) (x : Except Text Json) (f : Json → Json),
      (Effects.raiseIf c e >>= fun _ => x).map f = Effects.raiseIf c e >>= fun _ => x.map f := by
    intro c e x f
    cases c <;> rfl
  simp only [hguard]
  rfl

/-- A reader makes the same of a value in any order. -/
theorem judge_canonical (hm : Denotable (.obj m)) (verifiedOwner : Object) (now : ℤ) :
    judge verifiedOwner now (some (canonical m))
      = (judge verifiedOwner now (some m)).map fun p => (p.1, p.2.sorted) := by
  simp only [judge, validate_canonical hm, get_canonical hm.1, sameField_sorted, number_sorted]
  rcases validate (.obj m) with e | v
  · rfl
  · simp only [Except.map]
    split_ifs
    · rfl
    · rfl
    · rfl

end canonical

/-! ## What a reader makes of it -/

section readers

variable {owner : Object} {flags : List Text} {now : ℕ} {journal : Json}

/-- A text of ASCII characters has no lone surrogate. -/
theorem joined_of_ascii {t : Text} (h : Ascii t) : Py.Joined t := by
  have hlow : ∀ c ∈ t, isHigh c = false := by
    intro c hc
    have hc' := h c hc
    rw [isHigh, Bool.and_eq_false_iff]
    exact .inl (decide_eq_false (by omega))
  refine List.isChain_iff_getElem.mpr fun i hi hhigh => ?_
  rw [hlow _ (List.getElem_mem _)] at hhigh
  cases hhigh

/-- A safe integer can be written and read back. -/
theorem denotable_natCast {n : ℕ} (h : n ≤ maxSequence) : Denotable (.int n) := by
  have hlen := decimalLen_uint h
  change decimalLen (Int.natAbs n) ≤ maxStrDigits
  rw [Int.natAbs_natCast]
  exact hlen.trans (by decide)

/-- The same of a literal. -/
theorem joined_lit {t : Text} (h : (t.all fun c => decide (c.val < 0x80)) = true) : Py.Joined t :=
  joined_of_ascii (ascii_of_all h)

/-- The report of a valid journal can be written and read back. -/
theorem denotable_status {j : Journal} (hj : j.valid = true) : Denotable (.obj j.status) := by
  obtain ⟨h1, h2, h3⟩ := positions_le hj
  have hrows := pending_add_exhausted j
  have hlen := length_rows j
  have hunc := uncertain_le j
  have hwork : maxWork ≤ maxSequence := by decide
  have hcounters :
      Denotable (.obj (Notify.counters.map fun c => (c.key, .int (j.counters c)))) := by
    have hnames : (Notify.counters.map Counter.key).Nodup := by decide
    refine ⟨by rwa [List.map_map], denotableMembers_iff.mpr fun p hp => ?_⟩
    obtain ⟨c, -, rfl⟩ := List.mem_map.mp hp
    have hkey : (c.key.all fun c => decide (c.val < 0x80)) = true := by cases c <;> decide
    exact ⟨joined_lit hkey, denotable_natCast (counter_le hj c)⟩
  have hnodup : (j.status.map Prod.fst).Nodup := by
    have hnames :
      (lit "imported_through" :: lit "scan_through" :: lit "enumerated_through" :: lit "counters"
        :: lit "pending" :: lit "exhausted" :: lit "uncertain" :: flagFields).Nodup := by decide
    exact hnames
  have hkeys : (j.status.all fun p => p.1.all fun c => decide (c.val < 0x80)) = true := by
    have hnames :
      ((lit "imported_through" :: lit "scan_through" :: lit "enumerated_through" :: lit "counters"
        :: lit "pending" :: lit "exhausted" :: lit "uncertain" :: flagFields).all fun t =>
          t.all fun c => decide (c.val < 0x80)) = true := by decide
    exact hnames
  have hvalues : ∀ p ∈ j.status, Denotable p.2 := by
    simp only [Journal.status, List.forall_mem_cons]
    refine ⟨denotable_natCast (by omega), denotable_natCast (by omega), denotable_natCast h3,
      hcounters,
      denotable_natCast (by omega), denotable_natCast (by omega), denotable_natCast (by omega),
      trivial, trivial,
      trivial, fun _ h => by cases h⟩
  exact ⟨hnodup, denotableMembers_iff.mpr fun p hp => ⟨joined_lit (List.all_eq_true.mp hkeys p hp),
    hvalues p hp⟩⟩

/-- Texts without lone surrogates can be written and read back. -/
theorem denotable_texts {ts : List Text} (h : ∀ t ∈ ts, Py.Joined t) :
    DenotableItems (ts.map .str) := by
  induction ts with
  | nil => trivial
  | cons t ts ih =>
    rw [List.forall_mem_cons] at h
    exact ⟨h.1, ih h.2⟩

/-- A value that was built is one that a JSON text denotes. -/
theorem denotable_build (howner : Denotable (.obj owner)) (hnow : now ≤ maxSequence)
    (hflags : flags ⊆ reasons)
    (hjournal : Denotable journal) : Denotable (.obj (build owner flags now journal)) := by
  have hnodup : ((build owner flags now journal).map Prod.fst).Nodup := by
    have hnames : snapshotFields.Nodup := by decide
    exact hnames
  have hkeys : ((build owner flags now journal).all fun p => p.1.all fun c => decide (c.val < 0x80))
      = true := by
    have hnames : (snapshotFields.all fun t => t.all fun c => decide (c.val < 0x80)) = true := by
      decide
    exact hnames
  have hstate : Py.Joined (stateOf flags journal) := by
    unfold stateOf
    split_ifs
    · exact joined_lit (by decide)
    · exact joined_lit (by decide)
    · exact joined_lit (by decide)
  have hreasons : DenotableItems ((sortedTexts flags).map .str) := by
    have hascii : (reasons.all fun t => t.all fun c => decide (c.val < 0x80)) = true := by
      unfold reasons
      repeat rw [lit_ofList]
      decide
    exact denotable_texts fun t ht =>
      joined_lit (List.all_eq_true.mp hascii t (hflags (mem_sortedTexts.mp ht)))
  have hvalues : ∀ p ∈ build owner flags now journal, Denotable p.2 := by
    simp only [build, List.forall_mem_cons]
    refine ⟨denotable_natCast (n := 1) (by decide), denotable_get howner _, denotable_get howner _,
      denotable_get howner _,
      denotable_get howner _, denotable_natCast hnow, hstate, hreasons, hjournal, fun _ h => by
        cases h⟩
  exact ⟨hnodup, denotableMembers_iff.mpr fun p hp => ⟨joined_lit (List.all_eq_true.mp hkeys p hp),
    hvalues p hp⟩⟩

/-- The fields of two identities that pass the check are compared as what they are. -/
theorem sameField_iff {other : Object} (howner : validIdentity (.obj owner) = true) {k : Text}
    (hk : k ∈ identityFields) :
    sameField (owner.get k) (other.get k) = true ↔ other.get k = owner.get k := by
  obtain ⟨key, bridge, notifier, start, h1, -, h2, -, h3, -, h4, -⟩ := identity_fields howner
  have hstr : ∀ (t : Text) (v : Json), sameField (.str t) v = true ↔ .str t = v := by
    intro t v
    cases v <;> simp [sameField]
  have hint : ∀ (n : ℤ) (v : Json), sameField (.int n) v = true ↔ .int n = v := by
    intro n v
    cases v <;> simp [sameField]
  simp only [identityFields, List.mem_cons, List.not_mem_nil, or_false] at hk
  rw [eq_comm (b := owner.get k)]
  rcases hk with rfl | rfl | rfl | rfl
  · rw [h1, hstr]
  · rw [h2, hint]
  · rw [h3, hint]
  · rw [h4, hstr]

/-- The same owner, in time: a reader gets the state, the reasons and the journal. -/
theorem judge_build_same (hvalid : validate (.obj (build owner flags now journal))
      = .ok (.obj (build owner flags now journal)))
    (howner : validIdentity (.obj owner) = true) {other : Object}
    (hother : ∀ k ∈ identityFields, other.get k = owner.get k)
    {later : ℕ} (hlater : later ≤ maxSequence) (hfrom : now ≤ later)
    (hto : later ≤ now + freshnessMs) :
    judge other later (some (build owner flags now journal))
    = [(lit "state", .str (stateOf flags journal)),
      (lit "reasons", .arr ((sortedTexts flags).map .str)), (lit "journal", journal)] := by
  obtain ⟨-, hidentity, hupdated, hstate, hlist, hlast⟩ := get_build owner flags now journal
  have hsame :
    (identityFields.any fun k => !sameField (Object.get (build owner flags now journal) k)
      (other.get k))
      = false := by
    rw [List.any_eq_false]
    intro k hk
    rw [hidentity k hk, (sameField_iff howner hk).mpr (hother k hk)]
    exact Bool.false_ne_true
  have hfresh : (!uint (.int later) || !(decide (0 ≤ (later : ℤ) - number (.int now))
      && decide ((later : ℤ) - number (.int now) ≤ freshnessMs))) = false := by
    have hnumber : number (.int now) = now := rfl
    rw [uint_natCast hlater, hnumber]
    simp only [Bool.not_true, Bool.false_or, Bool.not_eq_false', Bool.and_eq_true,
      decide_eq_true_eq]
    omega
  simp only [judge, hvalid, hsame, hupdated, hfresh, hstate, hlist, hlast]
  rfl

/-- Another owner, or another time: the state is unknown. -/
theorem judge_build_other (howner : validIdentity (.obj owner) = true) {other : Object} {later : ℤ}
    (h : (∃ k ∈ identityFields, other.get k ≠ owner.get k) ∨ later < now
      ∨ now + freshnessMs < later) :
    Object.get (judge other later (some (build owner flags now journal))) (lit "state")
    = .str (lit "unknown") := by
  obtain ⟨-, hidentity, hupdated, -⟩ := get_build owner flags now journal
  unfold judge
  split
  · rfl
  · next hsome =>
    cases hsome
    split
    · rfl
    · split_ifs with hany hstale
      · rfl
      · rfl
      · have hnumber : number (.int now) = now := rfl
        rw [hupdated, hnumber] at hstale
        simp only [Bool.or_eq_true, Bool.not_eq_true', Bool.and_eq_false_iff,
          decide_eq_false_iff_not] at hstale
        rcases h with ⟨k, hk, hne⟩ | h | h
        · refine absurd (List.any_eq_true.mpr ⟨k, hk, ?_⟩) hany
          rw [hidentity k hk, Bool.not_eq_true', Bool.eq_false_iff]
          exact fun hs => hne ((sameField_iff howner hk).mp hs)
        · exact absurd (.inr (.inl (by omega))) hstale
        · exact absurd (.inr (.inr (by omega))) hstale

end readers

/-! ## Through the file -/

/-- What the notifier last kept of its looks at the journal: the account of a valid journal, or
none. -/
def Reports (status : Option Object) (journal : Option Journal) : Prop :=
  journalOf status = journal.elim .null (fun j => .obj j.status) ∧ ∀ j ∈ journal, j.valid = true

section published

variable {owner : Object} {status : Option Object} {journal : Option Journal} {given : List Text}
  {now : ℕ}

/-- A report is absent or passes the check of the file. -/
theorem Reports.valid (h : Reports status journal) :
    (journalOf status).isNull = true ∨ validJournal (journalOf status) = true := by
  rw [h.1]
  rcases journal with _ | j
  · exact .inl rfl
  · exact .inr (validJournal_status (h.2 j rfl))

/-- A report encodes within seven hundred bytes. -/
theorem Reports.length_le (h : Reports status journal) :
    (compact (journalOf status)).length ≤ 700 := by
  rw [h.1]
  rcases journal with _ | j
  · decide
  · exact length_status (h.2 j rfl)

/-- A report can be written and read back. -/
theorem Reports.denotable (h : Reports status journal) : Denotable (journalOf status) := by
  rw [h.1]
  rcases journal with _ | j
  · trivial
  · exact denotable_status (h.2 j rfl)

/-- The reasons a journal gives are among those reported. -/
theorem reasonsOf_subset (status : Option Object) (given : List Text) :
    reasonsOf (journalOf status) ⊆ allReasons status given := fun _ ht =>
  List.mem_append_left _ (List.mem_append_right _ ht)

/-- What is built is what a snapshot is. -/
theorem snapshot_eq (howner : validIdentity (.obj owner) = true) (hstatus : Reports status journal)
    (hgiven : given ⊆ reasons) (hnow : now ≤ maxSequence) : snapshot owner status given now
      = .ok (.obj (build owner (allReasons status given) now (journalOf status))) := by
  have hlist : given.all reasons.contains = true := by
    rw [List.all_eq_true]
    exact fun t ht => List.contains_iff_mem.mpr (hgiven ht)
  have hjournal : (!(journalOf status).isNull && !validJournal (journalOf status)) = false := by
    rcases hstatus.valid with h | h
    · rw [h]
      rfl
    · rw [h, Bool.not_true, Bool.and_false]
  rw [snapshot, howner, hlist, hjournal]
  exact validate_build howner hnow (allReasons_subset hgiven) hstatus.valid
    (reasonsOf_subset status given)

/-- A journal gives no reason when it is in order. -/
theorem journalReasons_status (j : Journal) : journalReasons j.status = [] ↔ j.pendingCount = 0
    ∧ j.exhaustedCount = 0 ∧
    j.uncertainCount = 0 ∧ j.lostUnacknowledged = false ∧ j.activationConfirmed = true
    ∧ j.pointersSeeded = true := by
  have hget : Object.get j.status (lit "pending") = .int j.pendingCount
      ∧ Object.get j.status (lit "exhausted") = .int j.exhaustedCount
      ∧ Object.get j.status (lit "uncertain") = .int j.uncertainCount
      ∧ Object.get j.status (lit "history_lost") = .bool j.lostUnacknowledged
      ∧ Object.get j.status (lit "activation_confirmed") = .bool j.activationConfirmed
      ∧ Object.get j.status (lit "pointers_seeded") = .bool j.pointersSeeded :=
        ⟨rfl, rfl, rfl, rfl, rfl, rfl⟩
  obtain ⟨h1, h2, h3, h4, h5, h6⟩ := hget
  have hcount : ∀ n : ℕ, (Json.int n).truthy = false ↔ n = 0 := by simp [Json.truthy]
  rw [journalReasons, List.append_eq_nil_iff, List.map_eq_nil_iff, List.filter_eq_nil_iff]
  simp only [fieldReasons, List.forall_mem_cons, h1, h2, h3, h4, h5, h6, Bool.not_eq_true, hcount]
  constructor
  · rintro ⟨⟨hp, he, hu, hl, -⟩, hstart⟩
    split_ifs at hstart with hflags
    rw [Bool.or_eq_true, not_or, Bool.not_eq_true', Bool.not_eq_true', Bool.not_eq_false,
      Bool.not_eq_false] at hflags
    exact ⟨hp, he, hu, hl, hflags.1, hflags.2⟩
  · rintro ⟨hp, he, hu, hl, ha, hs⟩
    refine ⟨⟨hp, he, hu, hl, fun _ h => by cases h⟩, if_neg ?_⟩
    rw [ha, hs]
    exact Bool.false_ne_true

/-- **When delivery is in order.** -/
theorem healthy_iff (hstatus : Reports status journal) :
    stateOf (allReasons status given) (journalOf status) = lit "healthy" ↔ given = []
    ∧ incompatible status = false ∧
      ∃ j ∈ journal, j.pendingCount = 0 ∧ j.exhaustedCount = 0 ∧ j.uncertainCount = 0
      ∧ j.lostUnacknowledged = false ∧
        j.activationConfirmed = true ∧ j.pointersSeeded = true := by
  have hcompat : (if incompatible status then [lit "version_compatibility"] else []) = []
      ↔ incompatible status = false := by
    cases incompatible status <;> simp
  rw [stateOf_eq_healthy, allReasons, List.append_eq_nil_iff, List.append_eq_nil_iff, hcompat,
    hstatus.1]
  rcases journal with _ | j
  · refine iff_of_false (fun h => ?_) fun h => ?_
    · cases h.2
    · obtain ⟨_, hj, _⟩ := h.2.2
      cases hj
  · change ((given = [] ∧ journalReasons j.status = []) ∧ incompatible status = false)
      ∧ false = false ↔ _
    rw [journalReasons_status]
    constructor
    · rintro ⟨⟨⟨hg, hj⟩, hc⟩, -⟩
      exact ⟨hg, hc, j, rfl, hj⟩
    · rintro ⟨hg, hc, i, hi, hj⟩
      cases hi
      exact ⟨⟨⟨hg, hj⟩, hc⟩, rfl⟩

/-- A read of a directory that shows a value makes of it what `judge` says; without a verified owner
it makes nothing of it. -/
theorem read_eq {p : State.Place} {m : Files.Machine State.Name} {w : Option Object}
    {u : Files.Machine State.Name}
    (h : State.read p m = (.ok w, u)) (verifiedOwner : Object) (later : ℤ) :
    (validIdentity (.obj verifiedOwner) = true → read p verifiedOwner later m
      = (.ok (judge verifiedOwner later w), u)) ∧
    (validIdentity (.obj verifiedOwner) = false →
      read p verifiedOwner later m = (.ok (unknown (lit "health_owner_unverified")), m)) := by
  refine ⟨fun hid => ?_, fun hid => ?_⟩
  · have hrun : (do return judge verifiedOwner later (← State.read p) :
        Files.Calls State.Failure State.Name Object) m
          = (.ok (judge verifiedOwner later w), u) := by
      rw [Effects.Prog.bind_ok h]
      rfl
    rw [read, hid]
    exact Effects.Prog.tryCatch_ok hrun
  · rw [read, hid]
    rfl

/-- **A snapshot can be published, and is honest.** Whatever the reasons and the journal, the value
passes the check and fits the file; it says that delivery is in order exactly when it is; the owner
that it names reads it back, for as long as it is fresh, and to every other owner and at every other
time the state is unknown. -/
theorem snapshot_published (howner : validIdentity (.obj owner) = true)
    (hdenotable : Denotable (.obj owner))
    (hstatus : Reports status journal) (hgiven : given ⊆ reasons) (hnow : now ≤ maxSequence) :
    ∃ value, snapshot owner status given now = .ok (.obj value) ∧ validate (.obj value)
    = .ok (.obj value) ∧
      (State.encoding value).length ≤ State.maxBytes ∧
      (Object.get value (lit "state") = .str (lit "healthy") ↔ given = []
        ∧ incompatible status = false ∧
        ∃ j ∈ journal, j.pendingCount = 0 ∧ j.exhaustedCount = 0 ∧ j.uncertainCount = 0 ∧
          j.lostUnacknowledged = false ∧ j.activationConfirmed = true ∧ j.pointersSeeded = true) ∧
      ∀ p V d, State.Left p V d → p.isPrivate = true → ∀ m : Files.Machine State.Name, m.disk = d →
      Files.Quiet m →
        ∃ run t, publish p (.obj value) = .ok run ∧ run m = (.ok (), t) ∧
          ∀ reader : Files.Machine State.Name, reader.disk = t.disk → Files.Quiet reader →
          ∀ (other : Object) (later : ℕ),
            ∃ report u, read p other later reader = (.ok report, u) ∧
              ((∀ k ∈ identityFields, other.get k = owner.get k) → now ≤ later →
                later ≤ now + freshnessMs →
                later ≤ maxSequence → Json.Same (.obj report) (.obj
                  [(lit "state", Object.get value (lit "state")),
                    (lit "reasons", Object.get value (lit "reasons")),
                    (lit "journal", Object.get value (lit "journal"))])) ∧
              ((∃ k ∈ identityFields, other.get k ≠ owner.get k) ∨ later < now
                ∨ now + freshnessMs < later →
                Object.get report (lit "state") = .str (lit "unknown")) := by
  have hflags : allReasons status given ⊆ reasons := allReasons_subset hgiven
  have hvalid := validate_build howner hnow hflags hstatus.valid (reasonsOf_subset status given)
  have hlen := length_build howner hnow hflags hstatus.length_le
  have hden := denotable_build hdenotable hnow hflags hstatus.denotable
  obtain ⟨-, hidentity, -, hstate, hlist, hlast⟩ :=
    get_build owner (allReasons status given) now (journalOf status)
  refine ⟨_, snapshot_eq howner hstatus hgiven hnow, hvalid, hlen, ?_, ?_⟩
  · rw [hstate, Json.str.injEq]
    exact healthy_iff hstatus
  rintro p V d hleft hprivate m rfl hquiet
  obtain ⟨⟨⟩, t, hrun, -⟩ := Files.returns_of_ends (State.publish_calm hprivate hlen)
      (m := m) ⟨hleft.inv, hquiet⟩
  refine ⟨_, t, by rw [publish, hvalid]; rfl, hrun, ?_⟩
  obtain ⟨⟨⟨_, rfl, hholds⟩, -⟩, -⟩ := hleft.inv.returned hden hrun
  rintro reader hreader hquiet' other later
  obtain ⟨w, u, hread, rfl, -⟩ := Files.returns_of_ends (State.read_calm hholds)
      (m := reader) ⟨hreader, hquiet'⟩
  obtain ⟨hverified, hunverified⟩ := read_eq hread other later
  by_cases hid : validIdentity (.obj other) = true
  · refine ⟨_, u, hverified hid, fun hother hfrom hto hlater => ?_, fun h => ?_⟩
    · rw [Option.map_some, judge_canonical hden, judge_build_same hvalid howner hother hlater hfrom
        hto, hstate, hlist,
        hlast]
      exact same_map_sorted _
    · rw [Option.map_some, judge_canonical hden, get_map_sorted]
      rw [judge_build_other howner (h.imp_right fun h => by omega)]
      rfl
  · refine ⟨_, _, hunverified (Bool.eq_false_iff.mpr hid), fun hother _ _ _ => ?_, fun _ => rfl⟩
    exact absurd ((validIdentity_congr hother).trans howner) hid

/-- A notifier that is at work. -/
def sampleOwner : Object :=
  [(lit "owner", .str (List.replicate 32 0x30)), (lit "bridge_pid", .int 1),
    (lit "notifier_pid", .int 2),
    (lit "proc_start", .str (lit "4711"))]

/-- The same notifier beside another process of the bridge. -/
def otherOwner : Object :=
  [(lit "owner", .str (List.replicate 32 0x30)), (lit "bridge_pid", .int 3),
    (lit "notifier_pid", .int 2),
    (lit "proc_start", .str (lit "4711"))]

/-- A message that waits for its second notice. -/
def waitingRow : Work := ⟨5, .peer, .pending, 1, 900, false⟩

/-- One row is within the size of the table. -/
theorem length_waiting :
    ((Relational.Table.empty : Relational.Table ℕ Work Work.seq).put waitingRow).rows.length
    ≤ maxWork := by
  decide

/-- A journal with this message. -/
def waitingJournal : Journal :=
  { Journal.initial (Hints.Participant.codex (Hex.ofDigit 64 0)) (Hex.ofDigit 32 1) 0 false with
    scanThrough := 5
    enumeratedThrough := 5
    activationConfirmed := true
    pointersSeeded := true
    work := ⟨Relational.Table.empty.put waitingRow, length_waiting⟩ }

/-- The journal of the example holds the one waiting row. -/
theorem rows_waitingJournal : waitingJournal.rows = [waitingRow] := List.mergeSort_singleton _

/-- The journal of the example is valid. -/
theorem valid_waitingJournal : waitingJournal.valid = true := by
  have hattempt : waitingJournal.attempt = none := rfl
  rw [Journal.valid, Journal.attemptOk, hattempt, Journal.reservedRows, rows_waitingJournal]
  decide

/-- What the notifier keeps of its look at that journal. -/
def waitingStatus : Option Object := some [(lit "journal", .obj waitingJournal.status)]

/-- The waiting message adds a reason to the one that is given. -/
theorem allReasons_waiting :
    allReasons waitingStatus [lit "storage_wait"] = [lit "storage_wait",
      lit "pending_delivery"] := by
  have hpending : waitingJournal.pendingCount = 1 := by
    rw [Journal.pendingCount, rows_waitingJournal]
    decide
  have hexhausted : waitingJournal.exhaustedCount = 0 := by
    rw [Journal.exhaustedCount, rows_waitingJournal]
    decide
  have huncertain : waitingJournal.uncertainCount = 0 := by
    rw [Journal.uncertainCount, rows_waitingJournal]
    decide
  have hjournal : journalReasons waitingJournal.status = [lit "pending_delivery"] := by
    rw [Journal.status, hpending, hexhausted, huncertain]
    decide +kernel
  have hreasons : reasonsOf (journalOf waitingStatus) = journalReasons waitingJournal.status := rfl
  have hcompatible : incompatible waitingStatus = false := rfl
  rw [allReasons, hreasons, hjournal, hcompatible]
  rfl

/-- A degraded state with its two reasons is published into an empty directory. Its owner reads it
back a second later; half a minute later, and to a notifier beside another bridge, the state is
unknown. -/
theorem snapshot_published_waiting : ∃ value,
    snapshot sampleOwner waitingStatus [lit "storage_wait"] 1000 = .ok (.obj value) ∧
      Object.get value (lit "state") = .str (lit "degraded") ∧
      ∃ run t, publish State.home (.obj value) = .ok run ∧ run ⟨State.emptyDisk, []⟩ = (.ok (), t) ∧
        (∃ report u, read State.home sampleOwner 2000 ⟨t.disk, []⟩ = (.ok report, u) ∧
          Json.Same (.obj report) (.obj [(lit "state", .str (lit "degraded")),
            (lit "reasons", .arr [.str (lit "pending_delivery"), .str (lit "storage_wait")]),
            (lit "journal", .obj waitingJournal.status)])) ∧
        (∃ report u, read State.home sampleOwner 30000 ⟨t.disk, []⟩ = (.ok report, u) ∧
          Object.get report (lit "state") = .str (lit "unknown")) ∧
        ∃ report u, read State.home otherOwner 2000 ⟨t.disk, []⟩ = (.ok report, u) ∧
          Object.get report (lit "state") = .str (lit "unknown") := by
  have howner : validIdentity (.obj sampleOwner) = true := by decide
  have hdenotable : Denotable (.obj sampleOwner) := by
    refine ⟨by decide, joined_lit (by decide), joined_lit (by decide), joined_lit (by decide), ?_,
      joined_lit (by decide), ?_, joined_lit (by decide), joined_lit (by decide), trivial⟩
    · exact denotable_natCast (n := 1) (by decide)
    · exact denotable_natCast (n := 2) (by decide)
  have hstatus : Reports waitingStatus (some waitingJournal) := by
    refine ⟨rfl, fun j hj => ?_⟩
    cases hj
    exact valid_waitingJournal
  have hgiven : [lit "storage_wait"] ⊆ reasons := by decide
  have hnow : 1000 ≤ maxSequence := by decide
  obtain ⟨value, hvalue, -, -, -, hpublish⟩ :=
    snapshot_published howner hdenotable hstatus hgiven hnow
  obtain rfl : build sampleOwner (allReasons waitingStatus [lit "storage_wait"]) 1000
      (journalOf waitingStatus) = value :=
    Json.obj.inj (Except.ok.inj ((snapshot_eq howner hstatus hgiven hnow).symm.trans hvalue))
  obtain ⟨-, -, -, hstate, hreasons, hjournal⟩ :=
    get_build sampleOwner (allReasons waitingStatus [lit "storage_wait"]) 1000
    (journalOf waitingStatus)
  have hdegraded : stateOf (allReasons waitingStatus [lit "storage_wait"]) (journalOf waitingStatus)
      = lit "degraded" := by
    rw [allReasons_waiting]
    rfl
  have hsorted : sortedTexts (allReasons waitingStatus [lit "storage_wait"])
      = [lit "pending_delivery", lit "storage_wait"] := by
    rw [allReasons_waiting]
    decide +kernel
  rw [hdegraded] at hstate
  rw [hsorted] at hreasons
  have hquiet : Files.Quiet (⟨State.emptyDisk, []⟩ : Files.Machine State.Name) := by
    intro f hf
    cases hf
  obtain ⟨run, t, hrun, hdone, hread⟩ :=
    hpublish State.home _ State.emptyDisk (.empty (fun _ => rfl) rfl) rfl ⟨State.emptyDisk,
      []⟩ rfl hquiet
  have hreader : Files.Quiet (⟨t.disk, []⟩ : Files.Machine State.Name) := by
    intro f hf
    cases hf
  refine ⟨_, hvalue, hstate, run, t, hrun, hdone, ?_, ?_, ?_⟩
  · obtain ⟨report, u, h, hsame, -⟩ := hread ⟨t.disk, []⟩ rfl hreader sampleOwner 2000
    have hback := hsame (fun _ _ => rfl) (by decide) (by decide) (by decide)
    rw [hstate, hreasons, hjournal] at hback
    exact ⟨report, u, h, hback⟩
  · obtain ⟨report, u, h, -, hunknown⟩ := hread ⟨t.disk, []⟩ rfl hreader sampleOwner 30000
    exact ⟨report, u, h, hunknown (.inr (.inr (by decide)))⟩
  · obtain ⟨report, u, h, -, hunknown⟩ := hread ⟨t.disk, []⟩ rfl hreader otherOwner 2000
    refine ⟨report, u, h, hunknown (.inl ⟨lit "bridge_pid", by decide, fun hpid => ?_⟩)⟩
    have hpids : Json.int 3 = .int 1 := hpid
    exact absurd (Json.int.inj hpids) (by decide)

end published

end HealthFile

end PeerBridge.Notify
