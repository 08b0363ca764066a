import PeerBridge.Bridge.Inbox
import PeerBridge.Runtime.Prog
import PeerBridge.Runtime.Transition

/-!
# What the inbox keeps

The invariant of the inbox database under every sequence of operations, in two parts.

* `Db.WellFormed`: what one state says. Rows lie between the acknowledged position and the allocated
  head, the quotas hold, and every pointer belongs to the binding of its key and instance, one for
  each binding.
* `Moved`: what two states of one run say of each other. The head and the acknowledged position
  never go back, and a row that was not there has a sequence above the head there was. So no
  sequence names two rows, and no acknowledgement covers a row that arrives after it.

Every operation is specified once (`insert_eq_ok` to `activate_eq_ok`); both parts are read off the
specifications.
-/

namespace PeerBridge.Bridge

open Py Relational Effects Transition PeerBridge.Service

variable {db db' : Db}

/-! ## What the operations do -/

/-- An insertion takes the next sequence, while there is one. -/
theorem insert_eq_ok {received : ℚ} {pid : ℕ} {frame : Json} {origin : Origin}
    (h : db.insert received pid frame origin = .ok db') :
    db.head < maxSequence ∧ db' = { db with
      inbox := db.inbox.put ⟨db.head + 1, received, pid, frame, origin⟩
      head := db.head + 1 } := by
  unfold Db.insert at h
  split at h
  · cases h
  · next hlt =>
    cases h
    exact ⟨not_le.mp hlt, rfl⟩

/-- A peer's frame is stored when it is accepted and there is room for one more. -/
theorem store_eq_ok {now : ℚ} {pid : ℕ} {frame : Json} (h : store db now pid frame = .ok db') :
    acceptFrame frame = .ok () ∧ (db.inbox.rows.filter Row.isPeer).length < maxPeerRows
      ∧ db.insert now pid frame .peer = .ok db' := by
  unfold store at h
  rcases hframe : acceptFrame frame with e | u
  · rw [hframe] at h
    cases h
  · rw [hframe] at h
    simp only at h
    split at h
    · cases h
    · next hlt => exact ⟨rfl, not_le.mp hlt, h⟩

/-- A binding is found under its key. -/
theorem getBinding_eq_ok {key : Hex 64} {b : Binding} :
    getBinding db key = .ok b ↔ db.bindings.find key = some b := by
  unfold getBinding
  rcases db.bindings.find key with _ | c
  · simp
  · simp

/-- Binding returns the stored binding of the route, or stores a new one while there is room. -/
theorem bind_eq_ok {route : Route} {fresh : Instance} {b : Binding}
    (h : bind db route fresh = .ok (b, db')) :
    db.bindings.find route.binding = some b ∧ db' = db
      ∨ db.bindings.find route.binding = none ∧ db.bindings.rows.length < maxBindings
        ∧ b = ⟨route.binding, route.repoPath, route.repoKey, route.memoryStateDir, fresh, none, 0⟩
        ∧ db' = { db with bindings := db.bindings.put b } := by
  unfold bind at h
  rcases hfind : db.bindings.find route.binding with _ | c
  · rw [hfind] at h
    simp only at h
    split at h
    · cases h
    · next hlt =>
      cases h
      exact .inr ⟨rfl, not_le.mp hlt, rfl, rfl⟩
  · rw [hfind] at h
    cases h
    exact .inl ⟨rfl, rfl⟩

/-- The database in which a binding is refreshed: its pointer replaced by one with the next
sequence. -/
def repointed (db : Db) (b : Binding) (o : Observation) (now : ℚ) : Db :=
  { db with
    inbox := (db.inbox.remove (Row.pointsTo b.binding)).put
      ⟨db.head + 1, now, o.pid, pointerFrame b.binding, .pointer b.binding b.bindingInstance⟩
    head := db.head + 1 }

/-- A refresh commits only over the row it was read from. -/
theorem refresh_eq_ok {b : Binding} {o : Observation} {now : ℚ} {changed : Bool}
    (h : refresh db b o now = .ok (changed, db')) :
    db.bindings.find b.binding = some b
      ∧ (changed = false ∧ b.observed = some (o.storeId, o.head) ∧ db' = db
        ∨ changed = true ∧ b.observed ≠ some (o.storeId, o.head) ∧ db.head < maxSequence
          ∧ db' = (repointed db b o now).setObserved b.binding (some (o.storeId, o.head))
            (anomaliesAfter b o)) := by
  unfold refresh at h
  rcases hget : getBinding db b.binding with e | c
  · rw [hget] at h
    cases h
  · rw [hget] at h
    simp only at h
    have hfind := getBinding_eq_ok.mp hget
    by_cases hroute : c.route = b.route
    · by_cases hinst : c.bindingInstance = b.bindingInstance
      · by_cases hobs : (c.observed, c.anomalies) = (b.observed, b.anomalies)
        · obtain rfl : c = b := by
            obtain ⟨hk, hp, hr, hd⟩ := Route.mk.inj hroute
            obtain ⟨ho, ha⟩ := Prod.mk.inj hobs
            obtain ⟨_, _, _, _, _, _, _⟩ := c
            obtain ⟨_, _, _, _, _, _, _⟩ := b
            simp only at hk hp hr hd hinst ho ha
            subst hk hp hr hd hinst ho ha
            rfl
          refine ⟨hfind, ?_⟩
          simp only [ne_eq, not_true_eq_false, if_false] at h
          split at h
          · next heq =>
            cases h
            exact .inl ⟨rfl, heq, rfl⟩
          · next hne =>
            split at h
            · cases h
            · next hinsert =>
              cases h
              obtain ⟨hlt, rfl⟩ := insert_eq_ok hinsert
              exact .inr ⟨rfl, hne, hlt, rfl⟩
        · simp [hroute, hinst, hobs] at h
      · simp [hroute, hinst] at h
    · simp [hroute] at h

/-- Acknowledging the health of a binding clears its anomalies. -/
theorem acknowledgeHealth_eq_ok {key : Hex 64} {n : ℕ}
    (h : acknowledgeHealth db key = .ok (n, db')) :
    ∃ b, db.bindings.find key = some b ∧ db' = db.setObserved key b.observed 0 := by
  unfold acknowledgeHealth at h
  rcases hget : getBinding db key with e | b
  · rw [hget] at h
    cases h
  · rw [hget] at h
    cases h
    exact ⟨b, getBinding_eq_ok.mp hget, rfl⟩

/-- An activation changes the activation only. -/
theorem activate_eq_ok {r : ActivationRequest} {a : Activation} (h : activate db r = .ok (a, db')) :
    ∃ x, db' = { db with activation := x } := by
  unfold activate at h
  simp only at h
  split at h
  · cases h
    exact ⟨_, rfl⟩
  · cases h
  · split at h
    · cases h
    · split at h
      · cases h
        exact ⟨_, rfl⟩
      · split at h
        · cases h
        · split at h
          · cases h
            exact ⟨_, rfl⟩
          · cases h

/-- The bindings after an observation is recorded. -/
theorem mem_setObserved {key : Hex 64} {observed : Option (Hex 32 × ℕ)} {anomalies : ℕ}
    {c : Binding} :
    c ∈ (db.setObserved key observed anomalies).bindings ↔ ∃ b ∈ db.bindings,
      c = if b.binding = key then { b with observed := observed, anomalies := anomalies }
      else b := by
  unfold Db.setObserved
  rw [Table.mem_update]
  simp only [decide_eq_true_eq]

/-! ## The operations together -/

/-- A request the database worker carries out. -/
inductive Op where
  | store (now : ℚ) (pid : ℕ) (frame : Json)
  | acknowledge (through : ℕ)
  | bind (route : Route) (fresh : Instance)
  | unbind (key : Hex 64)
  | refresh (binding : Binding) (o : Observation) (now : ℚ)
  | acknowledgeHealth (key : Hex 64)
  | activate (r : ActivationRequest)
  /-- A request that is refused before it reaches the database, or whose transaction fails. -/
  | fail (e : Exc)

/-- The transaction of a request. -/
def Op.apply (db : Db) : Op → Except Exc Db
  | .store now pid frame => Bridge.store db now pid frame
  | .acknowledge through => .ok (Bridge.acknowledge db through)
  | .bind route fresh => (Bridge.bind db route fresh).map Prod.snd
  | .unbind key => .ok (Bridge.unbind db key)
  | .refresh binding o now => (Bridge.refresh db binding o now).map Prod.snd
  | .acknowledgeHealth key => (Bridge.acknowledgeHealth db key).map Prod.snd
  | .activate r => (Bridge.activate db r).map Prod.snd
  | .fail e => .error e

/-- The database after a request: an exception rolls the transaction back. -/
def Db.after (db : Db) (op : Op) : Db :=
  match op.apply db with
  | .ok db' => db'
  | .error _ => db

/-- What `initialize` leaves: a database just created, or the peer frames of a legacy inbox, which
has neither bindings nor an acknowledged position. -/
inductive Opened : Db → Prop where
  | new : Opened .empty
  | legacy (inbox : Table ℕ Row Row.seq) (head : ℕ) (hhead : head ≤ maxSequence)
      (hrows : ∀ r ∈ inbox, 0 < r.seq ∧ r.seq ≤ head ∧ r.origin = .peer)
      (hpeers : inbox.rows.length ≤ maxPeerRows) : Opened ⟨inbox, head, 0, none, .empty⟩

/-- The inbox database under its worker. -/
def storage : System Db Op where
  init := Opened
  next db op := some (db.after op)

/-! ## One state -/

/-- What every state of the inbox database says. -/
structure Db.WellFormed (db : Db) : Prop where
  head_le : db.head ≤ maxSequence
  ack_le : db.ackThrough ≤ db.head
  rows : ∀ r ∈ db.inbox, db.ackThrough < r.seq ∧ r.seq ≤ db.head
  peers : (db.inbox.rows.filter Row.isPeer).length ≤ maxPeerRows
  bindings : db.bindings.rows.length ≤ maxBindings
  /-- A pointer belongs to the binding of its key and instance. -/
  owner : ∀ r ∈ db.inbox, ∀ key inst, r.origin = .pointer key inst →
    ∃ b ∈ db.bindings, b.binding = key ∧ b.bindingInstance = inst
  /-- A binding has at most one pointer. -/
  one : ∀ r ∈ db.inbox, ∀ r' ∈ db.inbox, ∀ key, r.pointsTo key = true → r'.pointsTo key = true →
    r = r'

/-- A row points to a binding when it is a pointer of one of its instances. -/
theorem Row.pointsTo_iff {key : Hex 64} {r : Row} :
    r.pointsTo key = true ↔ ∃ inst, r.origin = .pointer key inst := by
  unfold Row.pointsTo
  rcases r.origin with _ | ⟨k, i⟩
  · simp
  · simp only [decide_eq_true_eq, Origin.pointer.injEq, exists_and_left, exists_eq', and_true]

/-- A database that opens is well formed. -/
theorem Opened.wellFormed (h : Opened db) : db.WellFormed := by
  cases h with
  | new =>
    refine ⟨Nat.zero_le _, le_rfl, ?_, Nat.zero_le _, Nat.zero_le _, ?_, ?_⟩
    · intro r hr
      cases hr
    · intro r hr
      cases hr
    · intro r hr
      cases hr
  | legacy inbox head hhead hrows hpeers =>
    refine ⟨hhead, Nat.zero_le _, ?_, ?_, Nat.zero_le _, ?_, ?_⟩
    · intro r hr
      exact ⟨(hrows r hr).1, (hrows r hr).2.1⟩
    · exact (List.length_filter_le _ _).trans hpeers
    · intro r hr key inst ho
      rw [(hrows r hr).2.2] at ho
      cases ho
    · intro r hr r' hr' key hp hp'
      obtain ⟨inst, ho⟩ := Row.pointsTo_iff.mp hp
      rw [(hrows r hr).2.2] at ho
      cases ho

/-- A database just opened has no bindings. -/
theorem Opened.bindings_eq (h : Opened db) : db.bindings = .empty := by
  cases h with
  | new => rfl
  | legacy => rfl

/-- Removing rows keeps the invariant, as long as what is acknowledged is removed. -/
theorem Db.WellFormed.remove (h : db.WellFormed) (p : Row → Bool) {ack : ℕ} (hack : ack ≤ db.head)
    (hle : ∀ r ∈ db.inbox, p r = false → ack < r.seq) :
    Db.WellFormed { db with inbox := db.inbox.remove p, ackThrough := ack } := by
  refine ⟨h.head_le, hack, ?_, ?_, h.bindings, ?_, ?_⟩
  · intro r hr
    obtain ⟨hr, hp⟩ := Table.mem_remove.mp hr
    exact ⟨hle r hr hp, (h.rows r hr).2⟩
  · refine le_trans (List.Sublist.length_le ?_) h.peers
    exact List.filter_sublist.filter _
  · intro r hr
    exact h.owner r (Table.mem_remove.mp hr).1
  · intro r hr r' hr'
    exact h.one r (Table.mem_remove.mp hr).1 r' (Table.mem_remove.mp hr').1

/-- Inserting a row with the next sequence. -/
theorem Db.WellFormed.insert (h : db.WellFormed) {received : ℚ} {pid : ℕ} {frame : Json}
    {origin : Origin}
    (hlt : db.head < maxSequence)
    (hpeers : origin = .peer → (db.inbox.rows.filter Row.isPeer).length < maxPeerRows)
    (howner : ∀ key inst, origin = .pointer key inst →
      ∃ b ∈ db.bindings, b.binding = key ∧ b.bindingInstance = inst)
    (hone : ∀ key inst, origin = .pointer key inst → ∀ r ∈ db.inbox, r.pointsTo key = false) :
    Db.WellFormed { db with
      inbox := db.inbox.put ⟨db.head + 1, received, pid, frame, origin⟩
      head := db.head + 1 } := by
  refine ⟨hlt, h.ack_le.trans (Nat.le_succ _), ?_, ?_, h.bindings, ?_, ?_⟩
  · intro r hr
    rcases Table.mem_put.mp hr with ⟨hr, -⟩ | rfl
    · obtain ⟨hlow, hhigh⟩ := h.rows r hr
      exact ⟨hlow, hhigh.trans (Nat.le_succ _)⟩
    · exact ⟨Nat.lt_succ_of_le h.ack_le, le_rfl⟩
  · have hsub :
      ((db.inbox.rows.filter fun b => decide (b.seq ≠ db.head + 1)).filter Row.isPeer).length
        ≤ (db.inbox.rows.filter Row.isPeer).length :=
      List.Sublist.length_le (List.filter_sublist.filter _)
    simp only [Table.put, List.filter_append, List.length_append]
    by_cases hpeer : origin = .peer
    · have := hpeers hpeer
      have hsingle := List.length_filter_le Row.isPeer
        [(⟨db.head + 1, received, pid, frame, origin⟩ : Row)]
      rw [List.length_singleton] at hsingle
      omega
    · have hnot : Row.isPeer ⟨db.head + 1, received, pid, frame, origin⟩ = false := by
        simpa [Row.isPeer] using hpeer
      have := h.peers
      rw [List.filter_cons_of_neg (by simp [hnot]), List.filter_nil, List.length_nil]
      omega
  · intro r hr
    rcases Table.mem_put.mp hr with ⟨hr, -⟩ | rfl
    · exact h.owner r hr
    · exact howner
  · intro r hr r' hr' key hp hp'
    rcases Table.mem_put.mp hr with ⟨hr, -⟩ | rfl
    · rcases Table.mem_put.mp hr' with ⟨hr', -⟩ | rfl
      · exact h.one r hr r' hr' key hp hp'
      · obtain ⟨inst, ho⟩ := Row.pointsTo_iff.mp hp'
        rw [hone key inst ho r hr] at hp
        cases hp
    · rcases Table.mem_put.mp hr' with ⟨hr', -⟩ | rfl
      · obtain ⟨inst, ho⟩ := Row.pointsTo_iff.mp hp
        rw [hone key inst ho r' hr'] at hp'
        cases hp'
      · rfl

/-- Bindings may change as long as every instance that has a pointer stays. -/
theorem Db.WellFormed.rebound (h : db.WellFormed)
    {bindings : Table (Hex 64) Binding Binding.binding}
    (hlen : bindings.rows.length ≤ maxBindings)
    (hkeep : ∀ r ∈ db.inbox, ∀ b ∈ db.bindings, r.pointsTo b.binding = true →
      ∃ b' ∈ bindings, b'.binding = b.binding ∧ b'.bindingInstance = b.bindingInstance) :
    Db.WellFormed { db with bindings := bindings } := by
  refine ⟨h.head_le, h.ack_le, h.rows, h.peers, hlen, ?_, h.one⟩
  intro r hr key inst ho
  obtain ⟨b, hb, rfl, rfl⟩ := h.owner r hr key inst ho
  exact hkeep r hr b hb (Row.pointsTo_iff.mpr ⟨_, ho⟩)

/-- An observation keeps the database well formed. -/
theorem Db.WellFormed.setObserved (h : db.WellFormed) (key : Hex 64)
    (observed : Option (Hex 32 × ℕ))
    (anomalies : ℕ) : (db.setObserved key observed anomalies).WellFormed := by
  refine h.rebound ?_ ?_
  · simpa [Table.update] using h.bindings
  · intro r hr b hb hp
    refine ⟨_, mem_setObserved.mpr ⟨b, hb, rfl⟩, ?_, ?_⟩
    · split <;> rfl
    · split <;> rfl

/-- Storing a frame keeps the database well formed. -/
theorem Db.WellFormed.store (h : db.WellFormed) {now : ℚ} {pid : ℕ} {frame : Json}
    (hop : Bridge.store db now pid frame = .ok db') : db'.WellFormed := by
  obtain ⟨-, hpeers, hins⟩ := store_eq_ok hop
  obtain ⟨hlt, rfl⟩ := insert_eq_ok hins
  refine h.insert hlt (fun _ => hpeers) ?_ ?_
  · intro key inst ho
    cases ho
  · intro key inst ho
    cases ho

/-- An acknowledgement keeps the database well formed. -/
theorem Db.WellFormed.acknowledge (h : db.WellFormed) (through : ℕ) :
    (Bridge.acknowledge db through).WellFormed := by
  refine h.remove _ (max_le (min_le_right _ _) h.ack_le) ?_
  intro r hr hp
  have hlow := (h.rows r hr).1
  simp only [decide_eq_false_iff_not, not_le] at hp
  exact max_lt hp hlow

/-- Binding keeps the database well formed. -/
theorem Db.WellFormed.bind (h : db.WellFormed) {route : Route} {fresh : Instance} {b : Binding}
    (hop : Bridge.bind db route fresh = .ok (b, db')) : db'.WellFormed := by
  rcases bind_eq_ok hop with ⟨-, rfl⟩ | ⟨hnone, hlen, rfl, rfl⟩
  · exact h
  · refine h.rebound ?_ ?_
    · simp only [Table.put, List.length_append, List.length_singleton]
      have := List.length_filter_le (fun b => decide (b.binding ≠ route.binding)) db.bindings.rows
      omega
    · intro r hr b hb hp
      refine ⟨b, Table.mem_put.mpr (.inl ⟨hb, ?_⟩), rfl, rfl⟩
      exact Table.find_eq_none.mp hnone b hb

/-- Unbinding keeps the database well formed. -/
theorem Db.WellFormed.unbind (h : db.WellFormed) (key : Hex 64) :
    (Bridge.unbind db key).WellFormed := by
  have hcleared := h.remove (Row.pointsTo key) h.ack_le fun r hr _ => (h.rows r hr).1
  refine hcleared.rebound ((Table.length_remove_le _ _).trans h.bindings) ?_
  intro r hr b hb hp
  refine ⟨b, Table.mem_remove.mpr ⟨hb, ?_⟩, rfl, rfl⟩
  -- A pointer that is left is not one of the removed binding.
  have hnot := (Table.mem_remove.mp hr).2
  rw [decide_eq_false_iff_not]
  rintro rfl
  rw [hp] at hnot
  cases hnot

/-- A refresh keeps the database well formed. -/
theorem Db.WellFormed.refresh (h : db.WellFormed) {b : Binding} {o : Observation} {now : ℚ}
    {changed : Bool}
    (hop : Bridge.refresh db b o now = .ok (changed, db')) : db'.WellFormed := by
  obtain ⟨hfind, ⟨-, -, rfl⟩ | ⟨-, -, hlt, rfl⟩⟩ := refresh_eq_ok hop
  · exact h
  · obtain ⟨hmem, -⟩ := Table.find_eq_some.mp hfind
    have hcleared := h.remove (Row.pointsTo b.binding) h.ack_le fun r hr _ => (h.rows r hr).1
    refine Db.WellFormed.setObserved (hcleared.insert hlt ?_ ?_ ?_) _ _ _
    · intro ho
      cases ho
    · intro key inst ho
      cases ho
      exact ⟨b, hmem, rfl, rfl⟩
    · intro key inst ho r hr
      cases ho
      exact (Table.mem_remove.mp hr).2

/-- Acknowledging a binding's health keeps the database well formed. -/
theorem Db.WellFormed.acknowledgeHealth (h : db.WellFormed) {key : Hex 64} {n : ℕ}
    (hop : Bridge.acknowledgeHealth db key = .ok (n, db')) : db'.WellFormed := by
  obtain ⟨b, -, rfl⟩ := acknowledgeHealth_eq_ok hop
  exact h.setObserved _ _ _

/-- An activation keeps the database well formed. -/
theorem Db.WellFormed.activate (h : db.WellFormed) {r : ActivationRequest} {a : Activation}
    (hop : Bridge.activate db r = .ok (a, db')) : db'.WellFormed := by
  obtain ⟨x, rfl⟩ := activate_eq_ok hop
  exact ⟨h.head_le, h.ack_le, h.rows, h.peers, h.bindings, h.owner, h.one⟩

/-- Every operation keeps the database well formed. -/
theorem Db.WellFormed.after (h : db.WellFormed) (op : Op) : (db.after op).WellFormed := by
  unfold Db.after
  rcases hop : op.apply db with e | db'
  · exact h
  · cases op with
    | store now pid frame => exact h.store hop
    | acknowledge through =>
      obtain rfl := Except.ok.inj hop
      exact h.acknowledge through
    | bind route fresh =>
      obtain ⟨⟨b, d⟩, hbind, rfl⟩ := except_map_eq_ok.mp hop
      exact h.bind hbind
    | unbind key =>
      obtain rfl := Except.ok.inj hop
      exact h.unbind key
    | refresh b o now =>
      obtain ⟨⟨c, d⟩, hrefresh, rfl⟩ := except_map_eq_ok.mp hop
      exact h.refresh hrefresh
    | acknowledgeHealth key =>
      obtain ⟨⟨n, d⟩, hack, rfl⟩ := except_map_eq_ok.mp hop
      exact h.acknowledgeHealth hack
    | activate r =>
      obtain ⟨⟨a, d⟩, hact, rfl⟩ := except_map_eq_ok.mp hop
      exact h.activate hact
    | fail e => cases hop

/-- Every reachable database is well formed. -/
theorem wellFormed_of_reachable (h : storage.Reachable db) : db.WellFormed := by
  refine h.invariant (fun _ => Opened.wellFormed) ?_
  intro db op db' hdb hnext
  obtain rfl := Option.some.inj hnext
  exact hdb.after op

/-! ## Two states of one run -/

/-- What a later state of the database owes to an earlier one. -/
structure Moved (db db' : Db) : Prop where
  head_le : db.head ≤ db'.head
  ack_le : db.ackThrough ≤ db'.ackThrough
  /-- A row that was not there has a new sequence. -/
  fresh : ∀ r ∈ db'.inbox, r ∈ db.inbox ∨ db.head < r.seq

/-- Nothing has moved where nothing happened. -/
theorem Moved.rfl : Moved db db := ⟨le_rfl, le_rfl, fun _ => .inl⟩

/-- Moves follow each other in a chain. -/
theorem Moved.trans {db'' : Db} (h : Moved db db') (h' : Moved db' db'') : Moved db db'' := by
  refine ⟨h.head_le.trans h'.head_le, h.ack_le.trans h'.ack_le, ?_⟩
  intro r hr
  rcases h'.fresh r hr with hr | hlt
  · exact h.fresh r hr
  · exact .inr (h.head_le.trans_lt hlt)

/-- An insertion moves the head and adds a row above it. -/
theorem moved_insert {received : ℚ} {pid : ℕ} {frame : Json} {origin : Origin}
    (h : db.insert received pid frame origin = .ok db') : Moved db db' := by
  obtain ⟨-, rfl⟩ := insert_eq_ok h
  refine ⟨Nat.le_succ _, le_rfl, ?_⟩
  intro r hr
  rcases Table.mem_put.mp hr with ⟨hr, -⟩ | rfl
  · exact .inl hr
  · exact .inr (Nat.lt_succ_self _)

/-- A refresh adds a pointer at most. -/
theorem moved_refresh {b : Binding} {o : Observation} {now : ℚ} {changed : Bool}
    (h : refresh db b o now = .ok (changed, db')) : Moved db db' := by
  obtain ⟨-, ⟨-, -, rfl⟩ | ⟨-, -, -, rfl⟩⟩ := refresh_eq_ok h
  · exact Moved.rfl
  · refine ⟨Nat.le_succ _, le_rfl, ?_⟩
    intro r hr
    rcases Table.mem_put.mp hr with ⟨hr, -⟩ | rfl
    · exact .inl (Table.mem_remove.mp hr).1
    · exact .inr (Nat.lt_succ_self _)

/-- Every operation moves the storage forward. -/
theorem moved_after (db : Db) (op : Op) : Moved db (db.after op) := by
  unfold Db.after
  rcases hop : op.apply db with e | db'
  · exact Moved.rfl
  · cases op with
    | store now pid frame => exact moved_insert (store_eq_ok hop).2.2
    | acknowledge through =>
      obtain rfl := Except.ok.inj hop
      exact ⟨le_rfl, le_max_right _ _, fun r hr => .inl (Table.mem_remove.mp hr).1⟩
    | bind route fresh =>
      obtain ⟨⟨b, d⟩, hbind, rfl⟩ := except_map_eq_ok.mp hop
      rcases bind_eq_ok hbind with ⟨-, rfl⟩ | ⟨-, -, -, rfl⟩
      · exact Moved.rfl
      · exact ⟨le_rfl, le_rfl, fun _ => .inl⟩
    | unbind key =>
      obtain rfl := Except.ok.inj hop
      exact ⟨le_rfl, le_rfl, fun r hr => .inl (Table.mem_remove.mp hr).1⟩
    | refresh b o now =>
      obtain ⟨⟨c, d⟩, hrefresh, rfl⟩ := except_map_eq_ok.mp hop
      exact moved_refresh hrefresh
    | acknowledgeHealth key =>
      obtain ⟨⟨n, d⟩, hack, rfl⟩ := except_map_eq_ok.mp hop
      obtain ⟨b, -, rfl⟩ := acknowledgeHealth_eq_ok hack
      exact ⟨le_rfl, le_rfl, fun _ => .inl⟩
    | activate r =>
      obtain ⟨⟨a, d⟩, hact, rfl⟩ := except_map_eq_ok.mp hop
      obtain ⟨x, rfl⟩ := activate_eq_ok hact
      exact ⟨le_rfl, le_rfl, fun _ => .inl⟩
    | fail e => cases hop

/-- A run moves the storage forward. -/
theorem moved_of_run {ops : List Op} (h : storage.run db ops = some db') : Moved db db' := by
  refine System.run_invariant (I := Moved db) (P := fun _ => True) ?_ (by simp) Moved.rfl h
  intro s op t _ hs hnext
  obtain rfl := Option.some.inj hnext
  exact hs.trans (moved_after s op)

/-- **The inbox store invariant.** In every reachable state rows lie above the acknowledged position
and not above the allocated head, the quotas hold, and pointers belong to bindings, one each. From
there on the position and the head never go back, a sequence that has named one row never names
another, and whatever arrives after an acknowledgement lies above it. -/
theorem inbox_invariant (h : storage.Reachable db) :
    db.WellFormed
      ∧ (∀ ops db', storage.run db ops = some db' →
        db'.WellFormed ∧ db.ackThrough ≤ db'.ackThrough ∧ db.head ≤ db'.head
          ∧ (∀ r ∈ db.inbox, ∀ r' ∈ db'.inbox, r'.seq = r.seq → r' = r)
          ∧ ∀ r' ∈ db'.inbox, r' ∉ db.inbox → db.head < r'.seq)
      ∧ ∀ through ops db', storage.run (acknowledge db through) ops = some db' →
        ∀ r ∈ db'.inbox, r ∉ db.inbox →
          min through db.head < r.seq ∧ (acknowledge db through).ackThrough < r.seq := by
  have hwf := wellFormed_of_reachable h
  refine ⟨hwf, ?_, ?_⟩
  · intro ops db' hrun
    have hmoved := moved_of_run hrun
    refine ⟨wellFormed_of_reachable (h.run hrun), hmoved.ack_le, hmoved.head_le, ?_, ?_⟩
    · intro r hr r' hr' hseq
      rcases hmoved.fresh r' hr' with hold | hlt
      · exact Table.eq_of_key hold hr hseq
      · have := (hwf.rows r hr).2
        omega
    · intro r' hr' hnew
      exact (hmoved.fresh r' hr').resolve_left hnew
  · intro through ops db' hrun r hr hnew
    have hmoved := moved_of_run hrun
    have hlt : db.head < r.seq := by
      rcases hmoved.fresh r hr with hold | hlt
      · exact absurd (Table.mem_remove.mp hold).1 hnew
      · exact hlt
    exact ⟨(min_le_right _ _).trans_lt hlt,
      (max_le (min_le_right _ _) hwf.ack_le).trans_lt hlt⟩

/-- A frame the bridge stores. -/
def controlFrame : Json := .obj [(lit "type", .str (lit "control"))]

/-- An acknowledgement far beyond the only frame does not cover the next one. -/
theorem inbox_invariant_later_arrival :
    ∃ db db', storage.run .empty [.store 0 1 controlFrame] = some db
    ∧ storage.run (acknowledge db 7) [.store 0 1 controlFrame] = some db' ∧ db.WellFormed
    ∧ ∃ r ∈ db'.inbox, r.seq = 2 ∧ (acknowledge db 7).ackThrough < r.seq := by
  have hrun : ∃ db, storage.run .empty [.store 0 1 controlFrame] = some db := ⟨_, rfl⟩
  obtain ⟨db, hdb⟩ := hrun
  have hrun' : ∃ db', storage.run (acknowledge db 7) [.store 0 1 controlFrame] = some db' :=
    ⟨_, rfl⟩
  obtain ⟨db', hdb'⟩ := hrun'
  have hinv := inbox_invariant ((System.Reachable.init Opened.new).run hdb)
  have hseqs : ((storage.run .empty [.store 0 1 controlFrame]).bind fun db =>
      (storage.run (acknowledge db 7) [.store 0 1 controlFrame]).map fun db' =>
        (db.inbox.rows.map Row.seq, db'.inbox.rows.map Row.seq)) = some ([1], [2]) := by
          decide +kernel
  rw [hdb, Option.bind_some, hdb', Option.map_some] at hseqs
  obtain ⟨hold, hnew⟩ := Prod.mk.inj (Option.some.inj hseqs)
  obtain ⟨r, hr⟩ : ∃ r, db'.inbox.rows = [r] := by
    refine List.length_eq_one_iff.mp ?_
    simpa using congrArg List.length hnew
  have hseq : r.seq = 2 := by simpa [hr] using hnew
  have hmem : r ∈ db'.inbox := by
    rw [Table.mem_def, hr]
    exact List.mem_singleton.mpr rfl
  have hfresh : r ∉ db.inbox := by
    intro hin
    have : r.seq ∈ db.inbox.rows.map Row.seq := List.mem_map_of_mem hin
    rw [hold, hseq] at this
    simp at this
  exact ⟨db, db', hdb, hdb', hinv.1, r, hmem, hseq, (hinv.2.2 7 _ db' hdb' r hmem hfresh).2⟩

end PeerBridge.Bridge
