import PeerBridge.Bridge.Storage
import PeerBridge.Notify.Delivery

/-!
# Why a row is gone

The bridge's side of its agreement with the journal. Every row the inbox ever held is still there,
or one of the reasons a later snapshot can show applies: it is acknowledged; it was the pointer of a
lifetime of a binding that has ended; or a later pointer of the same lifetime has replaced it. A
reason once given applies for good, or gives way to another: a replaced pointer whose successor is
acknowledged lies below the acknowledged position itself, and one whose binding ends belongs to a
lifetime that is never used again.

* `Stepped`: what one operation does to the rows and the bindings.
* `Recorded`: the invariant of the bridge with its log, kept by every `Stepped`
  (`recorded_of_reachable`).
-/

namespace PeerBridge.Notify

open Py Relational Effects Transition PeerBridge.Service PeerBridge.Bridge

/-! ## One operation -/

/-- The reasons for which one operation takes a row out of the inbox. -/
def Displaced (db' : Db) (r : Row) : Prop :=
  r.seq ≤ db'.ackThrough ∨ ∃ key inst, r.origin = .pointer key inst
    ∧ ((∀ x ∈ db'.bindings, x.binding ≠ key)
      ∨ ∃ r' ∈ db'.inbox, r'.origin = .pointer key inst ∧ r.seq < r'.seq)

/-- What one operation does to the rows and the bindings. -/
structure Stepped (used : List Instance) (db db' : Db) : Prop where
  moved : Moved db db'
  rows : ∀ r ∈ db.inbox, r ∈ db'.inbox ∨ Displaced db' r
  bindings : ∀ x ∈ db'.bindings, (∃ y ∈ db.bindings, y.binding = x.binding
    ∧ y.bindingInstance = x.bindingInstance) ∨ x.bindingInstance ∉ used

/-- The request of the database worker an operation of the bridge is. -/
def BridgeOp.op : BridgeOp → Op
  | .store now pid frame => .store now pid frame
  | .acknowledge through => .acknowledge through
  | .bind route fresh => .bind route fresh
  | .unbind key => .unbind key
  | .refresh binding o now => .refresh binding o now
  | .acknowledgeHealth key => .acknowledgeHealth key

/-- A request of the bridge leaves the database its transaction made, or the one before. -/
theorem after_op (db : Db) (op : BridgeOp) :
    db.after op.op = match op.apply db with
      | .ok db' => db'
      | .error _ => db := by
  cases op with
  | store now pid frame => rfl
  | acknowledge through => rfl
  | bind route fresh => rfl
  | unbind key => rfl
  | refresh binding o now => rfl
  | acknowledgeHealth key => rfl

/-- An operation that leaves the bindings. -/
theorem Stepped.of_rows {used : List Instance} {db db' : Db} (hmoved : Moved db db')
    (hrows : ∀ r ∈ db.inbox, r ∈ db'.inbox ∨ Displaced db' r) (hb : db'.bindings = db.bindings) :
    Stepped used db db' :=
  ⟨hmoved, hrows, fun x hx => .inl ⟨x, hb ▸ hx, rfl, rfl⟩⟩

/-- An observation keeps the keys and instances of the bindings. -/
theorem bindings_setObserved (db : Db) (key : Hex 64) (observed : Option (Hex 32 × ℕ))
    (anomalies : ℕ) :
    ∀ x ∈ (db.setObserved key observed anomalies).bindings,
      ∃ y ∈ db.bindings, y.binding = x.binding ∧ y.bindingInstance = x.bindingInstance := by
  intro x hx
  obtain ⟨y, hy, rfl⟩ := mem_setObserved.mp hx
  refine ⟨y, hy, ?_, ?_⟩
  · split <;> rfl
  · split <;> rfl

/-- A row stays when another one is inserted with the next sequence. -/
theorem mem_put_of_mem {db : Db} (h : db.WellFormed) {r r' : Row} {t : Table ℕ Row Row.seq}
    (hr : r ∈ t)
    (hsub : ∀ r ∈ t, r ∈ db.inbox) (hseq : r'.seq = db.head + 1) : r ∈ t.put r' := by
  refine Table.mem_put.mpr (.inl ⟨hr, ?_⟩)
  have := (h.rows r (hsub r hr)).2
  omega

/-- What a refresh does to the rows and the bindings. -/
theorem stepped_refresh {used : List Instance} {db db' : Db} (h : db.WellFormed) {b : Binding}
    {o : Observation} {now : ℚ} {changed : Bool}
    (hop : Bridge.refresh db b o now = .ok (changed, db')) :
    Stepped used db db' := by
  have hmoved := moved_refresh hop
  obtain ⟨hfind, ⟨-, -, rfl⟩ | ⟨-, -, -, rfl⟩⟩ := refresh_eq_ok hop
  · exact .of_rows .rfl (fun _ => .inl) rfl
  · refine ⟨hmoved, ?_, fun x hx => .inl (bindings_setObserved _ _ _ _ x hx)⟩
    intro r hr
    by_cases hpoints : r.pointsTo b.binding = true
    · -- The old pointer belongs to the lifetime the new one belongs to.
      obtain ⟨inst, horigin⟩ := Row.pointsTo_iff.mp hpoints
      obtain ⟨y, hy, hkey, hinst⟩ := h.owner r hr _ _ horigin
      obtain rfl := Table.eq_of_key hy (Table.find_eq_some.mp hfind).1 hkey
      subst hinst
      refine .inr (.inr ⟨_, _, horigin, .inr ⟨_, Table.mem_put.mpr (.inr rfl), rfl, ?_⟩⟩)
      exact Nat.lt_succ_of_le (h.rows r hr).2
    · left
      refine mem_put_of_mem h (Table.mem_remove.mpr ⟨hr, by simpa using hpoints⟩) ?_ rfl
      intro r hr
      exact (Table.mem_remove.mp hr).1

/-- What an allowed request does to the rows and the bindings. -/
theorem stepped_after {caps : Capabilities} {b : Inbox} {op : BridgeOp} (h : b.db.WellFormed)
    (ha : op.allowed caps b) : Stepped b.used b.db (b.db.after op.op) := by
  have hmoved := moved_after b.db op.op
  unfold Db.after at hmoved ⊢
  rcases hop : op.op.apply b.db with e | db'
  · exact .of_rows .rfl (fun _ => .inl) rfl
  · rw [hop] at hmoved
    simp only at hmoved ⊢
    cases op with
    | store now pid frame =>
      obtain ⟨-, rfl⟩ := insert_eq_ok (store_eq_ok hop).2.2
      exact .of_rows hmoved (fun r hr => .inl (mem_put_of_mem h hr (fun _ => id) rfl)) rfl
    | acknowledge through =>
      obtain rfl := Except.ok.inj hop
      refine .of_rows hmoved ?_ rfl
      intro r hr
      by_cases hle : r.seq ≤ min through b.db.head
      · exact .inr (.inl (hle.trans (le_max_left _ _)))
      · exact .inl (Table.mem_remove.mpr ⟨hr, by simpa using hle⟩)
    | bind route fresh =>
      obtain ⟨⟨x, d⟩, hbind, rfl⟩ := except_map_eq_ok.mp hop
      rcases bind_eq_ok hbind with ⟨-, rfl⟩ | ⟨-, -, rfl, rfl⟩
      · exact .of_rows .rfl (fun _ => .inl) rfl
      · refine ⟨hmoved, fun _ => .inl, ?_⟩
        intro x hx
        rcases Table.mem_put.mp hx with ⟨hx, -⟩ | rfl
        · exact .inl ⟨x, hx, rfl, rfl⟩
        · exact .inr ha.2
    | unbind key =>
      obtain rfl := Except.ok.inj hop
      refine ⟨hmoved, ?_, fun x hx => .inl ⟨x, (Table.mem_remove.mp hx).1, rfl, rfl⟩⟩
      intro r hr
      by_cases hpoints : r.pointsTo key = true
      · obtain ⟨inst, horigin⟩ := Row.pointsTo_iff.mp hpoints
        refine .inr (.inr ⟨key, inst, horigin, .inl ?_⟩)
        intro x hx
        simpa using (Table.mem_remove.mp hx).2
      · exact .inl (Table.mem_remove.mpr ⟨hr, by simpa using hpoints⟩)
    | refresh binding o now =>
      obtain ⟨⟨c, d⟩, hrefresh, rfl⟩ := except_map_eq_ok.mp hop
      exact stepped_refresh h hrefresh
    | acknowledgeHealth key =>
      obtain ⟨⟨n, d⟩, hack, rfl⟩ := except_map_eq_ok.mp hop
      obtain ⟨x, -, rfl⟩ := acknowledgeHealth_eq_ok hack
      exact ⟨hmoved, fun _ => .inl, fun x hx => .inl (bindings_setObserved _ _ _ _ x hx)⟩

/-! ## The bridge with its past -/

/-- A row is still there, or a snapshot shows why not. -/
def Explained (db : Db) (r : Row) : Prop :=
  r ∈ db.inbox ∨ r.seq ≤ db.ackThrough ∨ ∃ key inst, r.origin = .pointer key inst
    ∧ ((∀ x ∈ db.bindings, x.binding = key → x.bindingInstance ≠ inst)
      ∨ ∃ r' ∈ db.inbox, r'.origin = .pointer key inst ∧ r.seq < r'.seq)

/-- What one operation takes out of the inbox is explained. -/
theorem Displaced.explained {db : Db} {r : Row} (h : Displaced db r) : Explained db r := by
  rcases h with hack | ⟨key, inst, horigin, hgone | hlater⟩
  · exact .inr (.inl hack)
  · exact .inr (.inr ⟨key, inst, horigin, .inl fun x hx hkey => absurd hkey (hgone x hx)⟩)
  · exact .inr (.inr ⟨key, inst, horigin, .inr hlater⟩)

/-- An explanation stays one, or gives way to another. -/
theorem Explained.stepped {used : List Instance} {db db' : Db} {r : Row} (h : Explained db r)
    (hused : ∀ key inst, r.origin = .pointer key inst → inst ∈ used) (hs : Stepped used db db') :
    Explained db' r := by
  rcases h with hr | hack | ⟨key, inst, horigin, hgone | ⟨r', hr', horigin', hlt⟩⟩
  · rcases hs.rows r hr with hr' | hd
    · exact .inl hr'
    · exact hd.explained
  · exact .inr (.inl (hack.trans hs.moved.ack_le))
  · refine .inr (.inr ⟨key, inst, horigin, .inl ?_⟩)
    intro x hx hkey hinst
    rcases hs.bindings x hx with ⟨y, hy, hykey, hyinst⟩ | hfresh
    · exact hgone y hy (hykey.trans hkey) (hyinst.trans hinst)
    · rw [hinst] at hfresh
      exact hfresh (hused key inst horigin)
  · rcases hs.rows r' hr' with hstay | hack | ⟨key', inst', horigin'', hcase⟩
    · exact .inr (.inr ⟨key, inst, horigin, .inr ⟨r', hstay, horigin', hlt⟩⟩)
    · exact .inr (.inl (hlt.le.trans hack))
    · rw [horigin'] at horigin''
      cases horigin''
      rcases hcase with hnone | ⟨r'', hr'', horigin'', hlt'⟩
      · exact .inr (.inr ⟨key, inst, horigin, .inl fun x hx hkey => absurd hkey (hnone x hx)⟩)
      · exact .inr (.inr ⟨key, inst, horigin, .inr ⟨r'', hr'', horigin'', hlt.trans hlt'⟩⟩)

/-- What the bridge's database says of everything it ever held. -/
structure Recorded (b : Inbox) : Prop where
  wf : b.db.WellFormed
  used : ∀ x ∈ b.db.bindings, x.bindingInstance ∈ b.used
  inbox : ∀ r ∈ b.db.inbox, r ∈ b.log
  log_le : ∀ r ∈ b.log, r.seq ≤ b.db.head
  unique : ∀ r ∈ b.log, ∀ r' ∈ b.log, r.seq = r'.seq → r = r'
  log_used : ∀ r ∈ b.log, ∀ key inst, r.origin = .pointer key inst → inst ∈ b.used
  explained : ∀ r ∈ b.log, Explained b.db r

/-- Nothing is recorded of an empty inbox. -/
theorem recorded_empty : Recorded .empty := by
  refine ⟨Opened.new.wellFormed, ?_, ?_, ?_, ?_, ?_, ?_⟩
  all_goals
    intro _ h
    cases h

/-- The log after an operation: what it was, and the rows above the head there was. -/
theorem after_spec (b : Inbox) (op : BridgeOp) :
    (b.after op).db = b.db.after op.op
      ∧ (∀ i ∈ b.used, i ∈ (b.after op).used)
      ∧ (b.after op = b ∨ (∀ x ∈ (b.after op).db.bindings, x.bindingInstance ∈ (b.after op).used)
        ∧ ∀ r, r ∈ (b.after op).log ↔ r ∈ b.log ∨ r ∈ (b.after op).db.inbox
        ∧ b.db.head < r.seq) := by
  rw [after_op]
  unfold Inbox.after
  rcases op.apply b.db with e | db'
  · exact ⟨rfl, fun _ => id, .inl rfl⟩
  · refine ⟨rfl, fun _ => List.mem_append_right _, .inr ⟨?_, ?_⟩⟩
    · intro x hx
      exact List.mem_append_left _ (List.mem_map_of_mem hx)
    · intro r
      simp only [List.mem_append, List.mem_filter, decide_eq_true_eq]
      exact Iff.rfl

/-- Every allowed request keeps the log recorded. -/
theorem Recorded.after {caps : Capabilities} {b : Inbox} (h : Recorded b) {op : BridgeOp}
    (ha : op.allowed caps b) : Recorded (b.after op) := by
  obtain ⟨hdb, hmono, hsame | ⟨hused, hlog⟩⟩ := after_spec b op
  · rw [hsame]
    exact h
  have hs : Stepped b.used b.db (b.after op).db := hdb ▸ stepped_after h.wf ha
  have hwf : (b.after op).db.WellFormed := hdb ▸ h.wf.after op.op
  refine ⟨hwf, hused, ?_, ?_, ?_, ?_, ?_⟩
  · intro r hr
    rcases hs.moved.fresh r hr with hold | hlt
    · exact (hlog r).mpr (.inl (h.inbox r hold))
    · exact (hlog r).mpr (.inr ⟨hr, hlt⟩)
  · intro r hr
    rcases (hlog r).mp hr with hold | ⟨hnew, -⟩
    · exact (h.log_le r hold).trans hs.moved.head_le
    · exact (hwf.rows r hnew).2
  · intro r hr r' hr' hseq
    rcases (hlog r).mp hr with hold | ⟨hnew, hlt⟩
    · rcases (hlog r').mp hr' with hold' | ⟨-, hlt'⟩
      · exact h.unique r hold r' hold' hseq
      · have := h.log_le r hold
        omega
    · rcases (hlog r').mp hr' with hold' | ⟨hnew', -⟩
      · have := h.log_le r' hold'
        omega
      · exact Table.eq_of_key hnew hnew' hseq
  · intro r hr key inst horigin
    rcases (hlog r).mp hr with hold | ⟨hnew, -⟩
    · exact hmono _ (h.log_used r hold key inst horigin)
    · obtain ⟨x, hx, -, rfl⟩ := hwf.owner r hnew key inst horigin
      exact hused x hx
  · intro r hr
    rcases (hlog r).mp hr with hold | ⟨hnew, -⟩
    · exact (h.explained r hold).stepped (h.log_used r hold) hs
    · exact .inl hnew

/-- In every reachable state the log is recorded. -/
theorem recorded_of_reachable {caps : Capabilities} {b : Inbox} (h : (bridge caps).Reachable b) :
    Recorded b := by
  refine h.invariant (I := Recorded) ?_ ?_
  · rintro b rfl
    exact recorded_empty
  · intro b op b' hb hnext
    obtain ⟨ha, rfl⟩ := Option.ite_some_none_eq_some.mp hnext
    exact hb.after ha

end PeerBridge.Notify
