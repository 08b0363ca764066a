import PeerBridge.Bridge.Storage

/-!
# Concurrent refreshes

`refresh-memory` is three steps with other requests in between: the binding is read, the memory
service is observed outside any transaction, and the observation is committed if the binding is
still as it was read. Here any number of such requests run beside every other operation of the
bridge, while the memory services move on: each keeps its store and its head never goes back.

* What a row records is behind the service (`Seen`), and a request's observation is not behind the
  row the request has read. So a commit never finds a replaced store or a head that went back.
* A binding seen once is later either the same lifetime, at the same observation or a later one, or
  gone for good, since instances are not used twice (`Known`). So a row that has changed never
  changes back, and a request that has read it writes nothing (`refresh_sound`).

Source: `bridge.py` `Bridge.command`; `memory_bindings.py` `observe`, `refresh`.
-/

namespace PeerBridge.Bridge.Refresh

open Py Relational Effects Transition PeerBridge.Service

/-! ## The parties -/

/-- Where a binding finds its memory service. -/
structure Site where
  repoKey : Hex 16
  memoryStateDir : Text
  deriving DecidableEq

/-- The service a binding is for. -/
def site (b : Binding) : Site := ⟨b.repoKey, b.memoryStateDir⟩

/-- What a memory service says of itself. -/
structure Memory where
  storeId : Hex 32
  head : ℕ

/-- The service with more entries. -/
def Memory.append (m : Memory) (n : ℕ) : Memory := { m with head := m.head + n }

/-- How far a `refresh-memory` request has come. -/
inductive Request where
  | idle
  | read (b : Binding)
  | observed (b : Binding) (o : Observation)

/-- The binding a request has read. -/
def Request.binding : Request → Option Binding
  | .idle => none
  | .read b | .observed b _ => some b

structure World where
  db : Db
  /-- Every instance a binding ever had. -/
  used : List Instance
  services : Site → Memory
  requests : ℕ → Request

inductive Event where
  /-- Any other request. -/
  | other (op : Op)
  /-- A memory service takes in entries. -/
  | append (s : Site) (n : ℕ)
  | read (i : ℕ) (key : Hex 64)
  | observe (i : ℕ) (pid : ℕ)
  | commit (i : ℕ) (now : ℚ)
  /-- The request ends early: the service could not be observed, or the caller is gone. -/
  | abandon (i : ℕ)

/-- Instances are random: a fresh one has never been used. A refresh goes through its three
steps. -/
def permitted (w : World) : Op → Prop
  | .bind _ fresh => fresh ∉ w.used
  | .refresh .. => False
  | _ => True

instance (w : World) : (op : Op) → Decidable (permitted w op)
  | .bind _ fresh => inferInstanceAs (Decidable (fresh ∉ w.used))
  | .refresh .. => inferInstanceAs (Decidable False)
  | .store .. | .acknowledge _ | .unbind _ | .acknowledgeHealth _ | .activate _ | .fail _ =>
      inferInstanceAs (Decidable True)

/-- The database replaced by the one after a transaction. -/
def World.store (w : World) (db : Db) : World :=
  { w with db := db, used := db.bindings.rows.map Binding.bindingInstance ++ w.used }

def World.setRequest (w : World) (i : ℕ) (r : Request) : World :=
  { w with requests := Function.update w.requests i r }

/-- What `observe` returns of a service. -/
def observation (m : Memory) (pid : ℕ) : Observation := ⟨m.storeId, m.head, pid⟩

def World.next (w : World) : Event → Option World
  | .other op => if permitted w op then some (w.store (w.db.after op)) else none
  | .append s n =>
      some { w with services := Function.update w.services s ((w.services s).append n) }
  | .read i key =>
      match w.requests i, getBinding w.db key with
      | .idle, .ok b => some (w.setRequest i (.read b))
      | _, _ => none
  | .observe i pid =>
      match w.requests i with
      | .read b =>
          if (w.services (site b)).head ≤ maxSequence then
            some (w.setRequest i (.observed b (observation (w.services (site b)) pid)))
          else none
      | _ => none
  | .commit i now =>
      match w.requests i with
      | .observed b o => some ((w.store (w.db.after (.refresh b o now))).setRequest i .idle)
      | _ => none
  | .abandon i => some (w.setRequest i .idle)

/-- A bridge just opened, with no request under way. -/
def World.initial (w : World) : Prop := Opened w.db ∧ w.used = [] ∧ ∀ i, w.requests i = .idle

def refreshing : System World Event where
  init := World.initial
  next := World.next

/-! ## What one binding becomes -/

/-- A recorded observation is behind the service. -/
def Seen (m : Memory) (observed : Option (Hex 32 × ℕ)) : Prop :=
  ∀ s h, observed = some (s, h) → s = m.storeId ∧ h ≤ m.head

/-- The second observation is the first one or a later one of the same store. -/
def Reached (old new : Option (Hex 32 × ℕ)) : Prop :=
  ∀ s h, old = some (s, h) → ∃ h', new = some (s, h') ∧ h ≤ h'

/-- An observation has been reached by itself. -/
theorem Reached.refl (o : Option (Hex 32 × ℕ)) : Reached o o := fun _ h ho => ⟨h, ho, le_rfl⟩

/-- Observations reach each other in a chain. -/
theorem Reached.trans {o p q : Option (Hex 32 × ℕ)} (h : Reached o p) (h' : Reached p q) :
    Reached o q := by
  intro s n hn
  obtain ⟨n', hn', hle⟩ := h s n hn
  obtain ⟨n'', hn'', hle'⟩ := h' s n' hn'
  exact ⟨n'', hn'', hle.trans hle'⟩

/-- Observations that reach each other are the same. -/
theorem Reached.antisymm {o p : Option (Hex 32 × ℕ)} (h : Reached o p) (h' : Reached p o) :
    o = p := by
  rcases o with _ | ⟨s, n⟩
  · rcases p with _ | ⟨s', n'⟩
    · rfl
    · obtain ⟨_, hno, -⟩ := h' s' n' rfl
      cases hno
  · obtain ⟨n', rfl, hle⟩ := h s n rfl
    obtain ⟨n'', hn'', hle'⟩ := h' s n' rfl
    cases hn''
    rw [le_antisymm hle hle']

/-- What was seen of a memory stays seen while its head only grows. -/
theorem Seen.mono {m m' : Memory} {o : Option (Hex 32 × ℕ)} (h : Seen m o)
    (hs : m'.storeId = m.storeId)
    (hle : m.head ≤ m'.head) : Seen m' o := by
  intro s n hn
  obtain ⟨hstore, hhead⟩ := h s n hn
  exact ⟨hstore.trans hs.symm, hhead.trans hle⟩

/-- The second row is a later state of the first one's lifetime. -/
structure Later (b c : Binding) : Prop where
  route : c.route = b.route
  instance_eq : c.bindingInstance = b.bindingInstance
  reached : Reached b.observed c.observed

/-- A binding is no earlier than itself. -/
theorem Later.refl (b : Binding) : Later b b := ⟨rfl, rfl, .refl _⟩

/-- Bindings are later in a chain. -/
theorem Later.trans {b c d : Binding} (h : Later b c) (h' : Later c d) : Later b d :=
  ⟨h'.route.trans h.route, h'.instance_eq.trans h.instance_eq, h.reached.trans h'.reached⟩

/-- A later state of a binding has its key. -/
theorem Later.binding {b c : Binding} (h : Later b c) : c.binding = b.binding :=
  congrArg Route.binding h.route

/-- A later state of a binding is of the same service. -/
theorem Later.site {b c : Binding} (h : Later b c) : site c = site b := by
  have hr := h.route
  unfold Binding.route at hr
  obtain ⟨-, -, hrepo, hdir⟩ := Route.mk.inj hr
  unfold Refresh.site
  rw [hrepo, hdir]

/-! ## The invariant -/

variable {w w' : World}

/-- What is known of a binding that some request has read. -/
structure Known (w : World) (b : Binding) : Prop where
  clean : b.anomalies = 0
  seen : Seen (w.services (site b)) b.observed
  used : b.bindingInstance ∈ w.used
  later : ∀ c ∈ w.db.bindings, c.binding = b.binding → c.bindingInstance = b.bindingInstance →
    Later b c

/-- What is known of an observation that has not been committed. -/
structure Observed (w : World) (b : Binding) (o : Observation) : Prop where
  storeId : o.storeId = (w.services (site b)).storeId
  head_le : o.head ≤ (w.services (site b)).head
  reached : Reached b.observed (some (o.storeId, o.head))

/-- The bindings as they are, and as the requests have read them. -/
structure Sound (w : World) : Prop where
  rows : ∀ b ∈ w.db.bindings, b.anomalies = 0 ∧ Seen (w.services (site b)) b.observed
    ∧ b.bindingInstance ∈ w.used
  known : ∀ i b, (w.requests i).binding = some b → Known w b
  observed : ∀ i b o, w.requests i = .observed b o → Observed w b o

/-- What an event leaves of the bindings: later states of the ones there were, and new lifetimes. -/
structure Follows (w w' : World) : Prop where
  used : ∀ i ∈ w.used, i ∈ w'.used
  services : ∀ s, (w'.services s).storeId = (w.services s).storeId
    ∧ (w.services s).head ≤ (w'.services s).head
  rows : ∀ c ∈ w'.db.bindings, (c.anomalies = 0 ∧ Seen (w'.services (site c)) c.observed
    ∧ c.bindingInstance ∈ w'.used)
    ∧ ((∃ b ∈ w.db.bindings, Later b c) ∨ c.bindingInstance ∉ w.used)

/-- A stored binding is known. -/
theorem Known.of_mem (h : Sound w) {b : Binding} (hb : b ∈ w.db.bindings) : Known w b := by
  obtain ⟨hclean, hseen, hused⟩ := h.rows b hb
  refine ⟨hclean, hseen, hused, ?_⟩
  intro c hc hkey _
  obtain rfl := Table.eq_of_key hc hb hkey
  exact .refl c

/-- A binding stays known. -/
theorem Known.follows {b : Binding} (h : Known w b) (hf : Follows w w') : Known w' b := by
  refine ⟨h.clean, h.seen.mono (hf.services _).1 (hf.services _).2, hf.used _ h.used, ?_⟩
  intro c hc hkey hinst
  rcases (hf.rows c hc).2 with ⟨b', hb', hlater⟩ | hfresh
  · have hb := h.later b' hb' (hlater.binding.symm.trans hkey) (hlater.instance_eq.symm.trans hinst)
    exact hb.trans hlater
  · rw [hinst] at hfresh
    exact absurd h.used hfresh

/-- An observation stays one that was made. -/
theorem Observed.follows {b : Binding} {o : Observation} (h : Observed w b o) (hf : Follows w w') :
    Observed w' b o :=
  ⟨h.storeId.trans (hf.services _).1.symm, h.head_le.trans (hf.services _).2, h.reached⟩

/-- The rows of a world whose bindings have not changed. -/
theorem Follows.of_bindings (h : Sound w) (hdb : w'.db.bindings = w.db.bindings)
    (hused : ∀ i ∈ w.used, i ∈ w'.used)
    (hservices : ∀ s, (w'.services s).storeId = (w.services s).storeId
      ∧ (w.services s).head ≤ (w'.services s).head) : Follows w w' := by
  refine ⟨hused, hservices, ?_⟩
  intro c hc
  rw [hdb] at hc
  obtain ⟨hclean, hseen, hin⟩ := h.rows c hc
  exact ⟨⟨hclean, hseen.mono (hservices _).1 (hservices _).2, hused _ hin⟩, .inl ⟨c, hc, .refl c⟩⟩

/-- A transaction: enough is said of its rows if they are later states or new lifetimes. -/
theorem Follows.of_store {db : Db} (i : ℕ) (r : Request)
    (hrows : ∀ c ∈ db.bindings, c.anomalies = 0 ∧ Seen (w.services (site c)) c.observed
      ∧ ((∃ b ∈ w.db.bindings, Later b c) ∨ c.bindingInstance ∉ w.used)) :
    Follows w (w.store db) ∧ Follows w ((w.store db).setRequest i r) := by
  have hall : Follows w (w.store db) := by
    refine ⟨fun _ => List.mem_append_right _, fun s => ⟨rfl, le_rfl⟩, ?_⟩
    intro c hc
    obtain ⟨hclean, hseen, hfrom⟩ := hrows c hc
    exact ⟨⟨hclean, hseen, List.mem_append_left _ (List.mem_map_of_mem hc)⟩, hfrom⟩
  exact ⟨hall, hall.used, hall.services, hall.rows⟩

/-- A row that stays as it is. -/
theorem Sound.unchanged (h : Sound w) {c : Binding} (hc : c ∈ w.db.bindings) :
    c.anomalies = 0 ∧ Seen (w.services (site c)) c.observed
      ∧ ((∃ b ∈ w.db.bindings, Later b c) ∨ c.bindingInstance ∉ w.used) :=
  ⟨(h.rows c hc).1, (h.rows c hc).2.1, .inl ⟨c, hc, .refl c⟩⟩

/-- What any other request leaves: recorded observations stay, and no pointer is inserted. -/
structure Quiet (used : List Instance) (db db' : Db) : Prop where
  bindings : ∀ c ∈ db'.bindings,
    (∃ b ∈ db.bindings, c.route = b.route ∧ c.bindingInstance = b.bindingInstance
      ∧ c.observed = b.observed ∧ (c.anomalies = b.anomalies ∨ c.anomalies = 0))
    ∨ c.bindingInstance ∉ used ∧ c.observed = none ∧ c.anomalies = 0
  inbox : ∀ r ∈ db'.inbox, r ∈ db.inbox ∨ r.origin = .peer

/-- Bindings that stay, or become fewer. -/
theorem Quiet.of_subset {used : List Instance} {db db' : Db}
    (hb : ∀ c ∈ db'.bindings, c ∈ db.bindings)
    (hr : ∀ r ∈ db'.inbox, r ∈ db.inbox ∨ r.origin = .peer) : Quiet used db db' :=
  ⟨fun c hc => .inl ⟨c, hb c hc, rfl, rfl, rfl, .inl rfl⟩, hr⟩

/-- An operation that is no refresh is quiet. -/
theorem quiet_other {op : Op} (hop : permitted w op) : Quiet w.used w.db (w.db.after op) := by
  unfold Db.after
  rcases happly : op.apply w.db with e | db'
  · exact .of_subset (fun _ => id) fun _ => .inl
  · cases op with
    | store now pid frame =>
      obtain ⟨-, rfl⟩ := insert_eq_ok (store_eq_ok happly).2.2
      refine .of_subset (fun _ => id) ?_
      intro r hr
      rcases Table.mem_put.mp hr with ⟨hr, -⟩ | rfl
      · exact .inl hr
      · exact .inr rfl
    | acknowledge through =>
      obtain rfl := Except.ok.inj happly
      exact .of_subset (fun _ => id) fun r hr => .inl (Table.mem_remove.mp hr).1
    | bind route fresh =>
      obtain ⟨⟨b, d⟩, hbind, rfl⟩ := except_map_eq_ok.mp happly
      rcases bind_eq_ok hbind with ⟨-, rfl⟩ | ⟨-, -, rfl, rfl⟩
      · exact .of_subset (fun _ => id) fun _ => .inl
      · refine ⟨?_, fun _ => .inl⟩
        intro c hc
        rcases Table.mem_put.mp hc with ⟨hc, -⟩ | rfl
        · exact .inl ⟨c, hc, rfl, rfl, rfl, .inl rfl⟩
        · exact .inr ⟨hop, rfl, rfl⟩
    | unbind key =>
      obtain rfl := Except.ok.inj happly
      exact .of_subset (fun c hc => (Table.mem_remove.mp hc).1) fun r hr =>
        .inl (Table.mem_remove.mp hr).1
    | refresh b o now => exact hop.elim
    | acknowledgeHealth key =>
      obtain ⟨⟨n, d⟩, hack, rfl⟩ := except_map_eq_ok.mp happly
      obtain ⟨b, hfind, rfl⟩ := acknowledgeHealth_eq_ok hack
      obtain ⟨hb, hkey⟩ := Table.find_eq_some.mp hfind
      refine ⟨?_, fun _ => .inl⟩
      intro c hc
      obtain ⟨a, ha, rfl⟩ := mem_setObserved.mp hc
      by_cases hakey : a.binding = key
      · obtain rfl := Table.eq_of_key ha hb (hakey.trans hkey.symm)
        rw [if_pos hakey]
        exact .inl ⟨a, ha, rfl, rfl, rfl, .inr rfl⟩
      · rw [if_neg hakey]
        exact .inl ⟨a, ha, rfl, rfl, rfl, .inl rfl⟩
    | activate r =>
      obtain ⟨⟨a, d⟩, hact, rfl⟩ := except_map_eq_ok.mp happly
      obtain ⟨x, rfl⟩ := activate_eq_ok hact
      exact .of_subset (fun _ => id) fun _ => .inl
    | fail e => cases happly

/-- What a quiet step leaves: bindings without anomalies, each a later state of a stored one or of a
new instance. -/
theorem Quiet.rows (h : Sound w) {db : Db} (hq : Quiet w.used w.db db) {c : Binding}
    (hc : c ∈ db.bindings) :
    c.anomalies = 0 ∧ Seen (w.services (site c)) c.observed
      ∧ ((∃ b ∈ w.db.bindings, Later b c) ∨ c.bindingInstance ∉ w.used) := by
  rcases hq.bindings c hc with ⟨b, hb, hroute, hinst, hobs, hanom⟩ | ⟨hfresh, hobs, hclean⟩
  · have hlater : Later b c := ⟨hroute, hinst, hobs ▸ .refl _⟩
    obtain ⟨hclean, hseen, -⟩ := h.rows b hb
    refine ⟨?_, ?_, .inl ⟨b, hb, hlater⟩⟩
    · rcases hanom with heq | hzero
      · exact heq.trans hclean
      · exact hzero
    · rw [hlater.site, hobs]
      exact hseen
  · refine ⟨hclean, ?_, .inr hfresh⟩
    intro s n hn
    rw [hobs] at hn
    cases hn

/-- An observation that is not behind what is recorded raises no flag. -/
theorem anomaliesAfter_of_reached {b : Binding} {o : Observation}
    (h : Reached b.observed (some (o.storeId, o.head))) : anomaliesAfter b o = b.anomalies := by
  unfold anomaliesAfter
  rcases hobs : b.observed with _ | ⟨s, n⟩
  · rfl
  · obtain ⟨n', heq, hle⟩ := h s n hobs
    cases heq
    simp only [ne_eq, not_true_eq_false, if_false]
    rw [if_neg (not_lt.mpr hle)]

/-- The bindings after a commit. -/
theorem rows_commit (h : Sound w) {b : Binding} {o : Observation} (ho : Observed w b o) (now : ℚ)
    {c : Binding} (hc : c ∈ (w.db.after (.refresh b o now)).bindings) :
    c.anomalies = 0 ∧ Seen (w.services (site c)) c.observed
      ∧ ((∃ b ∈ w.db.bindings, Later b c) ∨ c.bindingInstance ∉ w.used) := by
  unfold Db.after at hc
  rcases happly : (Op.refresh b o now).apply w.db with e | db'
  · rw [happly] at hc
    exact h.unchanged hc
  · rw [happly] at hc
    simp only at hc
    obtain ⟨⟨changed, d⟩, hrefresh, rfl⟩ := except_map_eq_ok.mp happly
    obtain ⟨hfind, ⟨-, -, rfl⟩ | ⟨-, -, -, rfl⟩⟩ := refresh_eq_ok hrefresh
    · exact h.unchanged hc
    · obtain ⟨hb, -⟩ := Table.find_eq_some.mp hfind
      obtain ⟨a, ha, rfl⟩ := mem_setObserved.mp hc
      by_cases hakey : a.binding = b.binding
      · obtain rfl := Table.eq_of_key (t := w.db.bindings) ha hb hakey
        rw [if_pos rfl]
        refine ⟨?_, ?_, .inl ⟨a, ha, rfl, rfl, ho.reached⟩⟩
        · rw [anomaliesAfter_of_reached ho.reached]
          exact (h.rows a ha).1
        · intro s n hn
          cases hn
          exact ⟨ho.storeId, ho.head_le⟩
      · rw [if_neg hakey]
        exact h.unchanged ha

/-! ## One event -/

/-- What an event does. -/
inductive Did (w w' : World) : Event → Prop where
  | other (op : Op) (h : permitted w op) (hw : w' = w.store (w.db.after op)) : Did w w' (.other op)
  | append (s : Site) (n : ℕ)
      (hw : w' = { w with services := Function.update w.services s ((w.services s).append n) }) :
      Did w w' (.append s n)
  | read (i : ℕ) (key : Hex 64) (b : Binding) (hb : w.db.bindings.find key = some b)
      (hw : w' = w.setRequest i (.read b)) : Did w w' (.read i key)
  | observe (i pid : ℕ) (b : Binding) (hr : w.requests i = .read b)
      (hw : w' = w.setRequest i (.observed b (observation (w.services (site b)) pid))) :
      Did w w' (.observe i pid)
  | commit (i : ℕ) (now : ℚ) (b : Binding) (o : Observation) (hr : w.requests i = .observed b o)
      (hw : w' = (w.store (w.db.after (.refresh b o now))).setRequest i .idle) :
      Did w w' (.commit i now)
  | abandon (i : ℕ) (hw : w' = w.setRequest i .idle) : Did w w' (.abandon i)

/-- A step is one of those `Did` lists. -/
theorem did_of_next {e : Event} (h : w.next e = some w') : Did w w' e := by
  cases e with
  | other op =>
    obtain ⟨hop, rfl⟩ := Option.ite_some_none_eq_some.mp h
    exact .other op hop rfl
  | append s n => exact .append s n (Option.some.inj h).symm
  | read i key =>
    simp only [World.next] at h
    split at h
    · next hget => exact .read i key _ (getBinding_eq_ok.mp hget) (Option.some.inj h).symm
    · cases h
  | observe i pid =>
    simp only [World.next] at h
    split at h
    · next b hr =>
      obtain ⟨-, rfl⟩ := Option.ite_some_none_eq_some.mp h
      exact .observe i pid b hr rfl
    · cases h
  | commit i now =>
    simp only [World.next] at h
    split at h
    · next b o hr => exact .commit i now b o hr (Option.some.inj h).symm
    · cases h
  | abandon i => exact .abandon i (Option.some.inj h).symm

/-- Every step leads to a state that follows. -/
theorem follows_of_next (h : Sound w) {e : Event} (hnext : w.next e = some w') : Follows w w' := by
  cases did_of_next hnext with
  | other op hop hw =>
    subst hw
    exact (Follows.of_store 0 .idle fun c hc => (quiet_other hop).rows h hc).1
  | append s n hw =>
    subst hw
    refine .of_bindings h rfl (fun _ => id) ?_
    intro t
    by_cases hst : t = s
    · subst hst
      simp [Memory.append]
    · simp [Function.update_of_ne hst]
  | read i key b hb hw =>
    subst hw
    exact .of_bindings h rfl (fun _ => id) fun _ => ⟨rfl, le_rfl⟩
  | observe i pid b hr hw =>
    subst hw
    exact .of_bindings h rfl (fun _ => id) fun _ => ⟨rfl, le_rfl⟩
  | commit i now b o hr hw =>
    subst hw
    exact (Follows.of_store i .idle fun c hc => rows_commit h (h.observed i b o hr) now hc).2
  | abandon i hw =>
    subst hw
    exact .of_bindings h rfl (fun _ => id) fun _ => ⟨rfl, le_rfl⟩

/-- A request changed beside the rest. -/
theorem Sound.setRequest (h : Sound w) (i : ℕ) {r : Request}
    (hknown : ∀ b, r.binding = some b → Known w b)
    (hobserved : ∀ b o, r = .observed b o → Observed w b o) : Sound (w.setRequest i r) := by
  refine ⟨h.rows, ?_, ?_⟩
  · intro j b hj
    suffices Known w b from ⟨this.clean, this.seen, this.used, this.later⟩
    by_cases hji : j = i
    · subst hji
      simp only [World.setRequest, Function.update_self] at hj
      exact hknown b hj
    · simp only [World.setRequest, Function.update_of_ne hji] at hj
      exact h.known j b hj
  · intro j b o hj
    suffices Observed w b o from ⟨this.storeId, this.head_le, this.reached⟩
    by_cases hji : j = i
    · subst hji
      simp only [World.setRequest, Function.update_self] at hj
      exact hobserved b o hj
    · simp only [World.setRequest, Function.update_of_ne hji] at hj
      exact h.observed j b o hj

/-- The requests carried along. -/
theorem Sound.follows (h : Sound w) (hf : Follows w w') (hreq : w'.requests = w.requests) :
    Sound w' := by
  refine ⟨fun b hb => (hf.rows b hb).1, ?_, ?_⟩
  · intro i b hi
    rw [hreq] at hi
    exact (h.known i b hi).follows hf
  · intro i b o hi
    rw [hreq] at hi
    exact (h.observed i b o hi).follows hf

/-- Every step keeps the invariant. -/
theorem sound_of_next (h : Sound w) {e : Event} (hnext : w.next e = some w') : Sound w' := by
  have hf := follows_of_next h hnext
  cases did_of_next hnext with
  | other op hop hw => exact h.follows hf (by rw [hw]; rfl)
  | append s n hw => exact h.follows hf (by rw [hw])
  | read i key b hb hw =>
    subst hw
    refine h.setRequest i ?_ ?_
    · intro c hc
      cases hc
      exact .of_mem h (Table.find_eq_some.mp hb).1
    · intro c o hc
      cases hc
  | observe i pid b hr hw =>
    subst hw
    have hb : Known w b := h.known i b (by rw [hr]; rfl)
    refine h.setRequest i ?_ ?_
    · intro c hc
      cases hc
      exact hb
    · intro c o hc
      cases hc
      refine ⟨rfl, le_rfl, ?_⟩
      intro s n hn
      obtain ⟨hs, hle⟩ := hb.seen s n hn
      exact ⟨_, by rw [hs]; rfl, hle⟩
  | commit i now b o hr hw =>
    subst hw
    have hstore : Sound (w.store (w.db.after (.refresh b o now))) := by
      refine h.follows ?_ rfl
      exact (Follows.of_store i .idle fun c hc => rows_commit h (h.observed i b o hr) now hc).1
    refine hstore.setRequest i ?_ ?_
    · intro c hc
      cases hc
    · intro c o hc
      cases hc
  | abandon i hw =>
    subst hw
    refine h.setRequest i ?_ ?_
    · intro c hc
      cases hc
    · intro c o hc
      cases hc

/-- The invariant holds in every reachable state. -/
theorem sound_of_reachable (h : refreshing.Reachable w) : Sound w := by
  refine h.invariant (I := Sound) ?_ fun _ _ _ hs hnext => sound_of_next hs hnext
  rintro s ⟨hopened, -, hidle⟩
  have hempty := hopened.bindings_eq
  refine ⟨?_, ?_, ?_⟩
  · intro b hb
    rw [hempty] at hb
    cases hb
  · intro i b hi
    rw [hidle i] at hi
    cases hi
  · intro i b o hi
    rw [hidle i] at hi
    cases hi

/-- Every step keeps the database well formed. -/
theorem wellFormed_of_next (h : w.db.WellFormed) {e : Event} (hnext : w.next e = some w') :
    w'.db.WellFormed := by
  cases did_of_next hnext with
  | other op hop hw =>
    subst hw
    exact h.after op
  | append s n hw =>
    subst hw
    exact h
  | read i key b hb hw =>
    subst hw
    exact h
  | observe i pid b hr hw =>
    subst hw
    exact h
  | commit i now b o hr hw =>
    subst hw
    exact h.after _
  | abandon i hw =>
    subst hw
    exact h

/-! ## Runs -/

/-- A known binding stays known over a run. -/
theorem known_of_run {b : Binding} {es : List Event} {t : World} (h : Sound w) (hb : Known w b)
    (hrun : refreshing.run w es = some t) : Known t b := by
  refine (System.run_invariant (I := fun s => Sound s ∧ Known s b) (P := fun _ => True) ?_ (by simp)
    ⟨h, hb⟩ hrun).2
  rintro s e s' - ⟨hs, hknown⟩ hnext
  exact ⟨sound_of_next hs hnext, hknown.follows (follows_of_next hs hnext)⟩

/-- A row that has gone or changed does not come back. -/
theorem not_mem_of_run {b : Binding} {es : List Event} {t : World} (h : Sound w) (hb : Known w b)
    (hgone : b ∉ w.db.bindings) (hrun : refreshing.run w es = some t) : b ∉ t.db.bindings := by
  refine (System.run_invariant (I := fun s => Sound s ∧ Known s b ∧ b ∉ s.db.bindings)
    (P := fun _ => True) ?_ (by simp) ⟨h, hb, hgone⟩ hrun).2.2
  rintro s e s' - ⟨hs, hknown, hnot⟩ hnext
  have hf := follows_of_next hs hnext
  refine ⟨sound_of_next hs hnext, hknown.follows hf, ?_⟩
  intro hmem
  rcases (hf.rows b hmem).2 with ⟨c, hc, hlater⟩ | hfresh
  · -- The row before lies between the row that was read and itself, so it is that row.
    have hcb := hknown.later c hc hlater.binding.symm hlater.instance_eq.symm
    have hobs : b.observed = c.observed := hcb.reached.antisymm hlater.reached
    have hclean : b.anomalies = c.anomalies := hknown.clean.trans (hs.rows c hc).1.symm
    have hroute := hlater.route
    have hinst := hlater.instance_eq
    obtain rfl : b = c := by
      unfold Binding.route at hroute
      obtain ⟨hk, hp, hr, hd⟩ := Route.mk.inj hroute
      obtain ⟨_, _, _, _, _, _, _⟩ := b
      obtain ⟨_, _, _, _, _, _, _⟩ := c
      simp only at hk hp hr hd hinst hobs hclean
      subst hk hp hr hd hinst hobs hclean
      rfl
    exact hnot hc
  · exact hfresh hknown.used

/-- A refresh of a row that is no longer there writes nothing. -/
theorem after_refresh_of_not_mem {db : Db} {b : Binding} (h : b ∉ db.bindings) (o : Observation)
    (now : ℚ) :
    db.after (.refresh b o now) = db := by
  unfold Db.after
  rcases happly : (Op.refresh b o now).apply db with e | db'
  · rfl
  · obtain ⟨⟨changed, d⟩, hrefresh, -⟩ := except_map_eq_ok.mp happly
    exact absurd (Table.find_eq_some.mp (refresh_eq_ok hrefresh).1).1 h

/-- An event gave a binding a new observation: a commit, which added one row to the inbox. -/
structure Pointed (db db' : Db) (b c : Binding) (r : Row) : Prop where
  mem : r ∈ db'.inbox
  origin : r.origin = .pointer b.binding b.bindingInstance
  head : r.seq = db'.head
  /-- The sequence lies above every sequence allocated before. -/
  above : db.head < r.seq
  /-- Nothing else was inserted. -/
  only : ∀ r' ∈ db'.inbox, r' = r ∨ r' ∈ db.inbox ∧ r'.seq ≤ db.head
  changed : c.observed ≠ b.observed

/-- What a refresh does: nothing, or a new observation with its pointer. -/
theorem after_refresh_cases {db : Db} (h : db.WellFormed) (b : Binding) (o : Observation)
    (now : ℚ) :
    db.after (.refresh b o now) = db
      ∨ b ∈ db.bindings ∧ (∃ c ∈ (db.after (.refresh b o now)).bindings, ∃ r,
          c.binding = b.binding ∧ c.observed = some (o.storeId, o.head)
            ∧ Pointed db (db.after (.refresh b o now)) b c r)
        ∧ ∀ c ∈ (db.after (.refresh b o now)).bindings, c.binding ≠ b.binding →
        c ∈ db.bindings := by
  unfold Db.after
  rcases happly : (Op.refresh b o now).apply db with e | db'
  · exact .inl rfl
  · obtain ⟨⟨changed, d⟩, hrefresh, rfl⟩ := except_map_eq_ok.mp happly
    obtain ⟨hfind, ⟨-, -, rfl⟩ | ⟨-, hne, -, rfl⟩⟩ := refresh_eq_ok hrefresh
    · exact .inl rfl
    · obtain ⟨hb, -⟩ := Table.find_eq_some.mp hfind
      refine .inr ⟨hb,
        ⟨{ b with observed := some (o.storeId, o.head), anomalies := anomaliesAfter b o },
        mem_setObserved.mpr ⟨b, hb, by rw [if_pos rfl]⟩,
        ⟨db.head + 1, now, o.pid, pointerFrame b.binding, .pointer b.binding b.bindingInstance⟩,
        rfl, rfl,
        ⟨Table.mem_put.mpr (.inr rfl), rfl, rfl, Nat.lt_succ_self _, ?_, fun heq => hne heq.symm⟩⟩,
          ?_⟩
      · intro r' hr'
        rcases Table.mem_put.mp hr' with ⟨hr', -⟩ | rfl
        · have hold := (Table.mem_remove.mp hr').1
          exact .inr ⟨hold, (h.rows r' hold).2⟩
        · exact .inl rfl
      · intro c hc hkey
        obtain ⟨a, ha, rfl⟩ := mem_setObserved.mp hc
        by_cases hakey : a.binding = b.binding
        · rw [if_pos hakey] at hkey
          exact absurd hakey hkey
        · rw [if_neg hakey]
          exact ha

/-- In every reachable state the database is well formed. -/
theorem wellFormed_of_reachable (h : refreshing.Reachable w) : w.db.WellFormed := by
  refine h.invariant (I := fun w => w.db.WellFormed) ?_ ?_
  · rintro s ⟨hopened, -⟩
    exact hopened.wellFormed
  · intro s e s' hs hnext
    exact wellFormed_of_next hs hnext

/-- An event that changes no binding and no row. -/
theorem db_of_next {e : Event} (hnext : w.next e = some w') :
    w'.db = w.db ∨ (∃ op, permitted w op ∧ w'.db = w.db.after op)
      ∨ ∃ i now b o, e = .commit i now ∧ w.requests i = .observed b o
        ∧ w'.db = w.db.after (.refresh b o now) := by
  cases did_of_next hnext with
  | other op hop hw =>
    subst hw
    exact .inr (.inl ⟨op, hop, rfl⟩)
  | append s n hw =>
    subst hw
    exact .inl rfl
  | read i key b hb hw =>
    subst hw
    exact .inl rfl
  | observe i pid b hr hw =>
    subst hw
    exact .inl rfl
  | commit i now b o hr hw =>
    subst hw
    exact .inr (.inr ⟨i, now, b, o, rfl, hr, rfl⟩)
  | abandon i hw =>
    subst hw
    exact .inl rfl

/-- A new observation comes with a pointer of its own. -/
theorem pointed_of_next (h : Sound w) (hwf : w.db.WellFormed) {e : Event}
    (hnext : w.next e = some w')
    {b c : Binding} (hb : b ∈ w.db.bindings) (hc : c ∈ w'.db.bindings)
    (hkey : c.binding = b.binding)
    (hinst : c.bindingInstance = b.bindingInstance) (hne : c.observed ≠ b.observed) :
    ∃ r, Pointed w.db w'.db b c r := by
  rcases db_of_next hnext with hdb | ⟨op, hop, hdb⟩ | ⟨i, now, a, o, -, -, hdb⟩
  · rw [hdb] at hc
    exact absurd (congrArg Binding.observed (Table.eq_of_key hc hb hkey)) hne
  · rw [hdb] at hc
    rcases (quiet_other hop).bindings c hc with ⟨a, ha, hroute, -, hobs, -⟩ | ⟨hfresh, -⟩
    · obtain rfl := Table.eq_of_key ha hb ((congrArg Route.binding hroute).symm.trans hkey)
      exact absurd hobs hne
    · rw [hinst] at hfresh
      exact absurd (h.rows b hb).2.2 hfresh
  · rw [hdb] at hc ⊢
    rcases after_refresh_cases hwf a o now with hsame | ⟨ha, ⟨d, hd, r, hdkey, -, hpointed⟩,
      hothers⟩
    · rw [hsame] at hc
      exact absurd (congrArg Binding.observed (Table.eq_of_key hc hb hkey)) hne
    · by_cases hcase : c.binding = a.binding
      · obtain rfl := Table.eq_of_key ha hb (hcase.symm.trans hkey)
        obtain rfl := Table.eq_of_key hd hc (hdkey.trans hcase.symm)
        exact ⟨r, hpointed⟩
      · have hold := hothers c hc hcase
        exact absurd (congrArg Binding.observed (Table.eq_of_key hold hb hkey)) hne

/-- A new pointer comes with a new observation of its binding. -/
theorem changed_of_pointer (hwf : w.db.WellFormed) {e : Event} (hnext : w.next e = some w')
    {r : Row} (hr : r ∈ w'.db.inbox) (hnew : r ∉ w.db.inbox) {key : Hex 64} {inst : Instance}
    (horigin : r.origin = .pointer key inst) :
    ∃ b ∈ w.db.bindings, ∃ c ∈ w'.db.bindings, b.binding = key ∧ b.bindingInstance = inst
      ∧ c.binding = key ∧ c.observed ≠ b.observed := by
  rcases db_of_next hnext with hdb | ⟨op, hop, hdb⟩ | ⟨i, now, a, o, -, -, hdb⟩
  · rw [hdb] at hr
    exact absurd hr hnew
  · rw [hdb] at hr
    rcases (quiet_other hop).inbox r hr with hold | hpeer
    · exact absurd hold hnew
    · rw [hpeer] at horigin
      cases horigin
  · rw [hdb] at hr ⊢
    rcases after_refresh_cases hwf a o now with hsame | ⟨ha, ⟨d, hd, r', hdkey, -, hpointed⟩, -⟩
    · rw [hsame] at hr
      exact absurd hr hnew
    · rcases hpointed.only r hr with rfl | ⟨hold, -⟩
      · rw [hpointed.origin] at horigin
        cases horigin
        exact ⟨a, ha, d, hd, rfl, rfl, hdkey, hpointed.changed⟩
      · exact absurd hold hnew

/-- **Concurrent refreshes raise no false alarm and lose no update.** In every reachable state no
anomaly is recorded. Once the row a request has read is gone or no longer as it was read, no commit
of that reading ever writes. Within one lifetime of a binding the recorded observation never goes
back. And in every event a new observation comes with exactly one new pointer, above all sequences
allocated before, while an observation that is recorded already changes nothing. -/
theorem refresh_sound (h : refreshing.Reachable w) :
    (∀ b ∈ w.db.bindings, b.anomalies = 0)
      ∧ (∀ i b, (w.requests i).binding = some b → b ∉ w.db.bindings →
        ∀ es t, refreshing.run w es = some t → ∀ j o now t', t.requests j = .observed b o →
          t.next (.commit j now) = some t' → t'.db = t.db)
      ∧ (∀ b ∈ w.db.bindings, ∀ es t, refreshing.run w es = some t → ∀ c ∈ t.db.bindings,
        c.binding = b.binding → c.bindingInstance = b.bindingInstance →
        Reached b.observed c.observed)
      ∧ ∀ e w', w.next e = some w' →
        (∀ b ∈ w.db.bindings, ∀ c ∈ w'.db.bindings, c.binding = b.binding →
          c.bindingInstance = b.bindingInstance → c.observed ≠ b.observed → ∃ r,
          Pointed w.db w'.db b c r)
        ∧ (∀ r ∈ w'.db.inbox, r ∉ w.db.inbox → ∀ key inst, r.origin = .pointer key inst →
          ∃ b ∈ w.db.bindings, ∃ c ∈ w'.db.bindings, b.binding = key ∧ b.bindingInstance = inst
            ∧ c.binding = key ∧ c.observed ≠ b.observed)
        ∧ ∀ i now b o, e = .commit i now → w.requests i = .observed b o →
          b.observed = some (o.storeId, o.head) → w'.db = w.db := by
  have hsound := sound_of_reachable h
  have hwf := wellFormed_of_reachable h
  refine ⟨fun b hb => (hsound.rows b hb).1, ?_, ?_, ?_⟩
  · intro i b hread hgone es t hrun j o now t' hobs hcommit
    have hnot := not_mem_of_run hsound (hsound.known i b hread) hgone hrun
    cases did_of_next hcommit with
    | commit _ _ b' o' hr hw =>
      rw [hobs] at hr
      cases hr
      subst hw
      exact after_refresh_of_not_mem hnot o now
  · intro b hb es t hrun c hc hkey hinst
    exact ((known_of_run hsound (.of_mem hsound hb) hrun).later c hc hkey hinst).reached
  · intro e w' hnext
    refine ⟨?_, ?_, ?_⟩
    · intro b hb c hc hkey hinst hne
      exact pointed_of_next hsound hwf hnext hb hc hkey hinst hne
    · intro r hr hnew key inst horigin
      exact changed_of_pointer hwf hnext hr hnew horigin
    · intro i now b o he hobs hsame
      subst he
      cases did_of_next hnext with
      | commit _ _ b' o' hr hw =>
        rw [hobs] at hr
        cases hr
        subst hw
        rcases after_refresh_cases hwf b o now with hdb | ⟨-, ⟨d, -, r, -, hd, hpointed⟩, -⟩
        · exact hdb
        · exact absurd (hd.trans hsame.symm) hpointed.changed

/-- A bridge just created; every memory service is empty. -/
def quiet : World where
  db := .empty
  used := []
  services := fun _ => ⟨.ofDigit 32 0xb, 0⟩
  requests := fun _ => .idle

/-- A service is bound; two requests read the binding and observe the service, one after an entry
more than the other; the older observation is committed last. -/
def crossedRun : List Event :=
  let key : Hex 64 := .ofDigit 64 0xa
  let route : Route := ⟨key, lit "/r", .ofDigit 16 0xc, lit "/m"⟩
  [.other (.bind route .ones), .append ⟨route.repoKey, route.memoryStateDir⟩ 1,
    .read 0 key, .read 1 key, .observe 0 9, .append ⟨route.repoKey, route.memoryStateDir⟩ 1,
    .observe 1 9,
    .commit 1 0, .commit 0 0]

/-- The newer observation stays, with one pointer and no anomaly. -/
theorem refresh_sound_crossed : ∃ w, refreshing.run quiet crossedRun = some w
    ∧ w.db.inbox.rows.map Row.seq = [1] ∧ (∃ b ∈ w.db.bindings, b.observed.map Prod.snd = some 2)
    ∧ ∀ b ∈ w.db.bindings, b.anomalies = 0 := by
  have hrun : (refreshing.run quiet crossedRun).map (fun w =>
      (w.db.inbox.rows.map Row.seq, w.db.bindings.rows.map fun b => b.observed.map Prod.snd))
        = some ([1], [some 2]) := by decide +kernel
  obtain ⟨w, hw, hview⟩ := Option.map_eq_some_iff.mp hrun
  obtain ⟨hinbox, hbindings⟩ := Prod.mk.inj hview
  have hreach := (System.Reachable.init (M := refreshing)
    (show World.initial quiet from ⟨.new, rfl, fun _ => rfl⟩)).run hw
  have hmem : some 2 ∈ w.db.bindings.rows.map fun b => b.observed.map Prod.snd := by
    rw [hbindings]
    exact List.mem_singleton.mpr rfl
  obtain ⟨b, hb, hobs⟩ := List.mem_map.mp hmem
  exact ⟨w, hw, hinbox, ⟨b, hb, hobs⟩, (refresh_sound hreach).1⟩

end PeerBridge.Bridge.Refresh
