import PeerBridge.Memory.Budget
import PeerBridge.Runtime.Keyset

/-!
# Continuing `recall` and `status` to the end

Both reads select a window of rows with one row more than they may answer, fill the page by encoded
size, and derive `more` from the two limits together. `cut` is that arithmetic once, for both.

* **The pages of a query** (`recallPage_continues`): each is the start of the matching entries left,
  and `next_before` leaves exactly the rest, on the index and on the scan;
* **the pages of the consumers** (`statusPage_continues`), the same with `next_after`;
* so a client that continues until the token is null has every row once, in order.

Source: `memory.py`, `bounded`, `MemoryCommands.recall`, `MemoryCommands.status`.
-/

namespace PeerBridge.Memory

open Py Relational Effects Effects.Prog Keyset

variable {H : Host}

/-! ## One page out of a window -/

/-- What `more` says of a page: `truncated` by its bytes, or full while the probe row exists. -/
def announces {α : Type} (rows page : List α) (truncated : Bool) : Bool :=
  truncated || (decide ((rows.take (rowWindow + 1)).length > rowWindow)
    && page.length == ((rows.take (rowWindow + 1)).take rowWindow).length)

/-- A page that announces more is not empty. -/
theorem bounded_more {α : Type} {size : α → Except Exc ℕ} {rows page : List α} {truncated : Bool}
    (h : bounded size (rows.take rowWindow) = .ok (page, truncated))
    (hmore : (truncated || (decide (rows.length > rowWindow)
      && page.length == (rows.take rowWindow).length)) = true) : page ≠ [] := by
  obtain ⟨-, -, -, hne⟩ := bounded_inv h
  rcases Bool.or_eq_true_iff.mp hmore with htr | hfull
  · exact hne htr
  · obtain ⟨hbeyond, hlen⟩ := Bool.and_eq_true_iff.mp hfull
    have h1 : rowWindow < rows.length := of_decide_eq_true hbeyond
    have h2 : page.length = (rows.take rowWindow).length := by simpa using hlen
    apply List.ne_nil_of_length_pos
    rw [h2, List.length_take, min_eq_left h1.le]
    decide

/-- A page is the start of the rows. It announces more exactly when it leaves some, and is then not
empty. -/
theorem bounded_window {α : Type} {size : α → Except Exc ℕ} {rows page : List α} {truncated : Bool}
    (h : bounded size ((rows.take (rowWindow + 1)).take rowWindow) = .ok (page, truncated)) :
    ∃ rest, rows = page ++ rest ∧ (announces rows page truncated = false → rest = []) ∧
      (announces rows page truncated = true → page ≠ []) := by
  obtain ⟨left, hleft, hend, -⟩ := bounded_inv h
  have hwin : (rows.take (rowWindow + 1)).take rowWindow = rows.take rowWindow := by
    rw [List.take_take]
    simp
  rw [hwin] at hleft
  refine ⟨left ++ rows.drop rowWindow, ?_, ?_, ?_⟩
  · rw [← List.append_assoc, ← hleft, List.take_append_drop]
  · intro hmore
    unfold announces at hmore
    rw [hwin] at hmore
    obtain ⟨rfl, hfull⟩ := Bool.or_eq_false_iff.mp hmore
    have hleft0 : left = [] := hend rfl
    have hpage : rows.take rowWindow = page := by rw [hleft, hleft0, List.append_nil]
    have hshort : rows.length ≤ rowWindow := by
      by_contra hlong
      rw [hpage] at hfull
      simp only [beq_self_eq_true, Bool.and_true, decide_eq_false_iff_not,
        List.length_take] at hfull
      omega
    rw [hleft0, List.drop_eq_nil_of_le hshort]
    rfl
  · exact bounded_more h

/-! ## The entries of a query -/

/-- The rows the index answers a query with, `none` where `recall` scans. -/
def World.indexHits (H : Host) (w : World) (term : Text) : Option (List ℕ) :=
  if w.indexUsable then H.search w.db.search term else none

/-- An entry matches: a token match where the index answers, a substring match on the scan. -/
def World.answers (H : Host) (w : World) (term : Text) (e : Entry) : Bool :=
  match w.indexHits H term with
  | some seqs => seqs.contains e.seq
  | none => likeMatch e.body term

/-- `before or (1 << 62)`. -/
def recallWindow (before : Option ℕ) : ℤ := if before.getD 0 = 0 then 2 ^ 62 else before.getD 0

/-- The live matching entries below a token, newest first. -/
def World.matching (H : Host) (w : World) (now : ℚ) (term : Text) (before : Option ℕ) :
    List Entry :=
  (w.db.recallRows now (recallWindow before)).filter (w.answers H term)

/-- The rows a search looks at are the live ones below the token. -/
theorem mem_recallRows {db : Db} {now : ℚ} {before : ℤ} {e : Entry} :
    e ∈ db.recallRows now before ↔ e ∈ db.entries ∧ e.live now = true ∧ (e.seq : ℤ) < before := by
  simp [Db.recallRows, Table.mem_def]

/-- The rows a query is answered with are the live ones below the token that answer it. -/
theorem mem_matching {w : World} {now : ℚ} {term : Text} {before : Option ℕ} {e : Entry} :
    e ∈ w.matching H now term before ↔
      e ∈ w.db.entries ∧ e.live now = true ∧ w.answers H term e = true ∧
        (e.seq : ℤ) < recallWindow before := by
  simp only [World.matching, List.mem_filter, mem_recallRows]
  tauto

/-- The rows of a read come in strictly descending order. -/
theorem recallRows_sorted (db : Db) (now : ℚ) (before : ℤ) :
    (db.recallRows now before).Pairwise fun a b => b.seq < a.seq := by
  have hle : (db.recallRows now before).Pairwise fun a b => b.seq ≤ a.seq :=
    List.pairwise_insertionSort (fun a b : Entry => b.seq ≤ a.seq) _
  have hnd : ((db.recallRows now before).map Entry.seq).Nodup := by
    have hp := List.perm_insertionSort (fun a b : Entry => b.seq ≤ a.seq)
      (db.entries.rows.filter fun e => e.live now && decide ((e.seq : ℤ) < before))
    refine (hp.map Entry.seq).nodup_iff.mpr ?_
    exact db.entries.nodup.sublist (List.filter_sublist.map Entry.seq)
  have hne := List.pairwise_map.mp hnd
  exact (hle.and hne).imp fun h => lt_of_le_of_ne h.1 fun he => h.2 he.symm

/-- They are in falling order of their sequences. -/
theorem matching_sorted (w : World) (now : ℚ) (term : Text) (before : Option ℕ) :
    (w.matching H now term before).Pairwise fun a b => b.seq < a.seq :=
  (recallRows_sorted _ _ _).filter _

/-- What is below the last entry of a page is what the page leaves. -/
theorem matching_below {w : World} {now : ℚ} {term : Text} {before : Option ℕ}
    {page rest : List Entry}
    (hrows : w.matching H now term before = page ++ rest) {e : Entry} (he : page.getLast? = some e)
    (hpos : 0 < e.seq) : w.matching H now term (some e.seq) = rest := by
  have hmem : e ∈ w.matching H now term before := by
    rw [hrows]
    exact List.mem_append_left _ (List.mem_of_getLast? he)
  have hbelow := (mem_matching.mp hmem).2.2.2
  have hwin : recallWindow (some e.seq) = e.seq := by
    simp [recallWindow, hpos.ne']
  have hfilter := rest_eq_filter (r := fun a b : Entry => b.seq < a.seq)
    (fun a b h h' => absurd (lt_trans h h') (lt_irrefl _))
    (hrows ▸ matching_sorted w now term before) he
  rw [← hfilter, ← hrows]
  have : Std.Antisymm fun a b : Entry => b.seq < a.seq :=
    ⟨fun a b h h' => absurd (lt_trans h h') (lt_irrefl _)⟩
  have : Std.Irrefl fun a b : Entry => b.seq < a.seq := ⟨fun a => lt_irrefl _⟩
  refine List.Pairwise.eq_of_mem_iff (matching_sorted w now term _)
    ((matching_sorted w now term before).filter _) fun x => ?_
  simp only [List.mem_filter, mem_matching, hwin, decide_eq_true_eq, Nat.cast_lt]
  constructor
  · rintro ⟨h1, h2, h3, h4⟩
    exact ⟨⟨h1, h2, h3, lt_trans (by exact_mod_cast h4) hbelow⟩, h4⟩
  · rintro ⟨⟨h1, h2, h3, -⟩, h4⟩
    exact ⟨h1, h2, h3, h4⟩

/-- The continuation token as a request carries it. -/
def tokenJson (before : Option ℕ) : Json :=
  match before with
  | none => .null
  | some n => .int n

/-- The request for a page of a query. -/
def recallRequest (term : Text) (before : Option ℕ) : Object :=
  [(lit "op", .str (lit "recall")), (lit "query", .str term), (lit "before", tokenJson before)]

/-- The page of a `recall` reply and its `next_before`. -/
def recallPage (H : Host) (s : Service) (pid : ℕ) (term : Text) (before : Option ℕ) :
    M (List Entry × Option ℕ) := do
  match ← command H s (recallRequest term before) pid with
  | .recalled entries _ _ nextBefore => return (entries, nextBefore)
  | _ => throw .typeError

/-- The rows `recall` reads, before it takes its window. -/
def World.selects (H : Host) (w : World) (now : ℚ) (term : Text) (before : Option ℕ) :
    Except Exc (List Entry) :=
  match w.indexHits H term with
  | some _ => .ok (w.matching H now term before)
  | none =>
      if w.db.recallRows now (recallWindow before) ≠ [] ∧ patternLen term > likePatternLimit then
        .error (.sqlite .other)
      else .ok (w.matching H now term before)

/-- Index or scan, a search that is answered selects exactly these rows. -/
theorem selects_eq_ok {w : World} {now : ℚ} {term : Text} {before : Option ℕ} {rows : List Entry}
    (h : w.selects H now term before = .ok rows) : rows = w.matching H now term before := by
  unfold World.selects at h
  split at h
  · exact (Except.ok.inj h).symm
  · split at h
    · cases h
    · exact (Except.ok.inj h).symm

/-- The rows of the path chosen, cut to the window. -/
theorem selects_window (w : World) (now : ℚ) (term : Text) (before : Option ℕ) :
    (match w.indexHits H term with
      | some seqs => .ok (((w.db.recallRows now (recallWindow before)).filter fun e =>
          seqs.contains e.seq).take (rowWindow + 1))
      | none => scanRows term (w.db.recallRows now (recallWindow before)))
      = (w.selects H now term before).map (List.take (rowWindow + 1)) := by
  unfold World.selects World.matching
  rcases hn : w.indexHits H term with _ | seqs
  · have ha : w.answers H term = fun e => likeMatch e.body term := by
      funext e
      simp only [World.answers, hn]
    rw [ha]
    simp only [scanRows]
    split
    · rfl
    · rfl
  · have ha : w.answers H term = fun e => seqs.contains e.seq := by
      funext e
      simp only [World.answers, hn]
    rw [ha]
    rfl

/-- A token is read as the number it stands for. -/
theorem int_tokenJson (before : Option ℕ) :
    (if (tokenJson before).truthy then int (tokenJson before) else .ok 0)
      = (.ok ((before.getD 0 : ℕ) : ℤ) : Except Exc ℤ) := by
  rcases before with _ | n
  · rfl
  · by_cases hn : n = 0
    · subst hn
      rfl
    · simp [tokenJson, Json.truthy, int, hn]

/-- No token stands for the window above every row. -/
theorem recallWindow_eq (before : Option ℕ) :
    (if ((before.getD 0 : ℕ) : ℤ) = 0 then 2 ^ 62 else ((before.getD 0 : ℕ) : ℤ))
    = recallWindow before := by
  unfold recallWindow
  simp

/-- A window below 2^63 can be bound. -/
theorem ofJson_recallWindow {before : Option ℕ} (h : recallWindow before < 2 ^ 63) :
    Sql.ofJson (.int (recallWindow before)) = .ok (.int (recallWindow before)) := by
  have h0 : 0 ≤ recallWindow before := by
    unfold recallWindow
    split <;> omega
  change (if -2 ^ 63 ≤ recallWindow before ∧ recallWindow before < 2 ^ 63 then _ else _) = _
  rw [if_pos ⟨by omega, h⟩]

/-- The reply to a query, as a computation on the rows it reads. -/
def recallReply (indexed : Bool) (rows : List Entry) : Except Exc Reply := do
  let (entries, truncated) ← bounded Entry.lenEncode ((rows.take (rowWindow + 1)).take rowWindow)
  return .recalled entries (announces rows entries truncated) indexed
    (if announces rows entries truncated then entries.getLast?.map Entry.seq else none)

/-- **One `recall` request**, for any content and any query: blank queries and queries that do not
encode are refused, and everything else is computed from the rows read at one reading of the
clock. -/
theorem command_recall (s : Service) (pid : ℕ) (term : Text) (before : Option ℕ)
    (hwin : recallWindow before < 2 ^ 63) (w : World) :
    command H s (recallRequest term before) pid w =
      if (strip term).isEmpty then
        (.error (refusal .invalidRequest (lit "query must be nonempty text")), w)
      else
        (do let _ ← measure term
            let rows ← w.selects H (H.clock w.tick) term before
            recallReply (w.indexHits H term).isSome rows, { w with tick := w.tick + 1 }) := by
  change «recall» H (recallRequest term before) w = _
  by_cases hblank : (strip term).isEmpty = true
  · rw [if_pos hblank]
    change (if (strip term).isEmpty = true then _ else _ : M Reply) w = _
    rw [if_pos hblank]
    rfl
  rw [if_neg hblank]
  change (if (strip term).isEmpty = true then _ else _ : M Reply) w = _
  rw [if_neg hblank]
  dsimp only
  rw [show Object.get (recallRequest term before) (lit "before") = tokenJson before from rfl,
    int_tokenJson]
  rw [lift_bind]
  simp only [time_bind, get_bind, recallWindow_eq, ofJson_recallWindow hwin]
  rw [lift_bind]
  rcases hm : measure term with exc | n
  · rfl
  change (Prog.lift (match w.indexHits H term with
      | some seqs => .ok (((w.db.recallRows (H.clock w.tick) (recallWindow before)).filter fun e =>
          seqs.contains e.seq).take (rowWindow + 1))
      | none => scanRows term (w.db.recallRows (H.clock w.tick) (recallWindow before))) >>= _) _ = _
  rw [selects_window, lift_bind]
  rcases w.selects H (H.clock w.tick) term before with exc | rows
  · rfl
  · change (Prog.lift (bounded Entry.lenEncode ((rows.take (rowWindow + 1)).take rowWindow)) >>= _)
      _
      = (recallReply _ rows, _)
    unfold recallReply
    rw [lift_bind]
    rcases bounded Entry.lenEncode ((rows.take (rowWindow + 1)).take rowWindow) with exc | page
    · rfl
    · rfl

section recalls

variable {s : Service} {pid : ℕ} {w : World} {now : ℚ} {term : Text} {before : Option ℕ}

/-- A page of a query against the rows it was cut from. -/
theorem recallReply_eq_ok {indexed : Bool} {rows : List Entry} {reply : Reply}
    (h : recallReply indexed rows = .ok reply) : ∃ entries rest more,
      reply = .recalled entries more indexed
        (if more then entries.getLast?.map Entry.seq else none) ∧
      rows = entries ++ rest ∧ (more = false → rest = []) ∧ (more = true → entries ≠ []) := by
  obtain ⟨⟨entries, truncated⟩, hb, h⟩ := except_bind_eq_ok.mp h
  obtain ⟨rest, hrows, hend, hne⟩ := bounded_window hb
  exact ⟨entries, rest, _, (Except.ok.inj h).symm, hrows, hend, hne⟩

/-- Rows within the budget are answered. -/
theorem recallReply_returns (indexed : Bool) (rows : List Entry)
    (h : ∀ e ∈ rows, ∃ n, e.lenEncode = .ok n ∧ n ≤ frameBudget) :
    ∃ reply, recallReply indexed rows = .ok reply := by
  obtain ⟨page, truncated, hp, -⟩ := @bounded_eq_ok _ Entry.lenEncode
    ((rows.take (rowWindow + 1)).take rowWindow)
    fun e he => h e (List.mem_of_mem_take (List.mem_of_mem_take he))
  unfold recallReply
  rw [hp]
  exact ⟨_, rfl⟩

/-- A request for a page: an exception, or the reply over the rows selected. -/
theorem recallPage_eq_ok (hwin : recallWindow before < 2 ^ 63) {page : List Entry} {next : Option ℕ}
    {w' : World} (h : recallPage H s pid term before w = (.ok (page, next), w')) :
    Idle w w' ∧ ∃ rest, w.matching H (H.clock w.tick) term before = page ++ rest ∧
      (next = none → rest = []) ∧ ∀ key, next = some key → page.getLast?.map Entry.seq
      = some key := by
  obtain ⟨reply, u, hu, h⟩ := bind_ok_inv h
  rw [command_recall s pid term before hwin w] at hu
  split at hu
  · cases hu
  obtain ⟨hr, rfl⟩ := Prod.mk.inj hu
  obtain ⟨-, -, hr⟩ := except_bind_eq_ok.mp hr
  obtain ⟨rows, hsel, hr⟩ := except_bind_eq_ok.mp hr
  obtain rfl := selects_eq_ok hsel
  obtain ⟨entries, rest, more, rfl, hrows, hend, hne⟩ := recallReply_eq_ok hr
  obtain ⟨hp, rfl⟩ := Prod.mk.inj h
  obtain ⟨rfl, rfl⟩ := Prod.mk.inj (Except.ok.inj hp)
  refine ⟨⟨⟨Nat.le_succ _, rfl⟩, rfl⟩, rest, hrows, ?_, ?_⟩
  · intro hnone
    apply hend
    rcases more with _ | _
    · rfl
    · obtain ⟨e, he⟩ := List.getLast?_isSome.mpr (hne rfl) |> Option.isSome_iff_exists.mp
      simp [he] at hnone
  · intro key hkey
    rcases more with _ | _
    · cases hkey
    · exact hkey

/-- The hits of the index depend on the content only. -/
theorem Idle.indexHits {w' : World} (h : Idle w w') : w'.indexHits H term = w.indexHits H term := by
  have husable : w'.indexUsable = w.indexUsable := by
    simp only [World.indexUsable, h.db, h.fts]
  rw [World.indexHits, World.indexHits, husable, h.db]

/-- The rows of a query depend on the content only. -/
theorem Idle.matching {w' : World} (h : Idle w w') :
    w'.matching H now term before = w.matching H now term before := by
  have ha : w'.answers H term = w.answers H term := by
    funext e
    simp only [World.answers, h.indexHits]
  rw [World.matching, World.matching, ha, h.db]

/-- Sequences as the store assigns them: counted from one, below the window of a first page. -/
def Db.Counted (db : Db) : Prop := ∀ e ∈ db.entries, 0 < e.seq ∧ (e.seq : ℤ) < 2 ^ 62

/-- **A page of a query leaves exactly the entries below its token.** -/
theorem recallPage_continues (hclock : ∀ t, H.clock t = now) (hseq : w.db.Counted) {u v : World}
    (hu : Idle w u) (hwin : recallWindow before < 2 ^ 63) {page : List Entry} {next : Option ℕ}
    (h : recallPage H s pid term before u = (.ok (page, next), v)) :
    Idle w v ∧ Continues (fun b => recallWindow b < 2 ^ 63)
    (w.matching H now term) before page next := by
  obtain ⟨huv, rest, hrows, hend, hgo⟩ := recallPage_eq_ok hwin h
  rw [hclock, hu.matching] at hrows
  refine ⟨trans_of Idle hu huv, ?_, ?_⟩
  · intro hnone
    rw [hrows, hend hnone, List.append_nil]
  · intro key hkey
    obtain ⟨e, he, rfl⟩ := Option.map_eq_some_iff.mp (hgo key hkey)
    have hmem : e ∈ w.matching H now term before := by
      rw [hrows]
      exact List.mem_append_left _ (List.mem_of_getLast? he)
    obtain ⟨hpos, hlt⟩ := hseq e (mem_matching.mp hmem).1
    refine ⟨?_, ?_, ?_⟩
    · have hw : recallWindow (some e.seq) = e.seq := by simp [recallWindow, hpos.ne']
      omega
    · rintro rfl
      simp at he
    · rw [matching_below hrows he hpos, hrows]

/-- A query `recall` accepts: text that is not blank and encodes, and, on the scan, a pattern within
the limit of the engine. -/
def World.accepts (H : Host) (w : World) (term : Text) : Prop :=
  (strip term).isEmpty = false ∧ encodable term = true ∧
    (w.indexHits H term = none → patternLen term ≤ likePatternLimit)

/-- The answer to a query that is accepted is the reply over the matching entries. -/
theorem recallPage_of_reply (hterm : w.accepts H term) (hwin : recallWindow before < 2 ^ 63)
    {entries : List Entry} {next : Option ℕ} (more indexed : Bool)
    (h : recallReply (w.indexHits H term).isSome (w.matching H (H.clock w.tick) term before)
      = .ok (.recalled entries more indexed next)) :
    recallPage H s pid term before w = (.ok (entries, next), { w with tick := w.tick + 1 }) := by
  obtain ⟨hblank, henc, hpat⟩ := hterm
  have hsel : w.selects H (H.clock w.tick) term before
      = .ok (w.matching H (H.clock w.tick) term before) := by
    unfold World.selects
    rcases hh : w.indexHits H term with _ | seqs
    · exact if_neg fun hbig => absurd (hpat hh) (by omega)
    · rfl
  have hcmd : command H s (recallRequest term before) pid w
      = (.ok (.recalled entries more indexed next), { w with tick := w.tick + 1 }) := by
    have hm : measure term = .ok (utf8Len term) := if_pos henc
    rw [command_recall s pid term before hwin w, if_neg (by simp [hblank]), hm, hsel]
    exact congrArg (·, _) h
  unfold recallPage
  rw [bind_ok hcmd]
  rfl

/-- An accepted query is answered, page after page. -/
theorem recallPage_returns (hfit : ∀ e ∈ w.db.entries, ∃ n, e.lenEncode = .ok n ∧ n ≤ frameBudget)
    (hterm : w.accepts H term) {u : World} (hu : Idle w u) (hwin : recallWindow before < 2 ^ 63) :
    ∃ page next v, recallPage H s pid term before u = (.ok (page, next), v) := by
  have haccepts : u.accepts H term := ⟨hterm.1, hterm.2.1, fun h => hterm.2.2 (hu.indexHits ▸ h)⟩
  obtain ⟨reply, hreply⟩ := recallReply_returns (u.indexHits H term).isSome
    (u.matching H (H.clock u.tick) term before) fun e he => by
      have hmem := (mem_matching.mp he).1
      rw [hu.db] at hmem
      exact hfit e hmem
  obtain ⟨entries, rest, more, rfl, -⟩ := recallReply_eq_ok hreply
  exact ⟨_, _, _, recallPage_of_reply haccepts hwin _ _ hreply⟩

end recalls

/-! ## The consumers of the store -/

/-- The consumers behind a key, in ascending order. -/
def Db.consumersAfter (db : Db) (after : Text) : List Cursor :=
  (db.cursors.rows.filter fun c => decide (after < c.consumer)).insertionSort
    fun a b => a.consumer ≤ b.consumer

/-- The consumers after a name are those of a larger one. -/
theorem mem_consumersAfter {db : Db} {after : Text} {c : Cursor} :
    c ∈ db.consumersAfter after ↔ c ∈ db.cursors ∧ after < c.consumer := by
  simp [Db.consumersAfter, Table.mem_def]

/-- They are in the order of their names. -/
theorem consumersAfter_sorted (db : Db) (after : Text) :
    (db.consumersAfter after).Pairwise fun a b => a.consumer < b.consumer := by
  have hle : (db.consumersAfter after).Pairwise fun a b => a.consumer ≤ b.consumer :=
    List.pairwise_insertionSort (fun a b : Cursor => a.consumer ≤ b.consumer) _
  have hnd : ((db.consumersAfter after).map Cursor.consumer).Nodup := by
    have hp := List.perm_insertionSort (fun a b : Cursor => a.consumer ≤ b.consumer)
      (db.cursors.rows.filter fun c => decide (after < c.consumer))
    refine (hp.map Cursor.consumer).nodup_iff.mpr ?_
    exact db.cursors.nodup.sublist (List.filter_sublist.map Cursor.consumer)
  exact (hle.and (List.pairwise_map.mp hnd)).imp fun h => lt_of_le_of_ne h.1 h.2

/-- What is behind the last consumer of a page is what the page leaves. -/
theorem consumersAfter_last {db : Db} {after : Text} {page rest : List Cursor}
    (hrows : db.consumersAfter after = page ++ rest) {c : Cursor} (hc : page.getLast? = some c) :
    db.consumersAfter c.consumer = rest := by
  have hmem : c ∈ db.consumersAfter after := by
    rw [hrows]
    exact List.mem_append_left _ (List.mem_of_getLast? hc)
  have hbehind := (mem_consumersAfter.mp hmem).2
  have hfilter := rest_eq_filter (r := fun a b : Cursor => a.consumer < b.consumer)
    (fun a b h h' => absurd (lt_trans h h') (lt_irrefl _))
    (hrows ▸ consumersAfter_sorted db after) hc
  rw [← hfilter, ← hrows]
  have : Std.Antisymm fun a b : Cursor => a.consumer < b.consumer :=
    ⟨fun a b h h' => absurd (lt_trans h h') (lt_irrefl _)⟩
  have : Std.Irrefl fun a b : Cursor => a.consumer < b.consumer := ⟨fun a => lt_irrefl _⟩
  refine List.Pairwise.eq_of_mem_iff (consumersAfter_sorted db _)
    ((consumersAfter_sorted db after).filter _) fun x => ?_
  simp only [List.mem_filter, mem_consumersAfter, decide_eq_true_eq]
  constructor
  · rintro ⟨h1, h2⟩
    exact ⟨⟨h1, lt_trans hbehind h2⟩, h2⟩
  · rintro ⟨⟨h1, -⟩, h2⟩
    exact ⟨h1, h2⟩

/-- The request for a page of the consumers. -/
def statusRequest (after : Option Text) : Object :=
  [(lit "op", .str (lit "status")), (lit "after", optText after)]

/-- The page of a `status` reply and its `next_after`. -/
def statusPage (H : Host) (s : Service) (pid : ℕ) (after : Option Text) :
    M (List Cursor × Option Text) := do
  match ← command H s (statusRequest after) pid with
  | .status _ _ _ consumers _ nextAfter _ _ _ => return (consumers, nextAfter)
  | _ => throw .typeError

/-- The reply to `status`, as a computation on the rows it reads. -/
def statusReply (w : World) (rows : List Cursor) : Except Exc Reply := do
  let (consumers, truncated) ← bounded (fun c : Cursor => lenEncode (c.listing w.db.head))
    ((rows.take (rowWindow + 1)).take rowWindow)
  return .status w.db.head w.db.floor w.db.usage consumers (announces rows consumers truncated)
    (if announces rows consumers truncated then consumers.getLast?.map Cursor.consumer else none)
    w.blocked w.indexUsable w.pages

/-- A name without lone surrogates can be bound. -/
theorem ofJson_after {after : Option Text} (henc : encodable (after.getD []) = true) :
    Sql.ofJson (if (optText after).truthy then optText after else .str [])
      = .ok (.text (after.getD [])) := by
  rcases after with _ | t
  · rfl
  · rcases t with _ | ⟨c, t⟩
    · rfl
    · exact if_pos henc

/-- **One `status` request.** -/
theorem command_status (s : Service) (pid : ℕ) {after : Option Text}
    (henc : encodable (after.getD []) = true) (w : World) :
    command H s (statusRequest after) pid w
      = (statusReply w (w.db.consumersAfter (after.getD [])), w) := by
  change status H (statusRequest after) w = _
  unfold status
  rw [get_bind]
  dsimp only
  rw [show Object.get (statusRequest after) (lit "after") = optText after from rfl,
    ofJson_after henc, lift_bind]
  simp only [Host.textAffinity]
  unfold statusReply Db.consumersAfter
  rw [lift_bind]
  rcases bounded (fun c : Cursor => lenEncode (c.listing w.db.head))
      (((w.db.cursors.rows.filter fun c => decide (after.getD [] < c.consumer)).insertionSort
        (fun a b => a.consumer ≤ b.consumer) |>.take (rowWindow + 1)).take
          rowWindow) with exc | page
  · rfl
  · rfl

section status

variable {s : Service} {pid : ℕ} {w : World} {after : Option Text}

/-- A status lists a beginning of its rows, and says where to go on when there are more. -/
theorem statusReply_eq_ok {rows : List Cursor} {reply : Reply}
    (h : statusReply w rows = .ok reply) :
    ∃ consumers rest more, reply = .status w.db.head w.db.floor w.db.usage consumers more
        (if more then consumers.getLast?.map Cursor.consumer else none) w.blocked
        w.indexUsable w.pages ∧
      rows = consumers ++ rest ∧ (more = false → rest = []) ∧ (more = true → consumers ≠ []) := by
  obtain ⟨⟨consumers, truncated⟩, hb, h⟩ := except_bind_eq_ok.mp h
  obtain ⟨rest, hrows, hend, hne⟩ := bounded_window hb
  exact ⟨consumers, rest, _, (Except.ok.inj h).symm, hrows, hend, hne⟩

/-- A consumer whose listing fits into a page. -/
def Db.Lists (db : Db) (c : Cursor) : Prop :=
  ∃ n, lenEncode (c.listing db.head) = .ok n ∧ n ≤ frameBudget

/-- Keys as the store holds them: not empty, and bound as text. -/
def Db.Keyed (db : Db) : Prop := ∀ c ∈ db.cursors, c.consumer ≠ [] ∧ encodable c.consumer = true

/-- **A page of the consumers is answered, and leaves exactly those behind its token.** -/
theorem statusPage_continues (hkeys : w.db.Keyed) (hfit : ∀ c ∈ w.db.cursors, w.db.Lists c)
    {u : World}
    (hu : Idle w u) (henc : encodable (after.getD []) = true) :
    ∃ page next v, statusPage H s pid after u = (.ok (page, next), v) ∧ Idle w v ∧
      Continues (fun a => encodable (a.getD []) = true) (fun a => w.db.consumersAfter (a.getD []))
        after page next := by
  have hreply : ∃ reply, statusReply u (u.db.consumersAfter (after.getD [])) = .ok reply := by
    obtain ⟨page, truncated, hp, -⟩ := @bounded_eq_ok _
      (fun c : Cursor => lenEncode (c.listing u.db.head))
      (((u.db.consumersAfter (after.getD [])).take (rowWindow + 1)).take rowWindow) fun c hc => by
        have hmem := mem_consumersAfter.mp (List.mem_of_mem_take (List.mem_of_mem_take hc))
        rw [hu.db] at hmem ⊢
        exact hfit c hmem.1
    unfold statusReply
    rw [hp]
    exact ⟨_, rfl⟩
  obtain ⟨reply, hreply⟩ := hreply
  have hcmd := command_status (H := H) s pid henc u
  rw [hreply] at hcmd
  obtain ⟨page, rest, more, rfl, hrows, hend, hne⟩ := statusReply_eq_ok hreply
  rw [hu.db] at hrows
  refine ⟨page, _, u, by unfold statusPage; rw [bind_ok hcmd]; rfl, hu, ?_, ?_⟩
  · intro hnone
    rcases more with _ | _
    · rw [hrows, hend rfl, List.append_nil]
    · obtain ⟨c, hc⟩ := Option.isSome_iff_exists.mp (List.getLast?_isSome.mpr (hne rfl))
      simp [hc] at hnone
  · intro key hkey
    rcases more with _ | _
    · cases hkey
    · obtain ⟨c, hc, rfl⟩ := Option.map_eq_some_iff.mp hkey
      have hmem : c ∈ w.db.consumersAfter (after.getD []) := by
        rw [hrows]
        exact List.mem_append_left _ (List.mem_of_getLast? hc)
      refine ⟨(hkeys c (mem_consumersAfter.mp hmem).1).2, hne rfl, ?_⟩
      rw [Option.getD_some, consumersAfter_last hrows hc, hrows]

end status

/-! ## Both reads, continued to the end -/

/-- A page that announces more is not empty, whatever the request. -/
theorem recall_more {r : Object} {w v : World} {entries : List Entry} {indexed : Bool}
    {next : Option ℕ} (h : «recall» H r w = (.ok (.recalled entries true indexed next), v)) :
    entries ≠ [] := by
  unfold «recall» at h
  rcases hq : Object.get r (lit "query") with _ | _ | _ | _ | term | _ | _
  case str =>
    simp only [hq] at h
    split at h
    · cases h
    · obtain ⟨before, u1, -, h⟩ := bind_ok_inv h
      simp only [time_bind, get_bind] at h
      obtain ⟨size, u2, -, h⟩ := bind_ok_inv h
      obtain ⟨bound, u3, -, h⟩ := bind_ok_inv h
      obtain ⟨rows, u4, -, h⟩ := bind_ok_inv h
      obtain ⟨⟨page, truncated⟩, u5, hb, h⟩ := bind_ok_inv h
      obtain ⟨hpage, -⟩ := Prod.mk.inj h
      obtain ⟨rfl, hmore, -⟩ := Reply.recalled.inj (Except.ok.inj hpage)
      exact bounded_more (Prod.mk.inj hb).1 hmore
  all_goals
    simp only [hq] at h
    cases h

/-- A status that promises more lists somebody. -/
theorem status_more {r : Object} {w v : World} {head floor pages : ℕ} {usage : Usage}
    {consumers : List Cursor} {next blocked : Option Text} {indexed : Bool}
    (h : status H r w = (.ok (.status head floor usage consumers true next blocked indexed pages),
      v)) :
    consumers ≠ [] := by
  unfold status at h
  rw [get_bind] at h
  dsimp only at h
  obtain ⟨bound, u, -, h⟩ := bind_ok_inv h
  obtain ⟨⟨page, truncated⟩, v, hb, h⟩ := bind_ok_inv h
  obtain ⟨hpage, -⟩ := Prod.mk.inj h
  obtain ⟨-, -, -, rfl, hmore, -⟩ := Reply.status.inj (Except.ok.inj hpage)
  exact bounded_more (Prod.mk.inj hb).1 hmore

/-- **Both reads are complete.** With the clock fixed and every row within the page budget,
continuing `recall` with `next_before` until it is null gives every live matching entry exactly
once, newest first: whatever a query returns when its pages end is that list, and a query that is
accepted does come to its end. Continuing `status` with `next_after` gives every consumer once, in
ascending order. No page that announces more is empty. -/
theorem listings_complete {now : ℚ} (hclock : ∀ t, H.clock t = now) (s : Service) (pid : ℕ)
    {w : World} (hseq : w.db.Counted) (hkeys : w.db.Keyed)
    (hentries : ∀ e ∈ w.db.entries, ∃ n, e.lenEncode = .ok n ∧ n ≤ frameBudget)
    (hcursors : ∀ c ∈ w.db.cursors, w.db.Lists c) :
    (∀ term, ∃ all : List Entry,
      all.Pairwise (fun a b => b.seq < a.seq) ∧
      (∀ e, e ∈ all ↔ e ∈ w.db.entries ∧ e.live now = true ∧ w.answers H term e = true) ∧
      (∀ fuel got v, walk (recallPage H s pid term) fuel none w = (.ok (some got), v) → got = all) ∧
      (w.accepts H term → ∀ fuel, all.length < fuel →
        ∃ v, walk (recallPage H s pid term) fuel none w = (.ok (some all), v) ∧ Idle w v)) ∧
    (∃ all : List Cursor,
      all.Pairwise (fun a b => a.consumer < b.consumer) ∧
      (∀ c, c ∈ all ↔ c ∈ w.db.cursors) ∧
      (∀ fuel, all.length < fuel →
        ∃ v, walk (statusPage H s pid) fuel none w = (.ok (some all), v) ∧ Idle w v)) ∧
    (∀ r u v entries indexed next,
      «recall» H r u = (.ok (.recalled entries true indexed next), v) → entries ≠ []) ∧
    (∀ r u v head floor usage consumers next blocked indexed pages,
      status H r u = (.ok (.status head floor usage consumers true next blocked indexed pages), v) →
        consumers ≠ []) := by
  refine ⟨fun term => ?_, ?_, fun r u v entries indexed next => recall_more,
    fun r u v head floor usage consumers next blocked indexed pages => status_more⟩
  · have hfirst : recallWindow none < 2 ^ 63 := by decide
    refine ⟨w.matching H now term none, matching_sorted w now term none, fun e => ?_, ?_, ?_⟩
    · rw [mem_matching]
      constructor
      · rintro ⟨h1, h2, h3, -⟩
        exact ⟨h1, h2, h3⟩
      · rintro ⟨h1, h2, h3⟩
        exact ⟨h1, h2, h3, (hseq e h1).2⟩
    · intro fuel got v hgot
      exact walk_sound (fun _ _ _ _ _ hb hu h => recallPage_continues hclock hseq hu hb h) hfirst
        (refl_of Idle w) hgot
    · intro hterm fuel hfuel
      refine walk_total (K := fun b => recallWindow b < 2 ^ 63)
        (fun before u hb hu => ?_) hfirst (refl_of Idle w) hfuel
      obtain ⟨page, next, v, hv⟩ := @recallPage_returns H s pid _ _ _ hentries hterm u hu hb
      exact ⟨page, next, v, hv, recallPage_continues hclock hseq hu hb hv⟩
  · refine ⟨w.db.consumersAfter [], consumersAfter_sorted _ _, fun c => ?_, ?_⟩
    · rw [mem_consumersAfter]
      constructor
      · rintro ⟨h, -⟩
        exact h
      · intro h
        obtain ⟨a, rest, hcons⟩ := List.exists_cons_of_ne_nil (hkeys c h).1
        exact ⟨h, by rw [hcons]; exact List.nil_lt_cons a rest⟩
    · intro fuel hfuel
      exact walk_total (fun after u ha hu => statusPage_continues hkeys hcursors hu ha) rfl
        (refl_of Idle w) hfuel

/-! ### Two pages, by the index and by the scan -/

/-- A text of `n` letters. -/
def letters (n : ℕ) : Text := List.replicate n 0x70

/-- An entry with a path of `n` letters. -/
def alphaEntry (seq : ℕ) (body : Text) (n : ℕ) (revokedBy : Option ℕ) : Entry :=
  ⟨seq, 1700000000, .decision, .repo, none, some (letters n), body, none, 7, lit "reader", 1, .null,
    .null, none, revokedBy, none, .null⟩

/-- Two entries that do not fit into one page, one with the word inside another word, and one that
has been revoked. -/
def alphaEntries : List Entry :=
  [alphaEntry 1 (lit "alpha beta") 150000 none, alphaEntry 2 (lit "alpha") 150000 none,
    alphaEntry 3 (lit "alphabet") 1 none, alphaEntry 4 (lit "alpha") 1 (some 5)]

/-- The sequences of the four entries. -/
theorem seq_alphaEntries : alphaEntries.map Entry.seq = [1, 2, 3, 4] := rfl

/-- They are distinct. -/
theorem nodup_alphaEntries : (alphaEntries.map Entry.seq).Nodup := by
  rw [seq_alphaEntries]
  decide

/-- Three consumers, not in the order of their keys. -/
def alphaCursors : List Cursor :=
  [Cursor.fresh (lit "b") 1700000000, Cursor.fresh (lit "reader") 1700000000,
    Cursor.fresh (lit "a") 1700000001]

/-- The consumers are distinct. -/
theorem nodup_alphaCursors : (alphaCursors.map Cursor.consumer).Nodup := by decide

/-- A store with these entries and consumers; with `fts` its index can be used. -/
def alphaWorld (fts : Bool) : World :=
  { World.initial (lit "store") 1 fts with
    db := { Db.initial (lit "store") with
      head := 5
      entries := ⟨alphaEntries, nodup_alphaEntries⟩
      cursors := ⟨alphaCursors, nodup_alphaCursors⟩
      search := alphaEntries.map fun e => (e.seq, e.body)
      indexedThrough := 5 } }

/-- A host whose clock stands still. -/
def Host.still : Host := { Host.steady with clock := fun _ => 1700000000 }

/-- The rows of an index that have the word. -/
def wordHits (table : List (ℕ × Text)) (term : Text) : List ℕ :=
  (table.filter fun row => (row.2.splitOnP isSpace).contains term).map Prod.fst

/-- The same host with an index that finds whole words. -/
def Host.words : Host := { Host.still with search := fun table term => some (wordHits table term) }

/-- An entry is longer by the length of its body. -/
theorem encodedLen_alphaEntry (seq : ℕ) (body : Text) (n : ℕ) (revokedBy : Option ℕ) :
    encodedLen (alphaEntry seq body n revokedBy).json
      = encodedLen (alphaEntry seq body 0 revokedBy).json + n := by
  rw [Entry.json, Entry.json, encodedLen_row rfl, encodedLen_row rfl]
  simp only [alphaEntry, optText, List.map_cons, List.map_nil, List.sum_cons, List.sum_nil,
    dumpsLen_str, letters, (plain_replicate _).escaped]
  omega

/-- The length of an entry, from that of the one without a body. -/
theorem lenEncode_alphaEntry {seq : ℕ} {body : Text} {n : ℕ} {revokedBy : Option ℕ} {m : ℕ}
    (h : encodedLen (alphaEntry seq body 0 revokedBy).json + n = m) (hm : m ≤ limit) :
    (alphaEntry seq body n revokedBy).lenEncode = .ok m := by
  rw [Entry.lenEncode, lenEncode_eq, encodedLen_alphaEntry, h, if_neg (not_lt.mpr hm)]

/-- An entry with a short body. -/
def soleEntry : Entry :=
  ⟨1, 1700000000, .decision, .repo, none, none, lit "x", none, 7, lit "reader", 1, .null,
    .null, none, none, none, .null⟩

/-- The lengths of the four entries without their bodies, of the short entry and of a consumer. -/
theorem encodedLen_alphaEntries :
    encodedLen (alphaEntry 1 (lit "alpha beta") 0 none).json = 315
      ∧ encodedLen (alphaEntry 2 (lit "alpha") 0 none).json = 310
      ∧ encodedLen (alphaEntry 3 (lit "alphabet") 0 none).json = 313
      ∧ encodedLen (alphaEntry 4 (lit "alpha") 0 (some 5)).json = 307
      ∧ encodedLen soleEntry.json = 308
      ∧ ∀ c ∈ alphaCursors, encodedLen (c.listing 5) ≤ 100 := by decide +kernel

/-- The lengths of the four entries: the first two do not fit one page. -/
theorem lenEncode_alphaEntries :
    (alphaEntry 1 (lit "alpha beta") 150000 none).lenEncode = .ok 150315
      ∧ (alphaEntry 2 (lit "alpha") 150000 none).lenEncode = .ok 150310
      ∧ (alphaEntry 3 (lit "alphabet") 1 none).lenEncode = .ok 314
      ∧ (alphaEntry 4 (lit "alpha") 1 (some 5)).lenEncode = .ok 308 := by
  obtain ⟨h1, h2, h3, h4, -⟩ := encodedLen_alphaEntries
  exact ⟨lenEncode_alphaEntry (by rw [h1]) (by decide),
    lenEncode_alphaEntry (by rw [h2]) (by decide), lenEncode_alphaEntry (by rw [h3]) (by decide),
    lenEncode_alphaEntry (by rw [h4]) (by decide)⟩

/-- Every entry fits a page of its own. -/
theorem fits_alphaEntries : ∀ e ∈ alphaEntries, ∃ n, e.lenEncode = .ok n ∧ n ≤ frameBudget := by
  obtain ⟨h1, h2, h3, h4⟩ := lenEncode_alphaEntries
  intro e he
  simp only [alphaEntries, List.mem_cons, List.not_mem_nil, or_false] at he
  rcases he with rfl | rfl | rfl | rfl
  · exact ⟨_, h1, by decide⟩
  · exact ⟨_, h2, by decide⟩
  · exact ⟨_, h3, by decide⟩
  · exact ⟨_, h4, by decide⟩

/-- The store meets what the walks rely on. -/
theorem alphaWorld_listed (fts : Bool) : (alphaWorld fts).db.Counted ∧ (alphaWorld fts).db.Keyed ∧
    ∀ c ∈ (alphaWorld fts).db.cursors, (alphaWorld fts).db.Lists c := by
  refine ⟨?_, ?_, ?_⟩
  · intro e he
    have hseq : ∀ n ∈ alphaEntries.map Entry.seq, 0 < n ∧ (n : ℤ) < 2 ^ 62 := by
      rw [seq_alphaEntries]
      decide
    exact hseq e.seq (List.mem_map_of_mem he)
  · have hkeyed : ∀ c ∈ alphaCursors, c.consumer ≠ [] ∧ encodable c.consumer = true := by decide
    exact hkeyed
  · intro c hc
    obtain ⟨-, -, -, -, -, hlen⟩ := encodedLen_alphaEntries
    refine ⟨encodedLen (c.listing 5), ?_, (hlen c hc).trans (by decide)⟩
    change lenEncode (c.listing 5) = _
    rw [lenEncode_eq, if_neg (not_lt.mpr ((hlen c hc).trans (by decide)))]

/-- The live entries that answer the query, newest first. -/
def alphaFound (fts : Bool) : List Entry :=
  (alphaEntries.filter fun e =>
    e.live 1700000000 && (alphaWorld fts).answers Host.words (lit "alpha") e).reverse

/-- The index finds the word only as a word. -/
theorem alphaFound_indexed : alphaFound true
    = [alphaEntry 2 (lit "alpha") 150000 none, alphaEntry 1 (lit "alpha beta") 150000 none] := rfl

/-- The scan finds it inside another word too. -/
theorem alphaFound_scanned : alphaFound false
    = [alphaEntry 3 (lit "alphabet") 1 none, alphaEntry 2 (lit "alpha") 150000 none,
      alphaEntry 1 (lit "alpha beta") 150000 none] := rfl

/-- The entries found are in falling order. -/
theorem sorted_alphaFound (fts : Bool) : (alphaFound fts).Pairwise fun a b => b.seq < a.seq := by
  have hsorted : (alphaEntries.map Entry.seq).Pairwise (· < ·) := by
    rw [seq_alphaEntries]
    decide
  exact List.pairwise_reverse.mpr ((List.pairwise_map.mp hsorted).sublist List.filter_sublist)

/-- The entries found, by the index and by the scan. -/
theorem matching_alphaWorld (fts : Bool) :
    (alphaWorld fts).matching Host.words 1700000000 (lit "alpha") none = alphaFound fts := by
  refine List.Pairwise.eq_of_mem_iff (r := InvImage (· > ·) Entry.seq) (matching_sorted _ _ _ _)
    (sorted_alphaFound fts) fun e => ?_
  rw [mem_matching, alphaFound, List.mem_reverse, List.mem_filter, Bool.and_eq_true]
  constructor
  · rintro ⟨hmem, hlive, hanswers, -⟩
    exact ⟨hmem, hlive, hanswers⟩
  · rintro ⟨hmem, hlive, hanswers⟩
    exact ⟨hmem, hlive, hanswers, ((alphaWorld_listed fts).1 e hmem).2⟩

/-- The query is accepted, by the index and by the scan. -/
theorem accepts_alphaWorld (fts : Bool) : (alphaWorld fts).accepts Host.words (lit "alpha") :=
  ⟨by decide, by decide, fun _ => by decide⟩

/-- A page that the third row does not fit into. -/
theorem bounded_three {α : Type} {size : α → Except Exc ℕ} {a b c : α} {i j k : ℕ}
    (ha : size a = .ok i)
    (hb : size b = .ok j) (hc : size c = .ok k) (h1 : i ≤ frameBudget) (h2 : i + j ≤ frameBudget)
    (h3 : frameBudget < i + j + k) : bounded size [a, b, c] = .ok ([a, b], true) := by
  have hi : ¬ frameBudget < i := not_lt.mpr h1
  have hij : ¬ frameBudget < i + j := not_lt.mpr h2
  simp [bounded, boundedFrom, ha, hb, hc, hi, hij, h3, bind, Except.bind, pure, Except.pure]

/-- The service that is asked. -/
def alphaService : Service := ⟨lit "repo", lit "generation"⟩

/-- The scan has more rows than one page takes: it is continued below the second entry. -/
theorem recallPage_scanned :
    recallPage Host.words alphaService 7 (lit "alpha") none (alphaWorld false)
      = (.ok ([alphaEntry 3 (lit "alphabet") 1 none, alphaEntry 2 (lit "alpha") 150000 none],
        some 2),
        { alphaWorld false with tick := (alphaWorld false).tick + 1 }) := by
  have hclock : Host.words.clock (alphaWorld false).tick = 1700000000 := rfl
  have hhits : (alphaWorld false).indexHits Host.words (lit "alpha") = none := rfl
  have hbounded : bounded Entry.lenEncode (alphaFound false)
      = .ok ([alphaEntry 3 (lit "alphabet") 1 none, alphaEntry 2 (lit "alpha") 150000 none],
        true) := by
    rw [alphaFound_scanned]
    obtain ⟨h1, h2, h3, -⟩ := lenEncode_alphaEntries
    exact bounded_three h3 h2 h1 (by decide) (by decide) (by decide)
  refine recallPage_of_reply (accepts_alphaWorld false) (by decide) true false ?_
  rw [hclock, hhits, matching_alphaWorld]
  have hlen : (alphaFound false).length ≤ rowWindow := by
    rw [alphaFound_scanned]
    decide
  unfold recallReply
  rw [List.take_of_length_le (hlen.trans (Nat.le_succ _)), List.take_of_length_le hlen, hbounded]
  rfl

/-- The same query by the index and by the scan, where it takes two pages, and the consumers. -/
theorem listings_complete_twoPages :
    (∃ v, walk (recallPage Host.words alphaService 7 (lit "alpha")) 3 none (alphaWorld true)
        = (.ok (some [alphaEntry 2 (lit "alpha") 150000 none,
          alphaEntry 1 (lit "alpha beta") 150000 none]), v))
      ∧ (∃ v, walk (recallPage Host.words alphaService 7 (lit "alpha")) 4 none (alphaWorld false)
        = (.ok (some [alphaEntry 3 (lit "alphabet") 1 none, alphaEntry 2 (lit "alpha") 150000 none,
          alphaEntry 1 (lit "alpha beta") 150000 none]), v))
      ∧ (∃ v, recallPage Host.words alphaService 7 (lit "alpha") none (alphaWorld false)
        = (.ok ([alphaEntry 3 (lit "alphabet") 1 none, alphaEntry 2 (lit "alpha") 150000 none],
          some 2), v))
      ∧ ∃ v, walk (statusPage Host.words alphaService 7) 4 none (alphaWorld true)
        = (.ok (some [Cursor.fresh (lit "a") 1700000001, Cursor.fresh (lit "b") 1700000000,
          Cursor.fresh (lit "reader") 1700000000]), v) := by
  have hlisted (fts : Bool) := listings_complete (H := Host.words) (fun _ => rfl) alphaService 7
    (alphaWorld_listed fts).1 (alphaWorld_listed fts).2.1 fits_alphaEntries
    (alphaWorld_listed fts).2.2
  have hrecall (fts : Bool) (n : ℕ) (hn : (alphaFound fts).length < n) :
      ∃ v, walk (recallPage Host.words alphaService 7 (lit "alpha")) n none (alphaWorld fts)
        = (.ok (some (alphaFound fts)), v) := by
    obtain ⟨all, hall, hmem, -, hwalk⟩ := (hlisted fts).1 (lit "alpha")
    obtain rfl : all = alphaFound fts := by
      refine List.Pairwise.eq_of_mem_iff (r := InvImage (· > ·) Entry.seq) hall
        (sorted_alphaFound fts) fun e => ?_
      rw [hmem, alphaFound, List.mem_reverse, List.mem_filter, Bool.and_eq_true]
      rfl
    obtain ⟨v, hv, -⟩ := hwalk (accepts_alphaWorld fts) n hn
    exact ⟨v, hv⟩
  have hkeys : [Cursor.fresh (lit "a") 1700000001, Cursor.fresh (lit "b") 1700000000,
      Cursor.fresh (lit "reader") 1700000000].Pairwise fun a b => a.consumer < b.consumer :=
    List.pairwise_map.mp (by decide : [lit "a", lit "b", lit "reader"].Pairwise (· < ·))
  obtain ⟨all, hall, hmem, hwalk⟩ := (hlisted true).2.1
  obtain rfl : all = [Cursor.fresh (lit "a") 1700000001, Cursor.fresh (lit "b") 1700000000,
      Cursor.fresh (lit "reader") 1700000000] := by
    refine List.Pairwise.eq_of_mem_iff (r := InvImage (· < ·) Cursor.consumer) hall hkeys fun c =>
      ?_
    rw [hmem]
    change c ∈ alphaCursors ↔ _
    rw [alphaCursors]
    simp only [List.mem_cons]
    tauto
  obtain ⟨v, hv, -⟩ := hwalk 4 (by decide)
  have hindexed := hrecall true 3 (by decide)
  have hscanned := hrecall false 4 (by decide)
  rw [alphaFound_indexed] at hindexed
  rw [alphaFound_scanned] at hscanned
  exact ⟨hindexed, hscanned, ⟨_, recallPage_scanned⟩, v, hv⟩

/-! ### Queries that are refused -/

/-- A store with one entry and no index. -/
def soleWorld : World :=
  { World.initial (lit "store") 1 false with
    db := { Db.initial (lit "store") with
      head := 1
      entries := ⟨[soleEntry], by simp⟩
      cursors := ⟨[Cursor.fresh (lit "reader") 1700000000], by simp⟩ } }

/-- The one entry fits a page. -/
theorem fits_soleWorld : ∀ e ∈ soleWorld.db.entries, ∃ n, e.lenEncode = .ok n
    ∧ n ≤ frameBudget := by
  intro e he
  obtain rfl := List.mem_singleton.mp he
  obtain ⟨-, -, -, -, hlen, -⟩ := encodedLen_alphaEntries
  refine ⟨308, ?_, by decide⟩
  rw [Entry.lenEncode, lenEncode_eq, hlen]
  rfl

/-- A query whose pattern is two bytes above the limit of the engine. -/
def longQuery : Text := List.replicate 50000 0x78

/-- The pattern of the long query is above what the engine takes. -/
theorem patternLen_longQuery : patternLen longQuery = 50002 := by
  have h1 : utf8Len longQuery = 50000 := by
    simp only [utf8Len, longQuery, List.map_replicate, List.sum_replicate]
    rfl
  have h2 : (longQuery.filter fun c => c.val == 0x5c || c.val == 0x25 || c.val == 0x5f) = [] := by
    rw [List.filter_eq_nil_iff]
    intro c hc
    rw [List.eq_of_mem_replicate hc]
    decide
  rw [patternLen, h1, h2]
  rfl

/-- What `recall` refuses it never lists: on a store with one live entry, neither a blank query nor
one with a pattern above the limit of the engine is ever continued to an end. -/
theorem recall_never_ends :
    (∀ e ∈ soleWorld.db.entries, ∃ n, e.lenEncode = .ok n ∧ n ≤ frameBudget) ∧
      (strip longQuery).isEmpty = false ∧ encodable longQuery = true ∧
      ∀ term, term = longQuery ∨ term = lit " " → ∀ fuel all v,
        walk (recallPage Host.still ⟨lit "repo", lit "generation"⟩ 7 term) fuel none soleWorld
          ≠ (.ok (some all), v) := by
  have hblank : (strip longQuery).isEmpty = false := by
    have hne := strip_ne_nil (t := longQuery) (c := 0x78)
      (List.mem_replicate.mpr ⟨by decide, rfl⟩) (by decide)
    rwa [← Bool.not_eq_true, List.isEmpty_iff]
  refine ⟨fits_soleWorld, hblank, ?_, fun term hterm fuel all v hwalk => ?_⟩
  · rw [encodable, List.all_eq_true]
    intro c hc
    rw [List.eq_of_mem_replicate hc]
    decide
  · rcases fuel with _ | fuel
    · cases hwalk
    · obtain ⟨⟨page, next⟩, u, hu, -⟩ := bind_ok_inv hwalk
      obtain ⟨reply, u', hcmd, -⟩ := bind_ok_inv hu
      rw [command_recall _ _ _ _ (by decide)] at hcmd
      rcases hterm with rfl | rfl
      · rw [if_neg (by simp [hblank])] at hcmd
        obtain ⟨-, -, h⟩ := except_bind_eq_ok.mp (Prod.mk.inj hcmd).1
        obtain ⟨rows, hsel, -⟩ := except_bind_eq_ok.mp h
        have hlong : soleWorld.selects Host.still (Host.still.clock soleWorld.tick) longQuery none
            = .error (.sqlite .other) := by
          have hindex : soleWorld.indexHits Host.still longQuery = none := rfl
          have hrows : soleWorld.db.recallRows (Host.still.clock soleWorld.tick)
              (recallWindow none) ≠ [] := by
            decide
          unfold World.selects
          rw [hindex]
          dsimp only
          rw [if_pos]
          rw [patternLen_longQuery]
          exact ⟨hrows, by decide⟩
        rw [hlong] at hsel
        cases hsel
      · cases hcmd

end PeerBridge.Memory
