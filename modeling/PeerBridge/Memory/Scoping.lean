import PeerBridge.Memory.Idempotency

/-!
# The scope of an idempotency key

A keyed write is stored under the repository, the consumer and the key, joined by NUL characters
(`scopedKey`). Neither a consumer nor a key is forbidden to contain that character, so the joined
text does not always determine its parts. `Straddles` names the pairs it confuses: one consumer is
the other one continued by a NUL and a text that the other one's key begins with.

* `scopedKey_eq_iff`: two scoped keys of one repository are equal exactly on equal and on straddling
  pairs.
* `Run.idem_wrote`: every deduplication row of a run was left by an earlier append of the run.
* `keyed_writes_separate`: so the answer of a keyed request refers to a write of the same consumer
  and key, unless the two requests straddle.
* `straddling_consumers_share_a_key`: a run in which one consumer is answered from the write of
  another.

Source: `memory.py`, `Store.note`, `MemoryCommands.consumer`.
-/

namespace PeerBridge.Memory

open Py Relational Effects Effects.Prog Relation

variable {H : Host}

/-! ## Joined keys -/

/-- One consumer continues the other by a NUL and a text `m` that the other one's key begins
with. -/
def Straddles (c k c' k' : Text) : Prop :=
  ∃ m, (c' = c ++ 0 :: m ∧ k = m ++ 0 :: k') ∨ (c = c' ++ 0 :: m ∧ k' = m ++ 0 :: k)

/-- Two texts joined to two others by the same character. -/
theorem append_cons_eq_iff {α : Type} {z : α} {c k c' k' : List α} :
    c ++ z :: k = c' ++ z :: k' ↔ (c = c' ∧ k = k') ∨
      ∃ m, (c' = c ++ z :: m ∧ k = m ++ z :: k') ∨ (c = c' ++ z :: m ∧ k' = m ++ z :: k) := by
  rw [List.append_eq_append_iff]
  constructor
  · rintro (⟨m, rfl, h⟩ | ⟨m, rfl, h⟩)
    · rcases m with _ | ⟨y, m⟩
      · simp only [List.nil_append, List.cons.injEq, true_and] at h
        exact .inl ⟨by simp, h⟩
      · simp only [List.cons_append, List.cons.injEq] at h
        obtain ⟨rfl, rfl⟩ := h
        exact .inr ⟨m, .inl ⟨rfl, rfl⟩⟩
    · rcases m with _ | ⟨y, m⟩
      · simp only [List.nil_append, List.cons.injEq, true_and] at h
        exact .inl ⟨by simp, h.symm⟩
      · simp only [List.cons_append, List.cons.injEq] at h
        obtain ⟨rfl, rfl⟩ := h
        exact .inr ⟨m, .inr ⟨rfl, rfl⟩⟩
  · rintro (⟨rfl, rfl⟩ | ⟨m, ⟨rfl, rfl⟩ | ⟨rfl, rfl⟩⟩)
    · exact .inl ⟨[], by simp, by simp⟩
    · exact .inl ⟨z :: m, rfl, rfl⟩
    · exact .inr ⟨z :: m, rfl, rfl⟩

/-- **What a scoped key determines.** -/
theorem scopedKey_eq_iff {repo c c' : Text} {v v' : Json} :
    scopedKey H repo c v = scopedKey H repo c' v' ↔
      (c = c' ∧ H.str v = H.str v') ∨ Straddles c (H.str v) c' (H.str v') := by
  unfold scopedKey Straddles
  simp only [List.append_assoc, List.append_cancel_left_eq, List.cons_append, List.cons.injEq,
    true_and]
  exact append_cons_eq_iff

/-- Consumers without the separator never straddle. -/
theorem not_straddles {c k c' k' : Text} (h : 0 ∉ c) (h' : 0 ∉ c') : ¬ Straddles c k c' k' := by
  rintro ⟨m, ⟨rfl, -⟩ | ⟨rfl, -⟩⟩
  · apply h'
    simp
  · apply h
    simp

/-! ## Where a deduplication row comes from -/

/-- The event was handled by a service of this repository, if it was a request at all. -/
def Event.Serves (e : Event H) (repo : Text) : Prop :=
  ∀ s r pid, e.act = .request s r pid → s.repo = repo

/-- **Every deduplication row was left by an append of the run.** -/
theorem Run.idem_wrote {storeId : Text} {pages : ℕ} {fts : Bool} {past : List (Event H)} {w : World}
    (h : Run H (World.initial storeId pages fts) past w) {i : Idem} (hi : i ∈ w.db.idem) :
    ∃ e ∈ past, ∃ s x, Wrote e s x i := by
  induction h with
  | nil => exact absurd hi (Table.not_mem_empty i)
  | @snoc past w h e he ih =>
    subst he
    have hold (hb : i ∈ e.before.db.idem) : ∃ e' ∈ past ++ [e], ∃ s x, Wrote e' s x i := by
      obtain ⟨e', he', hw⟩ := ih hb
      exact ⟨e', List.mem_append_left _ he', hw⟩
    rcases e.shrinks_or_appends with hs | ⟨s, r, x, v, ha⟩
    · exact hold (hs.idem i hi)
    · rcases ha.commits.effect.idem with ⟨-, hd⟩ | ⟨j, hj, -, -, hins⟩
      · rw [hd] at hi
        exact hold (ha.maint.shrinks.idem i hi)
      · rcases (Table.mem_insert? hins).mp hi with hv | rfl
        · exact hold (ha.maint.shrinks.idem i hv)
        · have hkey : x.args.key.isNull = false := by
            rcases ha.idem with ⟨hn, -⟩ | ⟨hk, -⟩
            · rw [hj] at hn
              cases hn
            · exact hk
          obtain ⟨i', hw⟩ := ha.wrote hkey
          obtain ⟨u, hk⟩ := hw.keyed
          obtain rfl := Option.some.inj (hj.symm.trans hk.idem)
          exact ⟨e, by simp, s, x, hw⟩

/-! ## A conflict is a row found -/

/-- Any exception but the refusal of a key in use. -/
def Unconflicted (e : Exc) : Prop := ∀ d c, e ≠ .refused .idempotencyConflict d c

/-- A storage error is no conflict. -/
theorem Storage.unconflicted {e : Exc} (h : Storage e) : Unconflicted e := by
  intro d c he
  subst he
  cases h

/-- An error before anything is stored is no conflict. -/
theorem Unstored.unconflicted {e : Exc} (h : Unstored e) : Unconflicted e := by
  intro d c he
  subst he
  cases h

/-- An append never reports a conflict. -/
theorem raises_noteAppend (consumer : Text) (a : NoteArgs) (pid : ℕ) (d : Draft) (key : Option Text)
    (mark : Text) (due : ℚ) : Raises Unconflicted (noteAppend H consumer a pid d key mark due) := by
  have hmut (need : ℕ) (control : Bool) : Raises Unconflicted
      (mutation H need 1 control (appendRow H consumer a pid d key mark due)) := by
    intro w e w' h
    rcases mutation_inv (keeps_appendRow consumer a pid d key mark due) h with ⟨-, e', he,
      hs | ⟨w1, w2, -, hb⟩⟩ |
      ⟨_, _, _, -, -, -, -, -, he | he⟩
    · cases he
      exact hs.unconflicted
    · cases he
      exact (raises_appendRow consumer a pid d key mark due w1 e w2 hb).unconflicted
    · cases he
    · cases he
      nofun
  unfold noteAppend
  refine Raises.bind (Raises.lift fun _ h => (noteCharge_unstored h).unconflicted) fun need =>
    Raises.bind (Raises.tryCatch (hmut _ _) fun exc hexc => ?_) fun _ => Raises.pure _
  rcases exc with _ | _ | _ | _ | _ | _ | _
  all_goals first
    | exact Raises.throw hexc
    | exact Raises.throw nofun
    | exact Raises.bind (fun _ _ _ h => by cases h) fun _ => Raises.throw nofun

/-- The checks of a note never report a conflict. -/
theorem noteChecks_unconflicted {consumer : Text} {a : NoteArgs} {pid : ℕ} {e : Exc}
    (h : noteChecks H consumer a pid = .error e) : Unconflicted e := by
  intro d c he
  subst he
  cases noteChecks_unchecked h

/-- A conflict is reported of a stored key only. -/
theorem noteLookup_found {key mark d : Text} {deadline : Json} {c : Option SqliteError}
    {w w' : World}
    (h : noteLookup H key mark deadline w = (.error (.refused .idempotencyConflict d c), w')) :
    ∃ f, w.db.idem.find key = some f := by
  unfold noteLookup at h
  split at h
  · cases h
  rw [time_bind] at h
  rcases lift_bind_inv h with ⟨e, he, hr, -⟩ | ⟨due, -, h⟩
  · obtain rfl := Except.error.inj hr
    unfold deadlineValue at he
    split at he
    · cases he
    · split at he <;> cases he
    · cases he
    · cases he
    · cases he
  split at h
  · cases h
  split at h
  · cases h
  rcases lift_bind_inv h with ⟨e, he, hr, -⟩ | ⟨_, -, h⟩
  · obtain rfl := Except.error.inj hr
    cases measure_error he
  rw [database_bind] at h
  rcases hf : w.db.idem.find key with _ | f
  · rw [hf] at h
    cases h
  · exact ⟨f, rfl⟩

/-- **A keyed write answered from a row, or refused for one, found it under its own scoped key.** -/
theorem note_found_row {repo consumer : Text} {a : NoteArgs} {pid : ℕ} {w w' : World}
    {n : Except Exc Noted} (h : note H repo consumer a pid w = (n, w'))
    (hn : (∃ m, n = .ok m ∧ m.duplicate = true) ∨ ∃ d c,
      n = .error (.refused .idempotencyConflict d c)) :
    ∃ f ∈ w.db.idem, f.key = scopedKey H repo consumer a.key ∧
      ∀ m, n = .ok m → m.seq = f.seq := by
  rcases hn with ⟨m, rfl, hm⟩ | ⟨d, c, rfl⟩
  · obtain ⟨-, _, he⟩ | ⟨d, -, ⟨-, due, f, -, -, -, hf, -, -, hr⟩ | ⟨_, x, _, _, -, -, -, -,
        hr | hr⟩⟩ :=
      note_inv h
    · cases he
    · obtain rfl := Except.ok.inj hr
      obtain ⟨hmem, hkey⟩ := Table.find_eq_some.mp hf
      refine ⟨f, hmem, hkey, ?_⟩
      intro m' hm'
      obtain rfl := Except.ok.inj hm'
      rfl
    · obtain rfl := Except.ok.inj hr
      cases hm
    · cases hr
  · unfold note at h
    rcases lift_bind_inv h with ⟨e, he, hr, -⟩ | ⟨draft, -, h⟩
    · obtain rfl := Except.error.inj hr
      exact absurd rfl (noteChecks_unconflicted he d c)
    split at h
    · exact absurd rfl (raises_noteAppend _ _ _ _ _ _ _ _ _ _ h d c)
    rcases bind_inv h with ⟨e, hl, hr⟩ | ⟨⟨due, found⟩, v, -, h⟩
    · obtain rfl := Except.error.inj hr
      obtain ⟨f, hf⟩ := noteLookup_found hl
      obtain ⟨hmem, hkey⟩ := Table.find_eq_some.mp hf
      exact ⟨f, hmem, hkey, nofun⟩
    rcases found with _ | m
    · exact absurd rfl (raises_noteAppend _ _ _ _ _ _ _ _ _ _ h d c)
    · cases h

/-! ## Runs -/

/-- **A keyed write meets writes of its own consumer and key only, unless the requests straddle.**
Two different pairs of a consumer and a string key have different scoped keys exactly when they do
not straddle. And in every run of the services of one repository, a keyed request that is answered
as a duplicate or refused as a conflict found the row of an earlier append of the run; if it does
not straddle the request of that append, both have the same consumer and the same key text. -/
theorem keyed_writes_separate {repo storeId : Text} {pages : ℕ} {fts : Bool} {past : List (Event H)}
    {w : World} (h : Run H (World.initial storeId pages fts) past w)
    (hserves : ∀ e ∈ past, e.Serves repo) :
    (∀ c k c' k' : Text, (c, k) ≠ (c', k') →
      (scopedKey H repo c (.str k) ≠ scopedKey H repo c' (.str k') ↔ ¬ Straddles c k c' k')) ∧
    ∀ earlier e later, past = earlier ++ e :: later → ∀ s r pid consumer u n,
      Notes e s r pid consumer u n →
      ((∃ m, n = .ok m ∧ m.duplicate = true) ∨
        ∃ d c, n = .error (.refused .idempotencyConflict d c)) →
      ∃ e' ∈ earlier, ∃ s' x i, Wrote e' s' x i ∧ (∀ m, n = .ok m → m.seq = i.seq) ∧
        (¬ Straddles consumer (H.str (noteArgs r).key) x.consumer (H.str x.args.key) →
          x.consumer = consumer ∧ H.str x.args.key = H.str (noteArgs r).key) := by
  constructor
  · intro c k c' k' hne
    rw [ne_eq, not_iff_not, scopedKey_eq_iff]
    constructor
    · rintro (⟨hc, hk⟩ | hs)
      · exact absurd (Prod.ext hc hk) hne
      · exact hs
    · exact .inr
  · intro earlier e later hpast s r pid consumer u n hnotes hn
    obtain ⟨f, hf, hkey, hseq⟩ := note_found_row hnotes.run hn
    have hbefore : f ∈ e.before.db.idem :=
      (maybeExpire_maint hnotes.maintained).shrinks.idem f hf
    obtain ⟨e', he', s', x, hw⟩ := (h.at hpast).idem_wrote hbefore
    refine ⟨e', he', s', x, f, hw, hseq, ?_⟩
    intro hstr
    obtain ⟨u', hk⟩ := hw.keyed
    obtain ⟨r', v, ha, -⟩ := hw.appends
    have hrepo : s'.repo = repo := hserves e' (hpast ▸ List.mem_append_left _ he') _ _ _ ha.act
    have hrepo' : s.repo = repo := hserves e (hpast ▸ by simp) _ _ _ hnotes.act
    have heq : scopedKey H repo consumer (noteArgs r).key
        = scopedKey H repo x.consumer x.args.key := by
      rw [← hrepo', ← hkey, hk.key, hrepo, hrepo']
    rcases scopedKey_eq_iff.mp heq with ⟨hc, hs⟩ | hs
    · exact ⟨hc.symm, hs.symm⟩
    · exact absurd hs hstr

/-- The sequence a `note` was answered with, and whether it was a duplicate. -/
def Reply.notedAs : Reply → Option (ℕ × Bool)
  | .noted m => some (m.seq, m.duplicate)
  | _ => none

/-- How a `note` ended: its sequence and whether it was a duplicate, or the refusal. -/
def Event.notedAs (e : Event H) : Except (Option Code) (ℕ × Bool) :=
  match e.result with
  | .ok (some reply) => match reply.notedAs with
    | some p => .ok p
    | none => .error none
  | .error (.refused code _ _) => .error (some code)
  | _ => .error none

/-- A run of one keyed request made twice: the repeat is answered from the row its own consumer
left. -/
theorem keyed_writes_separate_twice :
    let first := eventAt (World.initial (lit "store") 10 true) keyedRequest 7
    let second := eventAt first.after keyedRequest 7
    second.notedAs = .ok (1, true) ∧ ∃ s x i, Wrote first s x i ∧ x.consumer = lit "a" := by
  intro first second
  have hrun : Run Host.steady (World.initial (lit "store") 10 true) [first, second] second.after :=
    .snoc (.snoc .nil first rfl) second rfl
  have hserves : ∀ e ∈ [first, second], e.Serves (lit "repo") := by
    intro e he s r pid hact
    simp only [List.mem_cons, List.not_mem_nil, or_false] at he
    rcases he with rfl | rfl
    · exact ((Act.request.inj hact).1 ▸ rfl)
    · exact ((Act.request.inj hact).1 ▸ rfl)
  let u := (maybeExpire Host.steady second.before).2
  obtain ⟨hdup, hkept⟩ : second.notedAs = .ok (1, true) ∧
      (maybeExpire Host.steady second.before).1 = .ok () := by
    decide +kernel
  have hu : maybeExpire Host.steady second.before = (.ok (), u) := Prod.ext hkept rfl
  obtain ⟨n, hn⟩ := Event.notes (show second.act = _ from rfl) rfl (by decide +kernel)
    (show consumerOf _ = .ok (lit "a") by decide +kernel) hu
  have hok : ∃ m, n = .ok m ∧ m.duplicate = true := by
    have h1 := hdup
    unfold Event.notedAs at h1
    rw [hn.result] at h1
    rcases n with e | m
    · rcases e with _ | _ | _ | _ | _ | _ | _ <;> cases h1
    · exact ⟨m, rfl, (Prod.mk.inj (Except.ok.inj h1)).2⟩
  obtain ⟨e', he', s, x, i, hw, -, hsame⟩ :=
    (keyed_writes_separate hrun hserves).2 [first] second [] rfl _ _ _ _ _ _ hn (.inl hok)
  obtain rfl := List.mem_singleton.mp he'
  obtain ⟨r, v, ha, -⟩ := hw.appends
  obtain ⟨rfl, rfl, -⟩ :=
    Act.request.inj (ha.act.symm.trans (show first.act = .request _ _ _ from rfl))
  have hcon : x.consumer = lit "a" := Except.ok.inj (ha.consumer.symm.trans (by decide +kernel))
  refine ⟨hdup, _, x, i, hw, (hsame ?_).1⟩
  rw [hcon]
  exact not_straddles (by decide +kernel) (by decide +kernel)

/-! ## Two consumers, one scoped key -/

/-- A keyed request of the given consumer. -/
def keyedBy (consumer key body : Text) : Object :=
  [(lit "op", .str (lit "note")), (lit "consumer", .str consumer),
    (lit "type", .str (lit "finding")),
    (lit "body", .str body), (lit "key", .str key), (lit "deadline", .int 1700000100)]

/-- **Two consumers that share a scoped key.** The consumer `a␀b` writes under the key `c`; then the
consumer `a` writes under the key `b␀c`. With the same content the second one is answered as a
duplicate of the first, and with other content it is refused as a conflict. -/
theorem straddling_consumers_share_a_key :
    let first := eventAt (World.initial (lit "store") 10 true)
      (keyedBy (lit "a\x00b") (lit "c") (lit "x")) 7
    let second := eventAt first.after (keyedBy (lit "a") (lit "b\x00c") (lit "x")) 8
    let third := eventAt second.after (keyedBy (lit "a") (lit "b\x00c") (lit "y")) 8
    consumerOf (keyedBy (lit "a\x00b") (lit "c") (lit "x")) = .ok (lit "a\x00b") ∧
      consumerOf (keyedBy (lit "a") (lit "b\x00c") (lit "x")) = .ok (lit "a") ∧
      scopedKey Host.steady (lit "repo") (lit "a\x00b") (.str (lit "c"))
        = scopedKey Host.steady (lit "repo") (lit "a") (.str (lit "b\x00c")) ∧
      Run Host.steady (World.initial (lit "store") 10 true) [first, second, third] third.after ∧
      first.notedAs = .ok (1, false) ∧ second.notedAs = .ok (1, true) ∧
      third.notedAs = .error (some .idempotencyConflict) := by
  intro first second third
  obtain ⟨hwriter, hother, hshared, hfirst, hsecond, hthird⟩ :
      consumerOf (keyedBy (lit "a\x00b") (lit "c") (lit "x")) = .ok (lit "a\x00b") ∧
      consumerOf (keyedBy (lit "a") (lit "b\x00c") (lit "x")) = .ok (lit "a") ∧
      scopedKey Host.steady (lit "repo") (lit "a\x00b") (.str (lit "c"))
        = scopedKey Host.steady (lit "repo") (lit "a") (.str (lit "b\x00c")) ∧
      first.notedAs = .ok (1, false) ∧ second.notedAs = .ok (1, true) ∧
      third.notedAs = .error (some .idempotencyConflict) := by
    decide +kernel
  exact ⟨hwriter, hother, hshared, .snoc (.snoc (.snoc .nil first rfl) second rfl) third rfl,
    hfirst, hsecond, hthird⟩

end PeerBridge.Memory
