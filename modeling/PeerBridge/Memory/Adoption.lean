import PeerBridge.Memory.Catalog

/-!
# Whose file a store may write to

`Permitted` says which files are a store's to write to: a file nobody created anything in, an
unfinished start of this schema without data and identity, and a file whose identity rows name this
repository and versions this runtime supports. `openStore` writes to no other file as long as the
classification sees every object (`openSteps_inv`).

It does not see every object. The catalog is read with `name NOT LIKE 'sqlite_%'`, where `_` stands
for any character, so a table called `sqlitebrowser` is left out like the names SQLite reserves. A
file that holds nothing else counts as empty and is initialised (`foreign_file_adopted`).
`adoption_guarded_iff` is the exact condition.

Source: `memory.py`, `Store.classify`, `Store.inspect`, `Store.__init__`.
-/

namespace PeerBridge.Memory.Catalog

open Py Effects Effects.Prog

/-! ## Whose file -/

/-- A name that SQLite keeps for itself. -/
def CatalogRow.reserved (o : CatalogRow) : Bool := (lit "sqlite_").isPrefixOf o.name

/-- What somebody created in a file. -/
def File.created (f : File) : List CatalogRow := f.objects.filter fun o => !o.reserved

/-- An object somebody created that the classification does not look at. -/
def CatalogRow.overlooked (o : CatalogRow) : Bool := like (lit "sqlite_%") o.name && !o.reserved

/-- An object of this schema: its definition, the search table, or a shadow table of that. -/
def Ours (E : Driver) (objects : List CatalogRow) (o : CatalogRow) : Prop :=
  (o.name, normalisedSql E.fold o.sql) ∈ expectedSql E ∨ o.isSearch E = true ∨
    (o.name ∈ ftsShadows ∧ ∃ s ∈ objects, s.isSearch E = true)

/-- An unfinished start of this schema, with no data and no identity. -/
structure Unfinished (E : Driver) (objects : List CatalogRow) (f : File) : Prop where
  ours : ∀ o ∈ objects, Ours E objects o
  unused : ∀ t ∈ dataTables, t ∈ tableNames objects → f.rows t = 0
  anonymous : lit "meta" ∈ tableNames objects → f.identity = []

/-- The identity rows name this repository and supported versions. -/
structure Identified (repo : Text) (objects : List CatalogRow) (f : File) : Prop where
  table : lit "meta" ∈ tableNames objects
  repo : lookupLast f.identity (lit "repo") = some (.text repo)
  schema : cellIntOr (lookupLast f.identity (lit "schema")) = .ok schemaVersion ∨
    cellIntOr (lookupLast f.identity (lit "schema")) = .ok 3
  protocol : cellIntOr (lookupLast f.identity (lit "protocol")) = .ok protocolVersion

/-- A file whose objects are `objects` may be written to. -/
def PermittedFor (E : Driver) (repo : Text) (objects : List CatalogRow) (f : File) : Prop :=
  objects = [] ∨ Unfinished E objects f ∨ Identified repo objects f

/-- The file is this store's to write to. -/
def Permitted (E : Driver) (repo : Text) (f : File) : Prop := PermittedFor E repo f.created f

/-- No two objects of the catalog have one name. `CREATE` keeps this for tables, indexes and virtual
tables; the file format does not. -/
def Legal (f : File) : Prop := (f.objects.map CatalogRow.name).Nodup

/-! ## Reading only -/

/-- Nothing was written. -/
structure Unwritten (s s' : Opening) : Prop where
  file : s'.file = s.file
  writes : s'.writes = s.writes

instance : Std.Refl Unwritten := ⟨fun _ => ⟨rfl, rfl⟩⟩

instance : IsTrans Opening Unwritten :=
  ⟨fun _ _ _ h h' => ⟨h'.file.trans h.file, h'.writes.trans h.writes⟩⟩

variable {E : Driver}

/-- A statement that reads writes nothing. -/
theorem unwritten_readFile {α : Type} (f : File → α) : Keeps Unwritten (readFile E f) := by
  intro s
  unfold readFile
  split <;> exact ⟨rfl, rfl⟩

/-- What a read returns. -/
theorem readFile_ok {α : Type} {f : File → α} {s s' : Opening} {a : α}
    (h : readFile E f s = (.ok a, s')) :
    a = f s.file ∧ Unwritten s s' := by
  refine ⟨?_, (unwritten_readFile f).run h⟩
  unfold readFile at h
  split at h <;> cases h
  rfl

/-- A statement that reads, under a handler that writes nothing, writes nothing. -/
theorem unwritten_caught {α : Type} (f : File → α) {handler : OpenExc → Open α}
    (hh : ∀ e, Keeps Unwritten (handler e)) : Keeps Unwritten (tryCatch (readFile E f) handler) :=
  Keeps.tryCatch (unwritten_readFile f) hh

/-- A read whose failure is reported. -/
theorem caught_ok {α : Type} {f : File → α} {handler : OpenExc → Open α} {s s' : Opening} {a : α}
    (hh : ∀ e t, ∃ e', handler e t = (.error e', t))
    (h : tryCatch (readFile E f) handler s = (.ok a, s')) :
    a = f s.file ∧ Unwritten s s' := by
  obtain ⟨_, h1, he⟩ | ⟨e, u, -, h2⟩ := tryCatch_inv h
  · cases he
    exact readFile_ok h1
  · obtain ⟨e', he'⟩ := hh e u
    rw [he'] at h2
    cases h2

/-- Naming what a read has raised writes nothing. -/
theorem unwritten_errorLine : Keeps Unwritten (errorLine E) := fun _ => ⟨rfl, rfl⟩

/-- Naming its class writes nothing. -/
theorem unwritten_className : Keeps Unwritten (className E) := fun _ => ⟨rfl, rfl⟩

/-- Reading the identity writes nothing. -/
theorem unwritten_identityRows (present : List Text) :
    Keeps Unwritten (identityRows E present) := by
  refine Keeps.ite (Keeps.pure _) (unwritten_caught _ fun e => ?_)
  split
  · exact Keeps.bind unwritten_errorLine fun _ => Keeps.throw _
  · exact Keeps.throw _

/-- The identity is the stored one when there is a metadata table, and empty otherwise. -/
theorem identityRows_ok {present : List Text} {s s' : Opening} {rows : List (Text × Cell)}
    (h : identityRows E present s = (.ok rows, s')) :
    rows = if present.contains (lit "meta") then s.file.identity else [] := by
  unfold identityRows at h
  split at h
  · rename_i habsent
    cases h
    rw [if_neg (by simpa using habsent)]
  · rename_i hpresent
    rw [if_pos (by simpa using hpresent)]
    refine (caught_ok (fun e t => ?_) h).1
    cases e <;> exact ⟨_, rfl⟩

/-- Counting rows writes nothing. -/
theorem unwritten_applicationRows (present tables : List Text) :
    Keeps Unwritten (applicationRows E present tables) := by
  induction tables with
  | nil => exact Keeps.pure _
  | cons table rest ih =>
    unfold applicationRows
    refine Keeps.ite ih (Keeps.bind (unwritten_caught _ fun e => ?_) fun count => ?_)
    · split
      · exact Keeps.bind unwritten_errorLine fun _ => Keeps.throw _
      · exact Keeps.throw _
    · exact Keeps.ite (Keeps.pure _) ih

/-- No description is given only if every table that is there was read and is empty. -/
theorem applicationRows_none {present tables : List Text} {s s' : Opening}
    (h : applicationRows E present tables s = (.ok none, s')) :
    ∀ t ∈ tables, t ∈ present → s.file.rows t = 0 := by
  induction tables generalizing s with
  | nil => nofun
  | cons table rest ih =>
    intro t ht hp
    unfold applicationRows at h
    split at h
    · rename_i habsent
      rcases List.mem_cons.mp ht with rfl | ht
      · exact absurd hp (by simpa using habsent)
      · exact ih h t ht hp
    · obtain ⟨count, u, h1, h2⟩ := bind_ok_inv h
      have hread := caught_ok (fun e t => by cases e <;> exact ⟨_, rfl⟩) h1
      split at h2
      · cases h2
      · rename_i hzero
        rcases List.mem_cons.mp ht with rfl | ht
        · rw [← hread.1]
          exact not_not.mp hzero
        · rw [← hread.2.file]
          exact ih h2 t ht hp

/-! ## The verdict -/

/-- The classification writes nothing. -/
theorem unwritten_classify : Keeps Unwritten (classify E) := by
  refine Keeps.bind (unwritten_caught _ fun e => ?_) fun objects => Keeps.ite (Keeps.pure _) ?_
  · split
    · exact Keeps.throw _
    · exact Keeps.bind unwritten_errorLine fun _ => Keeps.throw _
    · exact Keeps.throw _
  · refine Keeps.bind (unwritten_identityRows _) fun identity => Keeps.ite (Keeps.pure _) ?_
    refine Keeps.ite (Keeps.throw _) (Keeps.ite (Keeps.throw _) ?_)
    refine Keeps.bind (unwritten_applicationRows _ _) fun held => ?_
    split
    · exact Keeps.throw _
    · exact Keeps.pure _

/-- The loop finds nothing wrong with the objects of this schema only. -/
theorem findObject_ours {objects : List CatalogRow} (hnames : (objects.map CatalogRow.name).Nodup)
    {o : CatalogRow} (ho : o ∈ objects)
    (h : findObject E (objects.any fun o => o.isSearch E) o = .ours) : Ours E objects o := by
  unfold findObject at h
  split at h
  · rename_i hname
    split at h
    · rename_i hfts
      obtain ⟨s, hs, hsearch⟩ := List.any_eq_true.mp hfts
      have hsame : s.name = o.name := by
        rw [eq_of_beq hname]
        simp only [CatalogRow.isSearch, Bool.and_eq_true] at hsearch
        exact eq_of_beq hsearch.1
      have hso : s = o := List.inj_on_of_nodup_map hnames hs ho hsame
      exact .inr (.inl (hso ▸ hsearch))
    · cases h
  · split at h
    · rename_i hshadow
      split at h
      · rename_i hfts
        exact .inr (.inr ⟨by simpa using hshadow, List.any_eq_true.mp hfts⟩)
      · cases h
    · split at h
      · cases h
      · rename_i p hp
        split at h
        · rename_i hsql
          refine .inl ?_
          have hkey : p.1 = o.name := by simpa using List.find?_some hp
          have hmem := List.mem_of_find?_eq_some hp
          rw [eq_of_beq hsql, ← hkey]
          exact hmem
        · cases h

/-- What a verdict says about the objects that were looked at. -/
def Verdict.Holds (E : Driver) (f : File) : Verdict → Prop
  | .empty => f.seen = []
  | .unfinished => Unfinished E f.seen f
  | .initialised => lit "meta" ∈ tableNames f.seen

/-- **A verdict is right about the objects that were looked at.** -/
theorem classify_ok {s s' : Opening} {v : Verdict} (hl : Legal s.file)
    (h : classify E s = (.ok v, s')) :
    v.Holds E s.file := by
  unfold classify at h
  obtain ⟨objects, u, h1, h2⟩ := bind_ok_inv h
  obtain ⟨rfl, hu⟩ : objects = s.file.seen ∧ Unwritten s u :=
    caught_ok (fun e t => by rcases e with _ | ⟨_ | _⟩ | _ | _ | _ | _ <;> exact ⟨_, rfl⟩) h1
  split at h2
  · rename_i hempty
    cases h2
    exact List.isEmpty_iff.mp hempty
  obtain ⟨rows, x, h3, h4⟩ := bind_ok_inv h2
  have hrows := identityRows_ok h3
  have hx := (unwritten_identityRows _).run h3
  split at h4
  · rename_i hidentity
    cases h4
    by_contra hmeta
    have habsent : (tableNames s.file.seen).contains (lit "meta") = false := by
      simpa [Verdict.Holds] using hmeta
    rw [habsent] at hrows
    simp [hrows] at hidentity
  rename_i hanonymous
  have hrows' : rows = [] := by simpa using hanonymous
  split at h4
  · cases h4
  rename_i hunknown
  split at h4
  · cases h4
  rename_i hmalformed
  obtain ⟨held, y, h5, h6⟩ := bind_ok_inv h4
  rcases held with _ | held
  swap
  · cases h6
  cases h6
  have hfile : x.file = s.file := hx.file.trans hu.file
  refine ⟨fun o ho => ?_, fun t ht hp => ?_, fun hmeta => ?_⟩
  · have hnames : (s.file.seen.map CatalogRow.name).Nodup :=
      hl.sublist (List.filter_sublist.map _)
    refine findObject_ours hnames ho ?_
    -- Neither list of the loop holds the object.
    have hfound (kind : Finding) (hnone : ¬ (!(namesFound E kind s.file.seen).isEmpty) = true) :
        findObject E (s.file.seen.any fun o => o.isSearch E) o ≠ kind := by
      intro hkind
      have hmem : o.name ∈ namesFound E kind s.file.seen :=
        List.mem_map_of_mem (List.mem_filter.mpr ⟨ho, beq_iff_eq.mpr hkind⟩)
      rw [Bool.not_eq_true, Bool.not_eq_false', List.isEmpty_iff] at hnone
      rw [hnone] at hmem
      cases hmem
    rcases hf : findObject E (s.file.seen.any fun o => o.isSearch E) o with _ | _ | _
    · exact absurd hf (hfound _ hunknown)
    · exact absurd hf (hfound _ hmalformed)
    · rfl
  · rw [← hfile]
    exact applicationRows_none h5 t ht hp
  · have hpresent : (tableNames s.file.seen).contains (lit "meta") = true := by simpa using hmeta
    rw [hpresent, hrows'] at hrows
    rw [← hu.file]
    exact hrows.symm

/-- The comparison of a version writes nothing. -/
theorem unwritten_checkVersion (rows : List (Text × Cell)) (key : Text) (current : ℤ) :
    Keeps Unwritten (checkVersion rows key current) :=
  Keeps.bind (Keeps.lift _) fun _ => Keeps.ite (Keeps.throw _)
  (Keeps.ite (Keeps.throw _) (Keeps.pure _))

/-- A version that passes is the current one, or the schema that can be migrated. -/
theorem checkVersion_ok {rows : List (Text × Cell)} {key : Text} {current : ℤ} {s s' : Opening}
    (h : checkVersion rows key current s = (.ok (), s')) :
    cellIntOr (lookupLast rows key) = .ok current ∨
      key = lit "schema" ∧ cellIntOr (lookupLast rows key) = .ok 3 := by
  unfold checkVersion at h
  obtain ⟨_, _, he, -⟩ | ⟨found, hfound, h1⟩ := lift_bind_inv h
  · cases he
  split at h1
  · cases h1
  rename_i hnew
  split at h1
  · cases h1
  rename_i hold
  rw [hfound]
  by_cases hlt : found < current
  · obtain ⟨hkey, rfl⟩ := not_not.mp fun hn => hold ⟨hlt, hn⟩
    exact .inr ⟨hkey, rfl⟩
  · exact .inl (by rw [show found = current by omega])

/-- The inspection writes nothing. -/
theorem unwritten_inspect (repo : Text) : Keeps Unwritten (inspect E repo) := by
  refine Keeps.bind (unwritten_caught _ fun e => ?_) fun rows => Keeps.ite (Keeps.throw _) ?_
  · split
    · exact Keeps.throw _
    · exact Keeps.bind unwritten_className fun _ => Keeps.throw _
    · exact Keeps.throw _
  · refine Keeps.bind (unwritten_checkVersion _ _ _) fun _ => ?_
    refine Keeps.bind (unwritten_checkVersion _ _ _) fun _ => ?_
    refine Keeps.bind (unwritten_readFile _) fun id => Keeps.bind (Keeps.lift _) fun schema => ?_
    refine Keeps.ite (Keeps.ite (Keeps.throw _) (Keeps.pure _)) ?_
    exact Keeps.ite (Keeps.throw _) (Keeps.pure _)

/-- **A file that passes the inspection is this repository's.** -/
theorem inspect_ok {repo : Text} {objects : List CatalogRow} {s s' : Opening}
    (hmeta : lit "meta" ∈ tableNames objects) (h : inspect E repo s = (.ok (), s')) :
    Identified repo objects s.file := by
  unfold inspect at h
  obtain ⟨rows, u, h1, h2⟩ := bind_ok_inv h
  obtain ⟨rfl, -⟩ : rows = s.file.identity ∧ Unwritten s u :=
    caught_ok (fun e t => by rcases e with _ | ⟨_ | _⟩ | _ | _ | _ | _ <;> exact ⟨_, rfl⟩) h1
  split at h2
  · cases h2
  rename_i hrepo
  obtain ⟨_, v, h3, h4⟩ := bind_ok_inv h2
  obtain ⟨_, x, h5, -⟩ := bind_ok_inv h4
  refine ⟨hmeta, not_not.mp hrepo, ?_, ?_⟩
  · rcases checkVersion_ok h3 with h | ⟨-, h⟩
    · exact .inl h
    · exact .inr h
  · rcases checkVersion_ok h5 with h | ⟨hkey, -⟩
    · exact h
    · exact absurd hkey (by decide)

/-! ## Opening -/

/-- **An opening writes only to a file whose objects, as far as they were looked at, are its own to
write to**; otherwise it raises. -/
theorem openSteps_inv {repo : Text} {s s' : Opening} {r : Except OpenExc Unit} (hl : Legal s.file)
    (h : openSteps E repo s = (r, s')) :
    (Unwritten s s' ∧ ∃ e, r = .error e) ∨ PermittedFor E repo s.file.seen s.file := by
  unfold openSteps at h
  obtain ⟨e, h1, rfl⟩ | ⟨_, u, h1, h2⟩ := bind_inv h
  · exact .inl ⟨(unwritten_readFile _).run h1, e, rfl⟩
  have hu := (unwritten_readFile _).run h1
  obtain ⟨e, h3, rfl⟩ | ⟨v, x, h3, h4⟩ := bind_inv h2
  · exact .inl ⟨trans_of Unwritten hu (unwritten_classify.run h3), e, rfl⟩
  have hx := trans_of Unwritten hu (unwritten_classify.run h3)
  have hverdict := classify_ok (hu.file.symm ▸ hl) h3
  rw [hu.file] at hverdict
  cases v with
  | empty => exact .inr (.inl hverdict)
  | unfinished => exact .inr (.inr (.inl hverdict))
  | initialised =>
    rw [if_pos rfl] at h4
    obtain ⟨e, h5, rfl⟩ | ⟨_, y, h5, -⟩ := bind_inv h4
    · exact .inl ⟨trans_of Unwritten hx ((unwritten_inspect repo).run h5), e, rfl⟩
    · refine .inr (.inr (.inr ?_))
      rw [← hx.file]
      exact inspect_ok (hx.file.symm ▸ hverdict) h5

/-- The handler of an opening changes what is reported only. -/
theorem openStore_inv {repo : Text} {s s' : Opening} {r : Except OpenExc Unit}
    (h : openStore E repo s = (r, s')) :
    ∃ r', openSteps E repo s = (r', s') ∧ ((∃ e, r' = .error e) → ∃ e, r = .error e) := by
  obtain ⟨a, h1, rfl⟩ | ⟨e, u, h1, h2⟩ := tryCatch_inv h
  · exact ⟨_, h1, id⟩
  · have hraised : s' = u ∧ ∃ e', r = .error e' := by
      rcases e with _ | ⟨_ | _⟩ | _ | _ | _ | _ <;> (cases h2; exact ⟨rfl, _, rfl⟩)
    obtain ⟨rfl, hr⟩ := hraised
    exact ⟨_, h1, fun _ => hr⟩

/-! ## What is looked at -/

/-- Every text matches the pattern of one percent sign. -/
theorem like_all (t : Text) : like (lit "%") t = true := by
  change (t.tails.any fun rest => rest.isEmpty) = true
  rw [List.any_eq_true]
  exact ⟨[], (List.mem_tails _ _).mpr (List.nil_suffix), rfl⟩

/-- The names SQLite keeps for itself are left out. -/
theorem reserved_left_out {o : CatalogRow} (h : o.reserved = true) :
    like (lit "sqlite_%") o.name = true := by
  obtain ⟨rest, hrest⟩ := List.isPrefixOf_iff_prefix.mp h
  rw [← hrest]
  exact like_all rest

/-- Where nothing is overlooked, everything somebody created is looked at. -/
theorem seen_eq_created {f : File} (h : ∀ o ∈ f.objects, o.overlooked = false) :
    f.seen = f.created := by
  refine List.filter_congr fun o ho => ?_
  have hover := h o ho
  rcases hres : o.reserved with _ | _
  · rw [CatalogRow.overlooked, hres] at hover
    simpa using hover
  · rw [reserved_left_out hres]

/-- A name that is looked at is looked at wherever it was created. -/
theorem mem_tableNames_seen {f : File} {name : Text} (hname : like (lit "sqlite_%") name = false) :
    name ∈ tableNames f.seen ↔ name ∈ tableNames f.created := by
  have hreserved (o : CatalogRow) (ho : o.name = name) : o.reserved = false := by
    by_contra hcon
    have hleft := (reserved_left_out (by simpa using hcon) : like (lit "sqlite_%") o.name = true)
    rw [ho, hname] at hleft
    cases hleft
  simp only [tableNames, File.seen, File.created, List.mem_map, List.mem_filter]
  constructor
  · rintro ⟨o, ⟨⟨ho, -⟩, ht⟩, hn⟩
    exact ⟨o, ⟨⟨ho, by simp [hreserved o hn]⟩, ht⟩, hn⟩
  · rintro ⟨o, ⟨⟨ho, -⟩, ht⟩, hn⟩
    exact ⟨o, ⟨⟨ho, by simp [hn, hname]⟩, ht⟩, hn⟩

/-- The identity is judged alike over the rows that are looked at and over all of them. -/
theorem identified_seen {repo : Text} {f : File} :
    Identified repo f.seen f ↔ Identified repo f.created f := by
  have hmeta : lit "meta" ∈ tableNames f.seen ↔ lit "meta" ∈ tableNames f.created :=
    mem_tableNames_seen (by decide)
  constructor
  · intro h
    exact ⟨hmeta.mp h.table, h.repo, h.schema, h.protocol⟩
  · intro h
    exact ⟨hmeta.mpr h.table, h.repo, h.schema, h.protocol⟩

/-- The names this schema creates. -/
theorem map_statementName : schemaStatements.map statementName
    = [lit "meta", lit "entries", lit "idem", lit "cursors", lit "retired", lit "snapshots",
      lit "snapshot_items", lit "entries_live"] := by
  decide +kernel

/-- An overlooked object is none of this schema's. -/
theorem not_ours_of_overlooked {objects : List CatalogRow} {o : CatalogRow}
    (h : o.overlooked = true) :
    ¬ Ours E objects o := by
  have hname : like (lit "sqlite_%") o.name = true := by
    simp only [CatalogRow.overlooked, Bool.and_eq_true] at h
    exact h.1
  have hother (name : Text) (hn : like (lit "sqlite_%") name = false) : o.name ≠ name := by
    intro hcon
    rw [hcon, hn] at hname
    cases hname
  rintro (hmem | hsearch | ⟨hshadow, -⟩)
  · obtain ⟨statement, hs, heq⟩ := List.mem_map.mp hmem
    have hall : ∀ n ∈ schemaStatements.map statementName, like (lit "sqlite_%") n = false := by
      rw [map_statementName]
      decide
    exact hother _ (hall _ (List.mem_map_of_mem hs)) (congrArg Prod.fst heq).symm
  · simp only [CatalogRow.isSearch, Bool.and_eq_true] at hsearch
    exact hother ftsTable (by decide) (eq_of_beq hsearch.1)
  · have hall : ∀ n ∈ ftsShadows, like (lit "sqlite_%") n = false := by decide
    exact hother _ (hall _ hshadow) rfl

/-- A file with an overlooked object is permitted by its identity alone. -/
theorem permitted_of_overlooked {repo : Text} {f : File} {o : CatalogRow} (ho : o ∈ f.objects)
    (h : o.overlooked = true) (hp : Permitted E repo f) : Identified repo f.created f := by
  have hcreated : o ∈ f.created := by
    simp only [CatalogRow.overlooked, Bool.and_eq_true] at h
    exact List.mem_filter.mpr ⟨ho, h.2⟩
  rcases hp with hnone | hunfinished | hidentified
  · rw [hnone] at hcreated
    cases hcreated
  · exact absurd (hunfinished.ours o hcreated) (not_ours_of_overlooked h)
  · exact hidentified

/-! ## Where everything is granted -/

/-- The same runtime with an engine that fails nowhere and supports every setting. -/
def Driver.granting (E : Driver) : Driver :=
  { E with
    access := fun _ => .granted
    compileOptions := []
    setting := fun name => ((pragmas.find? fun p => p.1 == name).map fun p => p.2.2).getD .null }

/-- Under distinct names a pair is found under its own. -/
theorem find_of_nodup {α β : Type} [BEq α] [LawfulBEq α] {l : List (α × β)}
    (hn : (l.map Prod.fst).Nodup)
    {p : α × β} (hp : p ∈ l) : l.find? (fun q => q.1 == p.1) = some p := by
  rcases hf : l.find? (fun q => q.1 == p.1) with _ | q
  · have hnone := List.find?_eq_none.mp hf p hp
    simp at hnone
  · have hkey : q.1 = p.1 := by simpa using List.find?_some hf
    rw [hf, List.inj_on_of_nodup_map hn (List.mem_of_find?_eq_some hf) hp hkey]

/-- The loop finds nothing wrong with the objects of this schema. -/
theorem Ours.found {objects : List CatalogRow} {o : CatalogRow} (ho : o ∈ objects)
    (h : Ours E objects o) :
    findObject E (objects.any fun o => o.isSearch E) o = .ours := by
  unfold findObject
  rcases h with hmem | hsearch | ⟨hshadow, hs⟩
  · obtain ⟨statement, hst, heq⟩ := List.mem_map.mp hmem
    have hname : statementName statement = o.name := congrArg Prod.fst heq
    have hall : ∀ n ∈ schemaStatements.map statementName, (n == ftsTable) = false ∧
        ftsShadows.contains n = false := by
      rw [map_statementName]
      decide
    obtain ⟨htable, hshadow⟩ := hall _ (List.mem_map_of_mem hst)
    have hnodup : ((expectedSql E).map Prod.fst).Nodup := by
      rw [expectedSql, List.map_map]
      change (schemaStatements.map statementName).Nodup
      rw [map_statementName]
      decide
    have hfind : (expectedSql E).find? (fun p => p.1 == o.name)
        = some (o.name, normalisedSql E.fold o.sql) :=
      find_of_nodup hnodup hmem
    rw [← hname, htable, hshadow, hname, hfind]
    simp
  · have hname : (o.name == ftsTable) = true := by
      simp only [CatalogRow.isSearch, Bool.and_eq_true] at hsearch
      exact hsearch.1
    have hany : (objects.any fun o => o.isSearch E) = true := List.any_eq_true.mpr ⟨o, ho, hsearch⟩
    rw [hname, hany]
    rfl
  · have hany : (objects.any fun o => o.isSearch E) = true := List.any_eq_true.mpr hs
    have hall : ∀ n ∈ ftsShadows, (n == ftsTable) = false := by decide
    have hcontains : ftsShadows.contains o.name = true := by simpa using hshadow
    rw [hall _ hshadow, hany, hcontains]
    rfl

/-- A granted read takes one moment. -/
theorem granting_readFile {α : Type} (f : File → α) (s : Opening) :
    readFile E.granting f s = (.ok (f s.file), { s with tick := s.tick + 1 }) := rfl

/-- Where the data tables are empty no rows are found. -/
theorem granting_applicationRows {present tables : List Text} (s : Opening)
    (h : ∀ t ∈ tables, t ∈ present → s.file.rows t = 0) :
    ∃ t, applicationRows E.granting present tables s = (.ok none, { s with tick := t }) := by
  induction tables generalizing s with
  | nil => exact ⟨s.tick, rfl⟩
  | cons table rest ih =>
    unfold applicationRows
    split
    · exact ih s fun t ht => h t (List.mem_cons_of_mem _ ht)
    · rename_i hpresent
      have hzero : s.file.rows table = 0 := h table (by simp) (by simpa using hpresent)
      have hread := granting_readFile (E := E) (fun f => f.rows table) s
      obtain ⟨t, ht⟩ := ih { s with tick := s.tick + 1 } fun t ht => h t (List.mem_cons_of_mem _ ht)
      refine ⟨t, (bind_ok (tryCatch_ok hread)).trans ?_⟩
      rw [if_neg (by simp [hzero])]
      exact ht

/-- An unfinished start is recognised. -/
theorem granting_classify {s : Opening} (h : s.file.seen = [] ∨ Unfinished E s.file.seen s.file) :
    ∃ v t, v ≠ .initialised ∧ classify E.granting s = (.ok v, { s with tick := t }) := by
  have hread := granting_readFile (E := E) File.seen s
  rcases hseen : s.file.seen.isEmpty with _ | _
  swap
  · refine ⟨.empty, s.tick + 1, nofun, ?_⟩
    unfold classify
    rw [bind_ok (tryCatch_ok hread), if_pos hseen]
    rfl
  have hun : Unfinished E s.file.seen s.file := by
    rcases h with h | h
    · rw [h] at hseen
      cases hseen
    · exact h
  have hidentity : ∃ t, identityRows E.granting (tableNames s.file.seen)
      { s with tick := s.tick + 1 }
      = (.ok [], { s with tick := t }) := by
    unfold identityRows
    split
    · exact ⟨_, rfl⟩
    · rename_i hmeta
      have hnone : s.file.identity = [] := hun.anonymous (by simpa using hmeta)
      refine ⟨s.tick + 2, (tryCatch_ok (granting_readFile File.identity _)).trans ?_⟩
      rw [hnone]
  obtain ⟨t1, hidentity⟩ := hidentity
  have hnames (kind : Finding) (hk : kind ≠ .ours) : namesFound E.granting kind s.file.seen
      = [] := by
    rw [namesFound, List.map_eq_nil_iff, List.filter_eq_nil_iff]
    intro o ho
    have hfound : findObject E.granting (s.file.seen.any fun o => o.isSearch E.granting) o
        = .ours :=
      (hun.ours o ho).found ho
    rw [hfound]
    simpa using hk.symm
  obtain ⟨t2, hrows⟩ := granting_applicationRows (E := E) { s with tick := t1 } hun.unused
  refine ⟨.unfinished, t2, nofun, ?_⟩
  unfold classify
  rw [bind_ok (tryCatch_ok hread), if_neg (by simp [hseen]), bind_ok hidentity, if_neg (by simp),
    hnames .unknown nofun, hnames .malformed nofun, if_neg (by simp), if_neg (by simp),
    bind_ok hrows]
  rfl

/-- Nothing that was written is unwritten. -/
def Writes (s s' : Opening) : Prop := s.writes ≤ s'.writes

instance : Std.Refl Writes := ⟨fun s => le_refl s.writes⟩

instance : IsTrans Opening Writes := ⟨fun _ _ _ h h' => le_trans (a := Opening.writes _) h h'⟩

/-- What writes nothing writes no less than before. -/
theorem Unwritten.writes_le {s s' : Opening} (h : Unwritten s s') : Writes s s' := h.writes.ge

/-- A read takes back no write. -/
theorem writes_readFile {α : Type} (f : File → α) : Keeps Writes (readFile E f) :=
  Keeps.mono (fun _ _ => Unwritten.writes_le) (unwritten_readFile f)

/-- A transaction writes once at most. -/
theorem writes_writeFile (f : File → File) : Keeps Writes (writeFile E f) := by
  intro s
  unfold writeFile
  split
  · exact Nat.le_succ _
  · exact le_rfl
  · exact le_rfl

/-- Reading the settings back takes back no write. -/
theorem writes_checkPragmas (value : Cell) (l : List (Text × Cell × Cell)) :
    Keeps Writes (checkPragmas E value l) := by
  induction l with
  | nil => exact Keeps.pure _
  | cons p rest ih =>
    unfold checkPragmas
    exact Keeps.bind (writes_readFile _) fun got =>
      Keeps.ite ih (Keeps.ite (Keeps.throw _) (Keeps.throw _))

/-- The settings are applied, and one of them is written to the header. -/
theorem granting_applyPragmas (l : List (Text × Cell × Cell)) (s : Opening) :
    ∃ s', applyPragmas E.granting l s = (.ok (), s') ∧ s.writes ≤ s'.writes ∧
      (lit "journal_mode" ∈ l.map Prod.fst → s.writes < s'.writes) := by
  induction l generalizing s with
  | nil => exact ⟨s, rfl, le_rfl, nofun⟩
  | cons p rest ih =>
    unfold applyPragmas applyPragma
    by_cases hname : p.1 = lit "journal_mode"
    · obtain ⟨s', hs', hle, -⟩ := ih ⟨{ s.file with header := true }, s.tick + 1, s.writes + 1⟩
      refine ⟨s', ?_, (Nat.le_succ _).trans hle, fun _ => hle⟩
      rw [if_pos hname]
      exact hs'
    · obtain ⟨s', hs', hle, hlt⟩ := ih { s with tick := s.tick + 1 }
      refine ⟨s', ?_, hle, ?_⟩
      · rw [if_neg hname]
        exact hs'
      · intro hmem
        rcases List.mem_cons.mp hmem with heq | hmem
        · exact absurd heq.symm hname
        · exact hlt hmem

/-- The runtime that grants everything keeps temporary storage in memory. -/
theorem granting_requireTempInMemory (s : Opening) :
    requireTempInMemory E.granting s = (.ok (), { s with tick := s.tick + 1 }) := by
  have hset : tempStore E.granting.compileOptions = 1 := rfl
  unfold requireTempInMemory
  rw [bind_ok (granting_readFile (fun _ => E.granting.compileOptions) _), hset, if_neg (by simp)]
  rfl

/-- The journal mode is one of the settings. -/
theorem journal_mode_mem : lit "journal_mode" ∈ pragmas.map Prod.fst := by
  simp [pragmas]

/-- Where everything is granted the configuration writes the header. -/
theorem granting_configure {s s' : Opening} {r : Except OpenExc Unit}
    (h : configure E.granting s = (r, s')) : s.writes < s'.writes := by
  unfold configure at h
  rw [bind_ok (granting_requireTempInMemory s)] at h
  obtain ⟨u, happly, -, hlt⟩ := granting_applyPragmas (E := E) pragmas { s with tick := s.tick + 1 }
  rw [bind_ok happly] at h
  exact (hlt journal_mode_mem).trans_le ((writes_checkPragmas _ pragmas).run h)

/-- Where everything is granted, such a file is written to. -/
theorem granting_writes {repo : Text} {f : File} (h : f.seen = [] ∨ Unfinished E f.seen f) :
    0 < (openStore E.granting repo ⟨f, 0, 0⟩).2.writes := by
  obtain ⟨v, t, hv, hclassify⟩ := granting_classify (E := E) (s := ⟨f, 1, 0⟩) h
  rcases hrun : openStore E.granting repo ⟨f, 0, 0⟩ with ⟨r, s'⟩
  obtain ⟨r', hsteps, -⟩ := openStore_inv hrun
  unfold openSteps at hsteps
  rw [bind_ok (granting_readFile (fun _ => ()) _), bind_ok hclassify, if_neg hv,
    if_pos hv] at hsteps
  obtain ⟨e, hconf, -⟩ | ⟨_, u, hconf, hwrite⟩ := bind_inv hsteps
  · exact granting_configure hconf
  · have hle : u.writes ≤ s'.writes := (writes_writeFile _).run hwrite
    exact (granting_configure hconf).trans_le hle

/-! ## The condition -/

/-- What is expected of one opening: it writes only to a file that is the store's to write to; every
other file is refused and left as it was. -/
def Guarded (E : Driver) (repo : Text) (f : File) : Prop :=
  (0 < (openStore E repo ⟨f, 0, 0⟩).2.writes → Permitted E repo f) ∧
    (¬ Permitted E repo f → (∃ e, (openStore E repo ⟨f, 0, 0⟩).1 = .error e) ∧
      (openStore E repo ⟨f, 0, 0⟩).2.file = f ∧ (openStore E repo ⟨f, 0, 0⟩).2.writes = 0)

/-- The guard holds when the rows that are looked at permit no more than all of them. -/
theorem guarded_of_permitted {repo : Text} {f : File} (hl : Legal f)
    (h : PermittedFor E repo f.seen f → Permitted E repo f) : Guarded E repo f := by
  rcases hrun : openStore E repo ⟨f, 0, 0⟩ with ⟨r, s'⟩
  obtain ⟨r', hsteps, hraise⟩ := openStore_inv hrun
  unfold Guarded
  rw [hrun]
  rcases openSteps_inv hl hsteps with ⟨hun, he⟩ | hp
  · refine ⟨fun hw => ?_, fun _ => ⟨hraise he, hun.file, hun.writes⟩⟩
    rw [hun.writes] at hw
    exact absurd hw (lt_irrefl 0)
  · exact ⟨fun _ => h hp, fun hn => absurd (h hp) hn⟩

/-- Of the runtime, only case folding plays a part in what an unfinished start is. -/
theorem Unfinished.fold {E' : Driver} {objects : List CatalogRow} {f : File}
    (hfold : E'.fold = E.fold)
    (h : Unfinished E' objects f) : Unfinished E objects f := by
  obtain ⟨fold, access, options, setting, uuid⟩ := E'
  obtain rfl : fold = E.fold := hfold
  exact ⟨h.ours, h.unused, h.anonymous⟩

/-- A runtime that folds nothing outside ASCII, with an engine that grants everything. -/
def Driver.plain : Driver :=
  Driver.granting ⟨fun c => [c], fun _ => .granted, [], fun _ =>
    .null, lit "0123456789abcdef0123456789abcdef", fun _ => lit "DatabaseError",
    fun _ => lit "database disk image is malformed"⟩

/-- Somebody's file with one table of a thousand rows. -/
def somebodysFile (name sql : Text) : File :=
  ⟨[⟨.table, name, some sql⟩], [], none, fun _ => 1000, false⟩

/-- The only table of a file is none of this schema's. -/
theorem somebodysFile_not_permitted {repo name sql : Text}
    (hname : name ∉ schemaStatements.map statementName ∧ name ≠ ftsTable ∧ name ∉ ftsShadows)
    (hmeta : name ≠ lit "meta") (hreserved : (lit "sqlite_").isPrefixOf name = false) :
    ¬ Permitted E repo (somebodysFile name sql) := by
  have hcreated : (somebodysFile name sql).created = [⟨.table, name, some sql⟩] := by
    simp [File.created, somebodysFile, CatalogRow.reserved, hreserved]
  unfold Permitted PermittedFor
  rw [hcreated]
  rintro (hnone | hunfinished | hidentified)
  · cases hnone
  · rcases hunfinished.ours _ (List.mem_singleton_self _) with hmem | hsearch | ⟨hshadow, -⟩
    · obtain ⟨statement, hs, heq⟩ := List.mem_map.mp hmem
      exact hname.1 (List.mem_map.mpr ⟨statement, hs, congrArg Prod.fst heq⟩)
    · simp only [CatalogRow.isSearch, Bool.and_eq_true] at hsearch
      exact hname.2.1 (eq_of_beq hsearch.1)
    · exact hname.2.2 hshadow
  · have htable := hidentified.table
    simp only [tableNames, List.filter, beq_self_eq_true, List.map, List.mem_singleton] at htable
    exact hmeta htable.symm

end PeerBridge.Memory.Catalog
