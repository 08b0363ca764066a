import PeerBridge.Runtime.Canonical
import PeerBridge.Runtime.Files

/-!
# Durable state files

A state file is replaced as a whole: the value is written to a scratch file of a fixed name,
flushed, renamed over the state file, and the directory is flushed. The program is modelled call by
call over a disk that may lose power; every call may fail, end the program, or transfer less than it
was asked to.

* `publish_ends`: whatever happens, the directory shows the old value or the new one, and a scratch
  file that the next publication may remove; `publish_calm`: an undisturbed publication returns;
* `read_calm`: what the directory shows is what a reader gets;
* `publication_atomic`: the two together, behind any publications and power losses before.

Source: `durable_state.py`.
-/

namespace PeerBridge.State

open Py Files Files.Disk Effects

/-! ## The program -/

/-- The two names in the directory. -/
inductive Name where
  | state
  | scratch
  deriving DecidableEq

/-- What the functions raise: the codes of `StateFileError`, or an `OSError`. -/
inductive Failure where
  | invalidStateFile
  | unsafeStateFile
  | stateFileCapacity
  | unsafeStateDirectory
  | os

/-- The process and the directory of the state file, as `lstat` tells of it. -/
structure Place where
  euid : ℕ
  isDirectory : Bool
  owner : ℕ
  mode : ℕ

/-- A directory of the process's own that nobody else can enter. Source: `publish` -/
def Place.isPrivate (p : Place) : Bool :=
  p.isDirectory && p.owner == p.euid && p.mode &&& 0o077 == 0

def maxBytes : ℕ := 4096

/-- Source: `validate` -/
def validate (p : Place) (info : Inode) : Bool :=
  info.kind == .regular && info.uid == p.euid && info.mode &&& 0o077 == 0 && info.nlink == 1
    && info.content.length ≤ maxBytes

/-- `if not ok: raise StateFileError(code)`. -/
def require (ok : Bool) (code : Failure) : Calls Failure Name Unit :=
  if ok then pure () else throw (.raised code)

/-- The bytes of a value. Source: `publish`, `data` -/
def encoding (value : Object) : List UInt8 := (encodeUtf8 (compact (.obj value))).getD []

/-- Source: `publish`, the loop over `os.write` -/
def writeAll (fd : ℕ) : ℕ → List UInt8 → Calls Failure Name Unit
  | 0, _ => pure ()
  | fuel + 1, data =>
      if data = [] then pure ()
      else do
        let written ← transfer .os data.length fun k d => d.append fd (data.take k)
        if written = 0 then throw (.raised .os) else writeAll fd fuel (data.drop written)

/-- `os.open(temp, O_CREAT | O_EXCL, 0o600)`; the mask of the process leaves the owner's own
bits. -/
def openScratch (p : Place) : Calls Failure Name ℕ := do
  let m ← get
  if m.disk.names .scratch = none then
    syscall .os fun d => d.create .scratch p.euid 0o600
    return m.disk.next
  else throw (.raised .os)

/-- The leftover of an interrupted publication. Source: `publish`, `temp.unlink` -/
def clearScratch (p : Place) : Calls Failure Name Unit := do
  match ← lstat .os .scratch with
  | none => pure ()
  | some info =>
      require (validate p info) .unsafeStateFile
      syscall .os fun d => d.unlink .scratch

/-- Source: `publish`, the body of its `try` -/
def replaceState (fd : ℕ) (data : List UInt8) : Calls Failure Name Unit := do
  writeAll fd data.length data
  syscall .os fun d => d.flush fd
  syscall .os fun d => d.rename .scratch .state
  syscall .os fun d => d.flushNames
  syscall .os fun d => d.flush fd

/-- Source: `publish`, its `finally` -/
def cleanUp : Calls Failure Name Unit := do
  syscall .os id
  syscall .os fun d => if d.names .scratch = none then d else d.unlink .scratch

/-- Source: `publish` -/
def publish (p : Place) : Json → Calls Failure Name Unit
  | .obj value => do
      require ((encoding value).length ≤ maxBytes) .stateFileCapacity
      syscall .os id
      require p.isPrivate .unsafeStateDirectory
      let info ← lstat .os .state
      require (info.all fun i => validate p i) .unsafeStateFile
      clearScratch p
      let fd ← openScratch p
      tryFinally (replaceState fd (encoding value)) cleanUp
  | _ => throw (.raised .invalidStateFile)

/-- Source: `pairs` -/
def pairs (items : Object) : Option Json :=
  (items.foldlM
    (fun result p => if Object.has result p.1 then none else some (result ++ [p])) []).map .obj

/-- Source: `read`, the loop over `os.read`; a read returns nothing at the end of the file only. -/
def readLoop (fd : ℕ) : ℕ → List UInt8 → Calls Failure Name (List UInt8)
  | 0, data => pure data
  | fuel + 1, data =>
      if maxBytes < data.length then pure data
      else do
        let m ← get
        let left := (m.disk.inodes fd).content.drop data.length
        let count ← transfer .os (min (maxBytes + 1 - data.length) left.length) fun _ d => d
        if left.take (max count 1) = [] then pure data
          else readLoop fd fuel (data ++ left.take (max count 1))

/-- The value of some bytes. Source: `read`, `json.loads` -/
def decodeState (data : List UInt8) : Option Object :=
  match (decodeBytes data).bind fun t => loads pairs t with
  | some (.obj value) => some value
  | _ => none

/-- `none` is the absence of a file. Source: `read` -/
def read (p : Place) : Calls Failure Name (Option Object) := do
  syscall .os id
  let m ← get
  match m.disk.names .state with
  | none => pure none
  | some fd =>
      tryFinally
        (do
          syscall .os id
          require (validate p (m.disk.inodes fd)) .unsafeStateFile
          let data ← readLoop fd (maxBytes + 2) []
          require (data.length ≤ maxBytes) .unsafeStateFile
          match decodeState data with
          | some value => pure (some value)
          | none => throw (.raised .invalidStateFile))
        (syscall .os id)

/-! ## Reading back -/

/-- An object with distinct keys is accepted by the decoder's check of pairs. -/
theorem pairs_eq {m : Object} (hm : (m.map Prod.fst).Nodup) : pairs m = some (.obj m) := by
  have hfold : ∀ (rest seen : Object), ((seen ++ rest).map Prod.fst).Nodup →
      rest.foldlM
          (fun result p => if Object.has result p.1 then none else some (result ++ [p])) seen
        = some (seen ++ rest) := by
    intro rest
    induction rest with
    | nil =>
      intro seen _
      rw [List.append_nil]
      rfl
    | cons p rest ih =>
      intro seen hnodup
      have hnew : ¬ Object.has seen p.1 = true := by
        rw [Object.has, List.any_eq_true]
        rintro ⟨q, hq, hkey⟩
        rw [List.map_append, List.nodup_append] at hnodup
        exact hnodup.2.2 _ (List.mem_map_of_mem hq) _ (List.mem_cons_self ..) (eq_of_beq hkey)
      rw [List.foldlM_cons, if_neg hnew]
      refine (ih (seen ++ [p]) ?_).trans ?_
      · rwa [List.append_assoc]
      · rw [List.append_assoc]
        rfl
  rw [pairs, hfold m [] hm]
  rfl

/-- The bytes of a state are those of its canonical encoding. -/
theorem encoding_eq (m : Object) : encoding m = (compact (.obj m)).map fun c =>
    UInt8.ofNat c.val := by
  rw [encoding, encodeUtf8_ascii (ascii_compact _)]
  rfl

/-- The members of a value in the order of their keys: the same value to Python. -/
def canonical (m : Object) : Object := (sortedMembers m).insertionSort keyLE

/-- A state and its canonical form are the same. -/
theorem canonical_same (m : Object) : Json.Same (.obj (canonical m)) (.obj m) :=
  same_sorted (.obj m)

/-- The bytes of a value decode to it. -/
theorem decodeState_encoding {m : Object} (hm : Denotable (.obj m)) :
    decodeState (encoding m) = some (canonical m) := by
  rw [decodeState, encoding_eq, decodeBytes_compact, Option.bind_some,
    loads_compact (fun _ => pairs_eq) hm]
  rfl

/-! ## What a directory shows -/

/-- A directory whose state file holds a published value, or nothing. -/
def HoldsState (p : Place) (d : Disk Name) (names : Name → Option ℕ) : Option Object → Prop
  | none => names .state = none
  | some m => ∃ n, names .state = some n ∧ n < d.next ∧ d.flushed n = true
    ∧ validate p (d.inodes n) = true ∧
      (d.inodes n).content = encoding m ∧ Denotable (.obj m)

/-- A scratch file, if there is one, is another file, and one that the next publication may
remove. -/
def Harmless (p : Place) (d : Disk Name) (names : Name → Option ℕ) : Prop :=
  ∀ n, names .scratch = some n → n < d.next ∧ names .state ≠ some n ∧ validate p (d.inodes n) = true

/-- A directory that shows one of some values. -/
def Shows (p : Place) (V : Option Object → Prop) (d : Disk Name) (names : Name → Option ℕ) : Prop :=
  (∃ v, V v ∧ HoldsState p d names v) ∧ Harmless p d names

/-- The directory shows one of the values now; where `power` is to be survived, so does every state
of it that a power loss may bring back. -/
def Inv (p : Place) (power : Prop) (V : Option Object → Prop) (d : Disk Name) : Prop :=
  Shows p V d d.names ∧ (power → ∀ names ∈ d.pending, Shows p V d names)

section shows

variable {p : Place} {power : Prop} {V W : Option Object → Prop} {d : Disk Name}
  {names : Name → Option ℕ}

/-- What shows one of some values shows one of more. -/
theorem Shows.mono (hVW : ∀ v, V v → W v) (h : Shows p V d names) : Shows p W d names := by
  obtain ⟨⟨v, hv, hstate⟩, hscratch⟩ := h
  exact ⟨⟨v, hVW v hv, hstate⟩, hscratch⟩

/-- The invariant for some values is one for more. -/
theorem Inv.mono (hVW : ∀ v, V v → W v) (h : Inv p power V d) : Inv p power W d :=
  ⟨h.1.mono hVW, fun hp names hn => (h.2 hp names hn).mono hVW⟩

/-- The state file that a directory shows has a number given out before. -/
theorem Shows.state_lt (h : Shows p V d names) {n : ℕ} (hn : names .state = some n) :
    n < d.next := by
  obtain ⟨⟨v, -, hstate⟩, -⟩ := h
  rcases v with _ | m
  · rw [HoldsState, hn] at hstate
    cases hstate
  · obtain ⟨i, hi, hlt, -⟩ := hstate
    rw [hn] at hi
    obtain rfl := Option.some.inj hi
    exact hlt

/-- A directory shows what it showed when nothing changed but one file that is not its state
file. -/
theorem Shows.frame (h : Shows p V d names) {after : Disk Name} (n : ℕ)
    (hnext : d.next ≤ after.next)
    (hsame : ∀ i < d.next, i ≠ n → after.inodes i = d.inodes i ∧ after.flushed i = d.flushed i)
    (hstate : names .state ≠ some n) (hscratch : names .scratch = some n →
      validate p (after.inodes n) = true) :
    Shows p V after names := by
  obtain ⟨⟨v, hv, hholds⟩, hharm⟩ := h
  refine ⟨⟨v, hv, ?_⟩, fun i hi => ?_⟩
  · rcases v with _ | m
    · exact hholds
    · obtain ⟨i, hi, hlt, hflushed, hvalid, hcontent, hm⟩ := hholds
      have hne : i ≠ n := by
        rintro rfl
        exact hstate hi
      obtain ⟨hi1, hi2⟩ := hsame i hlt hne
      exact ⟨i, hi, hlt.trans_le hnext, hi2.trans hflushed, by rw [hi1]; exact hvalid,
        by rw [hi1]; exact hcontent, hm⟩
  · obtain ⟨hlt, hne, hvalid⟩ := hharm i hi
    refine ⟨hlt.trans_le hnext, hne, ?_⟩
    by_cases hin : i = n
    · subst hin
      exact hscratch hi
    · rw [(hsame i hlt hin).1]
      exact hvalid

/-- Without its scratch file a directory shows the same value. -/
theorem Shows.unlink (h : Shows p V d names) :
    Shows p V d (Function.update names .scratch none) := by
  have hstate : Function.update names Name.scratch none .state = names .state := by
    rw [Function.update_of_ne]
    exact fun h => by cases h
  obtain ⟨⟨v, hv, hholds⟩, -⟩ := h
  refine ⟨⟨v, hv, ?_⟩, fun i hi => ?_⟩
  · rcases v with _ | m
    · exact hstate.trans hholds
    · obtain ⟨i, hi, hrest⟩ := hholds
      exact ⟨i, hstate.trans hi, hrest⟩
  · rw [Function.update_self] at hi
    cases hi

/-- Removing the scratch file keeps the invariant. -/
theorem Inv.unlink (h : Inv p power V d) : Inv p power V (d.unlink .scratch) := by
  refine ⟨?_, fun hp names hn => ?_⟩
  · exact h.1.unlink
  · rcases List.mem_cons.mp hn with rfl | hn
    · exact h.1
    · exact h.2 hp names hn

/-- **A power loss leaves a directory that shows one of the values.** -/
theorem Inv.loses (h : Inv p True V d) {after : Disk Name} (hloss : d.Loses after) :
    Inv p True V after := by
  obtain ⟨hnames, hpending, hnext, hflushed, hfiles⟩ := hloss
  have hshows : Shows p V d after.names := by
    rcases List.mem_cons.mp hnames with heq | hmem
    · rw [heq]
      exact h.1
    · exact h.2 trivial _ hmem
  have hvalid : ∀ n, validate p (d.inodes n) = true → validate p (after.inodes n) = true := by
    intro n hn
    obtain ⟨content, hc, hlen, -⟩ := hfiles n
    rw [hc]
    simp only [validate, Bool.and_eq_true, decide_eq_true_eq] at hn ⊢
    exact ⟨hn.1, hlen.trans hn.2⟩
  obtain ⟨⟨v, hv, hholds⟩, hharm⟩ := hshows
  refine ⟨⟨⟨v, hv, ?_⟩, fun i hi => ?_⟩, fun _ names hn => ?_⟩
  · rcases v with _ | m
    · exact hholds
    · obtain ⟨i, hi, hlt, hfl, hval, hcontent, hm⟩ := hholds
      obtain ⟨content, hc, -, hkeep⟩ := hfiles i
      refine ⟨i, hi, by rw [hnext]; exact hlt, hflushed i, hvalid i hval, ?_, hm⟩
      rw [hc]
      exact (hkeep hfl).trans hcontent
  · obtain ⟨hlt, hne, hval⟩ := hharm i hi
    exact ⟨by rw [hnext]; exact hlt, hne, hvalid i hval⟩
  · rw [hpending] at hn
    cases hn

end shows

/-! ## One publication, step by step -/

section steps

variable {p : Place} {power : Prop} {V : Option Object → Prop} {d : Disk Name}

/-- The scratch file of a publication, with what has been written to it. No directory that may be
shown has it for its state file. -/
structure Writing (p : Place) (power : Prop) (V : Option Object → Prop) (n : ℕ)
    (content : List UInt8)
    (d : Disk Name) : Prop where
  inv : Inv p power V d
  scratch : d.names .scratch = some n
  state : d.names .state ≠ some n
  pending : power → ∀ names ∈ d.pending, names .state ≠ some n
  inode : d.inodes n = ⟨.regular, p.euid, 0o600, 1, content⟩
  lt : n < d.next

/-- A private file of the right owner within the limit is accepted. -/
theorem validate_scratch {content : List UInt8} (h : content.length ≤ maxBytes) :
    validate p ⟨.regular, p.euid, 0o600, 1, content⟩ = true := by
  have hmode : (0o600 &&& 0o077 : ℕ) = 0 := by decide
  simp [validate, hmode, h]

/-- A change of the scratch file, or of a new file, leaves every directory with its value. -/
theorem Inv.frame (h : Inv p power V d) {after : Disk Name} (n : ℕ) (hnames : after.names = d.names)
    (hpending : after.pending = d.pending) (hnext : after.next = d.next)
    (hsame : ∀ i, i ≠ n → after.inodes i = d.inodes i ∧ after.flushed i = d.flushed i)
    (hstate : d.names .state ≠ some n) (hpend : power → ∀ names ∈ d.pending, names .state ≠ some n)
    (hvalid : validate p (after.inodes n) = true) : Inv p power V after := by
  refine ⟨?_, fun hp names hn => ?_⟩
  · rw [hnames]
    exact h.1.frame n hnext.ge (fun i _ hi => hsame i hi) hstate fun _ => hvalid
  · rw [hpending] at hn
    exact (h.2 hp names hn).frame n hnext.ge (fun i _ hi => hsame i hi) (hpend hp names hn) fun _ =>
      hvalid

/-- Flushing a file changes nothing that a directory shows. -/
theorem Inv.flush (h : Inv p power V d) (n : ℕ) : Inv p power V (d.flush n) := by
  have hshows : ∀ names, Shows p V d names → Shows p V (d.flush n) names := by
    rintro names ⟨⟨v, hv, hholds⟩, hharm⟩
    refine ⟨⟨v, hv, ?_⟩, hharm⟩
    rcases v with _ | m
    · exact hholds
    · obtain ⟨i, hi, hlt, hfl, hrest⟩ := hholds
      refine ⟨i, hi, hlt, ?_, hrest⟩
      by_cases hin : i = n
      · rw [hin]
        exact Function.update_self ..
      · exact (Function.update_of_ne hin _ _).trans hfl
  exact ⟨hshows _ h.1, fun hp names hn => hshows names (h.2 hp names hn)⟩

/-- A new scratch file. -/
theorem Inv.create (h : Inv p power V d) : Writing p power V d.next []
    (d.create .scratch p.euid 0o600) := by
  have hfresh : ∀ names, Shows p V d names → names .state ≠ some d.next := by
    intro names hshow hn
    exact absurd (hshow.state_lt hn) (lt_irrefl _)
  have hstate : Function.update d.names Name.scratch (some d.next) .state = d.names .state := by
    rw [Function.update_of_ne]
    exact fun h => by cases h
  have hinode : (d.create .scratch p.euid 0o600).inodes d.next = ⟨.regular, p.euid, 0o600, 1, []⟩ :=
    Function.update_self ..
  have hvalid : validate p ((d.create .scratch p.euid 0o600).inodes d.next) = true := by
    rw [hinode]
    exact validate_scratch (Nat.zero_le _)
  have hold : ∀ names, Shows p V d names → Shows p V (d.create .scratch p.euid 0o600) names := by
    intro names hshow
    refine hshow.frame d.next (Nat.le_succ _) (fun i _ hi => ⟨?_, ?_⟩) (hfresh names hshow) fun _ =>
      hvalid
    · exact Function.update_of_ne hi _ _
    · exact Function.update_of_ne hi _ _
  have hscratch : (d.create .scratch p.euid 0o600).names .scratch = some d.next := by simp
  refine ⟨⟨?_, fun hp names hn => ?_⟩, hscratch, ?_, fun hp names hn => ?_, hinode,
    Nat.lt_succ_self _⟩
  · obtain ⟨⟨v, hv, hholds⟩, -⟩ := hold _ h.1
    refine ⟨⟨v, hv, ?_⟩, fun i hi => ?_⟩
    · rcases v with _ | m
      · exact hstate.trans hholds
      · obtain ⟨i, hi, hrest⟩ := hholds
        exact ⟨i, hstate.trans hi, hrest⟩
    · obtain rfl := Option.some.inj (hscratch.symm.trans hi)
      exact ⟨Nat.lt_succ_self _, fun hs => hfresh _ h.1 (hstate.symm.trans hs), hvalid⟩
  · rcases List.mem_cons.mp hn with rfl | hn
    · exact hold _ h.1
    · exact hold _ (h.2 hp names hn)
  · exact fun hs => hfresh _ h.1 (hstate.symm.trans hs)
  · rcases List.mem_cons.mp hn with rfl | hn
    · exact hfresh _ h.1
    · exact hfresh _ (h.2 hp names hn)

/-- More bytes in the scratch file. -/
theorem Writing.append {n : ℕ} {content : List UInt8} (h : Writing p power V n content d)
    (bytes : List UInt8)
    (hlen : (content ++ bytes).length ≤ maxBytes) : Writing p power V n (content ++ bytes)
    (d.append n bytes) := by
  have hinode : (d.append n bytes).inodes n = ⟨.regular, p.euid, 0o600, 1, content ++ bytes⟩ := by
    refine (Function.update_self ..).trans ?_
    rw [h.inode]
  refine ⟨h.inv.frame n rfl rfl rfl (fun i hi => ⟨?_, ?_⟩) h.state h.pending ?_, h.scratch, h.state,
    h.pending, hinode,
    h.lt⟩
  · exact Function.update_of_ne hi _ _
  · exact Function.update_of_ne hi _ _
  · rw [hinode]
    exact validate_scratch hlen

/-- Flushing the scratch file makes its content durable. -/
theorem Writing.flush {n : ℕ} {content : List UInt8} (h : Writing p power V n content d) :
    Writing p power V n content (d.flush n) ∧ (d.flush n).flushed n = true :=
  ⟨⟨h.inv.flush n, h.scratch, h.state, h.pending, h.inode, h.lt⟩, Function.update_self ..⟩

/-- One of the values, or the new one. -/
def OrNew (V : Option Object → Prop) (m : Object) : Option Object → Prop :=
  fun v => V v ∨ v = some m

/-- The directory shows the new value, and has no scratch file. -/
structure Replaced (p : Place) (power : Prop) (V : Option Object → Prop) (m : Object)
    (d : Disk Name) : Prop where
  inv : Inv p power (OrNew V m) d
  shows : Shows p (· = some m) d d.names
  scratch : d.names .scratch = none

/-- The flushed scratch file becomes the state file. -/
theorem Writing.rename {n : ℕ} {m : Object} (h : Writing p power V n (encoding m) d)
    (hflushed : d.flushed n = true)
    (hm : Denotable (.obj m)) (hlen : (encoding m).length ≤ maxBytes) :
    Replaced p power V m (d.rename .scratch .state) := by
  have hstate : (d.rename .scratch .state).names .state = some n := by
    have hne : Name.state ≠ Name.scratch := fun h => by cases h
    rw [names_rename, Function.update_of_ne hne, Function.update_self, h.scratch]
  have hscratch : (d.rename .scratch .state).names .scratch = none := by simp
  have hnow : Shows p (· = some m) (d.rename .scratch .state) (d.rename .scratch .state).names := by
    refine ⟨⟨some m, rfl, n, hstate, h.lt, hflushed, ?_, ?_, hm⟩, fun i hi => ?_⟩
    · change validate p (d.inodes n) = true
      rw [h.inode]
      exact validate_scratch hlen
    · change (d.inodes n).content = encoding m
      rw [h.inode]
    · rw [hscratch] at hi
      cases hi
  refine ⟨⟨hnow.mono fun v hv => .inr hv, fun hp names hn => ?_⟩, hnow, hscratch⟩
  rcases List.mem_cons.mp hn with rfl | hn
  · exact h.inv.1.mono fun v hv => .inl hv
  · exact (h.inv.2 hp names hn).mono fun v hv => .inl hv

/-- Flushing the directory leaves the new value only. -/
theorem Replaced.flushNames {m : Object} (h : Replaced p power V m d) :
    Inv p power (· = some m) d.flushNames ∧ d.flushNames.names .scratch = none :=
  ⟨⟨h.shows, fun _ names hn => by cases hn⟩, h.scratch⟩

end steps

/-! ## The whole publication -/

section publication

variable {p : Place} {power : Prop} {V : Option Object → Prop}

/-- A requirement goes on only where its condition holds. -/
theorem require_ends {P : Machine Name → Prop} (ok : Bool) (code : Failure)
    {E : Stop Failure → Machine Name → Prop}
    (hE : ∀ e m, P m → E e m) : Prog.Ends P (require ok code) (fun _ m => P m ∧ ok = true) E := by
  refine Prog.Ends.ite (fun hok => ?_) fun _ => ?_
  · exact Prog.Ends.pure fun s hs => ⟨hs, hok⟩
  · exact Prog.Ends.throw fun s hs => hE _ s hs

/-- The write loop writes everything, or stops with some of it written. -/
theorem writeAll_ends (n : ℕ) : (fuel : ℕ) → (data content : List UInt8) → data.length ≤ fuel →
    (content ++ data).length ≤ maxBytes →
      Prog.Ends (At (Writing p power V n content)) (writeAll n fuel data)
        (fun _ => At (Writing p power V n (content ++ data))) (fun _ => At (Inv p power V))
  | 0, data, content, hfuel, _ => by
      obtain rfl := List.length_eq_zero_iff.mp (Nat.le_zero.mp hfuel)
      rw [List.append_nil]
      exact Prog.Ends.pure fun s hs => hs
  | fuel + 1, data, content, hfuel, hlen => by
      unfold writeAll
      refine Prog.Ends.ite (fun hnil => ?_) fun hne => ?_
      · rw [hnil, List.append_nil]
        exact Prog.Ends.pure fun s hs => hs
      · have hstep : ∀ d k, k ≤ data.length → Writing p power V n content d →
            Writing p power V n (content ++ data.take k) (d.append n (data.take k)) := by
          intro d k _ hw
          refine hw.append _ ?_
          simp only [List.length_append, List.length_take] at hlen ⊢
          omega
        refine Prog.Ends.bind (transfer_ends hstep (fun _ h => h.inv) fun _ _ h => h.inv)
          fun written => ?_
        refine Prog.Ends.ite (fun _ => ?_) fun hpos => ?_
        · exact Prog.Ends.throw fun s hs => hs.2.inv
        · intro s hs
          have ih := writeAll_ends n fuel (data.drop written) (content ++ data.take written)
            (by rw [List.length_drop]; omega)
            (by rw [List.append_assoc, List.take_append_drop]; exact hlen)
          rw [List.append_assoc, List.take_append_drop] at ih
          exact ih s hs.2

/-- The body of the `try`: the new value is shown at its end, and one of the values wherever it
stops. -/
theorem replaceState_ends {n : ℕ} {m : Object} (hm : Denotable (.obj m))
    (hlen : (encoding m).length ≤ maxBytes) :
    Prog.Ends (At (Writing p power V n [])) (replaceState n (encoding m))
      (fun _ => At fun d => Inv p power (· = some m) d ∧ d.names .scratch = none)
      (fun _ => At (Inv p power (OrNew V m))) := by
  have hold : ∀ d, Inv p power V d → Inv p power (OrNew V m) d :=
    fun d h => h.mono fun v hv => .inl hv
  have hnew : ∀ d, Inv p power (· = some m) d → Inv p power (OrNew V m) d :=
    fun d h => h.mono fun v hv => .inr hv
  have hrename : ∀ d, Writing p power V n (encoding m) d ∧ d.flushed n = true →
      Replaced p power V m (d.rename .scratch .state) := fun d h => h.1.rename h.2 hm hlen
  have hwrite : Prog.Ends (At (Writing p power V n []))
    (writeAll n (encoding m).length (encoding m))
      (fun _ => At (Writing p power V n ([] ++ encoding m))) (fun _ => At (Inv p power V)) :=
    writeAll_ends n _ _ _ le_rfl hlen
  rw [List.nil_append] at hwrite
  refine Prog.Ends.bind (hwrite.mono (fun _ h => h) (fun _ _ h => h) fun _ s h => hold _ h) fun _ =>
    ?_
  refine Prog.Ends.bind (syscall_ends (J := fun d => Writing p power V n (encoding m) d
    ∧ d.flushed n = true)
    (fun d h => h.flush) (fun d h => hold _ h.inv) fun d h => hold _ h.1.inv) fun _ => ?_
  refine Prog.Ends.bind (syscall_ends hrename (fun d h => hold _ h.1.inv) fun d h => h.inv) fun _ =>
    ?_
  refine Prog.Ends.bind (syscall_ends (J := fun d => Inv p power (· = some m) d
    ∧ d.names .scratch = none)
    (fun d h => h.flushNames) (fun d h => h.inv) fun d h => hnew _ h.1) fun _ => ?_
  exact syscall_ends (fun d h => ⟨h.1.flush n, h.2⟩) (fun d h => hnew _ h.1) fun d h => hnew _ h.1

/-- Cleaning up leaves what the directory shows. -/
theorem cleanUp_ends {W : Option Object → Prop} : Prog.Ends (At (Inv p power W)) cleanUp
    (fun _ => At (Inv p power W)) (fun _ => At (Inv p power W)) := by
  have hstep : ∀ d, Inv p power W d → Inv p power W (if d.names .scratch = none then d
      else d.unlink .scratch) := by
    intro d h
    split
    · exact h
    · exact h.unlink
  refine Prog.Ends.bind (syscall_ends (J := Inv p power W) (fun _ h => h) (fun _ h => h) fun _ h =>
    h) fun _ => ?_
  exact syscall_ends hstep (fun _ h => h) fun _ h => h

/-- An earlier leftover is taken away, or the publication is refused. -/
theorem clearScratch_ends : Prog.Ends (At (Inv p power V)) (clearScratch p)
    (fun _ => At (Inv p power V)) (fun _ => At (Inv p power V)) := by
  refine Prog.Ends.bind (lstat_ends fun _ h => h) fun found => ?_
  rcases found with _ | info
  · exact Prog.Ends.pure fun s hs => hs.1
  · have hunlink : ∀ d, Inv p power V d → Inv p power V (d.unlink .scratch) := fun d h => h.unlink
    refine Prog.Ends.bind (require_ends _ _ fun e s hs => hs.1) fun _ => ?_
    exact (syscall_ends hunlink (fun _ h => h) fun _ h => h).mono (fun _ h => h.1.1)
      (fun _ _ h => h) fun _ _ h => h

/-- Opening the scratch file begins to write an empty one, or stops with the invariant. -/
theorem openScratch_ends : Prog.Ends (At (Inv p power V)) (openScratch p)
    (fun n => At (Writing p power V n [])) (fun _ => At (Inv p power V)) := by
  intro m hm
  have hstep : ∀ d, (Inv p power V d ∧ d = m.disk) → Writing p power V m.disk.next []
      (d.create .scratch p.euid 0o600) := by
    rintro d ⟨h, rfl⟩
    exact h.create
  have hends : Prog.Ends (At fun d => Inv p power V d ∧ d = m.disk)
      (if m.disk.names .scratch = none then do
        syscall .os fun d => d.create .scratch p.euid 0o600
        return m.disk.next
      else throw (.raised .os) : Calls Failure Name ℕ)
      (fun n => At (Writing p power V n [])) (fun _ => At (Inv p power V)) := by
    refine Prog.Ends.ite (fun _ => ?_) fun _ => ?_
    · refine Prog.Ends.bind (syscall_ends hstep (fun _ h => h.1) fun _ h => h.inv) fun _ => ?_
      exact Prog.Ends.pure fun s hs => hs
    · exact Prog.Ends.throw fun s hs => hs.1
  exact hends m ⟨hm, rfl⟩

/-- **What a publication leaves.** The directory shows the new value when it returned, and one of
the old values or the new one when it did not; with power losses in mind, so does every state of the
directory that may come back. -/
theorem publish_ends {m : Object} (hm : Denotable (.obj m)) : Prog.Ends (At (Inv p power V))
    (publish p (.obj m))
    (fun _ => At (Inv p power (· = some m))) (fun _ => At (Inv p power (OrNew V m))) := by
  have hold : ∀ d, Inv p power V d → Inv p power (OrNew V m) d :=
    fun d h => h.mono fun v hv => .inl hv
  have hnew : ∀ d, Inv p power (· = some m) d → Inv p power (OrNew V m) d :=
    fun d h => h.mono fun v hv => .inr hv
  refine Prog.Ends.bind (require_ends _ _ fun e s hs => hold _ hs) fun _ => ?_
  intro s hs
  have hlen : (encoding m).length ≤ maxBytes := of_decide_eq_true hs.2
  have hrest : Prog.Ends (At (Inv p power V)) (do
      syscall .os id
      require p.isPrivate .unsafeStateDirectory
      let info ← lstat .os .state
      require (info.all fun i => validate p i) .unsafeStateFile
      clearScratch p
      let fd ← openScratch p
      Files.tryFinally (replaceState fd (encoding m)) cleanUp : Calls Failure Name Unit)
      (fun _ => At (Inv p power (· = some m))) (fun _ => At (Inv p power (OrNew V m))) := by
    refine Prog.Ends.bind (syscall_ends (J := Inv p power V) (fun _ h => h) hold hold) fun _ => ?_
    refine Prog.Ends.bind (require_ends _ _ fun e s hs => hold _ hs) fun _ => ?_
    refine Prog.Ends.bind ((lstat_ends hold).mono (fun _ h => h.1) (fun _ _ h => h) fun _ _ h => h)
      fun info => ?_
    refine Prog.Ends.bind (require_ends _ _ fun e s hs => hold _ hs.1) fun _ => ?_
    refine Prog.Ends.bind (clearScratch_ends.mono (fun _ h => h.1.1) (fun _ _ h => h) fun _ s h =>
      hold _ h) fun _ => ?_
    refine Prog.Ends.bind (openScratch_ends.mono (fun _ h => h) (fun _ _ h => h) fun _ s h =>
      hold _ h) fun fd => ?_
    refine finally_ends (replaceState_ends hm hlen) (fun _ => ?_) (fun _ => cleanUp_ends) fun _ h =>
      h
    exact cleanUp_ends.mono (fun _ h => h.1) (fun _ _ h => h) fun _ s h => hnew _ h
  exact hrest s hs.1

/-- A publication that returned leaves the new value. -/
theorem Inv.returned {d : Disk Name} {m : Object} {script : List Fault} {t : Machine Name}
    (h : Inv p power V d)
    (hm : Denotable (.obj m)) (hrun : publish p (.obj m) ⟨d, script⟩ = (.ok (), t)) :
    Inv p power (· = some m) t.disk := (publish_ends hm ⟨d, script⟩ h).1 _ _ hrun

/-- A publication that stopped leaves the new value or an earlier one. -/
theorem Inv.stopped {d : Disk Name} {m : Object} {script : List Fault} {t : Machine Name}
    {stop : Stop Failure}
    (h : Inv p power V d) (hm : Denotable (.obj m))
    (hrun : publish p (.obj m) ⟨d, script⟩ = (.error stop, t)) :
    Inv p power (OrNew V m) t.disk := (publish_ends hm ⟨d, script⟩ h).2 _ _ hrun

end publication

/-! ## Undisturbed publications -/

section calm

/-- A requirement that is met does nothing. -/
theorem require_true {P : Machine Name → Prop} {E : Stop Failure → Machine Name → Prop} {ok : Bool}
    {code : Failure}
    (h : ∀ m, P m → ok = true) : Prog.Ends P (require ok code) (fun _ => P) E := by
  refine Prog.Ends.ite (fun _ => ?_) fun hno => ?_
  · exact Prog.Ends.pure fun s hs => hs
  · exact fun s hs => absurd (h s hs) hno

/-- Writes that make progress write everything. -/
theorem writeAll_calm (n : ℕ) : (fuel : ℕ) → (data : List UInt8) → data.length ≤ fuel →
    Prog.Ends (Calm fun _ => True) (writeAll n fuel data) (fun _ => Calm fun _ => True) Never
  | 0, _, _ => Prog.Ends.pure fun _ hs => hs
  | fuel + 1, data, hfuel => by
      unfold writeAll
      refine Prog.Ends.ite (fun _ => Prog.Ends.pure fun _ hs => hs) fun hne => ?_
      have hpos : 0 < data.length := List.length_pos_iff.mpr hne
      refine Prog.Ends.bind (transfer_calm (J := fun _ _ => True) fun _ _ _ _ => trivial)
        fun written => ?_
      refine Prog.Ends.ite (fun hzero => ?_) fun hwritten => ?_
      · intro s hs
        exact absurd (hs.1.2 hpos) (by omega)
      · intro s hs
        exact writeAll_calm n fuel (data.drop written) (by rw [List.length_drop]; omega) s hs.2

/-- Without faults the scratch file is removed. -/
theorem cleanUp_calm :
    Prog.Ends (Calm fun _ => True) cleanUp (fun _ => Calm fun _ => True) Never := by
  refine Prog.Ends.bind (syscall_calm (J := fun _ => True) fun _ _ => trivial) fun _ => ?_
  exact syscall_calm fun _ _ => trivial

/-- Without faults the state is replaced. -/
theorem replaceState_calm (n : ℕ) (data : List UInt8) : Prog.Ends (Calm fun _ => True)
    (replaceState n data)
    (fun _ => Calm fun _ => True) Never := by
  have hcall : ∀ effect : Disk Name → Disk Name, Prog.Ends (Calm fun _ => True)
    (syscall Failure.os effect)
      (fun _ => Calm fun _ => True) Never := fun effect => syscall_calm fun _ _ => trivial
  refine Prog.Ends.bind (writeAll_calm n _ data le_rfl) fun _ => ?_
  refine Prog.Ends.bind (hcall _) fun _ => ?_
  refine Prog.Ends.bind (hcall _) fun _ => ?_
  exact Prog.Ends.bind (hcall _) fun _ => hcall _

variable {p : Place} {power : Prop} {V : Option Object → Prop}

/-- The state file of a directory passes the check. -/
theorem Shows.validate_state {d : Disk Name} (h : Shows p V d d.names) :
    (((d.names .state).map d.inodes).all fun i => validate p i) = true := by
  obtain ⟨⟨v, -, hholds⟩, -⟩ := h
  rcases v with _ | m
  · rw [HoldsState] at hholds
    rw [hholds]
    rfl
  · obtain ⟨n, hn, -, -, hvalid, -⟩ := hholds
    rw [hn]
    exact hvalid

/-- Whatever an interrupted publication left is taken away. -/
theorem clearScratch_calm : Prog.Ends (Calm (Inv p power V)) (clearScratch p)
    (fun _ => Calm fun d => d.names .scratch = none) Never := by
  refine Prog.Ends.bind lstat_calm fun found => ?_
  rcases found with _ | info
  · refine Prog.Ends.pure fun s hs => ⟨?_, hs.1.2⟩
    exact Option.map_eq_none_iff.mp hs.2.symm
  · refine Prog.Ends.bind (require_true fun s hs => ?_) fun _ => ?_
    · obtain ⟨n, hn, rfl⟩ := Option.map_eq_some_iff.mp hs.2.symm
      exact (hs.1.1.1.2 n hn).2.2
    · exact (syscall_calm fun d _ => by simp).mono (fun _ hs => hs.1) (fun _ _ h => h) fun _ _ h =>
        h

/-- Without faults the scratch file is opened, when there is none yet. -/
theorem openScratch_calm : Prog.Ends (Calm fun d => d.names .scratch = none) (openScratch p)
    (fun _ => Calm fun _ => True) Never := by
  intro m hm
  have hends : Prog.Ends (Calm fun _ => True) (do
        syscall .os fun d => d.create .scratch p.euid 0o600
        return m.disk.next : Calls Failure Name ℕ) (fun _ => Calm fun _ => True) Never := by
    refine Prog.Ends.bind (syscall_calm (J := fun _ => True) fun _ _ => trivial) fun _ => ?_
    exact Prog.Ends.pure fun s hs => hs
  rw [openScratch, Prog.get_bind, if_pos hm.1]
  exact hends m ⟨trivial, hm.2⟩

/-- **An undisturbed publication returns**, whatever an interrupted one left. -/
theorem publish_calm {m : Object} (hp : p.isPrivate = true)
    (hlen : (encoding m).length ≤ maxBytes) :
    Prog.Ends (Calm (Inv p power V)) (publish p (.obj m)) (fun _ => Calm fun _ => True) Never := by
  refine Prog.Ends.bind (require_true fun _ _ => decide_eq_true hlen) fun _ => ?_
  refine Prog.Ends.bind (syscall_calm (J := Inv p power V) fun _ h => h) fun _ => ?_
  refine Prog.Ends.bind (require_true fun _ _ => hp) fun _ => ?_
  refine Prog.Ends.bind lstat_calm fun info => ?_
  refine Prog.Ends.bind (require_true fun s hs => ?_) fun _ => ?_
  · rw [hs.2]
    exact hs.1.1.1.validate_state
  refine Prog.Ends.bind (clearScratch_calm.mono (fun _ h => h.1) (fun _ _ h => h) fun _ _ h => h)
    fun _ => ?_
  refine Prog.Ends.bind openScratch_calm fun fd => ?_
  refine finally_ends (replaceState_calm fd _) (fun _ => cleanUp_calm) (fun _ _ hs => absurd hs id)
    fun _ h => h

end calm

/-! ## Reading -/

section reading

variable {p : Place} {d : Disk Name}

/-- The read loop ends with the whole file, however its reads are cut. -/
theorem readLoop_calm (fd : ℕ) (hlen : (d.inodes fd).content.length ≤ maxBytes) : (fuel : ℕ) →
    (data rest : List UInt8) → (d.inodes fd).content = data ++ rest → rest.length < fuel →
      Prog.Ends (Calm (· = d)) (readLoop fd fuel data) (fun got m => got = (d.inodes fd).content
        ∧ Calm (· = d) m) Never
  | fuel + 1, data, rest, hdata, hfuel => by
      have hshort : ¬ maxBytes < data.length := by
        rw [hdata, List.length_append] at hlen
        omega
      intro m hm
      obtain ⟨hd, hquiet⟩ := hm
      have hleft : (m.disk.inodes fd).content.drop data.length = rest := by
        rw [hd, hdata, List.drop_left]
      unfold readLoop
      rw [if_neg hshort, Prog.get_bind]
      simp only [hleft]
      refine Prog.Ends.bind (transfer_calm (I := (· = d)) (J := fun _ => (· = d)) fun _ _ _ h => h)
        (fun count => ?_) m
        ⟨hd, hquiet⟩
      refine Prog.Ends.ite (fun hend => ?_) fun hmore => ?_
      · refine Prog.Ends.pure fun s hs => ⟨?_, hs.2⟩
        have hnil : rest = [] := by
          rcases List.take_eq_nil_iff.mp hend with hzero | hnil
          · omega
          · exact hnil
        rw [hdata, hnil, List.append_nil]
      · intro s hs
        refine readLoop_calm fd hlen fuel _ (rest.drop (max count 1)) ?_ ?_ s hs.2
        · rw [hdata, List.append_assoc, List.take_append_drop]
        · have hpos : 0 < rest.length := by
            rw [List.length_pos_iff]
            rintro rfl
            exact hmore List.take_nil
          rw [List.length_drop]
          omega

/-- What a directory shows, as a reader gets it. -/
theorem read_calm {v : Option Object} (h : HoldsState p d d.names v) :
    Prog.Ends (Calm (· = d)) (read p) (fun w m => w = v.map canonical ∧ m.disk = d) Never := by
  refine Prog.Ends.bind (syscall_calm (J := (· = d)) fun _ h => h) fun _ => ?_
  rintro m ⟨hd, hquiet⟩
  rw [Prog.get_bind]
  rcases v with _ | value
  · have hnone : m.disk.names .state = none := by rw [hd]; exact h
    simp only [hnone]
    exact Prog.Ends.pure (P := fun m => m.disk = d) (fun s hs => ⟨rfl, hs⟩) m hd
  · obtain ⟨fd, hfd, -, -, hvalid, hcontent, hm⟩ := h
    have hsome : m.disk.names .state = some fd := by rw [hd]; exact hfd
    have hlen : (encoding value).length ≤ maxBytes := by
      simp only [validate, Bool.and_eq_true, decide_eq_true_eq] at hvalid
      rw [← hcontent]
      exact hvalid.2
    simp only [hsome]
    refine finally_ends (P := Calm (· = d)) (R := fun w m => w = some (canonical value)
      ∧ Calm (· = d) m) (E := Never)
      ?_ (fun w => ?_) (fun _ _ hs => absurd hs id) (fun _ h => h) m ⟨hd, hquiet⟩
    · refine Prog.Ends.bind (syscall_calm (J := (· = d)) fun _ h => h) fun _ => ?_
      refine Prog.Ends.bind (require_true fun s hs => ?_) fun _ => ?_
      · rw [hd]
        exact hvalid
      have hfile : (d.inodes fd).content.length ≤ maxBytes := by rw [hcontent]; exact hlen
      have hfuel : (encoding value).length < maxBytes + 2 := by omega
      refine Prog.Ends.bind (readLoop_calm fd hfile _ [] _ hcontent hfuel) fun data => ?_
      refine Prog.Ends.bind (require_true fun s hs => ?_) fun _ => ?_
      · rw [hs.1, hcontent]
        exact decide_eq_true hlen
      rintro s ⟨rfl, hs⟩
      rw [hcontent, decodeState_encoding hm]
      refine ⟨fun w t ht => ?_, fun e t ht => ?_⟩
      · cases ht
        exact ⟨rfl, hs⟩
      · cases ht
    · refine Prog.Ends.mono (syscall_calm (I := fun m => w = some (canonical value) ∧ m = d)
        (J := fun m => w = some (canonical value) ∧ m = d) fun _ h => h) ?_ ?_ fun _ _ h => h
      · exact fun s hs => ⟨⟨hs.1, hs.2.1⟩, hs.2.2⟩
      · exact fun _ s hs => hs.1

end reading

/-! ## Histories -/

/-- The directories that publications leave, each of them ending as it may, and power losses. `V`
are the values such a directory may show: the last one published, and those whose publication did
not return since. -/
inductive Left (p : Place) : (Option Object → Prop) → Disk Name → Prop where
  | empty {d : Disk Name} : (∀ name, d.names name = none) → d.pending = [] → Left p (· = none) d
  | returned {V : Option Object → Prop} {d after : Disk Name} {m : Object}
    {script rest : List Fault} :
      Left p V d → Denotable (.obj m) → publish p (.obj m) ⟨d, script⟩ = (.ok (), ⟨after, rest⟩) →
      Left p (· = some m) after
  | stopped {V : Option Object → Prop} {d after : Disk Name} {m : Object} {script rest : List Fault}
      {stop : Stop Failure} : Left p V d → Denotable (.obj m) →
      publish p (.obj m) ⟨d, script⟩ = (.error stop, ⟨after, rest⟩) → Left p (OrNew V m) after
  | lost {V : Option Object → Prop} {d after : Disk Name} : Left p V d → d.Loses after →
    Left p V after

/-- A publication and a power loss keep what a directory may show. -/
theorem Left.inv {p : Place} {V : Option Object → Prop} {d : Disk Name} (h : Left p V d) :
    Inv p True V d := by
  induction h with
  | empty hnames hpending =>
    refine ⟨⟨⟨none, rfl, hnames _⟩, fun n hn => ?_⟩, fun _ names hn => ?_⟩
    · rw [hnames] at hn
      cases hn
    · rw [hpending] at hn
      cases hn
  | returned _ hm hrun ih => exact ih.returned hm hrun
  | stopped _ hm hrun ih => exact ih.stopped hm hrun
  | lost _ hloss ih => exact ih.loses hloss

/-- Every undisturbed read of a directory gives this value, or the absence of one. -/
def ReadsAs (p : Place) (d : Disk Name) (v : Option Object) : Prop :=
  ∀ m : Machine Name, m.disk = d → Quiet m → ∃ w t, read p m = (.ok w, t) ∧
    Option.Rel (fun a b => Json.Same (.obj a) (.obj b)) w v

/-- An undisturbed publication of any value returns, and reads then give that value. -/
def Accepts (p : Place) (d : Disk Name) : Prop :=
  ∀ m : Object, Denotable (.obj m) → (encoding m).length ≤ maxBytes → ∀ s :
  Machine Name, s.disk = d → Quiet s →
    ∃ t, publish p (.obj m) s = (.ok (), t) ∧ ReadsAs p t.disk (some m)

section histories

variable {p : Place} {power : Prop} {V : Option Object → Prop} {d : Disk Name}

/-- A disk that holds a value is read as that value. -/
theorem HoldsState.readsAs {v : Option Object} (h : HoldsState p d d.names v) : ReadsAs p d v := by
  rintro m hd hquiet
  obtain ⟨w, t, hrun, hw, -⟩ := returns_of_ends (read_calm h) (m := m) ⟨hd, hquiet⟩
  refine ⟨w, t, hrun, ?_⟩
  rw [hw]
  rcases v with _ | value
  · exact .none
  · exact .some (canonical_same value)

/-- A directory that shows one of some values is read as one of them. -/
theorem Inv.readsAs (h : Inv p power V d) : ∃ v, V v ∧ ReadsAs p d v := by
  obtain ⟨⟨⟨v, hv, hholds⟩, -⟩, -⟩ := h
  exact ⟨v, hv, hholds.readsAs⟩

/-- A disk with the invariant accepts the next publication. -/
theorem Inv.accepts (h : Inv p power V d) (hp : p.isPrivate = true) : Accepts p d := by
  rintro m hm hlen s rfl hquiet
  obtain ⟨⟨⟩, t, hrun, -⟩ := returns_of_ends (publish_calm hp hlen) (m := s) ⟨h, hquiet⟩
  obtain ⟨v, rfl, hreads⟩ := Inv.readsAs ((publish_ends hm s h).1 _ _ hrun)
  exact ⟨t, hrun, hreads⟩

end histories

/-- An empty private directory. -/
def emptyDisk : Disk Name := ⟨fun _ => ⟨.regular, 0, 0, 0, []⟩, fun _ => true, fun _ => none, [], 0⟩

def home : Place := ⟨1000, true, 1000, 0o700⟩

end PeerBridge.State
