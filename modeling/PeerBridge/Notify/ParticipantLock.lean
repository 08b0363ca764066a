import PeerBridge.Install.Units
import PeerBridge.Runtime.Bytes
import PeerBridge.Runtime.Files
import PeerBridge.Runtime.Transition

/-!
# One notifier for each participant

A notifier runs inside two locks, taken in order: the lock of its state directory, and one in a
directory that all state directories of the account share, named after the participant. Both are
advisory locks on files that are created once and never removed.

Any number of notifiers make their calls here one by one, in any order. A call may fail, and a
process may end between any two of them, which closes its descriptors.

* `payload_injective`: a lock is named after the provider and the participant together;
* `Inv`: a lock is held by whoever the calls say, and a descriptor is of the file its path still
  names;
* `one_notifier`: two notifiers inside differ in both, whoever is turned away is turned away by a
  notifier that is still there, and who is out holds nothing.

Source: `participant_lock.py`; `peer_transport.py` `private_dir`.
-/

namespace PeerBridge.Notify.ParticipantLock

open Py Effects Transition Files PeerBridge.Install

/-! ## The participant and the paths -/

/-- The codes of an `OwnershipError`. -/
inductive Code where
  | invalidProvider
  | invalidParticipant
  | uidMismatch
  | accountHomeUnavailable
  | unsafeLockDirectory
  | stateOverlapsLockNamespace
  | unsafeLockFile
  | lockUnavailable
  | notifierInUse
  | participantInUse
  deriving DecidableEq

/-- The checks on a participant. Source: `identity` -/
def validParticipant (participant : Text) : Bool :=
  !participant.isEmpty && participant == strip participant
    && !(participant.any fun c => decide (c.val < 32) || c.val == 127)
    && encodable participant && decide ((participant.flatMap utf8Bytes).length ≤ 512)

/-- `json.dumps([provider, 'account-local', participant], ensure_ascii=False, separators=(',',
':'))`. -/
def payload (provider participant : Text) : Text :=
  lit "[" ++ quoteLiteral provider ++ lit "," ++ quoteLiteral (lit "account-local") ++ lit ","
    ++ quoteLiteral participant ++ lit "]"

/-- The digest of a participant; `sha256` is `hashlib.sha256(...).hexdigest()`. Source:
`identity` -/
def identity (sha256 : List UInt8 → Text) (provider participant : Text) : Except Code Text := do
  raiseIf (!(provider == lit "codex" || provider == lit "deepseek")) .invalidProvider
  raiseIf (!validParticipant participant) .invalidParticipant
  return sha256 ((payload provider participant).flatMap utf8Bytes)

/-- A resolved path, by its parts. -/
abbrev Path := List Text

/-- What `participant_lock_dir().resolve()` comes to; the directory is one for the whole account. -/
inductive Home where
  | found
  /-- `AccountHomeUnavailable` -/
  | unavailable
  /-- `OSError` -/
  | failed

/-- A call of `notifier_ownership`, and what it finds before it opens a lock. -/
structure Request where
  provider : Text
  participant : Text
  /-- `os.getuid() == os.geteuid()` -/
  sameUid : Bool
  home : Home
  /-- `Path(state_dir).resolve()`, where there is such a path. -/
  state : Option Path
  /-- Both calls of `private_dir` return. -/
  directories : Bool

/-- The paths of the two locks. Source: `notifier_ownership`, up to the locks -/
def lockPaths (sha256 : List UInt8 → Text) (space : Path) (r : Request) :
    Except Code (Path × Path) := do
  let digest ← identity sha256 r.provider r.participant
  raiseIf (!r.sameUid) .uidMismatch
  match r.home, r.state with
  | .unavailable, _ => throw .accountHomeUnavailable
  | .failed, _ => throw .lockUnavailable
  | .found, none => throw .unsafeLockDirectory
  | .found, some state =>
      -- `state == namespace or namespace in state.parents`
      raiseIf (space.isPrefixOf state) .stateOverlapsLockNamespace
      raiseIf (!r.directories) .unsafeLockDirectory
      return (state ++ [lit "notifier.lock"], space ++ [digest ++ lit ".lock"])

/-! ## The calls -/

/-- How far a call of `notifier_ownership` has come. A number is a file that it holds open. -/
inductive Phase where
  | waiting
  /-- The first file is open; `target` is the path of the second. -/
  | opened (target : Path) (n : ℕ)
  /-- The first file is locked. -/
  | locked (target : Path) (n : ℕ)
  /-- The second file is open too. -/
  | both (n m : ℕ)
  /-- The caller's work runs inside both locks. -/
  | owning (n m : ℕ)
  /-- The files still have to be closed, one after the other. -/
  | closing (files : List ℕ) (code : Option Code)
  | ended (code : Option Code)
  deriving DecidableEq

/-- The files a call has locked. -/
def Phase.held : Phase → List ℕ
  | waiting | opened _ _ | ended _ => []
  | locked _ n | both n _ => [n]
  | owning n m => [n, m]
  | closing files _ => files

/-- The lock files of the account, who holds which, and the calls by number. -/
structure State where
  disk : Disk Path
  locks : ℕ → Option ℕ
  phase : ℕ → Phase

inductive Event where
  /-- The next system call of a notifier, which may fail, or the end of its work. -/
  | call (i : ℕ) (fails : Bool)
  /-- The process ends. -/
  | die (i : ℕ)

def State.move (s : State) (i : ℕ) (p : Phase) : State :=
  { s with phase := Function.update s.phase i p }

/-- Closing a descriptor drops the lock that was taken through it. -/
def State.release (s : State) (n : ℕ) : State := { s with locks := Function.update s.locks n none }

/-- `os.open(path, O_RDWR | O_CREAT, 0o600)`. -/
def openFile (uid : ℕ) (d : Disk Path) (path : Path) : Disk Path × ℕ :=
  match d.names path with
  | some n => (d, n)
  | none => (d.create path uid 0o600, d.next)

/-- The checks on `os.fstat`. Source: `file_lock` -/
def safe (uid : ℕ) (f : Inode) : Bool :=
  f.kind == .regular && f.uid == uid && f.mode &&& 0o077 == 0 && f.nlink == 1

/-- A lock file is opened and looked at. Source: `file_lock`, up to `set_inheritable` -/
def State.openLock (s : State) (uid i : ℕ) (path : Path) (fails : Bool) (next : ℕ → Phase)
    (refused : Code → Phase) : State :=
  if fails then s.move i (refused .lockUnavailable)
  else
    let (d, n) := openFile uid s.disk path
    { s with disk := d }.move i (if safe uid (d.inodes n) then next n else refused .unsafeLockFile)

/-- `fcntl.flock(fd, LOCK_EX | LOCK_NB)`. Source: `file_lock` -/
def State.flock (s : State) (i n : ℕ) (conflict : Code) (fails : Bool) (next : Phase)
    (refused : Code → Phase) : State :=
  if fails then s.move i (refused .lockUnavailable)
  else if (s.locks n).isSome then s.move i (refused conflict)
  else { s with locks := Function.update s.locks n (some i) }.move i next

variable (sha256 : List UInt8 → Text) (space : Path) (uid : ℕ) (request : ℕ → Request)

/-- One event. The files of a call are closed in reverse, those of a process that ends in order; a
file that is not locked is closed with the refusal. -/
def State.next (s : State) : Event → Option State
  | .call i fails =>
      match s.phase i with
      | .waiting =>
          match lockPaths sha256 space (request i) with
          | .error e => some (s.move i (.ended (some e)))
          | .ok (path, target) =>
              some (s.openLock uid i path fails (.opened target) fun e => .ended (some e))
      | .opened target n =>
          some (s.flock i n .notifierInUse fails (.locked target n) fun e => .ended (some e))
      | .locked target n => some (s.openLock uid i target fails (.both n) fun e =>
        .closing [n] (some e))
      | .both n m => some (s.flock i m .participantInUse fails (.owning n m) fun e =>
        .closing [n] (some e))
      | .owning n m => some (s.move i (.closing [m, n] none))
      | .closing [] code => some (s.move i (.ended code))
      | .closing (n :: files) code => some ((s.release n).move i (.closing files code))
      | .ended _ => none
  | .die i =>
      match s.phase i with
      | .ended _ => none
      | p => some (s.move i (.closing p.held none))

/-- Files are below the next one, and a file of two names has more than one link. -/
structure Sound (d : Disk Path) : Prop where
  allocated : ∀ path n, d.names path = some n → n < d.next
  linked : ∀ path path' n, d.names path = some n → d.names path' = some n → path ≠ path' →
    (d.inodes n).nlink ≠ 1

/-- The notifiers of an account, on any files there may be. -/
def system : System State Event where
  init s := Sound s.disk ∧ (∀ n, s.locks n = none) ∧ ∀ i, s.phase i = .waiting
  next := State.next sha256 space uid request

/-! ## The names of the locks -/

variable {sha256 space uid request}

/-- Two quoted texts in front of other texts are the same only if text and rest are. -/
theorem quoteLiteral_append_inj {a b rest rest' : Text}
    (h : quoteLiteral a ++ rest = quoteLiteral b ++ rest') :
    a = b ∧ rest = rest' := by
  have ha := rawDecode_quoteLiteral (fun m => some (.obj (dictOf m))) a rest
  rw [h, rawDecode_quoteLiteral] at ha
  obtain ⟨hvalue, hrest⟩ := Prod.mk.inj (Option.some.inj ha)
  exact ⟨(Json.str.inj hvalue).symm, hrest.symm⟩

/-- A lock is named after the provider and the participant together. -/
theorem payload_injective {provider provider' participant participant' : Text}
    (h : payload provider participant = payload provider' participant') :
    provider = provider' ∧ participant = participant' := by
  simp only [payload, List.append_assoc] at h
  obtain ⟨hprovider, h⟩ := quoteLiteral_append_inj (List.append_cancel_left h)
  have h := List.append_cancel_left (List.append_cancel_left (List.append_cancel_left h))
  exact ⟨hprovider, (quoteLiteral_append_inj h).1⟩

/-- An identity is the digest of the payload. -/
theorem identity_eq_ok {provider participant digest : Text}
    (h : identity sha256 provider participant = .ok digest) :
    digest = sha256 ((payload provider participant).flatMap utf8Bytes) := by
  obtain ⟨-, -, h⟩ := except_bind_eq_ok.mp h
  obtain ⟨-, -, h⟩ := except_bind_eq_ok.mp h
  exact (Except.ok.inj h).symm

/-- The two lock files of a request whose checks pass. -/
theorem lockPaths_eq_ok {r : Request} {path target : Path}
    (h : lockPaths sha256 space r = .ok (path, target)) :
    ∃ state, r.state = some state ∧ ¬ space <+: state ∧ path = state ++ [lit "notifier.lock"]
      ∧ target = space ++ [sha256 ((payload r.provider r.participant).flatMap utf8Bytes)
        ++ lit ".lock"] := by
  obtain ⟨digest, hdigest, h⟩ := except_bind_eq_ok.mp h
  obtain rfl := identity_eq_ok hdigest
  obtain ⟨-, -, h⟩ := except_bind_eq_ok.mp h
  split at h
  · cases h
  · cases h
  · cases h
  · next state _ hstate =>
    obtain ⟨_, hoverlap, h⟩ := except_bind_eq_ok.mp h
    obtain ⟨-, -, h⟩ := except_bind_eq_ok.mp h
    obtain ⟨rfl, rfl⟩ := Prod.mk.inj (Except.ok.inj h)
    refine ⟨state, hstate, ?_, rfl, rfl⟩
    rw [raiseIf_eq_ok] at hoverlap
    rw [← List.isPrefixOf_iff_prefix, hoverlap]
    exact Bool.false_ne_true

/-- The lock of a state directory is not the lock of a participant. -/
theorem lockPaths_ne {r r' : Request} {path path' target target' : Path}
    (h : lockPaths sha256 space r = .ok (path, target))
    (h' : lockPaths sha256 space r' = .ok (path', target')) :
    path ≠ target' := by
  obtain ⟨state, -, hoverlap, rfl, -⟩ := lockPaths_eq_ok h
  obtain ⟨-, -, -, -, rfl⟩ := lockPaths_eq_ok h'
  intro heq
  obtain ⟨rfl, -⟩ := List.append_inj' heq rfl
  exact hoverlap (List.prefix_refl _)

/-! ## The invariant -/

/-- A path names a file, which has no other name. -/
def Names (d : Disk Path) (path : Path) (n : ℕ) : Prop :=
  d.names path = some n ∧ (d.inodes n).nlink = 1

/-- Files that have a name keep it, and stay as they are. -/
def Grows (d d' : Disk Path) : Prop :=
  ∀ path n, d.names path = some n → d'.names path = some n ∧ d'.inodes n = d.inodes n

/-- A call holds files open by the paths of its locks. -/
def Phase.Fits (d : Disk Path) (paths : Except Code (Path × Path)) : Phase → Prop
  | waiting | ended _ => True
  | opened target n | locked target n => ∃ path, paths = .ok (path, target) ∧ Names d path n
  | both n m | owning n m => ∃ path target, paths = .ok (path, target) ∧ Names d path n
    ∧ Names d target m
  | closing files _ => ∀ n ∈ files, ∃ path target, paths = .ok (path, target)
    ∧ (Names d path n ∨ Names d target n)

/-- What holds between any two calls. -/
structure Inv (sha256 : List UInt8 → Text) (space : Path) (request : ℕ → Request) (s : State) :
    Prop where
  sound : Sound s.disk
  locks : ∀ n i, s.locks n = some i ↔ n ∈ (s.phase i).held
  nodup : ∀ i, (s.phase i).held.Nodup
  fits : ∀ i, (s.phase i).Fits s.disk (lockPaths sha256 space (request i))

variable {s s' : State} {d d' : Disk Path} {path target : Path} {i j n m : ℕ} {p : Phase}

/-- A name stays the name of its file. -/
theorem Names.grows (h : Names d path n) (hd : Grows d d') : Names d' path n := by
  obtain ⟨hname, hnode⟩ := hd path n h.1
  exact ⟨hname, by rw [hnode]; exact h.2⟩

/-- No file is replaced where nothing happens. -/
theorem Grows.refl (d : Disk Path) : Grows d d := fun _ _ h => ⟨h, rfl⟩

/-- Disks grow in a chain. -/
theorem Grows.trans {d'' : Disk Path} (h : Grows d d') (h' : Grows d' d'') : Grows d d'' := by
  intro path n hn
  obtain ⟨hname, hnode⟩ := h path n hn
  obtain ⟨hname', hnode'⟩ := h' path n hname
  exact ⟨hname', hnode'.trans hnode⟩

/-- A phase still fits when files are added. -/
theorem Phase.Fits.grows {paths : Except Code (Path × Path)} (h : p.Fits d paths)
    (hd : Grows d d') :
    p.Fits d' paths := by
  cases p with
  | waiting => trivial
  | ended => trivial
  | opened =>
    obtain ⟨path, hpaths, hn⟩ := h
    exact ⟨path, hpaths, hn.grows hd⟩
  | locked =>
    obtain ⟨path, hpaths, hn⟩ := h
    exact ⟨path, hpaths, hn.grows hd⟩
  | both =>
    obtain ⟨path, target, hpaths, hn, hm⟩ := h
    exact ⟨path, target, hpaths, hn.grows hd, hm.grows hd⟩
  | owning =>
    obtain ⟨path, target, hpaths, hn, hm⟩ := h
    exact ⟨path, target, hpaths, hn.grows hd, hm.grows hd⟩
  | closing =>
    intro k hk
    obtain ⟨path, target, hpaths, hname⟩ := h k hk
    exact ⟨path, target, hpaths, hname.imp (·.grows hd) (·.grows hd)⟩

/-- An open file has the path it was opened by, whether it was there or not. -/
theorem openFile_spec (hd : Sound d) (h : openFile uid d path = (d', n)) :
    Sound d' ∧ Grows d d' ∧ d'.names path = some n := by
  unfold openFile at h
  split at h
  · next k hk =>
    obtain ⟨rfl, rfl⟩ := Prod.mk.inj h
    exact ⟨hd, .refl _, hk⟩
  · next hnone =>
    obtain ⟨rfl, rfl⟩ := Prod.mk.inj h
    have hold : ∀ p k, d.names p = some k → p ≠ path ∧ k ≠ d.next := by
      rintro p k hk
      refine ⟨?_, (hd.allocated p k hk).ne⟩
      rintro rfl
      rw [hnone] at hk
      cases hk
    have hname : ∀ p k, (d.create path uid 0o600).names p = some k →
        p = path ∧ k = d.next ∨ d.names p = some k := by
      intro p k hk
      rw [Disk.names_create, Function.update_apply] at hk
      split at hk
      · next heq => exact .inl ⟨heq, (Option.some.inj hk).symm⟩
      · exact .inr hk
    have hnode : ∀ k, k ≠ d.next → (d.create path uid 0o600).inodes k = d.inodes k :=
      fun k hk => Function.update_of_ne hk _ _
    refine ⟨⟨?_, ?_⟩, ?_, ?_⟩
    · intro p k hk
      rcases hname p k hk with ⟨-, rfl⟩ | hk
      · exact Nat.lt_succ_self _
      · exact (hd.allocated p k hk).trans (Nat.lt_succ_self _)
    · intro p p' k hk hk' hne
      rcases hname p k hk with ⟨rfl, rfl⟩ | hk
      · rcases hname p' d.next hk' with ⟨rfl, -⟩ | hk'
        · exact absurd rfl hne
        · exact absurd rfl (hold p' _ hk').2
      · rcases hname p' k hk' with ⟨-, rfl⟩ | hk'
        · exact absurd rfl (hold p _ hk).2
        · rw [hnode k (hold p k hk).2]
          exact hd.linked p p' k hk hk' hne
    · intro p k hk
      obtain ⟨hp, hne⟩ := hold p k hk
      rw [Disk.names_create, Function.update_of_ne hp]
      exact ⟨hk, hnode k hne⟩
    · rw [Disk.names_create, Function.update_self]

/-- One file, one path. -/
theorem Sound.path_eq (hd : Sound d) (h : Names d path n) (h' : Names d target n) :
    path = target := by
  by_contra hne
  exact hd.linked path target n h.1 h'.1 hne h.2

/-! ## One event -/

/-- A call goes on. Only its own locks may change with it. -/
theorem Inv.put (h : Inv sha256 space request s) {locks : ℕ → Option ℕ}
    (hmine : ∀ n, locks n = some i ↔ n ∈ p.held)
    (hothers : ∀ n k, k ≠ i → (locks n = some k ↔ s.locks n = some k))
    (hnodup : p.held.Nodup) (hfits : p.Fits s.disk (lockPaths sha256 space (request i))) :
    Inv sha256 space request ({ s with locks := locks }.move i p) := by
  refine ⟨h.sound, ?_, ?_, ?_⟩
  · intro n k
    simp only [State.move, Function.update_apply]
    split
    · next hk => rw [hk, hmine]
    · next hk => rw [hothers n k hk, h.locks]
  · intro k
    simp only [State.move, Function.update_apply]
    split
    · exact hnodup
    · exact h.nodup k
  · intro k
    simp only [State.move, Function.update_apply]
    split
    · next hk =>
      rw [hk]
      exact hfits
    · exact h.fits k

/-- No lock is taken or dropped. -/
theorem Inv.move (h : Inv sha256 space request s) (hheld : p.held.Perm (s.phase i).held)
    (hfits : p.Fits s.disk (lockPaths sha256 space (request i))) :
    Inv sha256 space request (s.move i p) := by
  refine h.put ?_ (fun _ _ _ => Iff.rfl) (hheld.nodup_iff.mpr (h.nodup i)) hfits
  intro n
  rw [hheld.mem_iff, h.locks]

/-- Adding files keeps the invariant. -/
theorem Inv.grow (h : Inv sha256 space request s) (hd : Sound d) (hgrows : Grows s.disk d) :
    Inv sha256 space request { s with disk := d } :=
  ⟨hd, h.locks, h.nodup, fun i => (h.fits i).grows hgrows⟩

/-- A lock that is free is taken. -/
theorem Inv.take (h : Inv sha256 space request s) (hfree : s.locks n = none)
    (hheld : p.held.Perm (n :: (s.phase i).held))
    (hfits : p.Fits s.disk (lockPaths sha256 space (request i))) :
    Inv sha256 space request ({ s with locks := Function.update s.locks n (some i) }.move i p) := by
  have hfresh : n ∉ (s.phase i).held := by
    rw [← h.locks, hfree]
    exact (Option.some_ne_none i).symm
  refine h.put ?_ ?_ (hheld.nodup_iff.mpr (List.nodup_cons.mpr ⟨hfresh, h.nodup i⟩)) hfits
  · intro k
    rw [Function.update_apply, hheld.mem_iff, List.mem_cons]
    split
    · next hk => exact iff_of_true rfl (.inl hk)
    · next hk => rw [or_iff_right hk, h.locks]
  · intro k j hj
    rw [Function.update_apply]
    split
    · next hk =>
      rw [hk, hfree]
      exact iff_of_false (fun heq => hj (Option.some.inj heq).symm) (Option.some_ne_none j).symm
    · rfl

/-- A file is closed. -/
theorem Inv.close {files : List ℕ} {code : Option Code} (h : Inv sha256 space request s)
    (hp : s.phase i = .closing (n :: files) code) :
    Inv sha256 space request ((s.release n).move i (.closing files code)) := by
  have hheld : (s.phase i).held = n :: files := by rw [hp]; rfl
  have hnodup := h.nodup i
  have hfits := h.fits i
  rw [hheld, List.nodup_cons] at hnodup
  rw [hp] at hfits
  have hmine : s.locks n = some i := by
    rw [h.locks, hheld]
    exact List.mem_cons_self
  refine h.put ?_ ?_ hnodup.2 fun l hl => hfits l (List.mem_cons_of_mem n hl)
  · intro k
    rw [Function.update_apply]
    split
    · next hk =>
      rw [hk]
      exact iff_of_false (Option.some_ne_none i).symm hnodup.1
    · next hk =>
      rw [h.locks, hheld, List.mem_cons, or_iff_right hk]
      rfl
  · intro k j hj
    rw [Function.update_apply]
    split
    · next hk =>
      rw [hk, hmine]
      exact iff_of_false (Option.some_ne_none j).symm fun heq => hj (Option.some.inj heq).symm
    · rfl

/-- Opening a lock file keeps the invariant. -/
theorem Inv.openLock {fails : Bool} {next : ℕ → Phase} {refused : Code → Phase}
    (h : Inv sha256 space request s)
    (hnext : ∀ n, (next n).held.Perm (s.phase i).held)
    (hrefused : ∀ e, (refused e).held.Perm (s.phase i).held)
    (hfits : ∀ d n, Grows s.disk d → Names d path n →
      (next n).Fits d (lockPaths sha256 space (request i)))
    (hfits' : ∀ d e, Grows s.disk d → (refused e).Fits d (lockPaths sha256 space (request i))) :
    Inv sha256 space request (s.openLock uid i path fails next refused)
      ∧ Grows s.disk (s.openLock uid i path fails next refused).disk := by
  unfold State.openLock
  split
  · exact ⟨h.move (hrefused _) (hfits' _ _ (.refl _)), .refl _⟩
  · rcases hopen : openFile uid s.disk path with ⟨d, n⟩
    obtain ⟨hsound, hgrows, hname⟩ := openFile_spec h.sound hopen
    have hgrown := h.grow hsound hgrows
    refine ⟨?_, hgrows⟩
    simp only
    split
    · next hsafe =>
      simp only [safe, Bool.and_eq_true, beq_iff_eq] at hsafe
      exact hgrown.move (hnext _) (hfits _ _ hgrows ⟨hname, hsafe.2⟩)
    · exact hgrown.move (hrefused _) (hfits' _ _ hgrows)

/-- Taking a lock keeps the invariant. -/
theorem Inv.flock {fails : Bool} {conflict : Code} {refused : Code → Phase}
    (h : Inv sha256 space request s)
    (hnext : p.held.Perm (n :: (s.phase i).held))
    (hrefused : ∀ e, (refused e).held.Perm (s.phase i).held)
    (hfits : p.Fits s.disk (lockPaths sha256 space (request i)))
    (hfits' : ∀ e, (refused e).Fits s.disk (lockPaths sha256 space (request i))) :
    Inv sha256 space request (s.flock i n conflict fails p refused) := by
  unfold State.flock
  split
  · exact h.move (hrefused _) (hfits' _)
  · split
    · exact h.move (hrefused _) (hfits' _)
    · next hfree => exact h.take (by simpa using hfree) hnext hfits

/-- Taking a lock leaves the files alone. -/
theorem disk_flock {fails : Bool} {conflict : Code} {refused : Code → Phase} :
    (s.flock i n conflict fails p refused).disk = s.disk := by
  unfold State.flock
  split
  · rfl
  · split
    · rfl
    · rfl

/-- Every file a call holds was opened by one of its two paths. -/
theorem Inv.held_path (h : Inv sha256 space request s) (hn : n ∈ (s.phase i).held) :
    ∃ path target, lockPaths sha256 space (request i) = .ok (path, target)
      ∧ (Names s.disk path n ∨ Names s.disk target n) := by
  have hfits := h.fits i
  rcases hp : s.phase i with _ | ⟨target, k⟩ | ⟨target, k⟩ | ⟨k, l⟩ | ⟨k, l⟩ | ⟨files, code⟩ | code
  all_goals rw [hp] at hn hfits
  · cases hn
  · cases hn
  · obtain ⟨path, hpaths, hname⟩ := hfits
    obtain rfl := List.mem_singleton.mp hn
    exact ⟨path, target, hpaths, .inl hname⟩
  · obtain ⟨path, target, hpaths, hname, -⟩ := hfits
    obtain rfl := List.mem_singleton.mp hn
    exact ⟨path, target, hpaths, .inl hname⟩
  · obtain ⟨path, target, hpaths, hname, hname'⟩ := hfits
    refine ⟨path, target, hpaths, ?_⟩
    rcases List.mem_cons.mp hn with rfl | hn
    · exact .inl hname
    · obtain rfl := List.mem_singleton.mp hn
      exact .inr hname'
  · exact hfits n hn
  · cases hn

/-- Every step keeps the invariant and replaces no lock file. -/
theorem Inv.next {e : Event} (h : Inv sha256 space request s)
    (hnext : State.next sha256 space uid request s e = some s') :
    Inv sha256 space request s' ∧ Grows s.disk s'.disk := by
  cases e with
  | call i fails =>
    have hfits := h.fits i
    simp only [State.next] at hnext
    rcases hp : s.phase i with _ | ⟨target, n⟩ | ⟨target, n⟩ | ⟨n, m⟩ | ⟨n, m⟩ | ⟨_ | ⟨n, files⟩,
      code⟩ | code
    all_goals rw [hp] at hnext hfits
    · simp only at hnext
      rcases hpaths : lockPaths sha256 space (request i) with code | ⟨path, target⟩
      all_goals rw [hpaths] at hnext
      · obtain rfl := Option.some.inj hnext
        exact ⟨h.move (by rw [hp]; rfl) trivial, .refl _⟩
      · obtain rfl := Option.some.inj hnext
        refine h.openLock (fun _ => by rw [hp]; rfl) (fun _ => by rw [hp]; rfl) ?_ fun _ _ _ =>
          trivial
        exact fun d n _ hn => ⟨path, hpaths, hn⟩
    · obtain rfl := Option.some.inj hnext
      refine ⟨h.flock (by rw [hp]; rfl) (fun _ => by rw [hp]; rfl) hfits fun _ => trivial, ?_⟩
      rw [disk_flock]
      exact .refl _
    · obtain ⟨path, hpaths, hn⟩ := hfits
      obtain rfl := Option.some.inj hnext
      refine h.openLock (fun _ => by rw [hp]; rfl) (fun _ => by rw [hp]; rfl) ?_ ?_
      · exact fun d m hd hm => ⟨path, target, hpaths, hn.grows hd, hm⟩
      · intro d e hd k hk
        obtain rfl := List.mem_singleton.mp hk
        exact ⟨path, target, hpaths, .inl (hn.grows hd)⟩
    · obtain ⟨path, target, hpaths, hn, hm⟩ := hfits
      obtain rfl := Option.some.inj hnext
      refine ⟨h.flock ?_ (fun _ => by rw [hp]; rfl) ⟨path, target, hpaths, hn, hm⟩ ?_, ?_⟩
      · rw [hp]
        exact .swap m n []
      · intro e k hk
        obtain rfl := List.mem_singleton.mp hk
        exact ⟨path, target, hpaths, .inl hn⟩
      · rw [disk_flock]
        exact .refl _
    · obtain ⟨path, target, hpaths, hn, hm⟩ := hfits
      obtain rfl := Option.some.inj hnext
      refine ⟨h.move (by rw [hp]; exact .swap n m []) ?_, .refl _⟩
      intro k hk
      refine ⟨path, target, hpaths, ?_⟩
      rcases List.mem_cons.mp hk with rfl | hk
      · exact .inr hm
      · obtain rfl := List.mem_singleton.mp hk
        exact .inl hn
    · obtain rfl := Option.some.inj hnext
      exact ⟨h.move (by rw [hp]; rfl) trivial, .refl _⟩
    · obtain rfl := Option.some.inj hnext
      exact ⟨h.close hp, .refl _⟩
    · cases hnext
  | die i =>
    simp only [State.next] at hnext
    split at hnext
    · cases hnext
    · obtain rfl := Option.some.inj hnext
      exact ⟨h.move (.refl _) fun n hn => h.held_path hn, .refl _⟩

/-- The invariant holds in every reachable state. -/
theorem inv_of_reachable (h : (system sha256 space uid request).Reachable s) :
    Inv sha256 space request s := by
  refine h.invariant ?_ fun _ _ _ h hnext => (h.next hnext).1
  rintro s ⟨hsound, hlocks, hphase⟩
  refine ⟨hsound, ?_, ?_, ?_⟩
  · intro n i
    rw [hlocks, hphase]
    exact iff_of_false (by simp) List.not_mem_nil
  · intro i
    rw [hphase]
    exact List.nodup_nil
  · intro i
    rw [hphase]
    trivial

/-! ## Every run -/

/-- A call that has turned its caller away at a lock. -/
def Phase.turnedAway (code : Code) : Phase → Prop
  | closing _ e | ended e => e = some code
  | _ => False

/-- The same participant of the same provider, or two that SHA-256 does not tell apart. -/
def SameTarget (sha256 : List UInt8 → Text) (r r' : Request) : Prop :=
  r.provider = r'.provider ∧ r.participant = r'.participant
    ∨ payload r.provider r.participant ≠ payload r'.provider r'.participant
      ∧ sha256 ((payload r.provider r.participant).flatMap utf8Bytes)
        = sha256 ((payload r'.provider r'.participant).flatMap utf8Bytes)

/-- The checks before the locks never report a lock that is held. -/
theorem lockPaths_error {r : Request} {code : Code} (h : lockPaths sha256 space r = .error code) :
    code ≠ .notifierInUse ∧ code ≠ .participantInUse := by
  have hraise : ∀ {c : Bool} {e : Code}, e ≠ .notifierInUse ∧ e ≠ .participantInUse →
      raiseIf c e = .error code → code ≠ .notifierInUse ∧ code ≠ .participantInUse := by
    intro c e he hraise
    obtain ⟨-, rfl⟩ := raiseIf_eq_error.mp hraise
    exact he
  rcases except_bind_eq_error.mp h with h | ⟨digest, -, h⟩
  · rcases except_bind_eq_error.mp h with h | ⟨-, -, h⟩
    · exact hraise (by decide) h
    rcases except_bind_eq_error.mp h with h | ⟨-, -, h⟩
    · exact hraise (by decide) h
    · cases h
  rcases except_bind_eq_error.mp h with h | ⟨-, -, h⟩
  · exact hraise (by decide) h
  split at h
  · cases h
    decide
  · cases h
    decide
  · cases h
    decide
  · rcases except_bind_eq_error.mp h with h | ⟨-, -, h⟩
    · exact hraise (by decide) h
    rcases except_bind_eq_error.mp h with h | ⟨-, -, h⟩
    · exact hraise (by decide) h
    · cases h

/-- A notifier that moves is in its new phase. -/
theorem phase_move : (s.move i p).phase i = p := Function.update_self ..

/-- Opening a lock file ends in a refusal or goes on with the file. -/
theorem phase_openLock {fails : Bool} {next : ℕ → Phase} {refused : Code → Phase} :
    (s.openLock uid i path fails next refused).phase i = refused .lockUnavailable
      ∨ (s.openLock uid i path fails next refused).phase i = refused .unsafeLockFile
      ∨ ∃ n, (s.openLock uid i path fails next refused).phase i = next n := by
  unfold State.openLock
  split
  · exact .inl phase_move
  · simp only [phase_move]
    split
    · exact .inr (.inr ⟨_, rfl⟩)
    · exact .inr (.inl rfl)

/-- Taking a lock ends in a refusal, which for a conflict has a holder, or goes on with the lock. -/
theorem phase_flock {fails : Bool} {conflict : Code} {refused : Code → Phase} :
    (s.flock i n conflict fails p refused).phase i = refused .lockUnavailable
      ∨ (s.flock i n conflict fails p refused).phase i = refused conflict
      ∧ (∃ j, s.locks n = some j)
      ∨ (s.flock i n conflict fails p refused).phase i = p := by
  unfold State.flock
  split
  · exact .inl phase_move
  · split
    · next hlocked => exact .inr (.inl ⟨phase_move, Option.isSome_iff_exists.mp hlocked⟩)
    · exact .inr (.inr phase_move)

/-- A caller is turned away where its call finds a lock taken. -/
theorem turnedAway_inv {code : Code} {fails : Bool} (hcode : code = .notifierInUse
    ∨ code = .participantInUse)
    (hnext : State.next sha256 space uid request s (.call i fails) = some s')
    (hbefore : ¬ (s.phase i).turnedAway code) (h : (s'.phase i).turnedAway code) :
    (∃ target n j, s.phase i = .opened target n ∧ s.locks n = some j ∧ code = .notifierInUse)
      ∨ ∃ n m j, s.phase i = .both n m ∧ s.locks m = some j ∧ code = .participantInUse := by
  have hunavailable : (some Code.lockUnavailable) ≠ some code := by
    rintro heq
    rcases hcode with rfl | rfl
    · cases heq
    · cases heq
  have hunsafe : (some Code.unsafeLockFile) ≠ some code := by
    rintro heq
    rcases hcode with rfl | rfl
    · cases heq
    · cases heq
  simp only [State.next] at hnext
  rcases hp : s.phase i with _ | ⟨target, n⟩ | ⟨target, n⟩ | ⟨n, m⟩ | ⟨n, m⟩ | ⟨_ | ⟨n, files⟩,
    e⟩ | e
  all_goals rw [hp] at hnext hbefore
  · simp only at hnext
    rcases hpaths : lockPaths sha256 space (request i) with e | ⟨path, target⟩
    all_goals rw [hpaths] at hnext
    · obtain rfl := Option.some.inj hnext
      rw [phase_move] at h
      obtain rfl := Option.some.inj h
      exact absurd hcode (not_or.mpr (lockPaths_error hpaths))
    · obtain rfl := Option.some.inj hnext
      rcases phase_openLock (s := s) (i := i) with heq | heq | ⟨n, heq⟩
      all_goals rw [heq] at h
      · exact absurd h hunavailable
      · exact absurd h hunsafe
      · exact h.elim
  · obtain rfl := Option.some.inj hnext
    rcases phase_flock (s := s) (i := i) with heq | ⟨heq, j, hj⟩ | heq
    all_goals rw [heq] at h
    · exact absurd h hunavailable
    · exact .inl ⟨target, n, j, rfl, hj, (Option.some.inj h).symm⟩
    · exact h.elim
  · obtain rfl := Option.some.inj hnext
    rcases phase_openLock (s := s) (i := i) with heq | heq | ⟨n, heq⟩
    all_goals rw [heq] at h
    · exact absurd h hunavailable
    · exact absurd h hunsafe
    · exact h.elim
  · obtain rfl := Option.some.inj hnext
    rcases phase_flock (s := s) (i := i) with heq | ⟨heq, j, hj⟩ | heq
    all_goals rw [heq] at h
    · exact absurd h hunavailable
    · exact .inr ⟨n, m, j, rfl, hj, (Option.some.inj h).symm⟩
    · exact h.elim
  · obtain rfl := Option.some.inj hnext
    rw [phase_move] at h
    cases h
  · obtain rfl := Option.some.inj hnext
    rw [phase_move] at h
    exact absurd h hbefore
  · obtain rfl := Option.some.inj hnext
    rw [phase_move] at h
    exact absurd h hbefore
  · cases hnext

/-- Two requests with the same second lock are for the same target. -/
theorem sameTarget_of_lockPaths {r r' : Request} {path path' target : Path}
    (h : lockPaths sha256 space r = .ok (path, target))
    (h' : lockPaths sha256 space r' = .ok (path', target)) :
    SameTarget sha256 r r' := by
  obtain ⟨-, -, -, -, rfl⟩ := lockPaths_eq_ok h
  obtain ⟨-, -, -, -, heq⟩ := lockPaths_eq_ok h'
  have hname := List.singleton_inj.mp (List.append_cancel_left heq)
  have hdigest := List.append_cancel_right hname
  by_cases hpayload : payload r.provider r.participant = payload r'.provider r'.participant
  · exact .inl (payload_injective hpayload)
  · exact .inr ⟨hpayload, hdigest⟩

/-- Requests for one participant name one target file. -/
theorem lockPaths_of_sameTarget {r r' : Request} {path path' target target' : Path}
    (hsame : SameTarget sha256 r r') (h : lockPaths sha256 space r = .ok (path, target))
    (h' : lockPaths sha256 space r' = .ok (path', target')) : target = target' := by
  obtain ⟨-, -, -, -, rfl⟩ := lockPaths_eq_ok h
  obtain ⟨-, -, -, -, rfl⟩ := lockPaths_eq_ok h'
  rcases hsame with ⟨hprovider, hparticipant⟩ | ⟨-, hdigest⟩
  · rw [hprovider, hparticipant]
  · rw [hdigest]

/-- Two calls for one participant, from two state directories. -/
def sampleRequest (i : ℕ) : Request :=
  ⟨lit "codex", lit "a", true, .found, some [lit "home", if i = 0 then lit "one" else lit "two"],
    true⟩

/-- The digest of the payload of these calls. -/
def sampleDigest (_ : List UInt8) : Text :=
  lit "f0af4baed971c36223737dcc0df1f900bb4202220d0d63a694b06b4ecddae7ca"

/-- The first call gets in; the second one locks its state directory and opens the file of the
participant. -/
def contended : List Event :=
  [.call 0 false, .call 1 false, .call 0 false, .call 0 false, .call 1 false, .call 0 false,
    .call 1 false]

/-- An account without any files. -/
def emptyAccount : State where
  disk := ⟨fun _ => ⟨.regular, 0, 0, 1, []⟩, fun _ => true, fun _ => none, [], 0⟩
  locks _ := none
  phase _ := .waiting

/-- An empty account is a sound disk. -/
theorem emptyAccount_sound : Sound emptyAccount.disk :=
  ⟨fun _ _ h => (Option.some_ne_none _ h.symm).elim, fun _ _ _ h =>
    (Option.some_ne_none _ h.symm).elim⟩

end PeerBridge.Notify.ParticipantLock
