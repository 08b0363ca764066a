import PeerBridge.Runtime.Prog

/-!
# Files that survive a crash

A directory of named files on a disk that may lose power. The contents of a file are kept for
certain once the file has been flushed, and the names once the directory has been: until then a
power loss may bring back any earlier state of the directory, and leaves an unflushed file with any
contents of no greater length.

A program makes system calls in sequence. A script says what goes wrong with each: it may fail or
never return, before or after it took effect, and a transfer may be cut short. An exception runs the
`finally` blocks of the program; a crash does not.

* `Disk.Loses`: what a power loss may leave;
* `syscall_ends`, `finally_ends`: the rules of the calls;
* `Quiet`: the scripts in which nothing fails.
-/

namespace Files

open Effects

/-! ## The disk -/

/-- The kinds of file a program tells apart. -/
inductive Kind where
  | regular
  | other
  deriving DecidableEq

/-- A file with what `stat` tells of it. -/
structure Inode where
  kind : Kind
  uid : ℕ
  mode : ℕ
  nlink : ℕ
  content : List UInt8

/-- A directory and the files on its disk. `pending` are the states of the directory that a power
loss may bring back. -/
structure Disk (ν : Type) where
  inodes : ℕ → Inode
  flushed : ℕ → Bool
  names : ν → Option ℕ
  pending : List (ν → Option ℕ)
  next : ℕ

variable {ν : Type} [DecidableEq ν]

namespace Disk

/-- The directory after a change of one name. -/
def rebind (d : Disk ν) (name : ν) (target : Option ℕ) : Disk ν :=
  { d with names := Function.update d.names name target, pending := d.names :: d.pending }

/-- `os.open(name, O_CREAT | O_EXCL)`: a new empty file. -/
def create (d : Disk ν) (name : ν) (uid mode : ℕ) : Disk ν :=
  { d.rebind name (some d.next) with
    inodes := Function.update d.inodes d.next ⟨.regular, uid, mode, 1, []⟩
    flushed := Function.update d.flushed d.next false
    next := d.next + 1 }

/-- `os.write`: some bytes more. -/
def append (d : Disk ν) (n : ℕ) (bytes : List UInt8) : Disk ν :=
  { d with
    inodes :=
      Function.update d.inodes n { d.inodes n with content := (d.inodes n).content ++ bytes }
    flushed := Function.update d.flushed n false }

/-- `os.fsync` of a file. -/
def flush (d : Disk ν) (n : ℕ) : Disk ν := { d with flushed := Function.update d.flushed n true }

/-- `os.fsync` of the directory. -/
def flushNames (d : Disk ν) : Disk ν := { d with pending := [] }

/-- `os.unlink`. -/
def unlink (d : Disk ν) (name : ν) : Disk ν := d.rebind name none

/-- `os.replace`: both names change at once. -/
def rename (d : Disk ν) (source target : ν) : Disk ν :=
  { d with
    names := Function.update (Function.update d.names target (d.names source)) source none
    pending := d.names :: d.pending }

/-- A name that is removed names nothing. -/
@[simp] theorem names_unlink (d : Disk ν) (name : ν) :
    (d.unlink name).names = Function.update d.names name none := rfl

/-- A created file gets the next number under its name. -/
@[simp] theorem names_create (d : Disk ν) (name : ν) (uid mode : ℕ) :
    (d.create name uid mode).names = Function.update d.names name (some d.next) := rfl

/-- A renamed file is found under its new name only. -/
@[simp] theorem names_rename (d : Disk ν) (source target : ν) : (d.rename source target).names
    = Function.update (Function.update d.names target (d.names source)) source none := rfl

/-- What a power loss may leave: some state of the directory since it was last flushed, and every
flushed file. -/
def Loses (d after : Disk ν) : Prop :=
  after.names ∈ d.names :: d.pending ∧ after.pending = [] ∧ after.next = d.next
  ∧ (∀ n, after.flushed n = true) ∧
    ∀ n, ∃ content, after.inodes n = { d.inodes n with content := content } ∧
      content.length ≤ (d.inodes n).content.length ∧
      (d.flushed n = true → content = (d.inodes n).content)

end Disk

/-! ## Calls -/

/-- What happens to one system call. -/
inductive Fault where
  | done
  /-- A transfer of some bytes only. -/
  | short (count : ℕ)
  /-- An error, the call having taken effect or not. -/
  | fails (applied : Bool)
  /-- The program ends there. -/
  | crash (applied : Bool)

/-- Why a program ended early. -/
inductive Stop (ε : Type) where
  | raised (e : ε)
  | crashed

/-- The disk and the fate of the calls to come; behind the end of the script nothing goes wrong. -/
structure Machine (ν : Type) where
  disk : Disk ν
  script : List Fault

/-- A program of system calls. -/
abbrev Calls (ε ν α : Type) : Type := Prog (Stop ε) (Machine ν) α

variable {ε α β : Type}

/-- One call with an effect on the disk; `failure` is what an error of it raises. -/
def syscall (failure : ε) (effect : Disk ν → Disk ν) : Calls ε ν Unit := fun m =>
  match m.script with
  | [] => (.ok (), ⟨effect m.disk, []⟩)
  | .done :: rest => (.ok (), ⟨effect m.disk, rest⟩)
  | .short _ :: rest => (.ok (), ⟨effect m.disk, rest⟩)
  | .fails applied :: rest =>
    (.error (.raised failure), ⟨if applied then effect m.disk else m.disk, rest⟩)
  | .crash applied :: rest => (.error .crashed, ⟨if applied then effect m.disk else m.disk, rest⟩)

/-- A call that transfers up to `limit` units, and says how many. -/
def transfer (failure : ε) (limit : ℕ) (effect : ℕ → Disk ν → Disk ν) : Calls ε ν ℕ := fun m =>
  match m.script with
  | [] => (.ok limit, ⟨effect limit m.disk, []⟩)
  | .done :: rest => (.ok limit, ⟨effect limit m.disk, rest⟩)
  | .short count :: rest => (.ok (min count limit), ⟨effect (min count limit) m.disk, rest⟩)
  | .fails _ :: rest => (.error (.raised failure), ⟨m.disk, rest⟩)
  | .crash applied :: rest =>
    (.error .crashed, ⟨if applied then effect limit m.disk else m.disk, rest⟩)

/-- `os.lstat`, `none` where there is no such file. -/
def lstat (failure : ε) (name : ν) : Calls ε ν (Option Inode) := do
  syscall failure id
  let m ← get
  return (m.disk.names name).map m.disk.inodes

/-- `try: body finally: cleanup`. -/
def tryFinally (body : Calls ε ν α) (cleanup : Calls ε ν Unit) : Calls ε ν α := fun m =>
  match body m with
  | (.ok a, t) =>
      match cleanup t with
      | (.ok (), u) => (.ok a, u)
      | (.error e, u) => (.error e, u)
  | (.error (.raised e), t) =>
      match cleanup t with
      | (.ok (), u) => (.error (.raised e), u)
      | (.error e', u) => (.error e', u)
  | (.error .crashed, t) => (.error .crashed, t)

/-! ## Rules -/

/-- A condition on the disk, whatever the script. -/
def At (I : Disk ν → Prop) : Machine ν → Prop := fun m => I m.disk

section outcomes

omit [DecidableEq ν]

/-- The outcomes of a call. -/
theorem syscall_eq (failure : ε) (effect : Disk ν → Disk ν) (m : Machine ν) : ∃ rest,
    syscall failure effect m = (.ok (), ⟨effect m.disk, rest⟩) ∨
      ∃ e, ∃ applied : Bool, syscall failure effect m
        = (.error e, ⟨if applied then effect m.disk else m.disk, rest⟩) := by
  unfold syscall
  rcases m.script with _ | ⟨(_ | count | applied | applied), rest⟩
  · exact ⟨[], .inl rfl⟩
  · exact ⟨rest, .inl rfl⟩
  · exact ⟨rest, .inl rfl⟩
  · exact ⟨rest, .inr ⟨_, applied, rfl⟩⟩
  · exact ⟨rest, .inr ⟨_, applied, rfl⟩⟩

/-- The outcomes of a transfer. -/
theorem transfer_eq (failure : ε) (limit : ℕ) (effect : ℕ → Disk ν → Disk ν) (m : Machine ν) :
    ∃ rest,
    (∃ k ≤ limit, transfer failure limit effect m = (.ok k, ⟨effect k m.disk, rest⟩)) ∨
      ∃ e, ∃ applied : Bool, transfer failure limit effect m
        = (.error e, ⟨if applied then effect limit m.disk else m.disk, rest⟩) := by
  unfold transfer
  rcases m.script with _ | ⟨(_ | count | applied | applied), rest⟩
  · exact ⟨[], .inl ⟨limit, le_rfl, rfl⟩⟩
  · exact ⟨rest, .inl ⟨limit, le_rfl, rfl⟩⟩
  · exact ⟨rest, .inl ⟨min count limit, min_le_right _ _, rfl⟩⟩
  · exact ⟨rest, .inr ⟨_, false, rfl⟩⟩
  · exact ⟨rest, .inr ⟨_, applied, rfl⟩⟩

/-- An effect that may or may not take place leaves one of two conditions. -/
theorem at_applied {I J K : Disk ν → Prop} {effect : Disk ν → Disk ν} {d : Disk ν} (hd : I d)
    (hJ : J (effect d))
    (hIK : ∀ d, I d → K d) (hJK : ∀ d, J d → K d) (applied : Bool) :
    K (if applied then effect d else d) := by
  cases applied
  · exact hIK _ hd
  · exact hJK _ hJ

/-- A call takes its condition to the next one, and stops in either. -/
theorem syscall_ends {failure : ε} {effect : Disk ν → Disk ν} {I J K : Disk ν → Prop}
    (h : ∀ d, I d → J (effect d))
    (hIK : ∀ d, I d → K d) (hJK : ∀ d, J d → K d) :
    Prog.Ends (At I) (syscall failure effect) (fun _ => At J) (fun _ => At K) := by
  intro m hm
  obtain ⟨rest, hrun | ⟨e, applied, hrun⟩⟩ := syscall_eq failure effect m
  · rw [hrun]
    refine ⟨fun a t ht => ?_, fun e t ht => ?_⟩
    · cases ht
      exact h _ hm
    · cases ht
  · rw [hrun]
    refine ⟨fun a t ht => ?_, fun e t ht => ?_⟩
    · cases ht
    · cases ht
      exact at_applied (J := J) hm (h _ hm) hIK hJK applied

/-- A transfer moves at most what it was asked to. -/
theorem transfer_ends {failure : ε} {limit : ℕ} {effect : ℕ → Disk ν → Disk ν} {I K : Disk ν → Prop}
    {J : ℕ → Disk ν → Prop} (h : ∀ d k, k ≤ limit → I d → J k (effect k d)) (hIK : ∀ d, I d → K d)
    (hJK : ∀ k d, J k d → K d) :
    Prog.Ends (At I) (transfer failure limit effect) (fun k m => k ≤ limit ∧ J k m.disk)
    (fun _ => At K) := by
  intro m hm
  obtain ⟨rest, ⟨k, hk, hrun⟩ | ⟨e, applied, hrun⟩⟩ := transfer_eq failure limit effect m
  · rw [hrun]
    refine ⟨fun a t ht => ?_, fun e t ht => ?_⟩
    · cases ht
      exact ⟨hk, h _ _ hk hm⟩
    · cases ht
  · rw [hrun]
    refine ⟨fun a t ht => ?_, fun e t ht => ?_⟩
    · cases ht
    · cases ht
      exact at_applied (J := J limit) hm (h _ _ le_rfl hm) hIK (hJK limit) applied

/-- Looking at a name changes nothing. -/
theorem lstat_ends {failure : ε} {name : ν} {I K : Disk ν → Prop} (hIK : ∀ d, I d → K d) :
    Prog.Ends (At I) (lstat failure name)
      (fun info m => I m.disk ∧ info = (m.disk.names name).map m.disk.inodes) (fun _ => At K) := by
  refine Prog.Ends.bind (syscall_ends (J := I) (fun _ h => h) hIK hIK) fun _ => ?_
  intro m hm
  refine ⟨fun a t ht => ?_, fun e t ht => ?_⟩
  · cases ht
    exact ⟨hm, rfl⟩
  · cases ht

end outcomes

omit [DecidableEq ν] in
/-- A `finally` block keeps what it keeps, whichever way the body ended. -/
theorem finally_ends {body : Calls ε ν α} {cleanup : Calls ε ν Unit} {P : Machine ν → Prop}
    {R Q : α → Machine ν → Prop}
    {E F : Stop ε → Machine ν → Prop} (hbody : Prog.Ends P body R E)
    (hok : ∀ a, Prog.Ends (R a) cleanup (fun _ => Q a) F)
    (hraised : ∀ e, Prog.Ends (E (.raised e)) cleanup (fun _ => F (.raised e)) F)
    (hcrashed : ∀ m, E .crashed m → F .crashed m) : Prog.Ends P (tryFinally body cleanup) Q F := by
  intro m hm
  obtain ⟨h1, h2⟩ := hbody m hm
  rcases hrun : body m with ⟨(e | _) | a, t⟩
  · have he := h2 _ _ hrun
    rw [tryFinally, hrun]
    rcases hclean : cleanup t with ⟨e' | ⟨⟩, u⟩
    · refine ⟨fun _ _ h => by simp [hclean] at h, fun e'' u' h => ?_⟩
      simp only [hclean, Prod.mk.injEq, Except.error.injEq] at h
      obtain ⟨rfl, rfl⟩ := h
      exact (hraised e t he).2 _ _ hclean
    · refine ⟨fun _ _ h => by simp [hclean] at h, fun e'' u' h => ?_⟩
      simp only [hclean, Prod.mk.injEq, Except.error.injEq] at h
      obtain ⟨rfl, rfl⟩ := h
      exact (hraised e t he).1 _ _ hclean
  · rw [tryFinally, hrun]
    refine ⟨fun _ _ h => by simp at h, fun e'' u' h => ?_⟩
    simp only [Prod.mk.injEq, Except.error.injEq] at h
    obtain ⟨rfl, rfl⟩ := h
    exact hcrashed _ (h2 _ _ hrun)
  · have ha := h1 _ _ hrun
    rw [tryFinally, hrun]
    rcases hclean : cleanup t with ⟨e' | ⟨⟩, u⟩
    · refine ⟨fun _ _ h => by simp [hclean] at h, fun e'' u' h => ?_⟩
      simp only [hclean, Prod.mk.injEq, Except.error.injEq] at h
      obtain ⟨rfl, rfl⟩ := h
      exact (hok a t ha).2 _ _ hclean
    · refine ⟨fun b u' h => ?_, fun _ _ h => by simp [hclean] at h⟩
      simp only [hclean, Prod.mk.injEq, Except.ok.injEq] at h
      obtain ⟨rfl, rfl⟩ := h
      exact (hok a t ha).1 _ _ hclean

/-! ## Undisturbed runs -/

/-- A call that makes progress. -/
def Fault.Quiet : Fault → Prop
  | .done => True
  | .short count => 0 < count
  | _ => False

/-- Nothing fails, and every transfer moves something. -/
def Quiet (m : Machine ν) : Prop := ∀ f ∈ m.script, f.Quiet

/-- A condition on the disk in an undisturbed run. -/
def Calm (I : Disk ν → Prop) : Machine ν → Prop := fun m => I m.disk ∧ Quiet m

/-- No run stops. -/
def Never : Stop ε → Machine ν → Prop := fun _ _ => False

section quiet

omit [DecidableEq ν]

/-- Without faults a system call has its effect. -/
theorem syscall_calm {failure : ε} {effect : Disk ν → Disk ν} {I J : Disk ν → Prop}
    (h : ∀ d, I d → J (effect d)) :
    Prog.Ends (Calm I) (syscall failure effect) (fun _ => Calm J) Never := by
  rintro ⟨d, script⟩ ⟨hm, hquiet⟩
  rcases script with _ | ⟨f, rest⟩
  · refine ⟨fun a t ht => ?_, fun e t ht => ?_⟩
    · cases ht
      exact ⟨h _ hm, hquiet⟩
    · cases ht
  · have hf := hquiet f List.mem_cons_self
    have hrest : ∀ g ∈ rest, g.Quiet := fun g hg => hquiet g (List.mem_cons_of_mem _ hg)
    rcases f with _ | count | applied | applied
    · refine ⟨fun a t ht => ?_, fun e t ht => ?_⟩
      · cases ht
        exact ⟨h _ hm, hrest⟩
      · cases ht
    · refine ⟨fun a t ht => ?_, fun e t ht => ?_⟩
      · cases ht
        exact ⟨h _ hm, hrest⟩
      · cases ht
    · exact absurd hf id
    · exact absurd hf id

/-- Without faults a transfer moves a part of the data, and not nothing. -/
theorem transfer_calm {failure : ε} {limit : ℕ} {effect : ℕ → Disk ν → Disk ν} {I : Disk ν → Prop}
    {J : ℕ → Disk ν → Prop} (h : ∀ d k, k ≤ limit → I d → J k (effect k d)) :
    Prog.Ends (Calm I) (transfer failure limit effect)
      (fun k m => (k ≤ limit ∧ (0 < limit → 0 < k)) ∧ Calm (J k) m) Never := by
  rintro ⟨d, script⟩ ⟨hm, hquiet⟩
  rcases script with _ | ⟨f, rest⟩
  · refine ⟨fun a t ht => ?_, fun e t ht => ?_⟩
    · cases ht
      exact ⟨⟨le_rfl, id⟩, h _ _ le_rfl hm, hquiet⟩
    · cases ht
  · have hf := hquiet f List.mem_cons_self
    have hrest : ∀ g ∈ rest, g.Quiet := fun g hg => hquiet g (List.mem_cons_of_mem _ hg)
    rcases f with _ | count | applied | applied
    · refine ⟨fun a t ht => ?_, fun e t ht => ?_⟩
      · cases ht
        exact ⟨⟨le_rfl, id⟩, h _ _ le_rfl hm, hrest⟩
      · cases ht
    · refine ⟨fun a t ht => ?_, fun e t ht => ?_⟩
      · cases ht
        have hcount : 0 < count := hf
        exact ⟨⟨min_le_right _ _, fun hl => lt_min hcount hl⟩, h _ _ (min_le_right _ _) hm, hrest⟩
      · cases ht
    · exact absurd hf id
    · exact absurd hf id

/-- Without faults `lstat` answers with the file's data. -/
theorem lstat_calm {failure : ε} {name : ν} {I : Disk ν → Prop} :
    Prog.Ends (Calm I) (lstat failure name)
    (fun info m => Calm I m ∧ info = (m.disk.names name).map m.disk.inodes) Never := by
  refine Prog.Ends.bind (syscall_calm (J := I) fun _ h => h) fun _ => ?_
  intro m hm
  refine ⟨fun a t ht => ?_, fun e t ht => ?_⟩
  · cases ht
    exact ⟨hm, rfl⟩
  · cases ht

/-- A program that never stops returns. -/
theorem returns_of_ends {p : Calls ε ν α} {P : Machine ν → Prop} {Q : α → Machine ν → Prop}
    (h : Prog.Ends P p Q Never) {m : Machine ν} (hm : P m) : ∃ a t, p m = (.ok a, t) ∧ Q a t := by
  rcases hrun : p m with ⟨e | a, t⟩
  · exact absurd ((h m hm).2 _ _ hrun) id
  · exact ⟨a, t, rfl, (h m hm).1 _ _ hrun⟩

end quiet

end Files
