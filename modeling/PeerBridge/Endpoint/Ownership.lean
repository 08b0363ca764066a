import PeerBridge.Endpoint.Service

/-!
# One owner for each control endpoint

What the statements of `start`, `release` and `stop_service` can do to the socket files and the
record, the invariant that ties both to the lock and to the processes that run, and the result.

* `Does`, `StopDoes`: everything a statement of a service, or of a call of `stop_service`, can do to
  the shared objects.
* `Inv`: the lock is where the statements say, a published generation whose socket exists has its
  record in place, and a record names the process of its generation. So a record `owner_is_dead`
  speaks against is of a generation that is gone (`Inv.gone_of_ownerIsDead`), and a live generation
  with a socket holds the lock or has its record in place (`Inv.holder`).
* `one_owner`: at most one live process holds the endpoint, each serving process does, and no party
  unlinks the socket or the record of another live generation.

That start markers distinguish a reused process id is not needed for any of this: a marker that does
not would only make `owner_is_dead` answer no.
-/

namespace PeerBridge.Endpoint

open Py Transition

/-! ## What a step can do -/

namespace Phase

/-- The party listens on its socket, or is about to. -/
def listening : Phase → Bool
  | bound | published | serving => true
  | _ => false

/-- The party may have bound a socket. -/
def mayBind : Phase → Bool
  | absent | waiting | checking | binding _ | refused _ => false
  | _ => true

end Phase

section projections

variable (s : State) (g k : Generation) (p : Phase) (i : ℕ) (q : Stop) (l : Option Party)
  (path : Text) (v : Option Generation) (r : Option Owner) (pid : Pid) (x : Option Running)

/-- A move changes the phase of the service that moves. -/
@[simp] theorem phase_move : (s.move g p).phase k = if k = g then p else s.phase k := by
  simp only [State.phase, State.move, Function.update_apply]
  split
  · rfl
  · rfl

/-- A new process is the service of its generation, waiting for the lock. -/
@[simp] theorem phase_spawn (procStart repo : Text) :
    (s.spawn g pid procStart repo).phase k = if k = g then .waiting else s.phase k := by
  simp only [State.phase, State.spawn, Function.update_apply]
  split
  · rfl
  · rfl

@[simp] theorem phase_moveStop : (s.moveStop i q).phase k = s.phase k := rfl
@[simp] theorem phase_setLock : (s.setLock l).phase k = s.phase k := rfl
@[simp] theorem phase_setSocket : (s.setSocket path v).phase k = s.phase k := rfl
@[simp] theorem phase_setOwner : (s.setOwner r).phase k = s.phase k := rfl
@[simp] theorem phase_setProcess : (s.setProcess pid x).phase k = s.phase k := rfl

@[simp] theorem stops_move : (s.move g p).stops = s.stops := rfl
@[simp] theorem stops_moveStop : (s.moveStop i q).stops = Function.update s.stops i q := rfl
@[simp] theorem stops_setLock : (s.setLock l).stops = s.stops := rfl
@[simp] theorem stops_setSocket : (s.setSocket path v).stops = s.stops := rfl
@[simp] theorem stops_setOwner : (s.setOwner r).stops = s.stops := rfl
@[simp] theorem stops_setProcess : (s.setProcess pid x).stops = s.stops := rfl

@[simp] theorem lock_move : (s.move g p).lock = s.lock := rfl
@[simp] theorem lock_moveStop : (s.moveStop i q).lock = s.lock := rfl
@[simp] theorem lock_setLock : (s.setLock l).lock = l := rfl
@[simp] theorem lock_setSocket : (s.setSocket path v).lock = s.lock := rfl
@[simp] theorem lock_setOwner : (s.setOwner r).lock = s.lock := rfl
@[simp] theorem lock_setProcess : (s.setProcess pid x).lock = s.lock := rfl

@[simp] theorem sockets_move : (s.move g p).sockets = s.sockets := rfl
@[simp] theorem sockets_moveStop : (s.moveStop i q).sockets = s.sockets := rfl
@[simp] theorem sockets_setLock : (s.setLock l).sockets = s.sockets := rfl
@[simp] theorem sockets_setSocket :
    (s.setSocket path v).sockets = Function.update s.sockets path v := rfl
@[simp] theorem sockets_setOwner : (s.setOwner r).sockets = s.sockets := rfl
@[simp] theorem sockets_setProcess : (s.setProcess pid x).sockets = s.sockets := rfl

@[simp] theorem owner_move : (s.move g p).owner = s.owner := rfl
@[simp] theorem owner_moveStop : (s.moveStop i q).owner = s.owner := rfl
@[simp] theorem owner_setLock : (s.setLock l).owner = s.owner := rfl
@[simp] theorem owner_setSocket : (s.setSocket path v).owner = s.owner := rfl
@[simp] theorem owner_setOwner : (s.setOwner r).owner = r := rfl
@[simp] theorem owner_setProcess : (s.setProcess pid x).owner = s.owner := rfl

end projections

/-- What a statement of service `g` can do to the shared objects: nothing beyond its own progress
and the lock (`shift`), or one of the few statements that create, publish or remove something. -/
inductive Does (control : Text) (s : State) (g : Generation) : State → Prop where
  | spawn (pid : Pid) (procStart repo : Text) (hphase : s.phase g = .absent)
      (hpid : s.processes pid = none) :
      Does control s g (s.spawn g pid procStart repo)
  | shift (p : Phase) (lock : Option Party) (halive : (s.phase g).alive = true)
      (halive' : p.alive = true) (hrecorded : p.recorded = (s.phase g).recorded)
      (hbind : (s.phase g).mayBind = true → p.mayBind = true) (hforget : p ≠ .forgetting)
      (hlisten : p.listening = true → (s.phase g).listening = true)
      (hlock : (lock = s.lock ∧ p.locked = (s.phase g).locked)
        ∨ (s.lock = none ∧ lock = some (.service g) ∧ p.locked = true)
        ∨ ((s.phase g).locked = true ∧ lock = none ∧ p.locked = false)) :
      Does control s g ((s.move g p).setLock lock)
  | bind (retry : Bool) (hphase : s.phase g = .binding retry) (hfree : s.sockets control = none) :
      Does control s g ((s.move g .bound).setSocket control (some g))
  | recover (r : Owner) (howner : s.owner = some r) (hphase : s.phase g = .refused false)
      (hdead : s.ownerIsDead r = true) (hsocket : r.socket = control) :
      Does control s g ((s.move g (.binding true)).setSocket control none)
  | publish (hphase : s.phase g = .bound) :
      Does control s g ((s.move g .published).setOwner (some (s.record g control)))
  | cleanup (hphase : s.phase g = .serving) (hsocket : s.sockets control = some g) :
      Does control s g ((s.move g .draining).setSocket control none)
  | unlink (hphase : s.phase g = .examining) (howner : s.owner.map Owner.generation = some g) :
      Does control s g ((s.move g .forgetting).setSocket control none)
  | decline (hphase : s.phase g = .examining) (howner : s.owner.map Owner.generation ≠ some g) :
      Does control s g ((s.move g .done).setLock none)
  | forget (hphase : s.phase g = .forgetting) :
      Does control s g (((s.move g .done).setOwner none).setLock none)
  | exit (hphase : s.phase g = .done ∨ s.phase g = .left) :
      Does control s g (s.finish g)
  | crash (halive : (s.phase g).alive = true) :
      Does control s g ((s.finish g).dropLock (.service g))

variable {control : Text} {s t : State} {g : Generation}

/-- A statement that only goes on. -/
theorem Does.step {p : Phase} (halive : (s.phase g).alive = true) (halive' : p.alive = true)
    (hrecorded : p.recorded = (s.phase g).recorded)
    (hbind : (s.phase g).mayBind = true → p.mayBind = true) (hforget : p ≠ .forgetting)
    (hlisten : p.listening = true → (s.phase g).listening = true)
    (hlocked : p.locked = (s.phase g).locked) : Does control s g (s.move g p) :=
  .shift p s.lock halive halive' hrecorded hbind hforget hlisten (.inl ⟨rfl, hlocked⟩)

/-- A statement that leaves a locked section. -/
theorem Does.leave {p : Phase} (halive : (s.phase g).alive = true) (halive' : p.alive = true)
    (hrecorded : p.recorded = (s.phase g).recorded)
    (hbind : (s.phase g).mayBind = true → p.mayBind = true) (hforget : p ≠ .forgetting)
    (hlisten : p.listening = true → (s.phase g).listening = true)
    (hlocked : (s.phase g).locked = true) (hlocked' : p.locked = false) :
    Does control s g ((s.move g p).setLock none) :=
  .shift p none halive halive' hrecorded hbind hforget hlisten
  (.inr (.inr ⟨hlocked, rfl, hlocked'⟩))

/-- A statement that enters a locked section. -/
theorem Does.enter {p : Phase} (halive : (s.phase g).alive = true) (halive' : p.alive = true)
    (hrecorded : p.recorded = (s.phase g).recorded)
    (hbind : (s.phase g).mayBind = true → p.mayBind = true) (hforget : p ≠ .forgetting)
    (hlisten : p.listening = true → (s.phase g).listening = true)
    (hfree : s.lock = none) (hlocked : p.locked = true) :
    Does control s g ((s.move g p).setLock (some (.service g))) :=
  .shift p _ halive halive' hrecorded hbind hforget hlisten (.inr (.inl ⟨hfree, rfl, hlocked⟩))

/-- What the statements of a service can do. -/
theorem serviceNext_does {e : ServiceEvent} (h : serviceNext control s g e = some t) :
    Does control s g t := by
  cases e with
  | spawn pid procStart repo =>
    obtain ⟨⟨hphase, hpid⟩, rfl⟩ := Option.ite_some_none_eq_some.mp h
    exact .spawn pid procStart repo hphase hpid
  | lock =>
    obtain ⟨⟨hphase, hfree⟩, rfl⟩ := Option.ite_some_none_eq_some.mp h
    apply Does.enter <;> simp [hphase, hfree, Phase.alive, Phase.recorded, Phase.mayBind,
      Phase.locked,
      Phase.listening]
  | construct =>
    obtain ⟨hphase, rfl⟩ := Option.ite_some_none_eq_some.mp h
    apply Does.step <;> simp [hphase, Phase.alive, Phase.recorded, Phase.mayBind, Phase.locked,
      Phase.listening]
  | leave =>
    obtain ⟨hphase, rfl⟩ := Option.ite_some_none_eq_some.mp h
    apply Does.leave <;> simp [hphase, Phase.alive, Phase.recorded, Phase.mayBind, Phase.locked,
      Phase.listening]
  | bind =>
    simp only [serviceNext] at h
    split at h
    · next retry hphase =>
      obtain ⟨hfree, rfl⟩ := Option.ite_some_none_eq_some.mp h
      exact .bind retry hphase hfree
    · cases h
  | bindRaises =>
    simp only [serviceNext] at h
    split at h
    · next retry hphase =>
      cases h
      apply Does.step <;> simp [hphase, Phase.alive, Phase.recorded, Phase.mayBind, Phase.locked,
      Phase.listening]
    · cases h
  | recover =>
    simp only [serviceNext] at h
    split at h
    · next r howner =>
      obtain ⟨⟨hphase, hr⟩, rfl⟩ := Option.ite_some_none_eq_some.mp h
      simp only [recoverable, Bool.and_eq_true, beq_iff_eq] at hr
      exact .recover r howner hphase hr.2 hr.1.1.1
    · cases h
  | refuse =>
    simp only [serviceNext] at h
    split at h
    · next retry hphase =>
      cases h
      apply Does.leave <;> simp [hphase, Phase.alive, Phase.recorded, Phase.mayBind, Phase.locked,
      Phase.listening]
    · cases h
  | publish =>
    obtain ⟨hphase, rfl⟩ := Option.ite_some_none_eq_some.mp h
    exact .publish hphase
  | publishRaises =>
    obtain ⟨hphase, rfl⟩ := Option.ite_some_none_eq_some.mp h
    apply Does.leave <;> simp [hphase, Phase.alive, Phase.recorded, Phase.mayBind, Phase.locked,
      Phase.listening]
  | started =>
    obtain ⟨hphase, rfl⟩ := Option.ite_some_none_eq_some.mp h
    apply Does.leave <;> simp [hphase, Phase.alive, Phase.recorded, Phase.mayBind, Phase.locked,
      Phase.listening]
  | drain cleanup =>
    obtain ⟨hphase, h⟩ := Option.ite_none_right_eq_some.mp h
    split at h
    · next hc =>
      cases h
      exact .cleanup hphase hc.2
    · cases h
      apply Does.step <;> simp [hphase, Phase.alive, Phase.recorded, Phase.mayBind, Phase.locked,
      Phase.listening]
  | close =>
    obtain ⟨hphase, rfl⟩ := Option.ite_some_none_eq_some.mp h
    apply Does.step <;> simp [hphase, Phase.alive, Phase.recorded, Phase.mayBind, Phase.locked,
      Phase.listening]
  | lockRelease =>
    obtain ⟨⟨hphase, hfree⟩, rfl⟩ := Option.ite_some_none_eq_some.mp h
    apply Does.enter <;> simp [hphase, hfree, Phase.alive, Phase.recorded, Phase.mayBind,
      Phase.locked,
      Phase.listening]
  | decline =>
    obtain ⟨⟨hphase, howner⟩, rfl⟩ := Option.ite_some_none_eq_some.mp h
    exact .decline hphase howner
  | unlink =>
    obtain ⟨⟨hphase, howner⟩, rfl⟩ := Option.ite_some_none_eq_some.mp h
    exact .unlink hphase howner
  | forget =>
    obtain ⟨hphase, rfl⟩ := Option.ite_some_none_eq_some.mp h
    exact .forget hphase
  | exit =>
    obtain ⟨hphase, rfl⟩ := Option.ite_some_none_eq_some.mp h
    exact .exit hphase
  | crash =>
    obtain ⟨halive, rfl⟩ := Option.ite_some_none_eq_some.mp h
    exact .crash halive

/-! ## The invariant -/

/-- What holds between any two statements. -/
structure Inv (control : Text) (s : State) : Prop where
  /-- The lock is held by the service whose statements say so. -/
  held : ∀ g, s.lock = some (.service g) ↔ (s.phase g).locked = true
  /-- The same for the calls of `stop_service`. -/
  heldStop : ∀ i, s.lock = some (.stop i) ↔ (s.stops i).locked = true
  /-- A socket file belongs to a service that came as far as binding it. -/
  bound : ∀ path g, s.sockets path = some g → (s.phase g).mayBind = true
  /-- The socket of a running service is at the control path. -/
  place : ∀ path g, s.sockets path = some g → (s.phase g).alive = true → path = control
  /-- From `bind` until the listener is closed the socket is the caller's. -/
  listening : ∀ g, (s.phase g).listening = true → s.sockets control = some g
  /-- As long as the socket of a published generation exists, the record is that generation's. -/
  owned : ∀ path g, s.sockets path = some g → (s.phase g).recorded = true →
    s.owner.map Owner.generation = some g
  /-- The record is of a published generation or of one that is gone. -/
  written : ∀ r, s.owner = some r →
    (s.phase r.generation).recorded = true ∨ s.phase r.generation = .gone
  /-- The record of a running service names its process. -/
  identified : ∀ r, s.owner = some r → (s.phase r.generation).alive = true →
    (s.services r.generation).pid = r.pid ∧ (s.services r.generation).procStart = r.procStart
  /-- A running service has its process id to itself. -/
  running : ∀ g, (s.phase g).alive = true →
    s.processes (s.services g).pid = some ⟨(s.services g).procStart, some g⟩
  /-- Between the two unlinks of `release` the record is still the caller's. -/
  forgetting : ∀ g, s.phase g = .forgetting → s.owner.map Owner.generation = some g
  /-- Between the two unlinks of `stop_service` the record is still the dead generation's. -/
  stopForgetting : ∀ i g, s.stops i = .forgetting g →
    s.owner.map Owner.generation = some g ∧ s.phase g = .gone

/-- A service that has written the owner record is alive. -/
theorem Phase.alive_of_recorded {p : Phase} (h : p.recorded = true) : p.alive = true := by
  cases p <;> simp_all [Phase.recorded, Phase.alive]

/-- A record `owner_is_dead` speaks against is of a generation that is gone. -/
theorem Inv.gone_of_ownerIsDead (hs : Inv control s) {r : Owner} (howner : s.owner = some r)
    (hdead : s.ownerIsDead r = true) : s.phase r.generation = .gone := by
  rcases hs.written r howner with hrec | hgone
  · have halive := Phase.alive_of_recorded hrec
    obtain ⟨hpid, hstart⟩ := hs.identified r howner halive
    have hrun := hs.running _ halive
    rw [hpid, hstart] at hrun
    simp [State.ownerIsDead, hrun] at hdead
  · exact hgone

/-- A live generation whose socket exists holds the lock or has its record in place. -/
theorem Inv.holder (hs : Inv control s) {path : Text} {k : Generation}
    (hsocket : s.sockets path = some k)
    (hlive : (s.phase k).live = true) :
    s.lock = some (.service k) ∨ s.owner.map Owner.generation = some k := by
  have hbound := hs.bound path k hsocket
  rcases hrec : (s.phase k).recorded with _ | _
  · left
    rw [hs.held]
    rcases hp : s.phase k <;> simp_all [Phase.live, Phase.mayBind, Phase.recorded, Phase.locked]
  · exact .inr (hs.owned path k hsocket hrec)

/-- Only one service holds the lock. -/
theorem Inv.lock_unique (hs : Inv control s) {k : Generation} (hk : (s.phase k).locked = true)
    (hg : (s.phase g).locked = true) : k = g := by
  have hk' := (hs.held k).mpr hk
  have hg' := (hs.held g).mpr hg
  rw [hk'] at hg'
  simpa using hg'

/-- The invariant holds of a directory nothing has used yet. -/
theorem Inv.of_unused (h : Unused s) : Inv control s where
  held g := by
    rw [h.lock]
    rcases h.services g with hg | hg
    · simp [hg, Phase.locked]
    · simp [hg, Phase.locked]
  heldStop i := by simp [h.lock, h.stops i, Stop.locked]
  bound path g hg := by simp [h.sockets path g hg, Phase.mayBind]
  place path g hg halive := by simp [h.sockets path g hg, Phase.alive] at halive
  listening g hg := by
    rcases h.services g with hg' | hg'
    · simp [hg', Phase.listening] at hg
    · simp [hg', Phase.listening] at hg
  owned path g hg hrec := by simp [h.sockets path g hg, Phase.recorded] at hrec
  written r hr := .inr (h.owner r hr)
  identified r hr halive := by simp [h.owner r hr, Phase.alive] at halive
  running g halive := by
    rcases h.services g with hg | hg
    · simp [hg, Phase.alive] at halive
    · simp [hg, Phase.alive] at halive
  forgetting g hg := by
    rcases h.services g with hg' | hg'
    · simp [hg'] at hg
    · simp [hg'] at hg
  stopForgetting i g hi := by simp [h.stops i] at hi

/-! ### What a service keeps -/

/-- What a statement does to the lock. -/
theorem Does.lock_cases (hs : Inv control s) (h : Does control s g t) :
    (t.lock = s.lock ∧ (t.phase g).locked = (s.phase g).locked)
      ∨ (s.lock = none ∧ t.lock = some (.service g) ∧ (t.phase g).locked = true)
      ∨ (s.lock = some (.service g) ∧ t.lock = none ∧ (t.phase g).locked = false) := by
  have hheld := hs.held g
  cases h with
  | spawn pid procStart repo hphase hpid => exact .inl ⟨rfl, by simp [hphase, Phase.locked]⟩
  | shift p lock _ _ _ _ _ _ hlock => simpa [hheld] using hlock
  | bind retry hphase _ => exact .inl ⟨rfl, by simp [hphase, Phase.locked]⟩
  | recover r _ hphase _ _ => exact .inl ⟨rfl, by simp [hphase, Phase.locked]⟩
  | publish hphase => exact .inl ⟨rfl, by simp [hphase, Phase.locked]⟩
  | cleanup hphase _ => exact .inl ⟨rfl, by simp [hphase, Phase.locked]⟩
  | unlink hphase _ => exact .inl ⟨rfl, by simp [hphase, Phase.locked]⟩
  | decline hphase _ =>
    exact .inr (.inr ⟨hheld.mpr (by simp [hphase, Phase.locked]), rfl, by simp [Phase.locked]⟩)
  | forget hphase =>
    exact .inr (.inr ⟨hheld.mpr (by simp [hphase, Phase.locked]), rfl, by simp [Phase.locked]⟩)
  | exit hphase =>
    rcases hphase with hphase | hphase
    · exact .inl ⟨rfl, by simp [State.finish, hphase, Phase.locked]⟩
    · exact .inl ⟨rfl, by simp [State.finish, hphase, Phase.locked]⟩
  | crash halive =>
    by_cases hl : s.lock = some (.service g)
    · exact .inr (.inr ⟨hl, by simp [State.dropLock, State.finish, hl],
        by simp [State.dropLock, State.finish, Phase.locked]⟩)
    · have hf : (s.phase g).locked = false := by simpa [hheld] using hl
      refine .inl ⟨by simp [State.dropLock, State.finish, hl], ?_⟩
      rw [hf]
      simp [State.dropLock, State.finish, Phase.locked]

/-- The other services do not move. -/
theorem Does.services_ne (h : Does control s g t) {k : Generation} (hk : k ≠ g) :
    t.services k = s.services k := by
  cases h <;>
    simp [State.spawn, State.finish, State.dropLock, State.move, State.setLock, State.setSocket,
      State.setOwner, State.setProcess, hk]

/-- The other services keep their phase. -/
theorem Does.phase_ne (h : Does control s g t) {k : Generation} (hk : k ≠ g) :
    t.phase k = s.phase k := by
  simp [State.phase, h.services_ne hk]

/-- A step of a service leaves the stop commands alone. -/
theorem Does.stops_eq (h : Does control s g t) : t.stops = s.stops := by
  cases h <;> rfl

/-- A generation that is gone, or that does not move, stays where it is. -/
theorem Does.gone (h : Does control s g t) {k : Generation} (hk : s.phase k = .gone) :
    t.phase k = .gone := by
  by_cases hkg : k = g
  · subst hkg
    cases h <;> simp_all [Phase.alive]
  · rw [h.phase_ne hkg, hk]

/-- What a statement does to the sockets and the record. -/
theorem Does.files_cases (h : Does control s g t) :
    (t.sockets = s.sockets ∧ t.owner = s.owner ∧ t.phase g ≠ .forgetting
        ∧ ((t.phase g).listening = true → (s.phase g).listening = true))
      ∨ (t.sockets = Function.update s.sockets control (some g) ∧ t.owner = s.owner
          ∧ (s.phase g).locked = true ∧ s.sockets control = none ∧ t.phase g = .bound)
      ∨ (t.sockets = Function.update s.sockets control none ∧ t.owner = s.owner
          ∧ (t.phase g).listening = false
          ∧ (t.phase g = .forgetting → s.owner.map Owner.generation = some g)
          ∧ ((s.phase g).locked = true ∧ (∃ r, s.owner = some r ∧ s.ownerIsDead r = true)
            ∨ (s.phase g).locked = true ∧ s.owner.map Owner.generation = some g
            ∨ s.sockets control = some g))
      ∨ (t.sockets = s.sockets ∧ t.owner = some (s.record g control) ∧ s.phase g = .bound
          ∧ t.phase g = .published)
      ∨ (t.sockets = s.sockets ∧ t.owner = none ∧ s.phase g = .forgetting ∧ t.phase g = .done) := by
  cases h with
  | spawn pid procStart repo hphase hpid =>
    exact .inl ⟨rfl, rfl, by simp, by simp [Phase.listening]⟩
  | shift p lock _ _ _ hbind hforget hlisten _ =>
    exact .inl ⟨rfl, rfl, by simpa using hforget, by simpa using hlisten⟩
  | bind retry hphase hfree =>
    exact .inr (.inl ⟨rfl, rfl, by simp [hphase, Phase.locked], hfree, by simp⟩)
  | recover r howner hphase hdead _ =>
    exact .inr (.inr (.inl ⟨rfl, rfl, by simp [Phase.listening], by simp,
      .inl ⟨by simp [hphase, Phase.locked], r, howner, hdead⟩⟩))
  | publish hphase => exact .inr (.inr (.inr (.inl ⟨rfl, rfl, hphase, by simp⟩)))
  | cleanup hphase hsocket =>
    exact .inr (.inr (.inl ⟨rfl, rfl, by simp [Phase.listening], by simp, .inr (.inr hsocket)⟩))
  | unlink hphase howner =>
    exact .inr (.inr (.inl ⟨rfl, rfl, by simp [Phase.listening], fun _ => howner,
      .inr (.inl ⟨by simp [hphase, Phase.locked], howner⟩)⟩))
  | decline hphase _ => exact .inl ⟨rfl, rfl, by simp, by simp [Phase.listening]⟩
  | forget hphase => exact .inr (.inr (.inr (.inr ⟨rfl, rfl, hphase, by simp⟩)))
  | exit hphase =>
    exact .inl ⟨rfl, rfl, by simp [State.finish], by simp [State.finish, Phase.listening]⟩
  | crash halive =>
    exact .inl ⟨rfl, rfl, by simp [State.finish, State.dropLock],
      by simp [State.finish, State.dropLock, Phase.listening]⟩

/-- A service that may have bound a socket keeps that mark. -/
theorem Does.mayBind (h : Does control s g t) (hs : (s.phase g).mayBind = true) :
    (t.phase g).mayBind = true := by
  cases h with
  | shift p lock _ _ _ hbind _ _ _ => simpa using hbind hs
  | spawn pid procStart repo hphase hpid => simp [hphase, Phase.mayBind] at hs
  | recover r _ hphase _ _ => simp [hphase, Phase.mayBind] at hs
  | exit hphase => simp [State.finish, Phase.mayBind]
  | crash halive => simp [State.finish, State.dropLock, Phase.mayBind]
  | bind | publish | cleanup | unlink | decline | forget => simp [Phase.mayBind]

/-- A generation is published by writing its record. -/
theorem Does.recorded (h : Does control s g t) (ht : (t.phase g).recorded = true) :
    (s.phase g).recorded = true ∨ t.owner = some (s.record g control) := by
  cases h with
  | shift p lock _ _ hrec _ _ _ _ => exact .inl (by simpa [hrec] using ht)
  | publish hphase => exact .inr rfl
  | cleanup hphase _ => exact .inl (by simp [hphase, Phase.recorded])
  | unlink hphase _ => exact .inl (by simp [hphase, Phase.recorded])
  | exit hphase => simp [State.finish, Phase.recorded] at ht
  | crash halive => simp [State.finish, State.dropLock, Phase.recorded] at ht
  | spawn | bind | recover | decline | forget => simp [Phase.recorded] at ht

/-- A published generation stays published until its record is gone or its process is. -/
theorem Does.keeps_recorded (h : Does control s g t) (hs : (s.phase g).recorded = true) :
    (t.phase g).recorded = true ∨ t.phase g = .gone ∨ t.owner.map Owner.generation ≠ some g := by
  cases h with
  | shift p lock _ _ hrec _ _ _ _ => exact .inl (by simpa [hrec] using hs)
  | decline hphase howner => exact .inr (.inr howner)
  | forget hphase => exact .inr (.inr (by simp))
  | exit hphase => exact .inr (.inl (by simp [State.finish]))
  | crash halive => exact .inr (.inl (by simp [State.finish, State.dropLock]))
  | cleanup | unlink | publish => exact .inl (by simp [Phase.recorded])
  | spawn pid procStart repo hphase hpid => simp [hphase, Phase.recorded] at hs
  | bind retry hphase _ => simp [hphase, Phase.recorded] at hs
  | recover r _ hphase _ _ => simp [hphase, Phase.recorded] at hs

/-- A service runs in one process from its first statement to its last. -/
theorem Does.process_cases (h : Does control s g t) :
    (∃ pid, s.phase g = .absent ∧ s.processes pid = none ∧ (t.services g).pid = pid
        ∧ t.processes = Function.update s.processes pid (some ⟨(t.services g).procStart, some g⟩))
      ∨ ((s.phase g).alive = true ∧ (t.services g).pid = (s.services g).pid
        ∧ (t.services g).procStart = (s.services g).procStart
        ∧ (t.processes = s.processes ∨ t.phase g = .gone
            ∧ t.processes = Function.update s.processes (s.services g).pid none)) := by
  cases h with
  | spawn pid procStart repo hphase hpid =>
    refine .inl ⟨pid, hphase, hpid, ?_, ?_⟩
    · simp [State.spawn]
    · simp [State.spawn, State.setProcess]
  | shift p lock halive _ _ _ _ _ _ =>
    exact .inr ⟨halive, by simp [State.move, State.setLock],
      by simp [State.move, State.setLock], .inl rfl⟩
  | bind retry hphase _ =>
    exact .inr ⟨by simp [hphase, Phase.alive], by simp [State.move, State.setSocket],
      by simp [State.move, State.setSocket], .inl rfl⟩
  | recover r _ hphase _ _ =>
    exact .inr ⟨by simp [hphase, Phase.alive], by simp [State.move, State.setSocket],
      by simp [State.move, State.setSocket], .inl rfl⟩
  | publish hphase =>
    exact .inr ⟨by simp [hphase, Phase.alive], by simp [State.move, State.setOwner],
      by simp [State.move, State.setOwner], .inl rfl⟩
  | cleanup hphase _ =>
    exact .inr ⟨by simp [hphase, Phase.alive], by simp [State.move, State.setSocket],
      by simp [State.move, State.setSocket], .inl rfl⟩
  | unlink hphase _ =>
    exact .inr ⟨by simp [hphase, Phase.alive], by simp [State.move, State.setSocket],
      by simp [State.move, State.setSocket], .inl rfl⟩
  | decline hphase _ =>
    exact .inr ⟨by simp [hphase, Phase.alive], by simp [State.move, State.setLock],
      by simp [State.move, State.setLock], .inl rfl⟩
  | forget hphase =>
    exact .inr ⟨by simp [hphase, Phase.alive], by simp [State.move, State.setLock, State.setOwner],
      by simp [State.move, State.setLock, State.setOwner], .inl rfl⟩
  | exit hphase =>
    refine .inr ⟨?_, ?_, ?_, .inr ⟨by simp [State.finish], rfl⟩⟩
    · rcases hphase with hphase | hphase
      · simp [hphase, Phase.alive]
      · simp [hphase, Phase.alive]
    · simp [State.finish, State.move, State.setProcess]
    · simp [State.finish, State.move, State.setProcess]
  | crash halive =>
    refine .inr ⟨halive, ?_, ?_, .inr ⟨by simp [State.finish, State.dropLock], rfl⟩⟩
    · simp [State.finish, State.dropLock, State.move, State.setProcess, State.setLock]
    · simp [State.finish, State.dropLock, State.move, State.setProcess, State.setLock]

/-- The socket files after a statement are the earlier ones, or the caller's own new one. -/
theorem Does.socket_of (h : Does control s g t) {path : Text} {k : Generation}
    (hk : t.sockets path = some k) :
    s.sockets path = some k ∨ (k = g ∧ path = control ∧ t.phase g = .bound) := by
  obtain ⟨hso, -⟩ | ⟨hso, -, -, -, hph⟩ | ⟨hso, -⟩ | ⟨hso, -⟩ | ⟨hso, -⟩ := h.files_cases
  · exact .inl (hso ▸ hk)
  · rw [hso, Function.update_apply] at hk
    split at hk
    · next hpath =>
      cases hk
      exact .inr ⟨rfl, hpath, hph⟩
    · exact .inl hk
  · rw [hso, Function.update_apply] at hk
    split at hk
    · cases hk
    · exact .inl hk
  · exact .inl (hso ▸ hk)
  · exact .inl (hso ▸ hk)

/-- The record after a statement is the earlier one, or the one the caller has just written. -/
theorem Does.owner_of (h : Does control s g t) {r : Owner} (hr : t.owner = some r) :
    s.owner = some r ∨ (r = s.record g control ∧ s.phase g = .bound ∧ t.phase g = .published) := by
  obtain ⟨-, ho, -⟩ | ⟨-, ho, -⟩ | ⟨-, ho, -⟩ | ⟨-, ho, hph, hph'⟩ | ⟨-, ho, -⟩ := h.files_cases
  · exact .inl (ho ▸ hr)
  · exact .inl (ho ▸ hr)
  · exact .inl (ho ▸ hr)
  · rw [ho] at hr
    cases hr
    exact .inr ⟨rfl, hph, hph'⟩
  · rw [ho] at hr
    cases hr

/-- While one service is between `bind` and `write_owner`, no other published one has a socket. -/
theorem Inv.alone (hs : Inv control s) (hg : s.phase g = .bound) {path : Text} {k : Generation}
    (hsocket : s.sockets path = some k) (hrec : (s.phase k).recorded = true) : k = g := by
  have hpath := hs.place path k hsocket (Phase.alive_of_recorded hrec)
  rw [hpath, hs.listening g (by simp [hg, Phase.listening])] at hsocket
  exact (Option.some.inj hsocket).symm

/-- **A service unlinks no socket of another live generation.** It does so only when the recorded
owner is proven dead, when the record is its own, or when it closes its own listener. -/
theorem Does.unlinks_own (hs : Inv control s) (h : Does control s g t) {path : Text}
    {k : Generation}
    (hsocket : s.sockets path = some k) (hlive : (s.phase k).live = true)
    (hne : t.sockets path ≠ some k) : k = g := by
  obtain ⟨hso, -⟩ | ⟨hso, -, -, hfree, -⟩ | ⟨hso, -, -, -, hreason⟩ | ⟨hso, -⟩ | ⟨hso, -⟩ :=
    h.files_cases
  · exact absurd (hso ▸ hsocket) hne
  · by_cases hpath : path = control
    · rw [hpath, hfree] at hsocket
      cases hsocket
    · rw [hso, Function.update_of_ne hpath] at hne
      exact absurd hsocket hne
  · have hpath : path = control := by
      by_contra hpath
      rw [hso, Function.update_of_ne hpath] at hne
      exact hne hsocket
    have hlocked (hl : (s.phase g).locked = true) (hk : s.lock = some (.service k)) : k = g := by
      rw [(hs.held g).mpr hl] at hk
      simpa using hk.symm
    rcases hreason with ⟨hl, r, howner, hdead⟩ | ⟨hl, howner⟩ | hown
    · rcases hs.holder hsocket hlive with hk | hk
      · exact hlocked hl hk
      · rw [howner] at hk
        have hgone := hs.gone_of_ownerIsDead howner hdead
        rw [Option.some.inj hk] at hgone
        simp [hgone, Phase.live, Phase.recorded] at hlive
    · rcases hs.holder hsocket hlive with hk | hk
      · exact hlocked hl hk
      · rw [howner] at hk
        exact (Option.some.inj hk).symm
    · rw [hpath, hown] at hsocket
      exact (Option.some.inj hsocket).symm
  · exact absurd (hso ▸ hsocket) hne
  · exact absurd (hso ▸ hsocket) hne

/-- A service that listens is live. -/
theorem Phase.live_of_listening {p : Phase} (h : p.listening = true) : p.live = true := by
  cases p <;> simp_all [Phase.listening, Phase.live, Phase.recorded]

/-- A step of a service keeps the invariant. -/
theorem Does.inv (hs : Inv control s) (h : Does control s g t) : Inv control t where
  held k := by
    by_cases hk : k = g
    · subst hk
      obtain ⟨hl, hp⟩ | ⟨-, hl, hp⟩ | ⟨-, hl, hp⟩ := h.lock_cases hs
      · rw [hl, hp]
        exact hs.held k
      · simp [hl, hp]
      · simp [hl, hp]
    · rw [h.phase_ne hk, ← hs.held k]
      obtain ⟨hl, -⟩ | ⟨hl, hl', -⟩ | ⟨hl, hl', -⟩ := h.lock_cases hs
      · rw [hl]
      · simp [hl, hl', Ne.symm hk]
      · simp [hl, hl', Ne.symm hk]
  heldStop i := by
    rw [h.stops_eq, ← hs.heldStop i]
    obtain ⟨hl, -⟩ | ⟨hl, hl', -⟩ | ⟨hl, hl', -⟩ := h.lock_cases hs
    · rw [hl]
    · simp [hl, hl']
    · simp [hl, hl']
  bound path k hk := by
    rcases h.socket_of hk with hk' | ⟨rfl, -, hph⟩
    · have hb := hs.bound path k hk'
      by_cases hkg : k = g
      · subst hkg
        exact h.mayBind hb
      · rwa [h.phase_ne hkg]
    · simp [hph, Phase.mayBind]
  place path k hk halive := by
    rcases h.socket_of hk with hk' | ⟨-, hpath, -⟩
    · by_cases hkg : k = g
      · subst hkg
        obtain ⟨pid, habs, -⟩ | ⟨hal, -⟩ := h.process_cases
        · have hb := hs.bound path k hk'
          simp [habs, Phase.mayBind] at hb
        · exact hs.place path k hk' hal
      · rw [h.phase_ne hkg] at halive
        exact hs.place path k hk' halive
    · exact hpath
  listening k hk := by
    by_cases hkg : k = g
    · subst hkg
      obtain ⟨hso, -, -, hl⟩ | ⟨hso, -⟩ | ⟨-, -, hl, -⟩ | ⟨hso, -, hph, -⟩ | ⟨-, -, -, hph⟩ :=
        h.files_cases
      · rw [hso]
        exact hs.listening k (hl hk)
      · rw [hso, Function.update_self]
      · simp [hl] at hk
      · rw [hso]
        exact hs.listening k (by simp [hph, Phase.listening])
      · simp [hph, Phase.listening] at hk
    · rw [h.phase_ne hkg] at hk
      by_contra hne
      exact hkg (h.unlinks_own hs (hs.listening k hk) (Phase.live_of_listening hk) hne)
  owned path k hk hrec := by
    by_cases hkg : k = g
    · subst hkg
      rcases h.recorded hrec with hrec' | howner
      · rcases h.socket_of hk with hk' | ⟨-, -, hph⟩
        · have hold := hs.owned path k hk' hrec'
          obtain ⟨-, ho, -⟩ | ⟨-, ho, -⟩ | ⟨-, ho, -⟩ | ⟨-, ho, -⟩ | ⟨-, -, -, hph⟩ := h.files_cases
          · rwa [ho]
          · rwa [ho]
          · rwa [ho]
          · rw [ho]
            rfl
          · simp [hph, Phase.recorded] at hrec
        · simp [hph, Phase.recorded] at hrec
      · rw [howner]
        rfl
    · rw [h.phase_ne hkg] at hrec
      have hk' : s.sockets path = some k := by
        rcases h.socket_of hk with hk' | ⟨hkg', -⟩
        · exact hk'
        · exact absurd hkg' hkg
      have hold := hs.owned path k hk' hrec
      obtain ⟨-, ho, -⟩ | ⟨-, ho, -⟩ | ⟨-, ho, -⟩ | ⟨-, ho, hph, -⟩ | ⟨-, ho, hph, -⟩ :=
        h.files_cases
      · rwa [ho]
      · rwa [ho]
      · rwa [ho]
      · exact absurd (hs.alone hph hk' hrec) hkg
      · rw [hs.forgetting g hph] at hold
        exact absurd (Option.some.inj hold).symm hkg
  written r hr := by
    rcases h.owner_of hr with hr' | ⟨rfl, -, hph⟩
    · by_cases hkg : r.generation = g
      · rcases hs.written r hr' with hrec | hgone
        · rw [hkg] at hrec ⊢
          rcases h.keeps_recorded hrec with hrec' | hgone | hne
          · exact .inl hrec'
          · exact .inr hgone
          · rw [hr] at hne
            exact absurd (by simp [hkg]) hne
        · exact .inr (h.gone hgone)
      · rw [h.phase_ne hkg]
        exact hs.written r hr'
    · left
      simp [State.record, hph, Phase.recorded]
  identified r hr halive := by
    rcases h.owner_of hr with hr' | ⟨rfl, hph, -⟩
    · by_cases hkg : r.generation = g
      · obtain ⟨pid, habs, -⟩ | ⟨hal, hpid, hstart, -⟩ := h.process_cases
        · rw [← hkg] at habs
          rcases hs.written r hr' with hrec | hgone
          · simp [habs, Phase.recorded] at hrec
          · simp [habs] at hgone
        · rw [← hkg] at hal hpid hstart
          rw [hpid, hstart]
          exact hs.identified r hr' hal
      · rw [h.phase_ne hkg] at halive
        rw [h.services_ne hkg]
        exact hs.identified r hr' halive
    · obtain ⟨pid, habs, -⟩ | ⟨hal, hpid, hstart, -⟩ := h.process_cases
      · rw [hph] at habs
        cases habs
      · exact ⟨hpid, hstart⟩
  running k halive := by
    by_cases hkg : k = g
    · subst hkg
      obtain ⟨pid, -, -, hpid, hproc⟩ | ⟨hal, hpid, hstart, hproc | ⟨hgone, -⟩⟩ := h.process_cases
      · rw [hproc, hpid, Function.update_self]
      · rw [hproc, hpid, hstart]
        exact hs.running k hal
      · simp [hgone, Phase.alive] at halive
    · rw [h.phase_ne hkg] at halive
      rw [h.services_ne hkg]
      have hrun := hs.running k halive
      obtain ⟨pid, -, hfree, -, hproc⟩ | ⟨hal, -, -, hproc | ⟨-, hproc⟩⟩ := h.process_cases
      · rw [hproc, Function.update_of_ne]
        · exact hrun
        · rintro rfl
          rw [hrun] at hfree
          cases hfree
      · rw [hproc]
        exact hrun
      · rw [hproc, Function.update_of_ne]
        · exact hrun
        · intro hpid
          have hrun' := hs.running g hal
          rw [← hpid, hrun] at hrun'
          simp only [Option.some.injEq, Running.mk.injEq] at hrun'
          exact hkg hrun'.2
  forgetting k hk := by
    by_cases hkg : k = g
    · subst hkg
      obtain ⟨-, -, hnf, -⟩ | ⟨-, -, -, -, hph⟩ | ⟨-, ho, -, hf, -⟩ | ⟨-, -, -, hph⟩ | ⟨-, -,
          -, hph⟩ :=
        h.files_cases
      · exact absurd hk hnf
      · simp [hph] at hk
      · rw [ho]
        exact hf hk
      · simp [hph] at hk
      · simp [hph] at hk
    · rw [h.phase_ne hkg] at hk
      have hold := hs.forgetting k hk
      obtain ⟨-, ho, -⟩ | ⟨-, ho, -⟩ | ⟨-, ho, -⟩ | ⟨-, -, hph, -⟩ | ⟨-, -, hph, -⟩ := h.files_cases
      · rwa [ho]
      · rwa [ho]
      · rwa [ho]
      · exact absurd (hs.lock_unique (by simp [hk, Phase.locked]) (by simp [hph, Phase.locked])) hkg
      · exact absurd (hs.lock_unique (by simp [hk, Phase.locked]) (by simp [hph, Phase.locked])) hkg
  stopForgetting i k hi := by
    rw [h.stops_eq] at hi
    obtain ⟨hold, hgone⟩ := hs.stopForgetting i k hi
    have hstop : s.lock = some (.stop i) := (hs.heldStop i).mpr (by simp [hi, Stop.locked])
    refine ⟨?_, h.gone hgone⟩
    obtain ⟨-, ho, -⟩ | ⟨-, ho, -⟩ | ⟨-, ho, -⟩ | ⟨-, -, hph, -⟩ | ⟨-, -, hph, -⟩ := h.files_cases
    · rwa [ho]
    · rwa [ho]
    · rwa [ho]
    · rw [(hs.held g).mpr (by simp [hph, Phase.locked])] at hstop
      cases hstop
    · rw [(hs.held g).mpr (by simp [hph, Phase.locked])] at hstop
      cases hstop

/-! ### What a call of `stop_service` keeps -/

/-- What a statement of the `i`-th call of `stop_service` can do. -/
inductive StopDoes (s : State) (i : ℕ) : State → Prop where
  | shift (q : Stop) (lock : Option Party) (hforget : ∀ k, q ≠ .forgetting k)
      (hlock : (lock = s.lock ∧ q.locked = (s.stops i).locked)
        ∨ (s.lock = none ∧ lock = some (.stop i) ∧ q.locked = true)
        ∨ ((s.stops i).locked = true ∧ lock = none ∧ q.locked = false)) :
      StopDoes s i ((s.moveStop i q).setLock lock)
  | unlink (path : Text) (r : Owner) (hstop : s.stops i = .examining path r.generation)
      (howner : s.owner = some r) (hdead : s.ownerIsDead r = true) :
      StopDoes s i ((s.moveStop i (.forgetting r.generation)).setSocket path none)
  | forget (k : Generation) (hstop : s.stops i = .forgetting k) :
      StopDoes s i (((s.moveStop i .done).setOwner none).setLock none)
  | crash : StopDoes s i ((s.moveStop i .done).dropLock (.stop i))

variable {i : ℕ}

/-- A step of a stop command is one of those `StopDoes` lists. -/
theorem stopNext_does {e : StopEvent} (h : stopNext s i e = some t) : StopDoes s i t := by
  cases e with
  | read repo path =>
    simp only [stopNext] at h
    split at h
    · obtain ⟨⟨hstop, -⟩, rfl⟩ := Option.ite_some_none_eq_some.mp h
      exact .shift _ s.lock (by simp) (.inl ⟨rfl, by simp [hstop, Stop.locked]⟩)
    · cases h
  | lock =>
    simp only [stopNext] at h
    split at h
    · obtain ⟨hfree, rfl⟩ := Option.ite_some_none_eq_some.mp h
      exact .shift _ _ (by simp) (.inr (.inl ⟨hfree, rfl, rfl⟩))
    · cases h
  | decline =>
    simp only [stopNext] at h
    split at h
    · next hstop =>
      cases h
      exact .shift _ _ (by simp) (.inr (.inr ⟨by simp [hstop, Stop.locked], rfl, rfl⟩))
    · cases h
  | unlink =>
    simp only [stopNext] at h
    split at h
    · next path k r hstop howner =>
      obtain ⟨⟨rfl, hdead, -⟩, rfl⟩ := Option.ite_some_none_eq_some.mp h
      exact .unlink path r hstop howner hdead
    · cases h
  | forget =>
    simp only [stopNext] at h
    split at h
    · next k hstop =>
      cases h
      exact .forget k hstop
    · cases h
  | finish =>
    simp only [stopNext] at h
    split at h
    · next hstop =>
      cases h
      exact .shift _ s.lock (by simp) (.inl ⟨rfl, by simp [hstop, Stop.locked]⟩)
    · next hstop =>
      cases h
      exact .shift _ s.lock (by simp) (.inl ⟨rfl, by simp [hstop, Stop.locked]⟩)
    · cases h
  | crash =>
    cases h
    exact .crash

/-- A stop command moves no service. -/
theorem StopDoes.services_eq (h : StopDoes s i t) : t.services = s.services := by
  cases h <;> rfl

/-- A stop command leaves every service in its phase. -/
theorem StopDoes.phase_eq (h : StopDoes s i t) (k : Generation) : t.phase k = s.phase k := by
  simp [State.phase, h.services_eq]

/-- A stop command starts and ends no process of a service. -/
theorem StopDoes.processes_eq (h : StopDoes s i t) : t.processes = s.processes := by
  cases h <;> rfl

/-- A stop command leaves the other stop commands alone. -/
theorem StopDoes.stops_ne (h : StopDoes s i t) {j : ℕ} (hj : j ≠ i) : t.stops j = s.stops j := by
  cases h <;> simp [State.dropLock, hj]

/-- A stop command leaves the lock alone, takes it while it is free, or gives back its own. -/
theorem StopDoes.lock_cases (hs : Inv control s) (h : StopDoes s i t) :
    (t.lock = s.lock ∧ (t.stops i).locked = (s.stops i).locked)
      ∨ (s.lock = none ∧ t.lock = some (.stop i) ∧ (t.stops i).locked = true)
      ∨ (s.lock = some (.stop i) ∧ t.lock = none ∧ (t.stops i).locked = false) := by
  have hheld := hs.heldStop i
  cases h with
  | shift q lock _ hlock => simpa [hheld] using hlock
  | unlink path r hstop _ _ => exact .inl ⟨rfl, by simp [hstop, Stop.locked]⟩
  | forget k hstop =>
    exact .inr (.inr ⟨hheld.mpr (by simp [hstop, Stop.locked]), rfl, by simp [Stop.locked]⟩)
  | crash =>
    by_cases hl : s.lock = some (.stop i)
    · exact .inr (.inr ⟨hl, by simp [State.dropLock, hl], by simp [State.dropLock, Stop.locked]⟩)
    · have hf : (s.stops i).locked = false := by simpa [hheld] using hl
      refine .inl ⟨by simp [State.dropLock, hl], ?_⟩
      rw [hf]
      simp [State.dropLock, Stop.locked]

/-- A stop command removes a socket file, or the record, under the lock and of a dead owner only. -/
theorem StopDoes.files_cases (h : StopDoes s i t) :
    (t.sockets = s.sockets ∧ t.owner = s.owner ∧ ∀ k, t.stops i ≠ .forgetting k)
      ∨ (∃ path r, t.sockets = Function.update s.sockets path none ∧ t.owner = s.owner
          ∧ (s.stops i).locked = true ∧ s.owner = some r ∧ s.ownerIsDead r = true
          ∧ t.stops i = .forgetting r.generation)
      ∨ (∃ k, t.sockets = s.sockets ∧ t.owner = none ∧ s.stops i = .forgetting k
          ∧ ∀ k, t.stops i ≠ .forgetting k) := by
  cases h with
  | shift q lock hforget _ => exact .inl ⟨rfl, rfl, by simpa using hforget⟩
  | unlink path r hstop howner hdead =>
    exact .inr (.inl ⟨path, r, rfl, rfl, by simp [hstop, Stop.locked], howner, hdead, by simp⟩)
  | forget k hstop => exact .inr (.inr ⟨k, rfl, rfl, hstop, by simp⟩)
  | crash => exact .inl ⟨rfl, rfl, by simp [State.dropLock]⟩

/-- A stop command binds no socket. -/
theorem StopDoes.socket_of (h : StopDoes s i t) {path : Text} {k : Generation}
    (hk : t.sockets path = some k) : s.sockets path = some k := by
  obtain ⟨hso, -⟩ | ⟨path', _, hso, -⟩ | ⟨_, hso, -⟩ := h.files_cases
  · exact hso ▸ hk
  · rw [hso, Function.update_apply] at hk
    split at hk
    · cases hk
    · exact hk
  · exact hso ▸ hk

/-- A stop command writes no owner record. -/
theorem StopDoes.owner_of (h : StopDoes s i t) {r : Owner} (hr : t.owner = some r) :
    s.owner = some r := by
  obtain ⟨-, ho, -⟩ | ⟨_, _, -, ho, -⟩ | ⟨_, -, ho, -⟩ := h.files_cases
  · exact ho ▸ hr
  · exact ho ▸ hr
  · rw [ho] at hr
    cases hr

/-- **`stop_service` unlinks no socket of a live generation.** -/
theorem StopDoes.unlinks_none (hs : Inv control s) (h : StopDoes s i t) {path : Text}
    {k : Generation} (hsocket : s.sockets path = some k) (hlive : (s.phase k).live = true) :
    t.sockets path = some k := by
  obtain ⟨hso, -⟩ | ⟨path', r, hso, -, hl, howner, hdead, -⟩ | ⟨_, hso, -⟩ := h.files_cases
  · rw [hso, hsocket]
  · rcases hs.holder hsocket hlive with hk | hk
    · rw [(hs.heldStop i).mpr hl] at hk
      cases hk
    · rw [howner] at hk
      have hgone := hs.gone_of_ownerIsDead howner hdead
      rw [Option.some.inj hk] at hgone
      simp [hgone, Phase.live, Phase.recorded] at hlive
  · rw [hso, hsocket]

/-- A step of a stop command keeps the invariant. -/
theorem StopDoes.inv (hs : Inv control s) (h : StopDoes s i t) : Inv control t where
  held k := by
    rw [h.phase_eq, ← hs.held k]
    obtain ⟨hl, -⟩ | ⟨hl, hl', -⟩ | ⟨hl, hl', -⟩ := h.lock_cases hs
    · rw [hl]
    · simp [hl, hl']
    · simp [hl, hl']
  heldStop j := by
    by_cases hj : j = i
    · subst hj
      obtain ⟨hl, hp⟩ | ⟨-, hl, hp⟩ | ⟨-, hl, hp⟩ := h.lock_cases hs
      · rw [hl, hp]
        exact hs.heldStop j
      · simp [hl, hp]
      · simp [hl, hp]
    · rw [h.stops_ne hj, ← hs.heldStop j]
      obtain ⟨hl, -⟩ | ⟨hl, hl', -⟩ | ⟨hl, hl', -⟩ := h.lock_cases hs
      · rw [hl]
      · simp [hl, hl', Ne.symm hj]
      · simp [hl, hl', Ne.symm hj]
  bound path k hk := by
    rw [h.phase_eq]
    exact hs.bound path k (h.socket_of hk)
  place path k hk halive := by
    rw [h.phase_eq] at halive
    exact hs.place path k (h.socket_of hk) halive
  listening k hk := by
    rw [h.phase_eq] at hk
    exact h.unlinks_none hs (hs.listening k hk) (Phase.live_of_listening hk)
  owned path k hk hrec := by
    rw [h.phase_eq] at hrec
    have hold := hs.owned path k (h.socket_of hk) hrec
    obtain ⟨-, ho, -⟩ | ⟨-, -, -, ho, -⟩ | ⟨g, -, -, hstop, -⟩ := h.files_cases
    · rwa [ho]
    · rwa [ho]
    · obtain ⟨hg, hgone⟩ := hs.stopForgetting i g hstop
      rw [hg] at hold
      rw [← Option.some.inj hold, hgone] at hrec
      cases hrec
  written r hr := by
    rw [h.phase_eq]
    exact hs.written r (h.owner_of hr)
  identified r hr halive := by
    rw [h.phase_eq] at halive
    rw [h.services_eq]
    exact hs.identified r (h.owner_of hr) halive
  running k halive := by
    rw [h.phase_eq] at halive
    rw [h.services_eq, h.processes_eq]
    exact hs.running k halive
  forgetting k hk := by
    rw [h.phase_eq] at hk
    have hold := hs.forgetting k hk
    obtain ⟨-, ho, -⟩ | ⟨-, -, -, ho, -⟩ | ⟨g, -, -, hstop, -⟩ := h.files_cases
    · rwa [ho]
    · rwa [ho]
    · have hl := (hs.heldStop i).mpr (by simp [hstop, Stop.locked])
      rw [(hs.held k).mpr (by simp [hk, Phase.locked])] at hl
      cases hl
  stopForgetting j k hj := by
    rw [h.phase_eq]
    by_cases hji : j = i
    · subst hji
      obtain ⟨-, -, hnf⟩ | ⟨_, r, -, ho, -, howner, hdead, hst⟩ | ⟨_, -, -, -, hnf⟩ := h.files_cases
      · exact absurd hj (hnf k)
      · rw [hst] at hj
        cases hj
        rw [ho, howner]
        exact ⟨rfl, hs.gone_of_ownerIsDead howner hdead⟩
      · exact absurd hj (hnf k)
    · rw [h.stops_ne hji] at hj
      obtain ⟨hold, hgone⟩ := hs.stopForgetting j k hj
      refine ⟨?_, hgone⟩
      obtain ⟨-, ho, -⟩ | ⟨-, -, -, ho, -⟩ | ⟨g, -, -, hstop, -⟩ := h.files_cases
      · rwa [ho]
      · rwa [ho]
      · have hl := (hs.heldStop i).mpr (by simp [hstop, Stop.locked])
        rw [(hs.heldStop j).mpr (by simp [hj, Stop.locked])] at hl
        simp only [Option.some.injEq, Party.stop.injEq] at hl
        exact absurd hl hji

/-! ### Unrelated processes -/

/-- The processes of others come and go without touching the invariant. -/
theorem Inv.setProcess (hs : Inv control s) {pid : Pid} {x : Option Running}
    (h : ∀ g, (s.phase g).alive = true → (s.services g).pid ≠ pid) :
    Inv control (s.setProcess pid x) where
  held := hs.held
  heldStop := hs.heldStop
  bound := hs.bound
  place := hs.place
  listening := hs.listening
  owned := hs.owned
  written := hs.written
  identified := hs.identified
  running g halive := by
    have hrun := hs.running g halive
    simp only [State.setProcess]
    rw [Function.update_of_ne (h g halive)]
    exact hrun
  forgetting := hs.forgetting
  stopForgetting := hs.stopForgetting

/-! ## Every run -/

/-- Every step keeps the invariant. -/
theorem next_inv (hs : Inv control s) {e : Event} (h : next control s e = some t) :
    Inv control t := by
  cases e with
  | service g e => exact (serviceNext_does h).inv hs
  | stop i e => exact (stopNext_does h).inv hs
  | arrive pid procStart =>
    obtain ⟨hfree, rfl⟩ := Option.ite_some_none_eq_some.mp h
    refine hs.setProcess fun g halive hpid => ?_
    rw [← hpid, hs.running g halive] at hfree
    cases hfree
  | depart pid =>
    simp only [next] at h
    split at h
    · next start hproc =>
      cases h
      refine hs.setProcess fun g halive hpid => ?_
      rw [← hpid, hs.running g halive] at hproc
      cases hproc
    · cases h

/-- The invariant holds in every reachable state. -/
theorem reachable_inv (h : (system control).Reachable s) : Inv control s :=
  h.invariant (I := Inv control) (fun _ => Inv.of_unused) fun _ _ _ hs ht => next_inv hs ht

/-- The process runs, the control endpoint is the socket it bound, and the record is its own. -/
def Holds (control : Text) (s : State) (g : Generation) : Prop :=
  (s.phase g).alive = true ∧ s.sockets control = some g ∧ s.owner.map Owner.generation = some g

/-- The socket a step removes or replaces is not another live generation's. -/
theorem socket_step (hs : Inv control s) {e : Event} (h : next control s e = some t) {path : Text}
    (hsocket : s.sockets path = some g) (hlive : (s.phase g).live = true)
    (hne : t.sockets path ≠ some g) : e.party = .service g := by
  cases e with
  | service k e => rw [(serviceNext_does h).unlinks_own hs hsocket hlive hne, Event.party]
  | stop i e => exact absurd ((stopNext_does h).unlinks_none hs hsocket hlive) hne
  | arrive pid procStart =>
    obtain ⟨-, rfl⟩ := Option.ite_some_none_eq_some.mp h
    exact absurd hsocket hne
  | depart pid =>
    simp only [next] at h
    split at h
    · cases h
      exact absurd hsocket hne
    · cases h

/-- The record a step unlinks is not another live generation's. -/
theorem owner_step (hs : Inv control s) {e : Event} (h : next control s e = some t)
    (howner : s.owner.map Owner.generation = some g) (hlive : (s.phase g).live = true)
    (hnone : t.owner = none) : e.party = .service g := by
  cases e with
  | service k e =>
    obtain ⟨-, ho, -⟩ | ⟨-, ho, -⟩ | ⟨-, ho, -⟩ | ⟨-, ho, -⟩ | ⟨-, -, hph, -⟩ :=
      (serviceNext_does h).files_cases
    · simp [← ho, hnone] at howner
    · simp [← ho, hnone] at howner
    · simp [← ho, hnone] at howner
    · simp [ho] at hnone
    · rw [hs.forgetting k hph] at howner
      rw [← Option.some.inj howner, Event.party]
  | stop i e =>
    obtain ⟨-, ho, -⟩ | ⟨_, _, -, ho, -⟩ | ⟨k, -, -, hstop, -⟩ := (stopNext_does h).files_cases
    · simp [← ho, hnone] at howner
    · simp [← ho, hnone] at howner
    · obtain ⟨hk, hgone⟩ := hs.stopForgetting i k hstop
      rw [hk] at howner
      rw [← Option.some.inj howner, hgone] at hlive
      cases hlive
  | arrive pid procStart =>
    obtain ⟨-, rfl⟩ := Option.ite_some_none_eq_some.mp h
    rw [owner_setProcess] at hnone
    simp [hnone] at howner
  | depart pid =>
    simp only [next] at h
    split at h
    · cases h
      rw [owner_setProcess] at hnone
      simp [hnone] at howner
    · cases h

/-- A record is written over only after its generation has given up its socket. -/
theorem replace_step (hs : Inv control s) {e : Event} (h : next control s e = some t)
    (howner : s.owner.map Owner.generation = some g) {r : Owner} (hr : t.owner = some r)
    (hne : r.generation ≠ g) : s.sockets control ≠ some g := by
  have hkeep (ho : t.owner = s.owner) : False := by
    rw [← ho, hr] at howner
    exact hne (Option.some.inj howner)
  cases e with
  | service k e =>
    obtain ⟨-, ho, -⟩ | ⟨-, ho, -⟩ | ⟨-, ho, -⟩ | ⟨-, ho, hph, -⟩ | ⟨-, ho, -⟩ :=
      (serviceNext_does h).files_cases
    · exact (hkeep ho).elim
    · exact (hkeep ho).elim
    · exact (hkeep ho).elim
    · rw [ho] at hr
      cases hr
      rw [hs.listening k (by simp [hph, Phase.listening])]
      intro hk
      exact hne (Option.some.inj hk)
    · rw [ho] at hr
      cases hr
  | stop i e =>
    obtain ⟨-, ho, -⟩ | ⟨_, _, -, ho, -⟩ | ⟨_, -, ho, -⟩ := (stopNext_does h).files_cases
    · exact (hkeep ho).elim
    · exact (hkeep ho).elim
    · rw [ho] at hr
      cases hr
  | arrive pid procStart =>
    obtain ⟨-, rfl⟩ := Option.ite_some_none_eq_some.mp h
    exact (hkeep rfl).elim
  | depart pid =>
    simp only [next] at h
    split at h
    · cases h
      exact (hkeep rfl).elim
    · cases h

/-- **One owner for each endpoint.** In every reachable state at most one live process holds the
bound control endpoint with a matching record, and each serving process does. No step of one party
unlinks the socket or the record of a live generation other than the caller's own, and a record is
written over only after its generation has given up its socket. -/
theorem one_owner (control : Text) (s : State) (hs : (system control).Reachable s) :
    (∀ g k, Holds control s g → Holds control s k → g = k)
      ∧ (∀ g, s.phase g = .serving → Holds control s g)
      ∧ ∀ e t, next control s e = some t → ∀ g, (s.phase g).live = true →
          (∀ path, s.sockets path = some g → t.sockets path ≠ some g → e.party = .service g)
          ∧ (s.owner.map Owner.generation = some g → t.owner = none → e.party = .service g)
          ∧ (s.owner.map Owner.generation = some g → ∀ r, t.owner = some r → r.generation ≠ g →
              s.sockets control ≠ some g) := by
  have hinv := reachable_inv hs
  refine ⟨?_, ?_, ?_⟩
  · rintro g k ⟨-, hg, -⟩ ⟨-, hk, -⟩
    rw [hg] at hk
    exact Option.some.inj hk
  · intro g hg
    have hsocket := hinv.listening g (by simp [hg, Phase.listening])
    exact ⟨by simp [hg, Phase.alive], hsocket,
      hinv.owned control g hsocket (by simp [hg, Phase.recorded])⟩
  · intro e t ht g hlive
    exact ⟨fun path hsocket hne => socket_step hinv ht hsocket hlive hne,
      fun howner hnone => owner_step hinv ht howner hlive hnone,
      fun howner r hr hne => replace_step hinv ht howner hr hne⟩

/-- A directory without files and processes. -/
def emptyDirectory : State where
  processes _ := none
  services _ := ⟨.absent, 0, [], []⟩
  stops _ := .idle
  lock := none
  sockets _ := none
  owner := none

/-- Nothing has used an empty directory. -/
theorem emptyDirectory_unused : Unused emptyDirectory where
  lock := rfl
  stops _ := rfl
  services _ := .inl rfl
  sockets _ _ h := by cases h
  owner _ h := by cases h

/-- A first service dies while it serves; a second one finds the path taken and the recorded owner
dead, and takes over. -/
def takeover : List Event :=
  let a := lit "a"
  let b := lit "b"
  [.service a (.spawn 10 (lit "t1") (lit "r")), .service a .lock, .service a .construct,
   .service a .bind, .service a .publish, .service a .started, .service a .crash,
   .service b (.spawn 10 (lit "t2") (lit "r")), .service b .lock, .service b .construct,
   .service b .bindRaises, .service b .recover, .service b .bind, .service b .publish,
   .service b .started]

/-- After the takeover the second service holds the endpoint, and no one else does. -/
theorem one_owner_takeover :
    ∃ s, (system (lit "c")).Reachable s ∧ s.phase (lit "b") = .serving ∧ Holds (lit "c") s (lit "b")
      ∧ ∀ g, Holds (lit "c") s g → g = lit "b" := by
  have hrun : ((system (lit "c")).run emptyDirectory takeover).map (·.phase (lit "b"))
      = some .serving := by decide +kernel
  obtain ⟨s, hs, hserving⟩ := Option.map_eq_some_iff.mp hrun
  have hreach : (system (lit "c")).Reachable s :=
    System.Reachable.run (.init emptyDirectory_unused) hs
  obtain ⟨hone, hholds, -⟩ := one_owner (lit "c") s hreach
  exact ⟨s, hreach, hserving, hholds _ hserving, fun g hg => hone g _ hg (hholds _ hserving)⟩

end PeerBridge.Endpoint
