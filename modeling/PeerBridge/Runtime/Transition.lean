import Mathlib

/-!
# Systems of parties that take steps

A `System` is given by its first states and by what each event does in a state where it can occur.
Everything the parties or the environment may choose is part of the event, so `next` is a function
and a run is a list of events.

* `Reachable`: the states some sequence of events leads to.
* `Reachable.invariant`: what holds at first and is kept by every event holds in every reachable
  state.
* `run`: the execution of a list of events; `run_invariant`: what each event of the list keeps is
  kept by the run; `Reachable.run`: what is run is reachable.
-/

namespace Transition

/-- Parties and their environment: where they start and what each event does. -/
structure System (σ ε : Type) where
  /-- The first states. -/
  init : σ → Prop
  /-- The state after an event, where the event can occur. -/
  next : σ → ε → Option σ

namespace System

variable {σ ε : Type} {M : System σ ε}

/-- The states some sequence of events leads to. -/
inductive Reachable (M : System σ ε) : σ → Prop where
  | init {s : σ} (h : M.init s) : Reachable M s
  | step {s t : σ} (e : ε) (hs : Reachable M s) (h : M.next s e = some t) : Reachable M t

/-- What holds at first and is kept by every event holds in every reachable state. -/
theorem Reachable.invariant {I : σ → Prop} (hinit : ∀ s, M.init s → I s)
    (hnext : ∀ s e t, I s → M.next s e = some t → I t) {s : σ} (h : M.Reachable s) : I s := by
  induction h with
  | init h => exact hinit _ h
  | step e _ h ih => exact hnext _ e _ ih h

/-- The state after a list of events, where each can occur in turn. -/
def run (M : System σ ε) : σ → List ε → Option σ
  | s, [] => some s
  | s, e :: es => (M.next s e).bind fun t => M.run t es

/-- What every event of a list keeps is kept by its run. -/
theorem run_invariant {I : σ → Prop} {P : ε → Prop}
    (hnext : ∀ s e t, P e → I s → M.next s e = some t → I t) {s t : σ} {es : List ε}
    (hes : ∀ e ∈ es, P e) (hs : I s) (h : M.run s es = some t) : I t := by
  induction es generalizing s with
  | nil =>
    cases h
    exact hs
  | cons e es ih =>
    obtain ⟨u, hu, ht⟩ := Option.bind_eq_some_iff.mp h
    have hu' : I u := hnext s e u (hes e (by simp)) hs hu
    exact ih (fun f hf => hes f (by simp [hf])) hu' ht

/-- What a run reaches from a reachable state is reachable. -/
theorem Reachable.run {s t : σ} {es : List ε} (hs : M.Reachable s) (h : M.run s es = some t) :
    M.Reachable t := by
  induction es generalizing s with
  | nil =>
    cases h
    exact hs
  | cons e es ih =>
    obtain ⟨u, hu, ht⟩ := Option.bind_eq_some_iff.mp h
    exact ih (hs.step e hu) ht

end System

end Transition
