import Mathlib

/-!
# Programs whose effects survive an exception

`Prog ε σ α` is a computation over a state `σ` that returns a value or raises an exception; unlike
a state transformer over `Except`, it also says which state an exception leaves behind. That is
the shape of imperative code with several separately committed transactions: a later refusal does
not undo an earlier commit.

The rules a proof about such code uses:

* `bind_inv`, `tryCatch_inv`: what a run of a composed program says about the runs of its parts;
* `Keeps R p`: every run of `p` goes from its first state to its last one by the preorder `R`,
  whatever it returns, with one closure rule for each way of building a program;
* `Raises P p`, `Returns P p`: whatever `p` raises, or returns, satisfies `P`, with the same closure
  rules;
* `Ends P p Q E`: a run from a state of `P` returns in `Q` or raises in `E`;
* `keeps_of_reflTransGen`: a chain of steps keeps an invariant as soon as each step does.
-/

namespace Effects

/-- A computation in sequence returns exactly when both parts do. -/
theorem except_bind_eq_ok {ε α β : Type} {x : Except ε α} {f : α → Except ε β} {b : β} :
    (x >>= f) = .ok b ↔ ∃ a, x = .ok a ∧ f a = .ok b := by
  cases x with
  | error e => simp [bind, Except.bind]
  | ok a => simp [bind, Except.bind]

/-- A mapped result is a value exactly when the result is one. -/
theorem except_map_eq_ok {ε α β : Type} {x : Except ε α} {f : α → β} {b : β} :
    x.map f = .ok b ↔ ∃ a, x = .ok a ∧ f a = b := by
  cases x with
  | error e => simp [Except.map]
  | ok a => simp [Except.map]

/-- A computation in sequence raises in its first part or in its second. -/
theorem except_bind_eq_error {ε α β : Type} {x : Except ε α} {f : α → Except ε β} {e : ε} :
    (x >>= f) = .error e ↔ x = .error e ∨ ∃ a, x = .ok a ∧ f a = .error e := by
  cases x with
  | error e' => simp [bind, Except.bind]
  | ok a => simp [bind, Except.bind]

/-- A computation over a list returns as soon as it does at every element. -/
theorem except_mapM_eq_ok {ε α β : Type} {f : α → Except ε β} {l : List α} {bs : List β}
    (h : l.mapM f = .ok bs) : List.Forall₂ (fun a b => f a = .ok b) l bs := by
  induction l generalizing bs with
  | nil =>
    obtain rfl : [] = bs := Except.ok.inj h
    exact .nil
  | cons a l ih =>
    rw [List.mapM_cons] at h
    obtain ⟨b, hb, h⟩ := except_bind_eq_ok.mp h
    obtain ⟨bs', hbs, h⟩ := except_bind_eq_ok.mp h
    obtain rfl : b :: bs' = bs := Except.ok.inj h
    exact .cons hb (ih hbs)

/-- Every element has its image among the results of a traversal that succeeds. -/
theorem except_mapM_mem {ε α β : Type} {f : α → Except ε β} {l : List α} {bs : List β}
    (h : l.mapM f = .ok bs) {a : α} (ha : a ∈ l) : ∃ b ∈ bs, f a = .ok b := by
  have hall := except_mapM_eq_ok h
  clear h
  induction hall with
  | nil => cases ha
  | cons hab _ ih =>
    rcases List.mem_cons.mp ha with rfl | ha
    · exact ⟨_, List.mem_cons_self .., hab⟩
    · obtain ⟨b, hb, hfb⟩ := ih ha
      exact ⟨b, List.mem_cons_of_mem _ hb, hfb⟩

/-- A computation over a list raises what it raises at some element. -/
theorem except_mapM_eq_error {ε α β : Type} {f : α → Except ε β} {l : List α} {e : ε}
    (h : l.mapM f = .error e) : ∃ a ∈ l, f a = .error e := by
  induction l with
  | nil => cases h
  | cons a l ih =>
    rw [List.mapM_cons] at h
    rcases except_bind_eq_error.mp h with h | ⟨b, -, h⟩
    · exact ⟨a, List.mem_cons_self .., h⟩
    · rcases except_bind_eq_error.mp h with h | ⟨bs, -, h⟩
      · obtain ⟨a', ha', h'⟩ := ih h
        exact ⟨a', List.mem_cons_of_mem _ ha', h'⟩
      · cases h

/-- `if c: raise e` -/
def raiseIf {ε : Type} (c : Bool) (e : ε) : Except ε Unit := if c then .error e else .ok ()

/-- A guard passes exactly when its condition is false. -/
theorem raiseIf_eq_ok {ε : Type} {c : Bool} {e : ε} {u : Unit} :
    raiseIf c e = .ok u ↔ c = false := by
  unfold raiseIf
  split
  · next h => simp [h]
  · next h => simpa using h

/-- A guard raises its own exception, exactly when its condition is true. -/
theorem raiseIf_eq_error {ε : Type} {c : Bool} {e e' : ε} :
    raiseIf c e = .error e' ↔ c = true ∧ e = e' := by
  unfold raiseIf
  split
  · next h => simp [h]
  · next h => simp [h]

/-- A computation with state `σ` and exceptions `ε`. -/
def Prog (ε σ α : Type) : Type := σ → Except ε α × σ

namespace Prog

variable {ε σ α β : Type}

instance : Monad (Prog ε σ) where
  pure a := fun s => (.ok a, s)
  bind p f := fun s =>
    match p s with
    | (.ok a, t) => f a t
    | (.error e, t) => (.error e, t)

instance : MonadExceptOf ε (Prog ε σ) where
  throw e := fun s => (.error e, s)
  tryCatch p handler := fun s =>
    match p s with
    | (.ok a, t) => (.ok a, t)
    | (.error e, t) => handler e t

instance : MonadStateOf σ (Prog ε σ) where
  get := fun s => (.ok s, s)
  set t := fun _ => (.ok (), t)
  modifyGet f := fun s => (.ok (f s).1, (f s).2)

/-- A pure fallible computation as a program. -/
def lift (x : Except ε α) : Prog ε σ α := fun s => (x, s)

/-- A value leaves the state as it is. -/
@[simp] theorem pure_apply (a : α) (s : σ) : (pure a : Prog ε σ α) s = (.ok a, s) := rfl

/-- An exception leaves the state as it is. -/
@[simp] theorem throw_apply (e : ε) (s : σ) : (throw e : Prog ε σ α) s = (.error e, s) := rfl

/-- Reading the state leaves it as it is. -/
@[simp] theorem get_apply (s : σ) : (get : Prog ε σ σ) s = (.ok s, s) := rfl

/-- What is stored is the state afterwards. -/
@[simp] theorem set_apply (s t : σ) : (set t : Prog ε σ PUnit) s = (.ok (), t) := rfl

/-- A change of the state is the state afterwards. -/
@[simp] theorem modify_apply (f : σ → σ) (s : σ) :
    (modify f : Prog ε σ PUnit) s = (.ok (), f s) := rfl

/-- A computation without state leaves the state as it is. -/
@[simp] theorem lift_apply (x : Except ε α) (s : σ) : (lift x : Prog ε σ α) s = (x, s) := rfl

/-- What follows a program that returned runs with its value in its last state. -/
theorem bind_ok {p : Prog ε σ α} {f : α → Prog ε σ β} {s t : σ} {a : α} (h : p s = (.ok a, t)) :
    (p >>= f) s = f a t := by
  change (match p s with | (.ok a, t) => f a t | (.error e, t) => (.error e, t)) = _
  rw [h]

/-- What follows a program that raised is not run. -/
theorem bind_error {p : Prog ε σ α} {f : α → Prog ε σ β} {s t : σ} {e : ε}
    (h : p s = (.error e, t)) : (p >>= f) s = (.error e, t) := by
  change (match p s with | (.ok a, t) => f a t | (.error e, t) => (.error e, t)) = _
  rw [h]

/-- A run of a sequence: the first part raised, or it returned and the second part ran. -/
theorem bind_inv {p : Prog ε σ α} {f : α → Prog ε σ β} {s t : σ} {r : Except ε β}
    (h : (p >>= f) s = (r, t)) :
    (∃ e, p s = (.error e, t) ∧ r = .error e) ∨ ∃ a u, p s = (.ok a, u) ∧ f a u = (r, t) := by
  rcases hp : p s with ⟨_ | a, u⟩
  · rw [bind_error hp] at h
    cases h
    exact .inl ⟨_, rfl, rfl⟩
  · rw [bind_ok hp] at h
    exact .inr ⟨_, _, rfl, h⟩

/-- A run of a sequence that returned. -/
theorem bind_ok_inv {p : Prog ε σ α} {f : α → Prog ε σ β} {s t : σ} {b : β}
    (h : (p >>= f) s = (.ok b, t)) : ∃ a u, p s = (.ok a, u) ∧ f a u = (.ok b, t) := by
  obtain ⟨e, _, he⟩ | h := bind_inv h
  · cases he
  · exact h

/-- A run of a guarded program: the body returned, or it raised and the handler ran. -/
theorem tryCatch_inv {p : Prog ε σ α} {handler : ε → Prog ε σ α} {s t : σ} {r : Except ε α}
    (h : (tryCatch p handler) s = (r, t)) :
    (∃ a, p s = (.ok a, t) ∧ r = .ok a) ∨ ∃ e u, p s = (.error e, u) ∧ handler e u = (r, t) := by
  change (match p s with
    | (.ok a, t) => ((.ok a, t) : Except ε α × σ)
    | (.error e, t) => handler e t) = _ at h
  rcases hp : p s with ⟨e | a, u⟩
  · rw [hp] at h
    exact .inr ⟨e, u, rfl, h⟩
  · rw [hp] at h
    cases h
    exact .inl ⟨a, rfl, rfl⟩

/-- The handler of a program that returned is not run. -/
theorem tryCatch_ok {p : Prog ε σ α} {handler : ε → Prog ε σ α} {s t : σ} {a : α}
    (h : p s = (.ok a, t)) : (tryCatch p handler) s = (.ok a, t) := by
  change (match p s with
    | (.ok a, t) => ((.ok a, t) : Except ε α × σ)
    | (.error e, t) => handler e t) = _
  rw [h]

/-- The handler of a program that raised runs with its exception in its last state. -/
theorem tryCatch_error {p : Prog ε σ α} {handler : ε → Prog ε σ α} {s t : σ} {e : ε}
    (h : p s = (.error e, t)) : (tryCatch p handler) s = handler e t := by
  change (match p s with
    | (.ok a, t) => ((.ok a, t) : Except ε α × σ)
    | (.error e, t) => handler e t) = _
  rw [h]

/-- A sequence depends on its first part at the state it begins in. -/
theorem bind_congr_at {p q : Prog ε σ α} {s : σ} (h : p s = q s) (f : α → Prog ε σ β) :
    (p >>= f) s = (q >>= f) s := by
  rcases hp : p s with ⟨e | a, t⟩
  · rw [bind_error hp, bind_error (h.symm.trans hp)]
  · rw [bind_ok hp, bind_ok (h.symm.trans hp)]

/-- Two programs that agree in a state agree there under one handler. -/
theorem tryCatch_congr_at {p q : Prog ε σ α} {s : σ} (h : p s = q s) (handler : ε → Prog ε σ α) :
    (tryCatch p handler) s = (tryCatch q handler) s := by
  rcases hp : p s with ⟨e | a, t⟩
  · rw [tryCatch_error hp, tryCatch_error (h.symm.trans hp)]
  · rw [tryCatch_ok hp, tryCatch_ok (h.symm.trans hp)]

/-- A sequence whose first part only computes. -/
theorem lift_bind (x : Except ε α) (f : α → Prog ε σ β) (s : σ) :
    (lift x >>= f) s = match x with | .ok a => f a s | .error e => (.error e, s) := by
  rcases x with e | a
  · rfl
  · rfl

/-- A run of a sequence whose first part only computes. -/
theorem lift_bind_inv {x : Except ε α} {f : α → Prog ε σ β} {s t : σ} {r : Except ε β}
    (h : (lift x >>= f) s = (r, t)) :
    (∃ e, x = .error e ∧ r = .error e ∧ t = s) ∨ ∃ a, x = .ok a ∧ f a s = (r, t) := by
  obtain ⟨e, h1, h2⟩ | ⟨a, u, h1, h2⟩ := bind_inv h
  · cases h1
    exact .inl ⟨e, rfl, h2, rfl⟩
  · cases h1
    exact .inr ⟨a, rfl, h2⟩

/-- What follows a read of the state runs with that state. -/
@[simp] theorem get_bind (f : σ → Prog ε σ β) (s : σ) :
    ((get : Prog ε σ σ) >>= f) s = f s s := rfl

/-- What follows a change of the state runs in the changed state. -/
@[simp] theorem modify_bind (g : σ → σ) (f : PUnit → Prog ε σ β) (s : σ) :
    ((modify g : Prog ε σ PUnit) >>= f) s = f () (g s) := rfl

/-- What follows a value runs with it. -/
@[simp] theorem pure_bind_apply (a : α) (f : α → Prog ε σ β) (s : σ) :
    ((pure a : Prog ε σ α) >>= f) s = f a s := rfl

/-- What follows an exception is not run. -/
@[simp] theorem throw_bind (e : ε) (f : α → Prog ε σ β) (s : σ) :
    ((throw e : Prog ε σ α) >>= f) s = (.error e, s) := rfl

/-! ## What every run keeps -/

/-- Every run of `p`, whatever it returns, relates its first state to its last one by `R`. -/
def Keeps (R : σ → σ → Prop) (p : Prog ε σ α) : Prop := ∀ s, R s (p s).2

/-- What a run says about the state it reaches. -/
theorem Keeps.run {R : σ → σ → Prop} {p : Prog ε σ α} (hp : Keeps R p) {s t : σ} {r : Except ε α}
    (h : p s = (r, t)) : R s t := by
  simpa [h] using hp s

/-- A finer relation is kept where a coarser one is asked for. -/
theorem Keeps.mono {R R' : σ → σ → Prop} {p : Prog ε σ α} (h : ∀ s t, R s t → R' s t)
    (hp : Keeps R p) : Keeps R' p := fun s => h _ _ (hp s)

/-- A change keeps a relation that holds between every state and its image. -/
theorem Keeps.modify {R : σ → σ → Prop} {f : σ → σ} (h : ∀ s, R s (f s)) :
    Keeps R (modify f : Prog ε σ PUnit) := h

section closure

variable {R : σ → σ → Prop} [Std.Refl R]

/-- A value keeps every reflexive relation. -/
theorem Keeps.pure (a : α) : Keeps R (pure a : Prog ε σ α) := fun s => refl_of R s

/-- An exception keeps every reflexive relation. -/
theorem Keeps.throw (e : ε) : Keeps R (throw e : Prog ε σ α) := fun s => refl_of R s

/-- Reading the state keeps every reflexive relation. -/
theorem Keeps.get : Keeps R (get : Prog ε σ σ) := fun s => refl_of R s

/-- A computation without state keeps every reflexive relation. -/
theorem Keeps.lift (x : Except ε α) : Keeps R (lift x : Prog ε σ α) := fun s => refl_of R s

/-- What follows a computation that only computes is needed for the value it computed. -/
theorem Keeps.lift_bind {x : Except ε α} {f : α → Prog ε σ β}
    (hf : ∀ a, x = .ok a → Keeps R (f a)) :
    Keeps R (Prog.lift x >>= f) := by
  intro s
  rw [Prog.lift_bind]
  rcases x with e | a
  · exact refl_of R s
  · exact hf a rfl s

variable [IsTrans σ R]

omit [Std.Refl R] in
/-- Two programs in a row keep a transitive relation that each of them keeps. -/
theorem Keeps.bind {p : Prog ε σ α} {f : α → Prog ε σ β} (hp : Keeps R p)
    (hf : ∀ a, Keeps R (f a)) :
    Keeps R (p >>= f) := by
  intro s
  rcases h : p s with ⟨e | a, t⟩
  · rw [bind_error h]
    exact hp.run h
  · rw [bind_ok h]
    exact trans_of R (hp.run h) (hf a t)

omit [Std.Refl R] in
/-- A program under a handler keeps a transitive relation that both keep. -/
theorem Keeps.tryCatch {p : Prog ε σ α} {handler : ε → Prog ε σ α} (hp : Keeps R p)
    (hh : ∀ e, Keeps R (handler e)) : Keeps R (tryCatch p handler) := by
  intro s
  rcases h : p s with ⟨e | a, t⟩
  · rw [tryCatch_error h]
    exact trans_of R (hp.run h) (hh e t)
  · rw [tryCatch_ok h]
    exact hp.run h

end closure

/-- A branch keeps a relation that both sides keep. -/
theorem Keeps.ite {R : σ → σ → Prop} {c : Prop} [Decidable c] {p q : Prog ε σ α}
    (hp : Keeps R p) (hq : Keeps R q) : Keeps R (if c then p else q) := by
  split
  · exact hp
  · exact hq

/-! ## What a run can raise -/

/-- Whatever `p` raises satisfies `P`. -/
def Raises (P : ε → Prop) (p : Prog ε σ α) : Prop := ∀ s e t, p s = (.error e, t) → P e

section raises

variable {P : ε → Prop}

/-- A value raises nothing. -/
theorem Raises.pure (a : α) : Raises P (pure a : Prog ε σ α) := by
  intro s e t h
  cases h

/-- Reading the state raises nothing. -/
theorem Raises.get : Raises P (get : Prog ε σ σ) := by
  intro s e t h
  cases h

/-- A change of the state raises nothing. -/
theorem Raises.modify (f : σ → σ) : Raises P (modify f : Prog ε σ PUnit) := by
  intro s e t h
  cases h

/-- An exception raises itself. -/
theorem Raises.throw {e : ε} (he : P e) : Raises P (throw e : Prog ε σ α) := by
  intro s e' t h
  cases h
  exact he

/-- A computation without state raises what it fails with. -/
theorem Raises.lift {x : Except ε α} (h : ∀ e, x = .error e → P e) :
    Raises P (lift x : Prog ε σ α) := by
  intro s e t he
  cases he
  exact h e rfl

/-- Two programs in a row raise what one of them raises. -/
theorem Raises.bind {p : Prog ε σ α} {f : α → Prog ε σ β} (hp : Raises P p)
    (hf : ∀ a, Raises P (f a)) : Raises P (p >>= f) := by
  intro s e t h
  obtain ⟨e', h1, he⟩ | ⟨a, u, _, h2⟩ := bind_inv h
  · cases he
    exact hp _ _ _ h1
  · exact hf a _ _ _ h2

/-- A program under a handler raises what the handler raises on the program's exceptions. -/
theorem Raises.tryCatch {Q : ε → Prop} {p : Prog ε σ α} {handler : ε → Prog ε σ α}
    (hp : Raises Q p) (hh : ∀ e, Q e → Raises P (handler e)) : Raises P (tryCatch p handler) := by
  intro s e t h
  obtain ⟨_, _, he⟩ | ⟨e', u, h1, h2⟩ := tryCatch_inv h
  · cases he
  · exact hh e' (hp _ _ _ h1) _ _ _ h2

/-- A branch raises what the side that is taken raises. -/
theorem Raises.ite {c : Prop} [Decidable c] {p q : Prog ε σ α} (hp : c → Raises P p)
    (hq : ¬ c → Raises P q) : Raises P (if c then p else q) := by
  split
  · exact hp ‹_›
  · exact hq ‹_›

/-- A program that raises some exceptions raises among more. -/
theorem Raises.mono {P' : ε → Prop} {p : Prog ε σ α} (h : ∀ e, P e → P' e) (hp : Raises P p) :
    Raises P' p := fun s e t he => h e (hp s e t he)

end raises

/-! ## What a run can return -/

/-- Whatever `p` returns satisfies `P`. -/
def Returns (P : α → Prop) (p : Prog ε σ α) : Prop := ∀ s a t, p s = (.ok a, t) → P a

section returns

variable {P : α → Prop}

/-- A value is what it returns. -/
theorem Returns.pure {a : α} (h : P a) : Returns P (pure a : Prog ε σ α) := by
  intro s a' t ha
  cases ha
  exact h

/-- An exception returns nothing. -/
theorem Returns.throw (e : ε) : Returns P (throw e : Prog ε σ α) := by
  intro s a t h
  cases h

/-- Only the last part of a sequence decides what it returns. -/
theorem Returns.bind {p : Prog ε σ β} {f : β → Prog ε σ α} (hf : ∀ b, Returns P (f b)) :
    Returns P (p >>= f) := by
  intro s a t h
  obtain ⟨b, u, _, h2⟩ := bind_ok_inv h
  exact hf b _ _ _ h2

/-- A branch returns what its sides return. -/
theorem Returns.ite {c : Prop} [Decidable c] {p q : Prog ε σ α} (hp : Returns P p)
    (hq : Returns P q) : Returns P (if c then p else q) := by
  split
  · exact hp
  · exact hq

end returns

/-! ## Pre- and postconditions -/

/-- Every run of `p` from a state of `P` returns in `Q` or raises in `E`. -/
def Ends (P : σ → Prop) (p : Prog ε σ α) (Q : α → σ → Prop) (E : ε → σ → Prop) : Prop :=
  ∀ s, P s → (∀ a t, p s = (.ok a, t) → Q a t) ∧ ∀ e t, p s = (.error e, t) → E e t

section ends

variable {P : σ → Prop} {E : ε → σ → Prop}

/-- A value ends where it starts. -/
theorem Ends.pure {Q : α → σ → Prop} {a : α} (h : ∀ s, P s → Q a s) :
    Ends P (pure a : Prog ε σ α) Q E := by
  refine fun s hs => ⟨fun b t ht => ?_, fun e t ht => ?_⟩
  · cases ht
    exact h s hs
  · cases ht

/-- An exception ends where it starts. -/
theorem Ends.throw {Q : α → σ → Prop} {e : ε} (h : ∀ s, P s → E e s) :
    Ends P (throw e : Prog ε σ α) Q E := by
  refine fun s hs => ⟨fun b t ht => ?_, fun e t ht => ?_⟩
  · cases ht
  · cases ht
    exact h s hs

/-- What follows a program starts where the program ends; both end alike when they raise. -/
theorem Ends.bind {R : α → σ → Prop} {Q : β → σ → Prop} {p : Prog ε σ α} {f : α → Prog ε σ β}
    (hp : Ends P p R E) (hf : ∀ a, Ends (R a) (f a) Q E) : Ends P (p >>= f) Q E := by
  intro s hs
  obtain ⟨hok, herr⟩ := hp s hs
  rcases hrun : p s with ⟨e | a, t⟩
  · rw [bind_error hrun]
    refine ⟨fun b u hu => ?_, fun e' u hu => ?_⟩
    · cases hu
    · cases hu
      exact herr _ _ hrun
  · rw [bind_ok hrun]
    exact hf a t (hok _ _ hrun)

/-- A branch ends as the side that is taken does. -/
theorem Ends.ite {Q : α → σ → Prop} {c : Prop} [Decidable c] {p q : Prog ε σ α}
    (hp : c → Ends P p Q E)
    (hq : ¬ c → Ends P q Q E) : Ends P (if c then p else q) Q E := by
  split
  · exact hp ‹_›
  · exact hq ‹_›

/-- A weaker precondition and stronger postconditions are enough. -/
theorem Ends.mono {P' : σ → Prop} {Q Q' : α → σ → Prop} {E' : ε → σ → Prop} {p : Prog ε σ α}
    (h : Ends P' p Q' E') (hP : ∀ s, P s → P' s) (hQ : ∀ a s, Q' a s → Q a s)
    (hE : ∀ e s, E' e s → E e s) :
    Ends P p Q E := fun s hs =>
  ⟨fun a t ht => hQ _ _ ((h s (hP s hs)).1 a t ht), fun e t ht => hE _ _ ((h s (hP s hs)).2 e t ht)⟩

end ends

/-! ## Invariants of chains -/

open Relation in
/-- A chain keeps what each of its steps keeps. -/
theorem keeps_of_reflTransGen {S : σ → σ → Prop} {I : σ → Prop} (hS : ∀ s t, S s t → I s → I t)
    {s t : σ} (h : ReflTransGen S s t) (hs : I s) : I t := by
  induction h with
  | refl => exact hs
  | tail _ hst ih => exact hS _ _ hst ih

end Prog

end Effects
