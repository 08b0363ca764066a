import PeerBridge.Runtime.Prog

/-!
# Keyset pagination

A list kept in a strict order is handed out page by page. A page is the start of what is left; when
more is left the answer names the key of its last row, and the next page is asked for from there.
`walk` is the client that asks until no key is named.

* `rest_eq_filter`: what a page leaves is what lies behind its last row;
* `walk_sound`: pages that each leave exactly the rows behind their key add up to all rows;
* `walk_total`: such a walk ends, with at most one page for each row.
-/

namespace Keyset

open Effects

variable {α κ ε σ : Type}

/-- The rows behind the last row of a page are those the page leaves. -/
theorem rest_eq_filter {r : α → α → Prop} [DecidableRel r] (hirr : ∀ a b, r a b → ¬ r b a)
    {page rest : List α} (hs : (page ++ rest).Pairwise r) {e : α} (he : page.getLast? = some e) :
    (page ++ rest).filter (fun a => decide (r e a)) = rest := by
  have hself : ¬ r e e := fun h => hirr e e h h
  obtain ⟨front, rfl⟩ := List.getLast?_eq_some_iff.mp he
  have hp := List.pairwise_append.mp hs
  have hfront : ∀ a ∈ front, ¬ r e a := by
    intro a ha
    exact hirr a e ((List.pairwise_append.mp hp.1).2.2 a ha e (by simp))
  have hrest : ∀ a ∈ rest, r e a := fun a ha => hp.2.2 e (by simp) a ha
  rw [List.filter_append, List.filter_append]
  rw [List.filter_eq_nil_iff.mpr fun a ha => by simpa using hfront a ha,
    List.filter_eq_nil_iff.mpr fun a ha => by
      obtain rfl := List.mem_singleton.mp ha
      simpa using hself,
    List.filter_eq_self.mpr fun a ha => by simpa using hrest a ha]
  rfl

/-- Ask for page after page, each from the key the one before named, until none is named. -/
def walk (ask : Option κ → Prog ε σ (List α × Option κ)) : ℕ → Option κ → Prog ε σ (Option (List α))
  | 0, _ => return none
  | fuel + 1, start => do
      let (page, next) ← ask start
      match next with
      | none => return some page
      | some key => do
          let rest ← walk ask fuel (some key)
          return rest.map (page ++ ·)

/-- A page against the rows that are left from a key on; the keys it names satisfy `K`. -/
structure Continues (K : Option κ → Prop) (rows : Option κ → List α) (start : Option κ)
    (page : List α) (next : Option κ) : Prop where
  ends : next = none → page = rows start
  goes : ∀ key, next = some key → K (some key) ∧ page ≠ [] ∧ rows start = page ++ rows (some key)

section walk

variable {ask : Option κ → Prog ε σ (List α × Option κ)} {I : σ → Prop}
  {K : Option κ → Prop} {rows : Option κ → List α}

/-- **What a walk returns is all rows**, if every answered page continues them. -/
theorem walk_sound
    (hask : ∀ start s page next t, K start → I s → ask start s = (.ok (page, next), t) →
      I t ∧ Continues K rows start page next)
    {fuel : ℕ} {start : Option κ} {s t : σ} {all : List α} (hk : K start) (hs : I s)
    (h : walk ask fuel start s = (.ok (some all), t)) : all = rows start := by
  induction fuel generalizing start s t all with
  | zero => simp [walk] at h
  | succ fuel ih =>
    rw [walk] at h
    obtain ⟨⟨page, next⟩, u, hu, h⟩ := Prog.bind_ok_inv h
    obtain ⟨hI, hc⟩ := hask _ _ _ _ _ hk hs hu
    rcases next with _ | key
    · simp only [Prog.pure_apply, Prod.mk.injEq, Except.ok.injEq, Option.some.injEq] at h
      rw [← h.1]
      exact hc.ends rfl
    · obtain ⟨rest, v, hv, h⟩ := Prog.bind_ok_inv h
      rcases rest with _ | rest
      · simp at h
      · have hrest := ih (hc.goes key rfl).1 hI hv
        simp only [Option.map_some, Prog.pure_apply, Prod.mk.injEq, Except.ok.injEq,
          Option.some.injEq] at h
        rw [← h.1, hrest]
        exact (hc.goes key rfl).2.2.symm

/-- **A walk ends**: with more fuel than rows it returns them all, in a state that satisfies the
invariant the answers rest on. -/
theorem walk_total
    (hask : ∀ start s, K start → I s → ∃ page next t, ask start s = (.ok (page, next), t) ∧ I t ∧
      Continues K rows start page next)
    {fuel : ℕ} {start : Option κ} {s : σ} (hk : K start) (hs : I s)
    (hf : (rows start).length < fuel) :
    ∃ t, walk ask fuel start s = (.ok (some (rows start)), t) ∧ I t := by
  induction fuel generalizing start s with
  | zero => omega
  | succ fuel ih =>
    obtain ⟨page, next, u, hu, hI, hc⟩ := hask start s hk hs
    rw [walk, Prog.bind_ok hu]
    rcases next with _ | key
    · refine ⟨u, ?_, hI⟩
      simp [hc.ends rfl]
    · obtain ⟨hkey, hne, hrows⟩ := hc.goes key rfl
      have hlen : (rows (some key)).length < fuel := by
        have hpos := List.length_pos_iff.mpr hne
        rw [hrows, List.length_append] at hf
        omega
      obtain ⟨t, ht, hIt⟩ := ih hkey hI hlen
      refine ⟨t, ?_, hIt⟩
      change (walk ask fuel (some key) >>= fun rest => return rest.map (page ++ ·)) u = _
      rw [Prog.bind_ok ht]
      simp [hrows]

end walk

end Keyset
