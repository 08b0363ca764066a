import PeerBridge.Bridge.Control
import PeerBridge.Notify.Health

/-!
# Listing the bindings of the bridge

The notifier reads the bindings in pages. Each page is one request, and the bridge may bind, unbind
or stop between two of them, so every page comes from a database of its own.

* `listBindings`: the loop, over what the bridge answers to each request.
* `nodup_listBindings`: no binding is listed twice, since each page starts behind the last key of
  the one before.
* `listBindings_error`: a listing fails because the bridge does not answer, or because what it
  answers is not a page, or because its pages add up to more bindings than one database can hold.

Source: `notification_runtime.py` `Runtime.list_bindings`; `memory_bindings.py` `page`.
-/

namespace PeerBridge.Notify

open Py Relational Effects PeerBridge.Service PeerBridge.Bridge
open PeerBridge.Memory (limit)

/-- A binding in a reply, with what the bridge has seen last of its service. -/
structure Listed where
  binding : Binding
  seen : Seen

/-- The key of a listed binding. -/
def Listed.key (l : Listed) : Hex 64 := l.binding.binding

/-- What the bridge does with one request for a page. -/
inductive PageAnswer where
  /-- The bridge cannot be reached. -/
  | unreachable
  /-- It refuses the request, or is another process by now. -/
  | refused
  /-- `ValueError`: no reply, or none that can be read as a page. -/
  | malformed
  /-- It answers from this database. -/
  | database (db : Db) (seen : Binding → Seen)

/-- A page, a refusal, or nothing for want of a connection. -/
def PageAnswer.given : PageAnswer → Bool
  | .malformed => false
  | _ => true

/-- The page after a key, or why there is none. A refusal is raised as a `ConnectionError`. -/
def PageAnswer.page (a : PageAnswer) (after : Text) : Except Exc (List Listed × Bool) :=
  match a with
  | .unreachable => .error .bridgeUnavailable
  | .refused => .error .os
  | .malformed => .error .value
  | .database db seen =>
      match Bridge.page db seen (.str after) with
      | .ok (items, more) => .ok (items.map fun b => ⟨b, seen b⟩, more)
      | .error _ => .error .os

/-- The loop of `list_bindings` from its `n`-th request on. Each page that is not the last adds a
binding, so the limit ends the loop before `fuel` does. -/
def listFrom (ask : ℕ → PageAnswer) (fuel n : ℕ) (bindings : List Listed) (after : Text) :
    Except Exc (List Listed) :=
  match fuel with
  | 0 => .error .value
  | fuel + 1 =>
      match (ask n).page after with
      | .error e => .error e
      | .ok (items, more) =>
          let bindings := bindings ++ items
          if maxBindings < bindings.length then .error .value
          else if !more then .ok bindings
          else match items.getLast? with
            | none => .error .value
            | some last =>
                if last.key.val ≤ after then .error .value
                else listFrom ask fuel (n + 1) bindings last.key.val

/-- Source: `Runtime.list_bindings` -/
def listBindings (ask : ℕ → PageAnswer) : Except Exc (List Listed) :=
  listFrom ask (maxBindings + 1) 0 [] []

/-- What the bridge gives out in all, page after page. -/
def givenFrom (ask : ℕ → PageAnswer) : (fuel n : ℕ) → (after : Text) → List Listed
  | 0, _, _ => []
  | fuel + 1, n, after =>
      match (ask n).page after with
      | .error _ => []
      | .ok (items, more) =>
          match more, items.getLast? with
          | true, some last => items ++ givenFrom ask fuel (n + 1) last.key.val
          | _, _ => items

/-- The pages add up to more bindings than a database can hold: bindings were replaced while they
were being listed. -/
def Overfull (ask : ℕ → PageAnswer) : Prop :=
  maxBindings < (givenFrom ask (maxBindings + 1) 0 []).length

/-! ## One page -/

/-- A page is a beginning of what is pending, and only an empty rest gives an empty page. -/
theorem takePage_spec {seen : Binding → Seen} {pending taken items : List Binding}
    (h : takePage seen taken pending = .ok items) :
    (∃ rest, taken ++ pending = items ++ rest) ∧ (pending = [] ∨ taken ≠ [] ∨ items ≠ [])
      ∧ taken <+: items := by
  induction pending generalizing taken with
  | nil =>
    rw [takePage] at h
    obtain rfl : taken = items := Except.ok.inj h
    exact ⟨⟨[], rfl⟩, .inl rfl, List.prefix_refl _⟩
  | cons b rest ih =>
    rw [takePage] at h
    split at h
    · obtain ⟨⟨left, hleft⟩, -, hprefix⟩ := ih h
      refine ⟨⟨left, by simpa using hleft⟩, .inr (.inr ?_), ?_⟩
      · intro hnil
        rw [hnil] at hprefix
        exact absurd (List.prefix_nil.mp hprefix) (by simp)
      · exact (List.prefix_append taken [b]).trans hprefix
    · split at h
      · cases h
      · next ht =>
        have hne : taken ≠ [] := by simpa using ht
        obtain rfl : taken = items := Except.ok.inj h
        exact ⟨⟨b :: rest, rfl⟩, .inr (.inl hne), List.prefix_refl _⟩

/-- The bindings are listed in the order of their keys. -/
theorem sorted_orderedBindings (db : Db) :
    (orderedBindings db).Pairwise fun a b => a.binding.val ≤ b.binding.val := by
  have htrans : ∀ a b c : Binding, decide (a.binding.val ≤ b.binding.val) = true →
      decide (b.binding.val ≤ c.binding.val) = true → decide (a.binding.val ≤ c.binding.val)
        = true := by
    intro a b c hab hbc
    simp only [decide_eq_true_eq] at hab hbc ⊢
    exact le_trans hab hbc
  have htotal : ∀ a b : Binding,
      (decide (a.binding.val ≤ b.binding.val) || decide (b.binding.val ≤ a.binding.val))
      = true := by
    intro a b
    simpa using le_total a.binding.val b.binding.val
  simpa [orderedBindings] using List.pairwise_mergeSort htrans htotal db.bindings.rows

/-- No key is listed twice. -/
theorem nodup_orderedBindings (db : Db) : ((orderedBindings db).map Binding.binding).Nodup :=
  ((List.mergeSort_perm db.bindings.rows _).map Binding.binding).nodup_iff.mpr db.bindings.nodup

/-- The bindings of one database in the strict order of their keys. -/
theorem ordered_orderedBindings (db : Db) :
    (orderedBindings db).Pairwise fun a b => a.binding.val < b.binding.val := by
  have hne := List.pairwise_map.mp (nodup_orderedBindings db)
  refine ((sorted_orderedBindings db).and hne).imp ?_
  rintro a b ⟨hle, hkey⟩
  exact Std.lt_of_le_of_ne hle fun h => hkey (Subtype.ext h)

/-- The order in which bindings are listed. -/
def Listed.Before (a b : Listed) : Prop := a.key.val < b.key.val

/-- A page holds bindings behind its cursor, in order, and a page that is not the last is not
empty. -/
theorem pageAfter_spec {db : Db} {seen : Binding → Seen} {after : Text} {items : List Binding}
    {more : Bool} (h : pageAfter db seen after = .ok (items, more)) :
    items.Pairwise (fun a b => a.binding.val < b.binding.val)
      ∧ (∀ b ∈ items, after < b.binding.val) ∧ (more = true → items ≠ [])
      ∧ ∀ b ∈ items, b ∈ db.bindings := by
  obtain ⟨taken, htaken, hret⟩ := except_bind_eq_ok.mp h
  cases hret
  obtain ⟨⟨rest, hrest⟩, hempty, -⟩ := takePage_spec htaken
  rw [List.nil_append] at hrest
  have hsub : items.Sublist ((orderedBindings db).filter fun b => after < b.binding.val) := by
    rw [hrest]
    exact List.sublist_append_left _ _
  refine ⟨((ordered_orderedBindings db).sublist List.filter_sublist).sublist hsub, ?_, ?_, ?_⟩
  · intro b hb
    simpa using (List.mem_filter.mp (hsub.subset hb)).2
  · intro hmore hnil
    rcases hempty with hp | hne | hne
    · rw [hp] at hmore
      simp at hmore
    · exact hne rfl
    · exact hne hnil
  · intro b hb
    have := (List.mem_filter.mp (hsub.subset hb)).1
    exact (List.mergeSort_perm db.bindings.rows _).mem_iff.mp this

/-- A key that is read is the text it is read from. -/
theorem Hex.of?_str {n : ℕ} {t : Text} {key : Hex n} (h : Hex.of? n (.str t) = some key) :
    key.val = t := by
  simp only [Hex.of?] at h
  by_cases ht : hexValue t n = true
  · rw [dif_pos ht] at h
    rw [← Option.some.inj h]
  · rw [dif_neg ht] at h
    cases h

/-- A text cursor that is accepted is the one compared with. -/
theorem page_str {db : Db} {seen : Binding → Seen} {after : Text} {p : List Binding × Bool}
    (h : Bridge.page db seen (.str after) = .ok p) : pageAfter db seen after = .ok p := by
  unfold Bridge.page at h
  split at h
  · split at h
    · next key hkey =>
      rw [← (Hex.of?_str hkey)]
      exact h
    · cases h
  · next ht =>
    obtain rfl : after = [] := by simpa [Json.truthy] using ht
    simpa [Json.isText] using h

/-- The same of the page of an answer. -/
theorem PageAnswer.page_spec {a : PageAnswer} {after : Text} {items : List Listed} {more : Bool}
    (h : a.page after = .ok (items, more)) :
    items.Pairwise Listed.Before ∧ (∀ l ∈ items, after < l.key.val)
    ∧ (more = true → items ≠ []) := by
  unfold PageAnswer.page at h
  split at h
  · cases h
  · cases h
  · cases h
  · next db seen =>
    split at h
    · next bs m hp =>
      cases h
      obtain ⟨hsorted, hafter, hmore, -⟩ := pageAfter_spec (page_str hp)
      refine ⟨List.pairwise_map.mpr hsorted, ?_, ?_⟩
      · intro l hl
        obtain ⟨b, hb, rfl⟩ := List.mem_map.mp hl
        exact hafter b hb
      · intro hm hnil
        exact hmore hm (List.map_eq_nil_iff.mp hnil)
    · cases h

/-- A page that is not to be had is an `OSError`, unless what came is not a page. -/
theorem PageAnswer.page_error {a : PageAnswer} {after : Text} {e : Exc}
    (h : a.page after = .error e) :
    e.isOSError = true ∨ e = .value ∧ a.given = false := by
  unfold PageAnswer.page at h
  split at h
  · cases h
    exact .inl rfl
  · cases h
    exact .inl rfl
  · cases h
    exact .inr ⟨rfl, rfl⟩
  · split at h
    · cases h
    · cases h
      exact .inl rfl

/-! ## The whole listing -/

/-- The last binding of a page that is not the last page: the cursor advances to it. -/
theorem PageAnswer.page_more {a : PageAnswer} {after : Text} {items : List Listed}
    (h : a.page after = .ok (items, true)) :
    ∃ last, items.getLast? = some last ∧ after < last.key.val ∧ ∀ l ∈ items,
    l.key.val ≤ last.key.val := by
  obtain ⟨hsorted, hafter, hmore⟩ := page_spec h
  have hne := hmore rfl
  refine ⟨items.getLast hne, List.getLast?_eq_some_getLast hne, hafter _ (List.getLast_mem hne), ?_⟩
  intro l hl
  have hle : items.Pairwise fun a b => a.key.val ≤ b.key.val := hsorted.imp fun h => le_of_lt h
  exact hle.rel_getLast_of_rel_getLast_getLast hl (le_refl _)

/-- What one turn of the loop does: it fails as the request did, it finds too many bindings, it is
the last one, or it goes on behind a page that was not empty. -/
theorem listFrom_cases (ask : ℕ → PageAnswer) (fuel n : ℕ) (bindings : List Listed) (after : Text) :
    (∃ e, (ask n).page after = .error e ∧ listFrom ask (fuel + 1) n bindings after = .error e)
      ∨ ∃ items more, (ask n).page after = .ok (items, more) ∧
        (maxBindings < (bindings ++ items).length
            ∧ listFrom ask (fuel + 1) n bindings after = .error .value
          ∨ (bindings ++ items).length ≤ maxBindings ∧
            (more = false ∧ listFrom ask (fuel + 1) n bindings after = .ok (bindings ++ items)
              ∨ more = true ∧ ∃ last, items.getLast? = some last
              ∧ (∀ l ∈ items, l.key.val ≤ last.key.val)
                ∧ after < last.key.val
                ∧ listFrom ask (fuel + 1) n bindings after
                  = listFrom ask fuel (n + 1) (bindings ++ items) last.key.val)) := by
  rw [listFrom]
  rcases hp : (ask n).page after with e | ⟨items, more⟩
  · exact .inl ⟨e, rfl, rfl⟩
  · refine .inr ⟨items, more, rfl, ?_⟩
    by_cases hmany : maxBindings < (bindings ++ items).length
    · exact .inl ⟨hmany, by simp only [if_pos hmany]⟩
    · refine .inr ⟨Nat.le_of_not_lt hmany, ?_⟩
      simp only [if_neg hmany]
      cases more with
      | false => exact .inl ⟨rfl, by simp⟩
      | true =>
        obtain ⟨last, hlast, hafter, hle⟩ := PageAnswer.page_more hp
        refine .inr ⟨rfl, last, hlast, hle, hafter, ?_⟩
        have hcursor : ¬ last.key.val ≤ after := not_le.mpr hafter
        simp [hlast, hcursor]

/-- A listing is in strictly rising order of its keys. -/
theorem listFrom_ordered {ask : ℕ → PageAnswer} {fuel n : ℕ} {bindings result : List Listed}
    {after : Text}
    (h : listFrom ask fuel n bindings after = .ok result) (hb : bindings.Pairwise Listed.Before)
    (hafter : ∀ l ∈ bindings, l.key.val ≤ after) :
    result.Pairwise Listed.Before ∧ result.length ≤ maxBindings := by
  induction fuel generalizing n bindings after with
  | zero => cases h
  | succ fuel ih =>
    rcases listFrom_cases ask fuel n bindings after with ⟨e, -, he⟩ | ⟨items, more, hp, hturn⟩
    · rw [he] at h
      cases h
    · obtain ⟨hsorted, hbehind, -⟩ := PageAnswer.page_spec hp
      have happ : (bindings ++ items).Pairwise Listed.Before := by
        refine List.pairwise_append.mpr ⟨hb, hsorted, ?_⟩
        intro a ha l hl
        exact lt_of_le_of_lt (hafter a ha) (hbehind l hl)
      rcases hturn with ⟨-, he⟩ | ⟨hlen, ⟨-, he⟩ | ⟨-, last, hlast, hle, hcursor, he⟩⟩
      · rw [he] at h
        cases h
      · rw [he] at h
        cases h
        exact ⟨happ, hlen⟩
      · rw [he] at h
        refine ih h happ ?_
        intro l hl
        rcases List.mem_append.mp hl with hl | hl
        · exact le_trans (hafter l hl) (le_of_lt hcursor)
        · exact hle l hl

/-- No binding is listed twice, and no more than one database can hold. -/
theorem nodup_listBindings {ask : ℕ → PageAnswer} {result : List Listed}
    (h : listBindings ask = .ok result) : (result.map Listed.key).Nodup
    ∧ result.length ≤ maxBindings := by
  obtain ⟨hsorted, hlen⟩ := listFrom_ordered h .nil (by simp)
  refine ⟨List.pairwise_map.mpr (hsorted.imp ?_), hlen⟩
  intro a b hab heq
  have hlt : a.key.val < b.key.val := hab
  rw [heq] at hlt
  exact lt_irrefl _ hlt

/-- A page that is answered is part of what is given. -/
theorem givenFrom_ok {ask : ℕ → PageAnswer} {fuel n : ℕ} {after : Text} {items : List Listed}
    {more : Bool}
    (hp : (ask n).page after = .ok (items, more)) :
    items.length ≤ (givenFrom ask (fuel + 1) n after).length := by
  simp only [givenFrom, hp]
  split
  · simp
  · exact le_rfl

/-- A listing fails with an `OSError`, when pages are given for more bindings than there may be, or
on a malformed answer. -/
theorem listFrom_error {ask : ℕ → PageAnswer} {fuel n : ℕ} {bindings : List Listed}
    {after : Text} {e : Exc}
    (h : listFrom ask fuel n bindings after = .error e)
    (hfuel : maxBindings + 1 ≤ fuel + bindings.length)
    (hb : bindings.length ≤ maxBindings) :
    e.isOSError = true ∨ e = .value ∧ ((∃ n, (ask n).given = false)
      ∨ maxBindings < bindings.length + (givenFrom ask fuel n after).length) := by
  induction fuel generalizing n bindings after with
  | zero => omega
  | succ fuel ih =>
    rcases listFrom_cases ask fuel n bindings after with ⟨e', hp, he⟩ | ⟨items, more, hp, hturn⟩
    · rw [he] at h
      cases h
      rcases PageAnswer.page_error hp with hos | ⟨hvalue, hgiven⟩
      · exact .inl hos
      · exact .inr ⟨hvalue, .inl ⟨n, hgiven⟩⟩
    · rcases hturn with ⟨hmany, he⟩ | ⟨hlen, ⟨-, he⟩ | ⟨rfl, last, hlast, hle, hcursor, he⟩⟩
      · rw [he] at h
        cases h
        have : items.length ≤ (givenFrom ask (fuel + 1) n after).length := givenFrom_ok hp
        rw [List.length_append] at hmany
        exact .inr ⟨rfl, .inr (by omega)⟩
      · rw [he] at h
        cases h
      · rw [he] at h
        have hne : items ≠ [] := by
          rintro rfl
          cases hlast
        have hpos : 0 < items.length := List.length_pos_iff.mpr hne
        have hstep : givenFrom ask (fuel + 1) n after
            = items ++ givenFrom ask fuel (n + 1) last.key.val := by
          rw [givenFrom, hp]
          simp [hlast]
        rw [hstep, List.length_append, ← Nat.add_assoc, ← List.length_append]
        refine ih h ?_ hlen
        rw [List.length_append]
        omega

/-- **A listing fails because a request did, or because bindings were replaced while it ran.** -/
theorem listBindings_error {ask : ℕ → PageAnswer} {e : Exc} (h : listBindings ask = .error e) :
    e.isOSError = true ∨ e = .value ∧ ((∃ n, (ask n).given = false) ∨ Overfull ask) := by
  simpa [Overfull] using listFrom_error h (by simp) (by simp)

end PeerBridge.Notify
