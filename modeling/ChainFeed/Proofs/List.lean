import Mathlib.Data.List.Perm.Basic
import Mathlib.Data.List.Perm.Subperm
import Mathlib.Data.List.Nodup
import Mathlib.Tactic.Push

/-!
# Lists

Facts about lists in general: their ends, what is flattened or filtered out of them, and stable sorting.
-/

namespace ChainFeed

theorem concat_eq_append_cons {α : Type} {whole before after : List α} {p q : α}
    (h : whole ++ [p] = before ++ q :: after) :
    (after = [] ∧ before = whole ∧ q = p) ∨ ∃ start, after = start ++ [p] ∧ whole = before ++ q :: start := by
  rcases List.eq_nil_or_concat after with rfl | ⟨start, x, rfl⟩
  · obtain ⟨rfl, hlast⟩ := List.append_inj' h rfl
    cases hlast
    exact .inl ⟨rfl, rfl, rfl⟩
  · rw [List.concat_eq_append, ← List.cons_append, ← List.append_assoc] at h
    obtain ⟨rfl, hlast⟩ := List.append_inj' h rfl
    cases hlast
    exact .inr ⟨start, List.concat_eq_append, rfl⟩

theorem exists_left {n : Nat} {places : List Nat} (few : places.length < n) : ∃ i < n, i ∉ places := by
  by_contra hall
  push Not at hall
  have hsubset : List.range n ⊆ places := fun i hi => hall i (List.mem_range.mp hi)
  have hle := (List.subperm_of_subset List.nodup_range hsubset).length_le
  rw [List.length_range] at hle
  omega

theorem flatMap_filterMap {α β γ : Type} (f : α → Option β) (g : β → List γ) (l : List α) :
    (l.filterMap f).flatMap g = l.flatMap fun a => (f a).elim [] g := by
  induction l with
  | nil => rfl
  | cons a l ih => cases ha : f a <;> simp [ha, ih]

section Sorting

variable {α : Type} {le : α → α → Bool}

/-- A list can be cut in one way only into items without and items with `q`. -/
private theorem cut_unique {q : α → Bool} {xs ys us vs : List α} (h : xs ++ ys = us ++ vs)
    (hxs : ∀ b ∈ xs, q b = false) (hys : ∀ b ∈ ys, q b = true) (hus : ∀ b ∈ us, q b = false)
    (hvs : ∀ b ∈ vs, q b = true) : xs = us ∧ ys = vs := by
  have hcut : ∀ {as bs : List α}, (∀ b ∈ as, q b = false) → (∀ b ∈ bs, q b = true) →
      (as ++ bs).filter (fun b => !q b) = as := by
    intro as bs has hbs
    rw [List.filter_append, List.filter_eq_self.mpr (fun b hb => by simp [has b hb]),
      List.filter_eq_nil_iff.mpr (fun b hb => by simp [hbs b hb]), List.append_nil]
  have hfront : xs = us := by rw [← hcut hxs hys, h, hcut hus hvs]
  rw [hfront] at h
  exact ⟨hfront, List.append_cancel_left h⟩

/-- Sorting is stable, so it does not matter whether some items are dropped before or after. -/
theorem filter_mergeSort (trans : ∀ a b c, le a b → le b c → le a c) (total : ∀ a b, le a b || le b a)
    (p : α → Bool) (l : List α) : (l.mergeSort le).filter p = (l.filter p).mergeSort le := by
  have hplace : ∀ (a : α) (l : List α), ∃ xs ys, (a :: l).mergeSort le = xs ++ a :: ys ∧
      l.mergeSort le = xs ++ ys ∧ (∀ b ∈ xs, le a b = false) ∧ ∀ b ∈ ys, le a b = true := by
    intro a l
    obtain ⟨xs, ys, hwith, hwithout, hxs⟩ := List.mergeSort_cons trans total a l
    have hsorted := List.pairwise_mergeSort trans total (a :: l)
    rw [hwith] at hsorted
    have hys := (List.pairwise_cons.mp (List.pairwise_append.mp hsorted).2.1).1
    exact ⟨xs, ys, hwith, hwithout, fun b hb => by simpa using hxs b hb, hys⟩
  induction l with
  | nil => simp
  | cons a l ih =>
    obtain ⟨xs, ys, hwith, hwithout, hxs, hys⟩ := hplace a l
    rw [hwithout, List.filter_append] at ih
    cases hp : p a with
    | false => simp [hwith, hp, ih]
    | true =>
      obtain ⟨us, vs, hwith', hwithout', hus, hvs⟩ := hplace a (l.filter p)
      obtain ⟨hfront, hback⟩ := cut_unique (ih.trans hwithout')
        (fun b hb => hxs b (List.mem_of_mem_filter hb)) (fun b hb => hys b (List.mem_of_mem_filter hb))
        hus hvs
      rw [hwith, List.filter_append, List.filter_cons_of_pos hp, List.filter_cons_of_pos hp, hwith', hfront,
        hback]

/-- Of a list in which no item with `q` comes before one with `p`, those with either are those with `p`
and then those with `q`. -/
theorem filter_or_of_pairwise {p q : α → Bool} {l : List α}
    (h : l.Pairwise fun a b => q a = true → p b = false) (disjoint : ∀ a, p a = true → q a = false) :
    l.filter (fun a => p a || q a) = l.filter p ++ l.filter q := by
  induction l with
  | nil => rfl
  | cons a l ih =>
    obtain ⟨ha, hl⟩ := List.pairwise_cons.mp h
    cases hp : p a with
    | true => simp [hp, disjoint a hp, ih hl]
    | false =>
      cases hq : q a with
      | false => simp [hp, hq, ih hl]
      | true =>
        have hnone : l.filter p = [] := List.filter_eq_nil_iff.mpr fun b hb => by simp [ha b hb hq]
        simp [hp, hq, ih hl, hnone]

end Sorting

end ChainFeed
