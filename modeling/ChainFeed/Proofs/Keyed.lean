import Mathlib.Data.List.Nodup
import Mathlib.Data.List.Perm.Basic

/-!
# Lists with keys

In a list whose items have different keys, taking out a key takes out one item.
-/

namespace ChainFeed

variable {α κ : Type} [BEq κ] [LawfulBEq κ] {key : α → κ} {xs : List α} {x : α}

theorem filter_key_eq (h : (xs.map key).Nodup) (hx : x ∈ xs) :
    xs.filter (fun y => key y == key x) = [x] := by
  induction xs with
  | nil => simp at hx
  | cons y ys ih =>
    obtain ⟨hy, hys⟩ := List.nodup_cons.mp h
    rcases List.mem_cons.mp hx with rfl | hx
    · have hnone : ys.filter (fun y => key y == key x) = [] := by
        rw [List.filter_eq_nil_iff]
        intro z hz hkey
        exact hy (eq_of_beq hkey ▸ List.mem_map_of_mem hz)
      rw [List.filter_cons, if_pos (beq_self_eq_true (key x)), hnone]
    · have hne : key y ≠ key x := fun he => hy (he ▸ List.mem_map_of_mem hx)
      rw [List.filter_cons, if_neg (fun he => hne (eq_of_beq he)), ih hys hx]

/-- Where keys differ, what stands under a key does not depend on the order. -/
theorem find?_key_eq_of_perm {ys : List α} (h : xs.Perm ys) (keys : (xs.map key).Nodup) (k : κ) :
    xs.find? (fun x => key x == k) = ys.find? (fun y => key y == k) := by
  have hfiltered := h.filter fun x => key x == k
  rw [← List.head?_filter, ← List.head?_filter]
  cases hxs : xs.filter (fun x => key x == k) with
  | nil =>
    rw [hxs] at hfiltered
    rw [← hfiltered.nil_eq]
  | cons x rest =>
    obtain ⟨hx, hkey⟩ := List.mem_filter.mp (hxs ▸ List.mem_cons_self : x ∈ xs.filter (fun x => key x == k))
    obtain rfl := eq_of_beq hkey
    rw [filter_key_eq keys hx] at hxs hfiltered
    rw [← hxs, ← List.singleton_perm.mp hfiltered]

theorem perm_cons_filter_key_ne (h : (xs.map key).Nodup) (hx : x ∈ xs) :
    xs.Perm (x :: xs.filter (fun y => key y != key x)) := by
  have hsplit := (List.filter_append_perm (fun y => key y == key x) xs).symm
  rw [filter_key_eq h hx] at hsplit
  exact hsplit

theorem keys_filterMap {κ β ν : Type} (name : κ → ν) (find : κ → Option β) (keys : List κ) :
    (keys.filterMap fun k => (find k).map (name k, ·)).map Prod.fst =
      (keys.filter fun k => (find k).isSome).map name := by
  induction keys with
  | nil => rfl
  | cons k keys ih => cases hk : find k <;> simp [hk, ih]

theorem nodup_of_subperm {α : Type} {xs ys : List α} (h : xs.Subperm ys) (hys : ys.Nodup) : xs.Nodup := by
  obtain ⟨zs, hperm, hsub⟩ := h
  exact hperm.nodup_iff.mp (hys.sublist hsub)

end ChainFeed
