import Mathlib.Data.List.Induction
import Mathlib.Data.List.Nodup
import Mathlib.Data.List.Perm.Subperm
import ChainFeed.Table

/-!
# Entries of tables

A table keeps one entry for each name that was put into it, and nothing else.
-/

namespace ChainFeed

namespace Table

variable {β : Type}

theorem keys_insert (t : Table β) (k : String) (b : β) :
    (t.insert k b).map Prod.fst = if k ∈ t.map Prod.fst then t.map Prod.fst else t.map Prod.fst ++ [k] := by
  induction t with
  | nil => rfl
  | cons e t ih =>
    by_cases h : e.1 = k
    · simp [insert, h]
    · simp only [insert, h, if_false, List.map_cons, ih, List.mem_cons, Ne.symm h, false_or]
      split <;> rfl

theorem mem_insert {t : Table β} {k : String} {b : β} {e : String × β} (h : e ∈ t.insert k b) :
    e = (k, b) ∨ e ∈ t := by
  induction t with
  | nil => exact .inl (List.mem_singleton.mp h)
  | cons e' t ih =>
    by_cases hk : e'.1 = k
    · simp only [insert, hk, if_true, List.mem_cons] at h
      exact h.imp_right (List.mem_cons_of_mem _)
    · simp only [insert, hk, if_false, List.mem_cons] at h
      rcases h with rfl | h
      · exact .inr List.mem_cons_self
      · exact (ih h).imp_right (List.mem_cons_of_mem _)

theorem ofList_concat (entries : List (String × β)) (e : String × β) :
    ofList (entries ++ [e]) = (ofList entries).insert e.1 e.2 := by
  rw [ofList, List.foldl_append]
  rfl

theorem nodup_ofList (entries : List (String × β)) : ((ofList entries).map Prod.fst).Nodup := by
  induction entries using List.reverseRecOn with
  | nil => exact List.nodup_nil
  | append_singleton entries e ih =>
    rw [ofList_concat, keys_insert]
    split
    · exact ih
    · next hfresh =>
      rw [← List.concat_eq_append]
      exact ih.concat hfresh

theorem mem_keys_ofList {entries : List (String × β)} {k : String} :
    k ∈ (ofList entries).map Prod.fst ↔ k ∈ entries.map Prod.fst := by
  induction entries using List.reverseRecOn with
  | nil => rfl
  | append_singleton entries e ih =>
    rw [ofList_concat, keys_insert, List.map_append, List.mem_append, ← ih, List.map_singleton,
      List.mem_singleton]
    split
    · next hold =>
      refine ⟨.inl, ?_⟩
      rintro (h | rfl)
      · exact h
      · exact hold
    · rw [List.mem_append, List.mem_singleton]

theorem mem_of_mem_ofList {entries : List (String × β)} {e : String × β} (h : e ∈ ofList entries) :
    e ∈ entries := by
  induction entries using List.reverseRecOn with
  | nil => cases h
  | append_singleton entries e' ih =>
    rw [ofList_concat] at h
    rcases mem_insert h with rfl | h
    · exact List.mem_append_right _ List.mem_cons_self
    · exact List.mem_append_left _ (ih h)

theorem get?_eq_some_iff {t : Table β} (h : (t.map Prod.fst).Nodup) {k : String} {b : β} :
    t.get? k = some b ↔ (k, b) ∈ t := by
  induction t with
  | nil => simp [get?]
  | cons e t ih =>
    obtain ⟨hfresh, hrest⟩ := List.nodup_cons.mp h
    rw [get?, List.mem_cons]
    split
    · next hk =>
      subst hk
      constructor
      · rintro ⟨⟩
        exact .inl rfl
      · rintro (heq | hmem)
        · exact congrArg (some ·.2) heq.symm
        · exact absurd (List.mem_map_of_mem hmem) hfresh
    · next hk =>
      rw [ih hrest]
      refine ⟨.inr, ?_⟩
      rintro (heq | hmem)
      · exact absurd (congrArg Prod.fst heq).symm hk
      · exact hmem

/-- A table has as many entries as there are names, so none is lost only if the names differ. -/
theorem nodup_of_length_ofList {entries : List (String × β)} (h : (ofList entries).length = entries.length) :
    (entries.map Prod.fst).Nodup := by
  have hsubperm : ((ofList entries).map Prod.fst).Subperm (entries.map Prod.fst) :=
    (nodup_ofList entries).subperm fun _ hk => mem_keys_ofList.mp hk
  have hperm := hsubperm.perm_of_length_le (by simp [h])
  exact hperm.nodup_iff.mp (nodup_ofList entries)

end Table
end ChainFeed
