import Mathlib.Tactic.SplitIfs
import ChainFeed.Metrics
import ChainFeed.Proofs.Text.Numeral

/-!
# What counters add up to

Counters are kept in the order of their keys, so that a key has one place and its count is all that was
added to it. A key tells the kind and the label of a count: nothing else adds to it.
-/

namespace ChainFeed

namespace Counters

def IsSorted (c : Counters) : Prop := c.Pairwise (·.1 < ·.1)

variable {c : Counters} {key k : String} {n : Nat}

theorem isSorted_nil : IsSorted [] := List.Pairwise.nil

theorem forall_add {P : String → Prop} (hkey : P key) (h : ∀ a ∈ c, P a.1) :
    ∀ a ∈ c.add key n, P a.1 := by
  induction c with
  | nil => exact List.forall_mem_singleton.mpr hkey
  | cons b c ih =>
    obtain ⟨hfirst, hrest⟩ := List.forall_mem_cons.mp h
    rw [add]
    split_ifs
    · exact List.forall_mem_cons.mpr ⟨hfirst, hrest⟩
    · exact List.forall_mem_cons.mpr ⟨hkey, h⟩
    · exact List.forall_mem_cons.mpr ⟨hfirst, ih hrest⟩

theorem IsSorted.add (h : c.IsSorted) (key : String) (n : Nat) : (c.add key n).IsSorted := by
  induction c with
  | nil => exact List.pairwise_singleton _ _
  | cons b c ih =>
    obtain ⟨hfirst, hrest⟩ := List.pairwise_cons.mp h
    rw [Counters.add]
    split_ifs with hkey hless
    · exact List.pairwise_cons.mpr ⟨hfirst, hrest⟩
    · apply List.pairwise_cons.mpr
      exact ⟨List.forall_mem_cons.mpr ⟨hless, fun a ha => String.lt_trans hless (hfirst a ha)⟩, h⟩
    · have hbefore : b.1 < key := Std.lt_of_le_of_ne (String.not_lt.mp hless) (Ne.symm hkey)
      exact List.pairwise_cons.mpr ⟨forall_add hbefore hfirst, ih hrest⟩

theorem get_cons (a : String × Nat) (c : Counters) (k : String) :
    get (a :: c) k = if a.1 = k then a.2 else c.get k := by
  by_cases h : a.1 = k <;> simp [get, h]

theorem get_of_forall_lt (h : ∀ a ∈ c, k < a.1) : c.get k = 0 := by
  have hnone : c.find? (·.1 == k) = none := by
    simp only [List.find?_eq_none, beq_iff_eq]
    exact fun a ha hsame => String.lt_irrefl k (hsame ▸ h a ha)
  rw [get, hnone]
  rfl

/-- What is added to a key goes to its count, and to no other. -/
theorem IsSorted.get_add (h : c.IsSorted) (key : String) (n : Nat) (k : String) :
    (c.add key n).get k = c.get k + if key = k then n else 0 := by
  induction c with
  | nil =>
    rw [Counters.add, get_cons]
    exact (Nat.zero_add _).symm
  | cons b c ih =>
    obtain ⟨hfirst, hrest⟩ := List.pairwise_cons.mp h
    by_cases hkey : key = b.1
    · rw [Counters.add, if_pos hkey, get_cons, get_cons, ← hkey]
      by_cases hk : key = k <;> simp [hk]
    · by_cases hless : key < b.1
      · rw [Counters.add, if_neg hkey, if_pos hless, get_cons, get_cons]
        by_cases hk : key = k
        · -- The key is new, and comes before all that are there.
          have hnone : get c k = 0 := get_of_forall_lt fun a ha => hk ▸ String.lt_trans hless (hfirst a ha)
          have hne : b.1 ≠ k := fun hsame => hkey (hk.trans hsame.symm)
          simp [hk, hne, hnone]
        · simp [hk]
      · rw [Counters.add, if_neg hkey, if_neg hless, get_cons, get_cons, ih hrest]
        by_cases hk : b.1 = k
        · have hne : key ≠ k := fun hsame => hkey (hsame.trans hk.symm)
          simp [hk, hne]
        · simp [hk]

end Counters

def Metric.adds (m : Metric) (key : String) : Nat :=
  m.amounts.foldr (fun a n => if a.1 = key then a.2 + n else n) 0

namespace Counters

variable {c : Counters}

theorem IsSorted.record (h : c.IsSorted) (m : Metric) : (c.record m).IsSorted := by
  rw [Counters.record]
  induction m.amounts generalizing c with
  | nil => exact h
  | cons a amounts ih => exact ih (h.add a.1 a.2)

theorem IsSorted.get_record (h : c.IsSorted) (m : Metric) (key : String) :
    (c.record m).get key = c.get key + m.adds key := by
  rw [Counters.record, Metric.adds]
  induction m.amounts generalizing c with
  | nil => rfl
  | cons a amounts ih =>
    rw [List.foldl_cons, ih (h.add a.1 a.2), h.get_add, List.foldr_cons]
    split <;> omega

end Counters

namespace Metric

/-- The key of what a metric about a queue message counts. -/
def messageKey? : Metric → Option String
  | .consumed id => some ("consumed:" ++ toString id)
  | .filtered id => some ("filtered:" ++ toString id)
  | .unfiltered id => some ("unfiltered:" ++ toString id)
  | .rpc _ _ _ | .cycle _ _ => none

theorem toList_toString_inj {n k : UInt64} : (toString n).toList = (toString k).toList ↔ n = k := by
  refine ⟨fun h => ?_, fun h => h ▸ rfl⟩
  have hread := Text.decimalWord?_toString n
  rw [String.toList_inj.mp h, Text.decimalWord?_toString] at hread
  exact (Option.some.inj hread).symm

theorem adds_messageKey {tally : Metric} {key : String} (h : tally.messageKey? = some key) (m : Metric) :
    m.adds key = if m = tally then 1 else 0 := by
  cases tally with
  | rpc | cycle => cases h
  | consumed id | filtered id | unfiltered id =>
    cases h
    cases m with
    | rpc _ _ ok => cases ok <;> simp [adds, amounts, String.ext_iff]
    | cycle => simp [adds, amounts, String.ext_iff]
    | consumed | filtered | unfiltered => simp [adds, amounts, toList_toString_inj, String.ext_iff]

end Metric

/-- The count of a kind of queue message grows by how often that is recorded. -/
theorem Counters.IsSorted.get_messageKey {c : Counters} (hc : c.IsSorted) {tally : Metric} {key : String}
    (h : tally.messageKey? = some key) (ms : List Metric) :
    Counters.get (ms.foldl Counters.record c) key = c.get key + ms.count tally := by
  induction ms generalizing c with
  | nil => rfl
  | cons m ms ih =>
    rw [List.foldl_cons, ih (hc.record m), hc.get_record, Metric.adds_messageKey h, List.count_cons]
    simp only [beq_iff_eq]
    omega

end ChainFeed
