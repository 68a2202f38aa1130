import ChainFeed.Chain.Block

/-!
# Ascending lists

The blocks and the receipts of one call are asked for as a set: in ascending order, each once.
-/

namespace ChainFeed

structure Ascending (α : Type) (before : α → α → Bool) where
  toList : List α
  sorted : toList.Pairwise fun a b => before a b = true

namespace Ascending

variable {α : Type} {before : α → α → Bool}

def insertInto (before : α → α → Bool) (x : α) : List α → List α
  | [] => [x]
  | y :: ys =>
    if before x y then x :: y :: ys
    else if before y x then y :: insertInto before x ys
    else y :: ys

theorem mem_insertInto {x a : α} {l : List α} (h : a ∈ insertInto before x l) : a = x ∨ a ∈ l := by
  induction l with
  | nil => exact .inl (by simpa [insertInto] using h)
  | cons y ys ih =>
    rw [insertInto] at h
    split at h
    · simpa using h
    · split at h
      · rcases List.mem_cons.mp h with rfl | h
        · simp
        · rcases ih h with rfl | h
          · simp
          · simp [h]
      · exact .inr h

theorem self_mem_insertInto (antisymm : ∀ a b, before a b = false → before b a = false → a = b) (x : α)
    (l : List α) : x ∈ insertInto before x l := by
  induction l with
  | nil => simp [insertInto]
  | cons y ys ih =>
    rw [insertInto]
    split
    · simp
    · split
      · simp [ih]
      · next hxy hyx =>
        have heq : x = y := antisymm x y (by simpa using hxy) (by simpa using hyx)
        simp [heq]

theorem mem_insertInto_of_mem {x a : α} {l : List α} (h : a ∈ l) : a ∈ insertInto before x l := by
  induction l with
  | nil => simp at h
  | cons y ys ih =>
    rw [insertInto]
    split
    · simp [h]
    · split
      · rcases List.mem_cons.mp h with rfl | h
        · simp
        · simp [ih h]
      · exact h

theorem pairwise_insertInto (trans : ∀ a b c, before a b = true → before b c = true → before a c = true)
    (x : α) {l : List α} (h : l.Pairwise fun a b => before a b = true) :
    (insertInto before x l).Pairwise fun a b => before a b = true := by
  induction l with
  | nil => simp [insertInto]
  | cons y ys ih =>
    obtain ⟨hy, hys⟩ := List.pairwise_cons.mp h
    rw [insertInto]
    split
    · rename_i hxy
      refine List.pairwise_cons.mpr ⟨fun a ha => ?_, h⟩
      rcases List.mem_cons.mp ha with rfl | ha
      · exact hxy
      · exact trans _ _ _ hxy (hy a ha)
    · split
      · rename_i hyx
        refine List.pairwise_cons.mpr ⟨fun a ha => ?_, ih hys⟩
        rcases mem_insertInto ha with rfl | ha
        · exact hyx
        · exact hy a ha
      · exact h

def ofList (trans : ∀ a b c, before a b = true → before b c = true → before a c = true) :
    List α → Ascending α before
  | [] => ⟨[], .nil⟩
  | x :: xs =>
    let rest := ofList trans xs
    ⟨insertInto before x rest.toList, pairwise_insertInto trans x rest.sorted⟩

theorem mem_ofList (trans : ∀ a b c, before a b = true → before b c = true → before a c = true)
    (antisymm : ∀ a b, before a b = false → before b a = false → a = b) {a : α} {l : List α} :
    a ∈ (ofList trans l).toList ↔ a ∈ l := by
  induction l with
  | nil => simp [ofList]
  | cons x xs ih =>
    rw [ofList, List.mem_cons, ← ih]
    constructor
    · exact mem_insertInto
    · rintro (rfl | h)
      · exact self_mem_insertInto antisymm a _
      · exact mem_insertInto_of_mem h

theorem toList_ofList (trans : ∀ a b c, before a b = true → before b c = true → before a c = true) {l : List α}
    (h : l.Pairwise fun a b => before a b = true) : (ofList trans l).toList = l := by
  induction l with
  | nil => rfl
  | cons x l ih =>
    obtain ⟨hx, hl⟩ := List.pairwise_cons.mp h
    have hstep : (ofList trans (x :: l)).toList = insertInto before x (ofList trans l).toList := rfl
    rw [hstep, ih hl]
    cases l with
    | nil => rfl
    | cons y l => rw [insertInto, if_pos (hx y List.mem_cons_self)]

end Ascending

def numberBefore (a b : UInt64) : Bool := a < b

abbrev BlockSet := Ascending UInt64 numberBefore

namespace BlockSet

theorem numberBefore_trans (a b c : UInt64) (hab : numberBefore a b = true)
    (hbc : numberBefore b c = true) : numberBefore a c = true :=
  decide_eq_true (UInt64.lt_trans (of_decide_eq_true hab) (of_decide_eq_true hbc))

def ofList (numbers : List UInt64) : BlockSet := Ascending.ofList numberBefore_trans numbers

theorem mem_ofList {n : UInt64} {numbers : List UInt64} : n ∈ (ofList numbers).toList ↔ n ∈ numbers := by
  refine Ascending.mem_ofList numberBefore_trans ?_
  intro a b hab hba
  have hle : a ≤ b := UInt64.not_lt.mp (of_decide_eq_false hba)
  exact UInt64.le_antisymm hle (UInt64.not_lt.mp (of_decide_eq_false hab))

def range (first last : Nat) : BlockSet :=
  ofList ((List.range' first (last + 1 - first)).map UInt64.ofNat)

theorem mem_range {n : UInt64} {first last : Nat} (fits : last < UInt64.size) :
    n ∈ (range first last).toList ↔ first ≤ n.toNat ∧ n.toNat ≤ last := by
  rw [range, mem_ofList, List.mem_map]
  constructor
  · rintro ⟨k, hk, rfl⟩
    have hbounds := List.mem_range'_1.mp hk
    have hword : (UInt64.ofNat k).toNat = k := UInt64.toNat_ofNat_of_lt' (by omega)
    omega
  · intro h
    exact ⟨n.toNat, List.mem_range'_1.mpr (by omega), UInt64.ofNat_toNat⟩

def single (n : UInt64) : BlockSet := ⟨[n], List.pairwise_singleton _ _⟩

end BlockSet

namespace TxRef

theorem senderBefore_trans (a b c : Option String) (hab : senderBefore a b = true)
    (hbc : senderBefore b c = true) : senderBefore a c = true := by
  cases c with
  | none => cases b <;> simp [senderBefore] at hbc
  | some c =>
    cases b with
    | none => cases a <;> simp [senderBefore] at hab
    | some b =>
      cases a with
      | none => rfl
      | some a =>
        have hab' : a < b := by simpa [senderBefore] using hab
        have hbc' : b < c := by simpa [senderBefore] using hbc
        simpa [senderBefore] using String.lt_trans hab' hbc'

theorem before_trans (a b c : TxRef) (hab : before a b = true) (hbc : before b c = true) :
    before a c = true := by
  simp only [before, Bool.or_eq_true, Bool.and_eq_true, decide_eq_true_eq, beq_iff_eq] at *
  rcases hab with hab | ⟨hab, sab⟩ <;> rcases hbc with hbc | ⟨hbc, sbc⟩
  · exact .inl (String.lt_trans hab hbc)
  · exact .inl (hbc ▸ hab)
  · exact .inl (hab ▸ hbc)
  · exact .inr ⟨hab.trans hbc, senderBefore_trans _ _ _ sab sbc⟩

theorem senderBefore_antisymm (a b : Option String) (hab : senderBefore a b = false)
    (hba : senderBefore b a = false) : a = b := by
  cases a with
  | none => cases b <;> simp_all [senderBefore]
  | some a =>
    cases b with
    | none => simp [senderBefore] at hba
    | some b =>
      have hle : a ≤ b := String.not_lt.mp (of_decide_eq_false hba)
      exact congrArg some (String.le_antisymm hle (String.not_lt.mp (of_decide_eq_false hab)))

theorem before_antisymm (a b : TxRef) (hab : before a b = false) (hba : before b a = false) : a = b := by
  obtain ⟨hash, sender⟩ := a
  obtain ⟨hash', sender'⟩ := b
  simp only [before, Bool.or_eq_false_iff, Bool.and_eq_false_iff, decide_eq_false_iff_not,
    beq_eq_false_iff_ne] at hab hba
  have hhash : hash = hash' := String.le_antisymm (String.not_lt.mp hba.1) (String.not_lt.mp hab.1)
  subst hhash
  have hsender := senderBefore_antisymm sender sender' (hab.2.resolve_left (· rfl)) (hba.2.resolve_left (· rfl))
  rw [hsender]

theorem before_irrefl (a : TxRef) : before a a = false := by
  obtain ⟨hash, sender⟩ := a
  cases sender <;> simp [before, senderBefore]

end TxRef

abbrev TxRefSet := Ascending TxRef TxRef.before

namespace TxRefSet

def ofList (refs : List TxRef) : TxRefSet := Ascending.ofList TxRef.before_trans refs

theorem mem_ofList {ref : TxRef} {refs : List TxRef} : ref ∈ (ofList refs).toList ↔ ref ∈ refs :=
  Ascending.mem_ofList TxRef.before_trans TxRef.before_antisymm

theorem nodup (refs : TxRefSet) : refs.toList.Nodup := by
  refine refs.sorted.imp ?_
  rintro a _ hbefore rfl
  rw [TxRef.before_irrefl] at hbefore
  cases hbefore

end TxRefSet

end ChainFeed
