import Mathlib.Data.List.Forall2
import Mathlib.Data.Nat.Digits.Defs
import Mathlib.Tactic.IntervalCases
import Mathlib.Tactic.Ring
import ChainFeed.Text.Numeral

/-!
# What a quantity denotes

A quantity is read as the number that its hex digits denote by their places, and as nothing else: a text
that denotes no number, or one that does not fit into a word, is not read.
-/

namespace ChainFeed

namespace Text

def IsHexDigit (c : Char) (value : Nat) : Prop :=
  "0123456789abcdef".toList[value]? = some c ∨ "0123456789ABCDEF".toList[value]? = some c

instance (c : Char) (value : Nat) : Decidable (IsHexDigit c value) :=
  inferInstanceAs (Decidable (_ ∨ _))

theorem digitValue?_bounds {c : Char} {value : Nat} (h : digitValue? c = some value) :
    c.toNat ≤ 'f'.toNat ∧ value < 16 := by
  have hle : ∀ a b : Char, a ≤ b ↔ a.toNat ≤ b.toNat := fun _ _ => Iff.rfl
  simp only [digitValue?, hle] at h
  split at h
  · cases h
    simp only [Char.reduceToNat] at *
    omega
  · split at h
    · cases h
      simp only [Char.reduceToNat] at *
      omega
    · split at h
      · cases h
        simp only [Char.reduceToNat] at *
        omega
      · cases h

private theorem isHexDigit_ofNat : ∀ k ≤ 'f'.toNat, ∀ value < 16,
    digitValue? (Char.ofNat k) = some value → IsHexDigit (Char.ofNat k) value := by
  decide +kernel

theorem digitValue?_eq_some_iff {c : Char} {value : Nat} : digitValue? c = some value ↔ IsHexDigit c value := by
  constructor
  · intro h
    obtain ⟨hc, hvalue⟩ := digitValue?_bounds h
    rw [← Char.ofNat_toNat c] at h ⊢
    exact isHexDigit_ofNat c.toNat hc value hvalue h
  · intro h
    have hvalue : value < 16 := by
      rcases h with h | h <;> exact (List.getElem?_eq_some_iff.mp h).1
    rcases h with h | h <;> interval_cases value <;> cases h <;> rfl

theorem digitsFrom?_eq_some_iff {cs : List Char} {acc n : Nat} :
    digitsFrom? 16 cs acc = some n ↔
      ∃ values, List.Forall₂ IsHexDigit cs values ∧
        n = Nat.ofDigits 16 values.reverse + 16 ^ values.length * acc := by
  induction cs generalizing acc with
  | nil =>
    simp only [digitsFrom?, Option.some.injEq, List.forall₂_nil_left_iff, exists_eq_left, List.reverse_nil,
      Nat.ofDigits_nil, List.length_nil, pow_zero, one_mul, zero_add]
    exact eq_comm
  | cons c cs ih =>
    have hplace : ∀ (value : Nat) (values : List Nat),
        Nat.ofDigits 16 (value :: values).reverse + 16 ^ (value :: values).length * acc =
          Nat.ofDigits 16 values.reverse + 16 ^ values.length * (acc * 16 + value) := by
      intro value values
      rw [List.reverse_cons, Nat.ofDigits_append, List.length_reverse, Nat.ofDigits_singleton, List.length_cons]
      ring
    constructor
    · intro h
      rw [digitsFrom?] at h
      cases hvalue : digitValue? c with
      | none => simp [hvalue] at h
      | some value =>
        have hlt := (digitValue?_bounds hvalue).2
        simp only [hvalue, hlt, if_true] at h
        obtain ⟨values, hdigits, rfl⟩ := ih.mp h
        exact ⟨value :: values, .cons (digitValue?_eq_some_iff.mp hvalue) hdigits, (hplace value values).symm⟩
    · rintro ⟨_, hall, rfl⟩
      obtain ⟨value, values, hvalue, hdigits, rfl⟩ := List.forall₂_cons_left_iff.mp hall
      have hread := digitValue?_eq_some_iff.mpr hvalue
      have hlt := (digitValue?_bounds hread).2
      simp only [digitsFrom?, hread, hlt, if_true]
      exact ih.mpr ⟨values, hdigits, hplace value values⟩

theorem natural?_eq_some_iff {cs : List Char} {n : Nat} :
    natural? 16 cs = some n ↔
      cs ≠ [] ∧ ∃ values, List.Forall₂ IsHexDigit cs values ∧ n = Nat.ofDigits 16 values.reverse := by
  cases cs with
  | nil => simp [natural?]
  | cons c cs => simp [natural?, digitsFrom?_eq_some_iff]

end Text

namespace Quantity

open Text

/-- The text consists of the hex digits of the number, in either case and with any zeros before them, behind
an optional `0x` and an optional plus sign. -/
def Denotes (text : String) (n : Nat) : Prop :=
  ∃ mark sign digits values, text.toList = mark ++ sign ++ digits ∧ (mark = [] ∨ mark = ['0', 'x']) ∧
    (sign = [] ∨ sign = ['+']) ∧ digits ≠ [] ∧ List.Forall₂ IsHexDigit digits values ∧
    n = Nat.ofDigits 16 values.reverse

theorem drops_of_digits {digits : List Char} {values : List Nat} (h : List.Forall₂ IsHexDigit digits values) :
    dropMark digits = digits ∧ dropPlus digits = digits := by
  have hx : ∀ value, ¬ IsHexDigit 'x' value := by
    intro value hvalue
    cases digitValue?_eq_some_iff.mpr hvalue
  have hplus : ∀ value, ¬ IsHexDigit '+' value := by
    intro value hvalue
    cases digitValue?_eq_some_iff.mpr hvalue
  constructor
  · unfold dropMark
    split
    · obtain ⟨-, _, -, hrest, -⟩ := List.forall₂_cons_left_iff.mp h
      obtain ⟨value, _, hvalue, -, -⟩ := List.forall₂_cons_left_iff.mp hrest
      exact absurd hvalue (hx value)
    · rfl
  · unfold dropPlus
    split
    · obtain ⟨value, _, hvalue, -, -⟩ := List.forall₂_cons_left_iff.mp h
      exact absurd hvalue (hplus value)
    · rfl

theorem denotes_iff {text : String} {n : Nat} :
    Denotes text n ↔ natural? 16 (dropPlus (dropMark text.toList)) = some n := by
  rw [natural?_eq_some_iff]
  constructor
  · rintro ⟨mark, sign, digits, values, htext, hmark, hsign, hdigits, hvalues, rfl⟩
    obtain ⟨hdropMark, hdropPlus⟩ := drops_of_digits hvalues
    have hdrop : dropPlus (dropMark text.toList) = digits := by
      rw [htext]
      rcases hmark with rfl | rfl <;> rcases hsign with rfl | rfl
      · rw [List.nil_append, List.nil_append, hdropMark, hdropPlus]
      · rfl
      · exact hdropPlus
      · rfl
    rw [hdrop]
    exact ⟨hdigits, values, hvalues, rfl⟩
  · rintro ⟨hdigits, values, hvalues, rfl⟩
    have hmark : ∃ mark, text.toList = mark ++ dropMark text.toList ∧ (mark = [] ∨ mark = ['0', 'x']) := by
      unfold dropMark
      split
      · next cs htext => exact ⟨['0', 'x'], htext, .inr rfl⟩
      · exact ⟨[], rfl, .inl rfl⟩
    have hsign : ∃ sign, dropMark text.toList = sign ++ dropPlus (dropMark text.toList) ∧
        (sign = [] ∨ sign = ['+']) := by
      generalize dropMark text.toList = rest
      unfold dropPlus
      split
      · exact ⟨['+'], rfl, .inr rfl⟩
      · exact ⟨[], rfl, .inl rfl⟩
    obtain ⟨mark, htext, hmark⟩ := hmark
    obtain ⟨sign, hrest, hsign⟩ := hsign
    refine ⟨mark, sign, _, values, ?_, hmark, hsign, hdigits, hvalues, rfl⟩
    rw [List.append_assoc, ← hrest, ← htext]

theorem read?_eq_some_iff {text : String} {n : UInt64} : read? text = some n ↔ Denotes text n.toNat := by
  rw [denotes_iff, read?, word?]
  cases hnatural : natural? 16 (dropPlus (dropMark text.toList)) with
  | none => simp
  | some k =>
    have hn : n.toNat < UInt64.size := n.toNat_lt
    simp only [Option.some.injEq]
    split
    · next hk =>
      rw [Option.some.injEq, ← UInt64.toNat_inj, UInt64.toNat_ofNat_of_lt' hk]
    · next hk =>
      constructor
      · intro h
        cases h
      · rintro rfl
        exact absurd hn hk

theorem read?_eq_none_iff {text : String} : read? text = none ↔ ∀ n < 2 ^ 64, ¬ Denotes text n := by
  rw [Option.eq_none_iff_forall_ne_some]
  constructor
  · intro h n hn hdenotes
    refine h (UInt64.ofNat n) (read?_eq_some_iff.mpr ?_)
    rwa [UInt64.toNat_ofNat_of_lt' hn]
  · intro h n hread
    exact h n.toNat n.toNat_lt (read?_eq_some_iff.mp hread)

end Quantity

end ChainFeed
