import ChainFeed.Proofs.Family.Quantities

/-!
# The texts that are read as quantities

A quantity is written as hex digits behind an optional `0x`, and its number has to fit into a word. Exactly
these texts are read, and those with one plus sign in front of the digits besides. The records of the
Ethereum family that hold any other text are refused as faulty.
-/

namespace ChainFeed

namespace Quantity

open Text

/-- Hex digits of the number, at least one, in either case and with any zeros before them. -/
def HasDigits (digits : List Char) (n : Nat) : Prop :=
  digits ≠ [] ∧ ∃ values, List.Forall₂ IsHexDigit digits values ∧ n = Nat.ofDigits 16 values.reverse

/-- The text is hex digits of the number behind an optional `0x`. -/
def Spells (text : String) (n : Nat) : Prop :=
  ∃ mark digits, text.toList = mark ++ digits ∧ (mark = [] ∨ mark = ['0', 'x']) ∧ HasDigits digits n

/-- The same with a plus sign in front of the digits. -/
def SpellsWithPlus (text : String) (n : Nat) : Prop :=
  ∃ mark digits, text.toList = mark ++ '+' :: digits ∧ (mark = [] ∨ mark = ['0', 'x']) ∧ HasDigits digits n

def SpellsNoWord (text : String) : Prop := ∀ n < 2 ^ 64, ¬ Spells text n ∧ ¬ SpellsWithPlus text n

variable {text : String} {n : Nat}

theorem denotes_iff_spells : Denotes text n ↔ Spells text n ∨ SpellsWithPlus text n := by
  constructor
  · rintro ⟨mark, sign, digits, values, htext, hmark, hsign, hdigits, hvalues⟩
    have hnumber : HasDigits digits n := ⟨hdigits, values, hvalues⟩
    rcases hsign with rfl | rfl
    · exact .inl ⟨mark, digits, by simpa using htext, hmark, hnumber⟩
    · exact .inr ⟨mark, digits, by simpa using htext, hmark, hnumber⟩
  · rintro (⟨mark, digits, htext, hmark, hdigits, values, hvalues⟩ |
      ⟨mark, digits, htext, hmark, hdigits, values, hvalues⟩)
    · exact ⟨mark, [], digits, values, by simpa using htext, hmark, .inl rfl, hdigits, hvalues⟩
    · exact ⟨mark, ['+'], digits, values, by simpa using htext, hmark, .inr rfl, hdigits, hvalues⟩

theorem spellsNoWord_iff : SpellsNoWord text ↔ ∀ n < 2 ^ 64, ¬ Denotes text n := by
  simp only [SpellsNoWord, denotes_iff_spells, not_or]

theorem read?_eq_none_iff_spellsNoWord : read? text = none ↔ SpellsNoWord text :=
  read?_eq_none_iff.trans spellsNoWord_iff.symm

theorem not_isHexDigit_plus (value : Nat) : ¬ IsHexDigit '+' value := by
  intro h
  cases digitValue?_eq_some_iff.mpr h

theorem plus_notMem_of_digits {digits : List Char} {values : List Nat}
    (h : List.Forall₂ IsHexDigit digits values) : '+' ∉ digits := by
  induction h with
  | nil => simp
  | cons hdigit _ ih =>
    rw [List.mem_cons, not_or]
    refine ⟨?_, ih⟩
    rintro rfl
    exact not_isHexDigit_plus _ hdigit

theorem Spells.plus_notMem (h : Spells text n) : '+' ∉ text.toList := by
  obtain ⟨mark, digits, htext, hmark, -, values, hvalues, -⟩ := h
  rw [htext, List.mem_append, not_or]
  refine ⟨?_, plus_notMem_of_digits hvalues⟩
  rcases hmark with rfl | rfl <;> simp

theorem SpellsWithPlus.plus_mem (h : SpellsWithPlus text n) : '+' ∈ text.toList := by
  obtain ⟨mark, digits, htext, -⟩ := h
  simp [htext]

/-- Without a plus sign the plain spelling is all that is read. -/
theorem read?_eq_some_iff_of_notMem (plain : '+' ∉ text.toList) {word : UInt64} :
    read? text = some word ↔ Spells text word.toNat := by
  rw [read?_eq_some_iff, denotes_iff_spells]
  exact or_iff_left fun h => plain h.plus_mem

end Quantity

namespace Family

open Quantity (SpellsNoWord)

theorem quantity_eq_error_iff {field text : String} :
    quantity field text = .error (.protocol (.badHex field text)) ↔ SpellsNoWord text := by
  rw [← Quantity.read?_eq_none_iff_spellsNoWord, quantity]
  cases Quantity.read? text <;> simp [fault]

def Refuses {α : Type} (read : Except RepositoryError α) (quantities : List String) : Prop :=
  ∀ text ∈ quantities, SpellsNoWord text → ∃ f, read = .error (.protocol f)

theorem Reads.refuses {α : Type} {read : Except RepositoryError α} {whole : Prop} {quantities : List String}
    {means : α → Prop} (h : Reads read whole quantities means) : Refuses read quantities := by
  intro text htext hnone
  cases hread : read with
  | error e =>
    obtain ⟨⟨f, rfl⟩, -⟩ := h.error e hread
    exact ⟨f, rfl⟩
  | ok a =>
    obtain ⟨-, hall, -⟩ := h.ok a hread
    obtain ⟨n, hn, hdenotes⟩ := hall text htext
    exact absurd hdenotes (Quantity.spellsNoWord_iff.mp hnone n hn)

end Family

namespace Evm

open Family
open Quantity (Spells SpellsWithPlus SpellsNoWord)

/-- A text is read as a word just when it spells the word, plainly or with a plus sign; a text without a plus
sign just when it spells the word plainly. Any other text is not read, and is a fault wherever a quantity is
wanted, so the record that holds it is refused. -/
theorem accepts_spelled_words (chainId number : UInt64) (hash : String) (full : Bool) :
    (∀ text (word : UInt64),
      Quantity.read? text = some word ↔ Spells text word.toNat ∨ SpellsWithPlus text word.toNat) ∧
    (∀ text, '+' ∉ text.toList → ∀ word : UInt64, Quantity.read? text = some word ↔ Spells text word.toNat) ∧
    (∀ text, Quantity.read? text = none ↔ SpellsNoWord text) ∧
    (∀ field text, quantity field text = .error (.protocol (.badHex field text)) ↔ SpellsNoWord text) ∧
    (∀ raw : RawLog, Refuses (raw.normalize chainId) raw.quantities) ∧
    (∀ j, Refuses (readTransaction number hash j)
      (quantitiesOf RawTransaction.ofJson? RawTransaction.quantities j)) ∧
    (∀ j, Refuses (readBlock full j) (quantitiesOf RawBlock.ofJson? (RawBlock.quantities full) j)) ∧
    (∀ j, Refuses (readReceipt chainId j) (quantitiesOf RawReceipt.ofJson? RawReceipt.quantities j)) := by
  refine ⟨fun text word => ?_, fun text plain word => Quantity.read?_eq_some_iff_of_notMem plain, fun text =>
    Quantity.read?_eq_none_iff_spellsNoWord, fun field text => quantity_eq_error_iff, ?_, ?_, ?_, ?_⟩
  · exact Quantity.read?_eq_some_iff.trans Quantity.denotes_iff_spells
  · exact fun raw => (RawLog.normalize_reads chainId raw).refuses
  · exact fun j => (readTransaction_reads number hash j).refuses
  · exact fun j => (readBlock_reads full j).refuses
  · exact fun j => (readReceipt_reads chainId j).refuses

private def negativeLog : RawLog :=
  { address := "0xb", topics := [], data := "0x", blockNumber := "0x00fF", blockHash := none
    transactionHash := "0xt", transactionIndex := "0", logIndex := "-1", removed := false }

theorem negative_log_refused :
    '+' ∉ "0x00fF".toList ∧ Spells "0x00fF" 255 ∧
    (∀ text ∈ ["-1", "0x-1", " 1", "1 ", "", "0x", "0X1", "0x10000000000000000"], SpellsNoWord text) ∧
    "-1" ∈ negativeLog.quantities ∧ ∃ f, negativeLog.normalize 2 = .error (.protocol f) := by
  obtain ⟨-, hplain, hnone, -, hlog, -⟩ := accepts_spelled_words 2 7 "Ab" true
  have hplus : '+' ∉ "0x00fF".toList := by decide
  have hspelled : Spells "0x00fF" 255 := (hplain "0x00fF" hplus 255).mp rfl
  have hrefused : ∀ text ∈ ["-1", "0x-1", " 1", "1 ", "", "0x", "0X1", "0x10000000000000000"],
      SpellsNoWord text := by
    intro text htext
    apply (hnone text).mp
    simp only [List.mem_cons, List.not_mem_nil, or_false] at htext
    rcases htext with rfl | rfl | rfl | rfl | rfl | rfl | rfl | rfl <;> rfl
  have hheld : "-1" ∈ negativeLog.quantities := by simp [RawLog.quantities, negativeLog]
  exact ⟨hplus, hspelled, hrefused, hheld, hlog negativeLog "-1" hheld (hrefused "-1" (by simp))⟩

theorem plus_sign_read_over :
    Quantity.read? "0x+ff" = some 255 ∧ (∀ n, ¬ Spells "0x+ff" n) ∧
    ¬ ∀ text (word : UInt64), Quantity.read? text = some word ↔ Spells text word.toNat := by
  have hread : Quantity.read? "0x+ff" = some 255 := rfl
  have hunspelled : ∀ n, ¬ Spells "0x+ff" n := fun n h => h.plus_notMem (by decide)
  refine ⟨hread, hunspelled, fun hall => ?_⟩
  exact hunspelled _ ((hall "0x+ff" 255).mp hread)

end Evm

end ChainFeed
