import Mathlib.Logic.Function.Defs
import ChainFeed.Text.Numeral

/-!
# Numerals read back

The digits of a number in a base up to sixteen read back as the number, so a word can be told from its
decimal form and from its form as a quantity.
-/

namespace ChainFeed.Text

theorem digitsFrom?_append (base : Nat) (xs ys : List Char) (acc : Nat) :
    digitsFrom? base (xs ++ ys) acc = (digitsFrom? base xs acc).bind (digitsFrom? base ys) := by
  induction xs generalizing acc with
  | nil => rfl
  | cons c cs ih =>
    rw [List.cons_append, digitsFrom?, digitsFrom?]
    split
    · split
      · exact ih _
      · rfl
    · rfl

theorem digitValue?_digitChar {d : Nat} (h : d < 16) : digitValue? d.digitChar = some d := by
  revert d
  decide

variable {base : Nat}

theorem digitsFrom?_toDigits (hbase : 1 < base) (hsmall : base ≤ 16) (n : Nat) :
    digitsFrom? base (base.toDigits n) 0 = some n := by
  -- The last digit is read behind those of the quotient.
  induction n using Nat.strongRecOn with
  | ind n ih =>
    rw [Nat.toDigits_eq_if hbase]
    split
    · next hlt =>
      rw [digitsFrom?, digitValue?_digitChar (Nat.lt_of_lt_of_le hlt hsmall)]
      simp [digitsFrom?, hlt]
    · next hge =>
      have hlt : n % base < base := Nat.mod_lt n (Nat.zero_lt_of_lt hbase)
      have hsmaller : n / base < n :=
        Nat.div_lt_self (Nat.lt_of_lt_of_le (Nat.zero_lt_of_lt hbase) (Nat.le_of_not_lt hge)) hbase
      rw [digitsFrom?_append, ih _ hsmaller, Option.bind_some, digitsFrom?,
        digitValue?_digitChar (Nat.lt_of_lt_of_le hlt hsmall)]
      simp [digitsFrom?, hlt, Nat.div_add_mod']

theorem word?_toDigits (hbase : 1 < base) (hsmall : base ≤ 16) (n : UInt64) :
    word? base (base.toDigits n.toNat) = some n := by
  have hread := digitsFrom?_toDigits hbase hsmall n.toNat
  have hplus : dropPlus (base.toDigits n.toNat) = base.toDigits n.toNat := by
    unfold dropPlus
    split
    · next cs hcs =>
      rw [hcs] at hread
      cases hread
    · rfl
  have hnatural : natural? base (base.toDigits n.toNat) = some n.toNat := by
    unfold natural?
    split
    · next hnil => exact absurd hnil Nat.toDigits_ne_nil
    · next c cs hcs => exact hcs ▸ hread
  have hlt : n.toNat < UInt64.size := n.toNat_lt
  simp [word?, hplus, hnatural, hlt]

theorem decimalWord?_toString (n : UInt64) : decimalWord? (toString n) = some n := by
  have hdigits : (toString n).toList = Nat.toDigits 10 n.toNat := Nat.toList_repr
  rw [decimalWord?, hdigits]
  exact word?_toDigits (by decide) (by decide) n

theorem hexDigit_eq_digitChar {d : Nat} (h : d < 16) : hexDigit d = d.digitChar := by
  revert d
  decide

theorem hexDigits_eq_toDigits (n : Nat) : hexDigits n = Nat.toDigits 16 n := by
  induction n using Nat.strongRecOn with
  | ind n ih =>
    rw [hexDigits, Nat.toDigits_eq_if (by decide)]
    split
    · next hlt => rw [hexDigit_eq_digitChar hlt]
    · next hge => rw [ih _ (by omega), hexDigit_eq_digitChar (Nat.mod_lt n (by decide))]

end ChainFeed.Text

namespace ChainFeed.Quantity

open Text

theorem read?_render (n : UInt64) : read? (render n) = some n := by
  rw [read?, render, String.toList_ofList, dropMark, hexDigits_eq_toDigits]
  exact word?_toDigits (by decide) (by decide) n

theorem render_injective : Function.Injective render := by
  intro n k h
  have hread := read?_render n
  rw [h, read?_render] at hread
  exact (Option.some.inj hread).symm

end ChainFeed.Quantity
