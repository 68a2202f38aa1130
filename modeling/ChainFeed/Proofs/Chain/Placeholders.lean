import ChainFeed.Chain.Block
import ChainFeed.Proofs.Table
import ChainFeed.Proofs.Text.Numeral

/-!
# Placeholders under their numbers

A number has one form as a quantity, in lower case and without needless zeros, and is read back from it.
A placeholder stands in a map of blocks under the form of its number, so that as many of them as there are
numbers find room in one map.
-/

namespace ChainFeed

namespace Text

def lowerDigits : List Char := "0123456789abcdef".toList

theorem hexDigit_lower {d : Nat} (h : d < 16) : hexDigit d ∈ lowerDigits := by
  revert d
  decide

theorem hexDigit_eq_zero {d : Nat} (h : d < 16) (zero : hexDigit d = '0') : d = 0 := by
  revert d
  decide

theorem hexDigits_of_lt {n : Nat} (h : n < 16) : hexDigits n = [hexDigit n] := by
  rw [hexDigits, if_pos h]

theorem hexDigits_of_le {n : Nat} (h : 16 ≤ n) : hexDigits n = hexDigits (n / 16) ++ [hexDigit (n % 16)] := by
  rw [hexDigits, if_neg (Nat.not_lt.mpr h)]

theorem hexDigits_lower (n : Nat) : ∀ c ∈ hexDigits n, c ∈ lowerDigits := by
  induction n using Nat.strongRecOn with
  | ind n ih =>
    by_cases h : n < 16
    · simp [hexDigits_of_lt h, hexDigit_lower h]
    · have hlast : hexDigit (n % 16) ∈ lowerDigits := hexDigit_lower (Nat.mod_lt n (by decide))
      rw [hexDigits_of_le (Nat.le_of_not_lt h), List.forall_mem_append]
      exact ⟨ih (n / 16) (by omega), by simpa using hlast⟩

theorem hexDigits_head (n : Nat) : ∃ c cs, hexDigits n = c :: cs ∧ (c = '0' → n = 0) := by
  induction n using Nat.strongRecOn with
  | ind n ih =>
    by_cases h : n < 16
    · exact ⟨hexDigit n, [], hexDigits_of_lt h, hexDigit_eq_zero h⟩
    · obtain ⟨c, cs, hform, hzero⟩ := ih (n / 16) (by omega)
      refine ⟨c, cs ++ [hexDigit (n % 16)], ?_, fun hc => ?_⟩
      · rw [hexDigits_of_le (Nat.le_of_not_lt h), hform, List.cons_append]
      · have hquotient : n / 16 = 0 := hzero hc
        omega

end Text

namespace Quantity

open Text

/-- The text is `0x` and lower-case hex digits, which begin with a zero only when it is the only one. -/
def IsCanonical (text : String) : Prop :=
  ∃ c cs, text.toList = '0' :: 'x' :: c :: cs ∧ (∀ d ∈ c :: cs, d ∈ lowerDigits) ∧ (c = '0' → cs = [])

theorem isCanonical_render (n : UInt64) : IsCanonical (render n) := by
  obtain ⟨c, cs, hform, hzero⟩ := hexDigits_head n.toNat
  refine ⟨c, cs, ?_, ?_, fun hc => ?_⟩
  · rw [render, String.toList_ofList, hform]
  · exact hform ▸ hexDigits_lower n.toNat
  · rw [hzero hc, hexDigits_of_lt (by decide)] at hform
    exact (List.cons.inj hform).2.symm

end Quantity

namespace Block

theorem key_of_isPlaceholder {b : Block} (h : b.isPlaceholder = true) : b.key = Quantity.render b.number := by
  rw [key, if_pos h]

theorem number_eq_of_key {a b : Block} (ha : a.isPlaceholder = true) (hb : b.isPlaceholder = true)
    (h : a.key = b.key) : a.number = b.number := by
  rw [key_of_isPlaceholder ha, key_of_isPlaceholder hb] at h
  exact Quantity.render_injective h

end Block

namespace BlockMap

theorem nodup_keys_of_placeholders {blocks : List Block} (placeholders : ∀ b ∈ blocks, b.isPlaceholder = true)
    (different : (blocks.map Block.number).Nodup) : (blocks.map Block.key).Nodup := by
  have hkeys : blocks.map Block.key = (blocks.map Block.number).map Quantity.render := by
    rw [List.map_map]
    exact List.map_congr_left fun b hb => Block.key_of_isPlaceholder (placeholders b hb)
  rw [hkeys]
  exact different.map Quantity.render_injective

/-- A number is read back from its form, which is the canonical one, so different numbers have different
forms, and all placeholders for different numbers stand in their map, each under its own key. -/
theorem placeholders_coexist :
    (∀ n : UInt64, Quantity.read? (Quantity.render n) = some n ∧ Quantity.IsCanonical (Quantity.render n)) ∧
    Function.Injective Quantity.render ∧
    (∀ a b : Block, a.isPlaceholder = true → b.isPlaceholder = true → a.number ≠ b.number → a.key ≠ b.key) ∧
    ∀ blocks : List Block, (∀ b ∈ blocks, b.isPlaceholder = true) → (blocks.map Block.number).Nodup →
      (ofBlocks blocks).length = blocks.length ∧ ∀ b ∈ blocks, (ofBlocks blocks).get? b.key = some b := by
  refine ⟨fun n => ⟨Quantity.read?_render n, Quantity.isCanonical_render n⟩, Quantity.render_injective, ?_, ?_⟩
  · intro a b ha hb hne hkey
    exact hne (Block.number_eq_of_key ha hb hkey)
  · intro blocks hplaceholders hdifferent
    have hnodup : ((blocks.map fun b => (b.key, b)).map Prod.fst).Nodup := by
      simpa [Function.comp_def] using nodup_keys_of_placeholders hplaceholders hdifferent
    have hmap : ofBlocks blocks = blocks.map fun b => (b.key, b) := Table.ofList_eq_self hnodup
    rw [hmap]
    refine ⟨List.length_map _, fun b hb => ?_⟩
    exact (Table.get?_eq_some_iff hnodup).mpr (List.mem_map_of_mem hb)

private def edges : List Block := [0, 15, 16, 0xffffffffffffffff].map (Block.placeholder · 1704067200)

theorem edges_coexist :
    (∀ b ∈ edges, b.isPlaceholder = true) ∧ (edges.map Block.number).Nodup ∧ (ofBlocks edges).length = 4 ∧
    (∀ b ∈ edges, (ofBlocks edges).get? b.key = some b) ∧
    (Block.placeholder 15 0).key ≠ (Block.placeholder 16 0).key := by
  obtain ⟨-, -, hkeys, hcoexist⟩ := placeholders_coexist
  have hplaceholders : ∀ b ∈ edges, b.isPlaceholder = true := by decide
  have hdifferent : (edges.map Block.number).Nodup := by decide
  obtain ⟨hlength, hfound⟩ := hcoexist edges hplaceholders hdifferent
  exact ⟨hplaceholders, hdifferent, hlength, hfound, hkeys _ _ rfl rfl (by decide)⟩

end BlockMap

end ChainFeed
