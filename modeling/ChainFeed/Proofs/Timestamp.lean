import Mathlib.Algebra.Group.Nat.Defs
import Mathlib.Data.List.TakeDrop
import ChainFeed.Timestamp
import ChainFeed.Proofs.Text.Numeral

/-!
# Printed instants are read back

The text of an instant reads back as the instant: with years beyond four digits and below zero, with
each length of the fraction, and within a leap second when it is the last of its minute.
-/

namespace ChainFeed.Timestamp

theorem digitsFrom?_zeros (k : Nat) (ds : List Char) :
    Text.digitsFrom? 10 (List.replicate k '0' ++ ds) 0 = Text.digitsFrom? 10 ds 0 := by
  induction k with
  | zero => rfl
  | succ k ih => simpa [List.replicate_succ, Text.digitsFrom?, Text.digitValue?] using ih

theorem length_padded {width n : Nat} (pos : 0 < width) (fits : n < 10 ^ width) :
    (padded width n).length = width := by
  have hdigits := (Nat.length_toDigits_le_iff (b := 10) (by decide) pos).mpr fits
  rw [padded, Nat.toList_repr, List.length_append, List.length_replicate]
  omega

theorem isDigit_padded {width n : Nat} {c : Char} (h : c ∈ padded width n) : c.isDigit = true := by
  rw [padded, List.mem_append, Nat.toList_repr] at h
  rcases h with h | h
  · rw [(List.mem_replicate.mp h).2]
    rfl
  · exact Nat.isDigit_of_mem_toDigits (by decide) (Nat.le_refl 10) h

theorem natural?_padded (width n : Nat) : Text.natural? 10 (padded width n) = some n := by
  have hvalue : Text.digitsFrom? 10 (padded width n) 0 = some n := by
    rw [padded, Nat.toList_repr, digitsFrom?_zeros, Text.digitsFrom?_toDigits (by decide) (by decide)]
  cases hform : padded width n with
  | nil =>
    rw [padded, Nat.toList_repr, List.append_eq_nil_iff] at hform
    exact absurd hform.2 Nat.toDigits_ne_nil
  | cons c cs => rwa [hform] at hvalue

theorem number?_padded {width count n : Nat} (rest : List Char) (le : (padded count n).length ≤ width)
    (next : (padded count n).length = width ∨ ∀ c ∈ rest.head?, c.isDigit = false) :
    number? width (padded count n ++ rest) = some (n, rest) := by
  have hnone : (rest.take (width - (padded count n).length)).takeWhile Char.isDigit = [] := by
    rcases next with hfull | hnext
    · simp [hfull]
    · cases rest with
      | nil => simp
      | cons c rest => cases hroom : width - (padded count n).length <;> simp [hnext c rfl]
  have htaken : ((padded count n ++ rest).take width).takeWhile Char.isDigit = padded count n := by
    rw [List.take_append, List.take_of_length_le le,
      List.takeWhile_append_of_pos fun c => isDigit_padded, hnone, List.append_nil]
  simp only [number?, htaken, natural?_padded, List.drop_left]
  rfl

theorem isBlank_of_isDigit {c : Char} (h : c.isDigit = true) : Text.isBlank c = false := by
  have hbounds : 48 ≤ c.toNat ∧ c.toNat ≤ 57 := by
    simpa [Char.isDigit, UInt32.le_iff_toNat_le] using h
  simp only [Text.isBlank, Bool.or_eq_false_iff, Bool.and_eq_false_iff, decide_eq_false_iff_not,
    beq_eq_false_iff_ne]
  omega

theorem skipBlanks_cons {c : Char} (h : Text.isBlank c = false) (cs : List Char) :
    Text.skipBlanks (c :: cs) = c :: cs := by
  simp [Text.skipBlanks, h]

theorem padded_cons (width n : Nat) (rest : List Char) :
    ∃ c cs, padded width n ++ rest = c :: cs ∧ c.isDigit = true := by
  cases hform : padded width n with
  | nil =>
    rw [padded, Nat.toList_repr, List.append_eq_nil_iff] at hform
    exact absurd hform.2 Nat.toDigits_ne_nil
  | cons c cs => exact ⟨c, cs ++ rest, rfl, isDigit_padded (hform ▸ List.mem_cons_self)⟩

theorem field?_padded {n : Nat} (fits : n < 100) (rest : List Char) :
    field? 2 (padded 2 n ++ rest) = some (n, rest) := by
  have hlength := length_padded (by decide : 0 < 2) fits
  have hnumber := number?_padded rest (Nat.le_of_eq hlength) (.inl hlength)
  obtain ⟨c, cs, hform, hdigit⟩ := padded_cons 2 n rest
  rw [hform] at hnumber ⊢
  rw [field?, skipBlanks_cons (isBlank_of_isDigit hdigit), hnumber]

theorem year?_form (year : Int) (rest : List Char) :
    year? (yearForm year ++ '-' :: rest) = some (year, '-' :: rest) := by
  unfold yearForm
  split
  · next hrange =>
    have hlength := length_padded (by decide : 0 < 4) (show year.toNat < 10 ^ 4 by omega)
    have hnumber := number?_padded ('-' :: rest) (Nat.le_of_eq hlength) (.inl hlength)
    obtain ⟨c, cs, hform, hdigit⟩ := padded_cons 4 year.toNat ('-' :: rest)
    rw [hform] at hnumber ⊢
    have hplain : year? (c :: cs) = (number? 4 (c :: cs)).map fun p => ((p.1 : Int), p.2) := by
      rw [year?, skipBlanks_cons (isBlank_of_isDigit hdigit)]
      split
      · next heq =>
        cases heq
        cases hdigit
      · next heq =>
        cases heq
        cases hdigit
      · rfl
    rw [hplain, hnumber, Option.map_some, Int.toNat_of_nonneg hrange.1]
  · next hrange =>
    have hnumber : number? (padded 4 year.natAbs ++ '-' :: rest).length
        (padded 4 year.natAbs ++ '-' :: rest) = some (year.natAbs, '-' :: rest) :=
      number?_padded ('-' :: rest) (by simp) (.inr (by rintro _ ⟨⟩; rfl))
    by_cases hsign : year < 0
    · have hnegative : -(year.natAbs : Int) = year := by omega
      rw [if_pos hsign, List.cons_append, year?, skipBlanks_cons rfl]
      simp only [hnumber, Option.map_some, hnegative]
    · have hpositive : (year.natAbs : Int) = year := by omega
      rw [if_neg hsign, List.cons_append, year?, skipBlanks_cons rfl]
      simp only [hnumber, Option.map_some, hpositive]

theorem mark?_cons {c : Char} (h : Text.isBlank c = false) (cs : List Char) :
    mark? c (c :: cs) = some cs := by
  simp [mark?, skipBlanks_cons h]

theorem fraction?_point {count n : Nat} (pos : 0 < count) (le : count ≤ 9) (fits : n < 10 ^ count) :
    fraction? ('.' :: padded count n ++ ['Z']) = some (n * 10 ^ (9 - count), ['Z']) := by
  have hlength := length_padded pos fits
  have hnumber := number?_padded ['Z'] (Nat.le_trans (Nat.le_of_eq hlength) le)
    (.inr (by rintro _ ⟨⟩; rfl))
  rw [List.cons_append, fraction?, hnumber]
  simp [hlength, Nat.pow_eq]

theorem fraction?_form {nanos : Nat} (h : nanos < 1000000000) :
    fraction? (fractionForm nanos ++ ['Z']) = some (nanos, ['Z']) := by
  unfold fractionForm
  split
  · next hzero =>
    subst hzero
    rfl
  · split
    · next hmillis =>
      have hscale : 10 ^ (9 - 3) = 1000000 := rfl
      rw [fraction?_point (by decide) (by decide) (by omega), hscale,
        Nat.div_mul_cancel (Nat.dvd_of_mod_eq_zero hmillis)]
    · split
      · next hmicros =>
        have hscale : 10 ^ (9 - 6) = 1000 := rfl
        rw [fraction?_point (by decide) (by decide) (by omega), hscale,
          Nat.div_mul_cancel (Nat.dvd_of_mod_eq_zero hmicros)]
      · rw [fraction?_point (by decide) (by decide) (by omega), Nat.pow_zero, Nat.mul_one]

theorem date?_form (year : Int) {month day : Nat} (months : month < 100) (days : day < 100)
    (rest : List Char) :
    date? (yearForm year ++ '-' :: (padded 2 month ++ '-' :: (padded 2 day ++ 'T' :: rest))) =
      some ((year, month, day), rest) := by
  simp [date?, year?_form, mark?_cons, field?_padded months, field?_padded days, Text.isBlank]

theorem time?_form {hour minute second nanos : Nat} (hours : hour < 24) (minutes : minute < 60)
    (seconds : second ≤ 60) (fits : nanos < 1000000000) :
    time? (padded 2 hour ++ ':' :: (padded 2 minute ++ ':' :: (padded 2 second ++
      (fractionForm nanos ++ ['Z'])))) = some ((hour, minute, second, nanos), ['Z']) := by
  have hhour := field?_padded (show hour < 100 by omega)
  have hminute := field?_padded (show minute < 100 by omega)
  have hsecond := field?_padded (show second < 100 by omega)
  have hmark := fun cs => mark?_cons (show Text.isBlank ':' = false from rfl) cs
  simp [time?, hhour, hminute, hsecond, hmark, fraction?_form fits, hours, minutes, seconds]

theorem fromLocal_zero {t : Timestamp} (h : t.second < 86400) : t.fromLocal 0 = t := by
  have hlow : ¬(t.second : Int) < 0 := by omega
  have hhigh : ¬86400 ≤ (t.second : Int) := by omega
  simp [fromLocal, hlow, hhigh]

/-- An instant that its text can tell: a leap second is the last of its minute. -/
structure IsTold (t : Timestamp) : Prop where
  valid : t.isValid = true
  leap : 1000000000 ≤ t.nanos → t.second % 60 = 59

theorem isValid_bounds {t : Timestamp} (h : t.isValid = true) :
    t.month ≤ 12 ∧ t.day ≤ 31 ∧ t.second < 86400 ∧ t.nanos < 2000000000 := by
  simp only [isValid, Bool.and_eq_true, decide_eq_true_eq] at h
  obtain ⟨⟨⟨⟨-, -, hmonth⟩, -, hday⟩, hsecond⟩, hnanos⟩ := h
  have hdays : daysInMonth t.year t.month ≤ 31 := by
    unfold daysInMonth
    split <;> (try split) <;> decide
  exact ⟨hmonth, Nat.le_trans hday hdays, hsecond, hnanos⟩

theorem IsTold.shown {t : Timestamp} (h : t.IsTold) : ∃ second nanos,
    t.form = yearForm t.year ++ '-' :: (padded 2 t.month ++ '-' :: (padded 2 t.day ++ 'T' ::
      (padded 2 (t.second / 3600) ++ ':' :: (padded 2 (t.second / 60 % 60) ++ ':' ::
        (padded 2 second ++ (fractionForm nanos ++ ['Z'])))))) ∧
      second ≤ 60 ∧ nanos < 1000000000 ∧
      (if second = 60 then 59 else second) = t.second % 60 ∧
      (if second = 60 then nanos + 1000000000 else nanos) = t.nanos := by
  obtain ⟨-, -, -, hnanos⟩ := isValid_bounds h.valid
  by_cases hleap : 1000000000 ≤ t.nanos
  · refine ⟨60, t.nanos - 1000000000, ?_, by omega, by omega, ?_, ?_⟩
    · simp [form, hleap, h.leap hleap]
    · rw [if_pos rfl, h.leap hleap]
    · rw [if_pos rfl]
      omega
  · have hordinary : t.second % 60 ≠ 60 := by omega
    refine ⟨t.second % 60, t.nanos, ?_, by omega, by omega, if_neg hordinary, if_neg hordinary⟩
    simp [form, hleap]

/-- An instant is read back from its text. -/
theorem read?_render {t : Timestamp} (h : t.IsTold) : read? t.render = some t := by
  obtain ⟨second, nanos, hform, hle, hlt, hsecond, hnanos⟩ := h.shown
  obtain ⟨hmonth, hday, hofDay, -⟩ := isValid_bounds h.valid
  have hdate := date?_form t.year (show t.month < 100 by omega) (show t.day < 100 by omega)
  have htime := time?_form (show t.second / 3600 < 24 by omega) (show t.second / 60 % 60 < 60 by omega)
    hle hlt
  have hsum : t.second / 3600 * 3600 + t.second / 60 % 60 * 60 + t.second % 60 = t.second := by omega
  have hzone : offset? (Text.skipBlanks ['Z']) = some (0, []) := rfl
  simp only [read?, render, String.toList_ofList, hform, hdate, htime, hzone, Option.bind_eq_bind,
    Option.bind_some, hsecond, hnanos, hsum, fromLocal_zero hofDay, h.valid]
  rfl

end ChainFeed.Timestamp
