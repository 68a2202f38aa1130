import Mathlib.Data.List.TakeDrop
import ChainFeed.Json.Printer
import ChainFeed.Json.Reader
import ChainFeed.Proofs.Text.Numeral

/-!
# Printed trees are read back

The text of a tree without doubles reads back as the tree, with every character its strings can hold
and as deep as the reader keeps. The fuel that the reader gives itself is twice the length of the
text, two steps for each character.
-/

namespace ChainFeed.Json

inductive Written (c : Char) : List Char → Prop
  | short (e : Char) (escape : shortEscape? e = some c) : Written c ['\\', e]
  | control (low : c.toNat < 0x20) :
      Written c ['\\', 'u', '0', '0', Text.hexDigit (c.toNat / 16), Text.hexDigit (c.toNat % 16)]
  | plain (high : 0x20 ≤ c.toNat) (open_ : c ≠ '"') (escape : c ≠ '\\') : Written c [c]

theorem written_charForm (c : Char) : Written c (charForm c) := by
  by_cases hspecial : c ∈ ['"', '\\', '\x08', '\x0c', '\n', '\r', '\t']
  · simp only [List.mem_cons, List.not_mem_nil, or_false] at hspecial
    rcases hspecial with rfl | rfl | rfl | rfl | rfl | rfl | rfl <;> exact .short _ rfl
  · simp only [List.mem_cons, List.not_mem_nil, or_false, not_or] at hspecial
    obtain ⟨hquote, hslash, hback, hfeed, hline, hreturn, htab⟩ := hspecial
    simp only [charForm, hquote, hslash, hback, hfeed, hline, hreturn, htab, if_false]
    split
    · next hlow => exact .control hlow
    · next hhigh => exact .plain (Nat.le_of_not_lt hhigh) hquote hslash

theorem joinPieces?_unit {n : Nat} (h : n < 0xD800) (ps : List Piece) :
    joinPieces? (.unit n :: ps) = (joinPieces? ps).map (Char.ofNat n :: ·) := by
  have hhigh : isHighUnit n = false := by simp [isHighUnit]; omega
  have hlow : isLowUnit n = false := by simp [isLowUnit]; omega
  cases ps with
  | nil => simp [joinPieces?, hhigh, hlow]
  | cons p ps => cases p <;> simp [joinPieces?, hhigh, hlow]

theorem natural?_control {n : Nat} (h : n < 0x20) :
    Text.natural? 16 ['0', '0', Text.hexDigit (n / 16), Text.hexDigit (n % 16)] = some n := by
  revert n
  decide

theorem Written.piece {c : Char} {form : List Char} (h : Written c form) :
    ∃ p : Piece, (∀ ps, joinPieces? (p :: ps) = (joinPieces? ps).map (c :: ·)) ∧
      ∀ cs, pieces? (form ++ cs) = (pieces? cs).map fun q => (p :: q.1, q.2) := by
  cases h with
  | short e escape =>
    refine ⟨.char c, fun _ => rfl, fun cs => ?_⟩
    have hu : e ≠ 'u' := by
      rintro rfl
      cases escape
    rw [List.cons_append, List.cons_append, List.nil_append, pieces?, escape]
    · cases pieces? cs <;> rfl
    · exact fun _ _ _ _ _ h => absurd h hu
  | control low =>
    refine ⟨.unit c.toNat, fun ps => ?_, fun cs => ?_⟩
    · rw [joinPieces?_unit (Nat.lt_trans low (by decide)), Char.ofNat_toNat]
    · simp only [List.cons_append, List.nil_append]
      rw [pieces?, natural?_control low]
      cases pieces? cs <;> rfl
  | plain high open_ escape =>
    refine ⟨.char c, fun _ => rfl, fun cs => ?_⟩
    rw [List.cons_append, List.nil_append, pieces?]
    · simp [Nat.not_lt.mpr high, escape]
    all_goals simp_all

theorem quotedText?_flatMap (cs rest : List Char) :
    quotedText? (cs.flatMap charForm ++ '"' :: rest) = some (some (String.ofList cs), rest) := by
  have hpieces : ∃ ps, pieces? (cs.flatMap charForm ++ '"' :: rest) = some (ps, rest) ∧
      joinPieces? ps = some cs := by
    induction cs with
    | nil => exact ⟨[], rfl, rfl⟩
    | cons c cs ih =>
      obtain ⟨ps, hps, hjoin⟩ := ih
      obtain ⟨p, hp, hread⟩ := (written_charForm c).piece
      refine ⟨p :: ps, ?_, ?_⟩
      · rw [List.flatMap_cons, List.append_assoc, hread, hps, Option.map_some]
      · rw [hp, hjoin, Option.map_some]
  obtain ⟨ps, hps, hjoin⟩ := hpieces
  simp [quotedText?, hps, hjoin]

/-- What comes next does not go on with a number. -/
def Apart (rest : List Char) : Prop :=
  ∀ c ∈ rest.head?, c.isDigit = false ∧ c ≠ '.' ∧ c ≠ 'e' ∧ c ≠ 'E'

theorem digits_append {ds rest : List Char} (digit : ∀ c ∈ ds, c.isDigit = true)
    (apart : Apart rest) : digits (ds ++ rest) = (ds, rest) := by
  rw [digits, List.span_eq_takeWhile_dropWhile, List.takeWhile_append_of_pos digit,
    List.dropWhile_append_of_pos digit]
  cases rest with
  | nil => simp
  | cons c rest =>
    obtain ⟨hc, -⟩ := apart c rfl
    simp [hc]

theorem exists_digit (n : Nat) : ∃ c cs, Nat.toDigits 10 n = c :: cs ∧ c.isDigit = true ∧
    (c = '0' → n = 0) := by
  induction n using Nat.strongRecOn with
  | ind n ih =>
    by_cases hlt : n < 10
    · refine ⟨n.digitChar, [], Nat.toDigits_of_lt_base hlt, ?_, Nat.digitChar_eq_zero.mp⟩
      rwa [Nat.isDigit_digitChar, decide_eq_true_eq]
    · obtain ⟨c, cs, hform, hdigit, hzero⟩ := ih (n / 10) (by omega)
      refine ⟨c, cs ++ [(n % 10).digitChar], ?_, hdigit, fun hc => ?_⟩
      · rw [Nat.toDigits_of_base_le (by decide) (by omega), hform, List.cons_append]
      · have := hzero hc
        omega

theorem whole?_toDigits (n : Nat) {rest : List Char} (apart : Apart rest) :
    whole? (Nat.toDigits 10 n ++ rest) = some (Nat.toDigits 10 n, rest) := by
  by_cases h : n = 0
  · subst h
    rfl
  · have hdigits : digits (Nat.toDigits 10 n ++ rest) = (Nat.toDigits 10 n, rest) :=
      digits_append (fun c => Nat.isDigit_of_mem_toDigits (by decide) (Nat.le_refl 10)) apart
    obtain ⟨c, cs, hform, -, hzero⟩ := exists_digit n
    rw [hform, List.cons_append] at hdigits ⊢
    rw [whole?, hdigits]
    rintro _ hc
    obtain ⟨rfl, -⟩ := List.cons.inj hc
    exact h (hzero rfl)

theorem numeral?_toDigits (n : Nat) {rest : List Char} (apart : Apart rest) :
    numeral? (Nat.toDigits 10 n ++ rest) = some (⟨false, Nat.toDigits 10 n, [], none⟩, rest) ∧
      numeral? ('-' :: Nat.toDigits 10 n ++ rest) = some (⟨true, Nat.toDigits 10 n, [], none⟩, rest) := by
  have hwhole := whole?_toDigits n apart
  have hfraction : fraction? rest = some ([], rest) := by
    unfold fraction?
    split
    · exact absurd rfl (apart '.' rfl).2.1
    · rfl
  have hexponent : exponent? rest = some (none, rest) := by
    cases rest with
    | nil => rfl
    | cons c rest =>
      obtain ⟨-, -, he, hE⟩ := apart c rfl
      simp [exponent?, he, hE]
  constructor
  · obtain ⟨c, cs, hform, hdigit, -⟩ := exists_digit n
    have hsign : c ≠ '-' := by
      rintro rfl
      cases hdigit
    rw [hform, List.cons_append] at hwhole ⊢
    simp [numeral?, hsign, hwhole, hfraction, hexponent]
  · simp [numeral?, hwhole, hfraction, hexponent]

theorem digitsValue_toDigits (n : Nat) : digitsValue (Nat.toDigits 10 n) = n := by
  rw [digitsValue, Text.digitsFrom?_toDigits (by decide) (by decide)]
  rfl

/-- The whole numbers that are not read as doubles. -/
def InRange (i : Int) : Prop := -0x8000000000000000 ≤ i ∧ i < UInt64.size

theorem inRange_word (n : UInt64) : InRange n.toNat := by
  have := n.toNat_lt
  unfold InRange UInt64.size
  omega

theorem numeral?_form {i : Int} (range : InRange i) {rest : List Char} (apart : Apart rest) :
    (numeral? (form (.int i) ++ rest)).map (fun p => (p.1.toJson, p.2)) = some (.int i, rest) := by
  obtain ⟨hlow, hhigh⟩ := range
  cases i with
  | ofNat n =>
    have hform : form (.int (Int.ofNat n)) = Nat.toDigits 10 n := Nat.toList_repr
    have hlt : n < UInt64.size := Int.ofNat_lt.mp hhigh
    rw [hform, (numeral?_toDigits n apart).1]
    simp [Numeral.toJson, digitsValue_toDigits, hlt]
  | negSucc n =>
    have hform : form (.int (Int.negSucc n)) = '-' :: Nat.toDigits 10 (n + 1) := by
      change ("-" ++ Nat.repr (n + 1)).toList = _
      rw [String.toList_append, Nat.toList_repr]
      rfl
    have hle : n + 1 ≤ 0x8000000000000000 := by omega
    rw [hform, (numeral?_toDigits (n + 1) apart).2]
    simp [Numeral.toJson, digitsValue_toDigits, hle]
    omega

/-- The trees that are read back from their text: no doubles, whole numbers in range, and containers no
deeper than there is room for. -/
inductive Legible : Nat → Json → Prop
  | null (room : Nat) : Legible room .null
  | bool (room : Nat) (b : Bool) : Legible room (.bool b)
  | int (room : Nat) (i : Int) (range : InRange i) : Legible room (.int i)
  | str (room : Nat) (s : String) : Legible room (.str s)
  | arr (room : Nat) (items : List Json) (legible : ∀ j ∈ items, Legible room j) :
      Legible (room + 1) (.arr items)
  | obj (room : Nat) (members : List (String × Json)) (legible : ∀ m ∈ members, Legible room m.2) :
      Legible (room + 1) (.obj members)

theorem skipSpace_cons {c : Char} (h : isSpace c = false) (cs : List Char) :
    skipSpace (c :: cs) = c :: cs := by
  simp [skipSpace, h]

theorem isSpace_of_isDigit {c : Char} (h : c.isDigit = true) : isSpace c = false := by
  by_contra hspace
  simp only [isSpace, Bool.not_eq_false, Bool.or_eq_true, beq_iff_eq] at hspace
  rcases hspace with ((rfl | rfl) | rfl) | rfl <;> cases h

theorem form_int (i : Int) : ∃ c cs, form (.int i) = c :: cs ∧ (c.isDigit = true ∨ c = '-') := by
  cases i with
  | ofNat n =>
    obtain ⟨c, cs, hform, hdigit, -⟩ := exists_digit n
    exact ⟨c, cs, Nat.toList_repr.trans hform, .inl hdigit⟩
  | negSucc n => exact ⟨'-', _, String.toList_append, .inr rfl⟩

theorem Legible.form_cons {room : Nat} {j : Json} (h : Legible room j) :
    ∃ c cs, form j = c :: cs ∧ isSpace c = false ∧ c ≠ ']' := by
  cases h with
  | null => exact ⟨_, _, rfl, rfl, by decide⟩
  | bool _ b => cases b <;> exact ⟨_, _, rfl, rfl, by decide⟩
  | int _ i =>
    obtain ⟨c, cs, hform, hdigit | rfl⟩ := form_int i
    · refine ⟨c, cs, hform, isSpace_of_isDigit hdigit, ?_⟩
      rintro rfl
      cases hdigit
    · exact ⟨_, cs, hform, rfl, by decide⟩
  | str => exact ⟨_, _, rfl, rfl, by decide⟩
  | arr _ items => cases items <;> exact ⟨_, _, rfl, rfl, by decide⟩
  | obj _ members => cases members <;> exact ⟨_, _, rfl, rfl, by decide⟩

/-- The tree is read back from its form, with fuel for two steps a character. -/
def ReadBack (room : Nat) (j : Json) : Prop :=
  ∀ (fuel : Nat) (rest : List Char), 2 * (form j).length ≤ fuel + 1 → Apart rest →
    tree? (fuel + 1) room (form j ++ rest) = some (j, rest)

theorem readBack_int {room : Nat} {i : Int} (range : InRange i) : ReadBack room (.int i) := by
  intro fuel rest _ apart
  have hread := numeral?_form range apart
  obtain ⟨c, cs, hform, hfirst⟩ := form_int i
  rw [hform, List.cons_append] at hread ⊢
  have hspace : isSpace c = false := by
    rcases hfirst with hdigit | rfl
    · exact isSpace_of_isDigit hdigit
    · rfl
  have hother : ∀ m ∈ ['"', '[', '\x7b', 'n', 't', 'f'], c ≠ m := by
    rintro m hm rfl
    simp at hm
    rcases hfirst with hdigit | rfl
    · rcases hm with rfl | rfl | rfl | rfl | rfl | rfl <;> cases hdigit
    · simp at hm
  simp only [List.forall_mem_cons] at hother
  simp only [tree?, skipSpace_cons hspace, hother, if_false]
  exact hread

theorem readBack_str (room : Nat) (s : String) : ReadBack room (.str s) := by
  intro fuel rest _ _
  have hread := quotedText?_flatMap s.toList rest
  simp [form, textForm, tree?, skipSpace_cons, isSpace, hread]

theorem apart_cons {c : Char} (cs : List Char) (h : c = ',' ∨ c = ']' ∨ c = '\x7d') :
    Apart (c :: cs) := by
  rintro _ ⟨⟩
  rcases h with rfl | rfl | rfl <;> decide

theorem apart_itemsForm (js : List Json) (rest : List Char) : Apart (itemsForm js ++ rest) := by
  cases js with
  | nil => exact apart_cons _ (.inr (.inl rfl))
  | cons j js => exact apart_cons _ (.inl rfl)

theorem apart_membersForm (ms : List (String × Json)) (rest : List Char) :
    Apart (membersForm ms ++ rest) := by
  cases ms with
  | nil => exact apart_cons _ (.inr (.inr rfl))
  | cons m ms => exact apart_cons _ (.inl rfl)

theorem items?_form {room : Nat} {j : Json} {js : List Json} (read : ∀ i ∈ j :: js, ReadBack room i)
    (fuel : Nat) (rest : List Char) (enough : 2 * (form j ++ itemsForm js).length ≤ fuel) :
    items? fuel room (form j ++ (itemsForm js ++ rest)) = some (j :: js, rest) := by
  induction js generalizing j fuel with
  | nil =>
    simp only [itemsForm, List.length_append, List.length_cons, List.length_nil] at enough
    obtain ⟨fuel, rfl⟩ : ∃ k, fuel = k + 2 := Nat.exists_eq_add_of_le' (by omega)
    have htree := read j List.mem_cons_self fuel _ (by omega) (apart_itemsForm [] rest)
    rw [items?, htree]
    rfl
  | cons i js ih =>
    obtain ⟨hj, hjs⟩ := List.forall_mem_cons.mp read
    simp only [itemsForm, List.length_append, List.length_cons] at enough
    obtain ⟨fuel, rfl⟩ : ∃ k, fuel = k + 2 := Nat.exists_eq_add_of_le' (by omega)
    have htree := hj fuel _ (by omega) (apart_itemsForm (i :: js) rest)
    have hitems := ih hjs (fuel + 1) (by rw [List.length_append]; omega)
    rw [items?, htree]
    simp only [itemsForm, List.cons_append, List.append_assoc]
    rw [skipSpace_cons rfl]
    simp only [hitems, Option.map_some]

def membersBehind (fuel room : Nat) (m : Option String × Json) (rest : List Char) :
    Option (List (Option String × Json) × List Char) :=
  match skipSpace rest with
  | '\x7d' :: r => some ([m], r)
  | ',' :: r => (members? fuel room r).map fun (ms, r) => (m :: ms, r)
  | _ => none

theorem members?_first {room : Nat} {k : String} {j : Json} (read : ReadBack room j) {fuel : Nat}
    (enough : 2 * (form j).length ≤ fuel + 1) {rest : List Char} (apart : Apart rest) :
    members? (fuel + 2) room (textForm k ++ ':' :: form j ++ rest) =
      membersBehind (fuel + 1) room (some k, j) rest := by
  have hkey := quotedText?_flatMap k.toList (':' :: (form j ++ rest))
  rw [String.ofList_toList] at hkey
  simp only [textForm, List.cons_append, List.append_assoc, List.nil_append]
  rw [members?, skipSpace_cons rfl]
  simp only [hkey, skipSpace_cons (show isSpace ':' = false from rfl), read fuel rest enough apart]
  rfl

theorem members?_form {room : Nat} {m : String × Json} {ms : List (String × Json)}
    (read : ∀ n ∈ m :: ms, ReadBack room n.2) (fuel : Nat) (rest : List Char)
    (enough : 2 * (textForm m.1 ++ ':' :: form m.2 ++ membersForm ms).length ≤ fuel) :
    members? fuel room (textForm m.1 ++ ':' :: form m.2 ++ (membersForm ms ++ rest)) =
      some ((m :: ms).map fun n => (some n.1, n.2), rest) := by
  induction ms generalizing m fuel with
  | nil =>
    simp only [membersForm, List.length_append, List.length_cons, List.length_nil] at enough
    obtain ⟨fuel, rfl⟩ : ∃ k, fuel = k + 2 := Nat.exists_eq_add_of_le' (by omega)
    rw [members?_first (read m List.mem_cons_self) (by omega) (apart_membersForm [] rest)]
    rfl
  | cons n ms ih =>
    obtain ⟨hm, hms⟩ := List.forall_mem_cons.mp read
    simp only [membersForm, List.length_append, List.length_cons] at enough
    obtain ⟨fuel, rfl⟩ : ∃ k, fuel = k + 2 := Nat.exists_eq_add_of_le' (by omega)
    have hmembers := ih hms (fuel + 1) (by simp only [List.length_append, List.length_cons]; omega)
    rw [members?_first hm (by omega) (apart_membersForm (n :: ms) rest), membersBehind, membersForm]
    simp only [List.cons_append, List.append_assoc] at hmembers ⊢
    rw [skipSpace_cons rfl]
    simp only [hmembers, Option.map_some, List.map_cons]

theorem ofMembers_map (ms : List (String × Json)) :
    ofMembers (ms.map fun m => (some m.1, m.2)) = .obj ms := by
  have hkeys : (ms.map fun m => (some m.1, m.2)).mapM (fun m => m.1.map (·, m.2)) = some ms := by
    induction ms with
    | nil => rfl
    | cons m ms ih => simp [ih]
  rw [ofMembers, hkeys]

theorem tree?_bracket (fuel room : Nat) {c : Char} (space : isSpace c = false) (bracket : c ≠ ']')
    (cs : List Char) : tree? (fuel + 1) room ('[' :: c :: cs) =
      (items? fuel (room - 1) (c :: cs)).map fun p => (within room (.arr p.1), p.2) := by
  rw [tree?, skipSpace_cons rfl]
  simp [skipSpace_cons space, bracket]

theorem tree?_brace (fuel room : Nat) (cs : List Char) : tree? (fuel + 1) room ('\x7b' :: '"' :: cs) =
    (members? fuel (room - 1) ('"' :: cs)).map fun p => (within room (ofMembers p.1), p.2) := by
  rw [tree?, skipSpace_cons rfl]
  simp [skipSpace_cons, isSpace]

theorem readBack {room : Nat} {j : Json} (h : Legible room j) : ReadBack room j := by
  induction h with
  | null room => exact fun _ _ _ _ => rfl
  | bool room b => cases b <;> exact fun _ _ _ _ => rfl
  | int room i range => exact readBack_int range
  | str room s => exact readBack_str room s
  | arr room items legible ih =>
    intro fuel rest enough _
    cases items with
    | nil => rfl
    | cons j js =>
      rw [form, List.cons_append, List.length_cons] at enough
      have hitems := items?_form ih fuel rest (by omega)
      obtain ⟨c, cs, hform, hspace, hbracket⟩ := (legible j List.mem_cons_self).form_cons
      rw [form, List.cons_append, List.cons_append, List.append_assoc]
      rw [hform, List.cons_append] at hitems ⊢
      rw [tree?_bracket fuel _ hspace hbracket, Nat.add_sub_cancel, hitems]
      rfl
  | obj room members legible ih =>
    intro fuel rest enough _
    cases members with
    | nil => rfl
    | cons m ms =>
      simp only [form, List.cons_append, List.length_cons] at enough
      have hmembers := members?_form ih fuel rest (by omega)
      simp only [form, textForm, List.cons_append, List.append_assoc, List.nil_append] at hmembers ⊢
      rw [tree?_brace, Nat.add_sub_cancel, hmembers, Option.map_some, ofMembers_map]
      rfl

/-- Reading undoes printing. -/
theorem read?_render {j : Json} (h : Legible maxDepth j) : read? j.render = some j := by
  have hread := readBack h (2 * (form j).length + 1) [] (by omega) (by simp [Apart])
  rw [List.append_nil] at hread
  simp [read?, render, hread, skipSpace]

end ChainFeed.Json
