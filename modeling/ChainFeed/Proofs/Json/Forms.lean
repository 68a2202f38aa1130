import Mathlib.Data.List.Forall2
import Mathlib.Data.String.Basic
import ChainFeed.Json.Record
import ChainFeed.Proofs.Keyed

/-!
# Trees in both their forms

What is written as a tree may be read from that tree, whose members stand in the order in which they were
written, or from its canonical form as a free-form value, whose members stand in the order of their keys.
`ReadsAs` says that both are read as the same value. It is put together along the tree: for an object whose
keys differ, a record finds under each of its names what the object says there, whatever the order. `Faithful`
says it for a writer and a reader, for all values that the writer may be given.
-/

namespace ChainFeed.Json

section Sorted

variable {α : Type}

theorem insertMember_perm {key : String} {value : α} {members : List (String × α)}
    (h : key ∉ members.map Prod.fst) : (insertMember key value members).Perm ((key, value) :: members) := by
  induction members with
  | nil => rfl
  | cons m members ih =>
    obtain ⟨hne, hrest⟩ := not_or.mp (mt List.mem_cons.mpr h)
    rw [insertMember, if_neg hne]
    split
    · rfl
    · exact ((ih hrest).cons m).trans (.swap _ _ _)

theorem sortMembers_perm {members : List (String × α)} (h : (members.map Prod.fst).Nodup) :
    (sortMembers members).Perm members := by
  suffices hfrom : ∀ (rest sorted : List (String × α)), ((sorted ++ rest).map Prod.fst).Nodup →
      (rest.foldl (fun acc m => insertMember m.1 m.2 acc) sorted).Perm (sorted ++ rest) from
    hfrom members [] h
  intro rest
  induction rest with
  | nil => simp
  | cons m rest ih =>
    intro sorted hnodup
    have hfirst : (sorted ++ m :: rest).Perm (m :: sorted ++ rest) := List.perm_middle
    have hfresh : m.1 ∉ sorted.map Prod.fst := by
      have hkeys := (hfirst.map Prod.fst).nodup_iff.mp hnodup
      rw [List.cons_append, List.map_cons, List.nodup_cons, List.map_append, List.mem_append, not_or] at hkeys
      exact hkeys.1.1
    have hinserted : (insertMember m.1 m.2 sorted ++ rest).Perm (sorted ++ m :: rest) :=
      ((insertMember_perm hfresh).append_right rest).trans hfirst.symm
    exact (ih _ ((hinserted.map Prod.fst).nodup_iff.mpr hnodup)).trans hinserted

theorem insertMember_of_gt {key : String} {members : List (String × α)} (a : α)
    (h : ∀ m ∈ members, m.1 < key) : insertMember key a members = members ++ [(key, a)] := by
  induction members with
  | nil => rfl
  | cons m members ih =>
    obtain ⟨hless, hrest⟩ := List.forall_mem_cons.mp h
    rw [insertMember, if_neg hless.ne', if_neg hless.not_gt, ih hrest, List.cons_append]

theorem sortMembers_of_rising {members : List (String × α)} (h : members.Pairwise fun m n => m.1 < n.1) :
    sortMembers members = members := by
  suffices hfrom : ∀ (rest sorted : List (String × α)), (sorted ++ rest).Pairwise (fun m n => m.1 < n.1) →
      rest.foldl (fun acc m => insertMember m.1 m.2 acc) sorted = sorted ++ rest from
    hfrom members [] h
  intro rest
  induction rest with
  | nil => simp
  | cons m rest ih =>
    intro sorted hrising
    have hlast : ∀ n ∈ sorted, n.1 < m.1 := fun n hn =>
      (List.pairwise_append.mp hrising).2.2 n hn m List.mem_cons_self
    rw [List.append_cons] at hrising ⊢
    rw [List.foldl_cons, insertMember_of_gt m.2 hlast, ih _ hrising]

theorem mem_of_mem_insertMember {key : String} {value : α} {members : List (String × α)} {m : String × α}
    (h : m ∈ insertMember key value members) : m = (key, value) ∨ m ∈ members := by
  induction members with
  | nil => exact .inl (List.mem_singleton.mp h)
  | cons n members ih =>
    rw [insertMember] at h
    split at h
    · exact (List.mem_cons.mp h).imp_right (List.mem_cons_of_mem n)
    · split at h
      · exact List.mem_cons.mp h
      · rcases List.mem_cons.mp h with rfl | h
        · exact .inr List.mem_cons_self
        · exact (ih h).imp_right (List.mem_cons_of_mem n)

theorem insertMember_rising {key : String} {value : α} {members : List (String × α)}
    (h : members.Pairwise fun m n => m.1 < n.1) :
    (insertMember key value members).Pairwise fun m n => m.1 < n.1 := by
  induction members with
  | nil => exact List.pairwise_singleton _ _
  | cons n members ih =>
    obtain ⟨hfirst, hrest⟩ := List.pairwise_cons.mp h
    rw [insertMember]
    split
    · next hsame => exact List.pairwise_cons.mpr ⟨hsame ▸ hfirst, hrest⟩
    · next hne =>
      split
      · next hless =>
        have hall : ∀ m ∈ members, key < m.1 := fun m hm => hless.trans (hfirst m hm)
        exact List.pairwise_cons.mpr ⟨List.forall_mem_cons.mpr ⟨hless, hall⟩, h⟩
      · next hnot =>
        refine List.pairwise_cons.mpr ⟨fun m hm => ?_, ih hrest⟩
        rcases mem_of_mem_insertMember hm with rfl | hm
        · exact lt_of_le_of_ne (not_lt.mp hnot) (Ne.symm hne)
        · exact hfirst m hm

theorem sortMembers_rising (members : List (String × α)) :
    (sortMembers members).Pairwise fun m n => m.1 < n.1 :=
  List.foldlRecOn members _ .nil fun _ h _ _ => insertMember_rising h

theorem mem_of_mem_sortMembers {members : List (String × α)} {m : String × α}
    (h : m ∈ sortMembers members) : m ∈ members := by
  suffices hall : ∀ m ∈ sortMembers members, m ∈ members from hall m h
  apply List.foldlRecOn (motive := fun sorted => ∀ m ∈ sorted, m ∈ members)
  · exact List.forall_mem_nil _
  · intro sorted hsorted n hn m hm
    rcases mem_of_mem_insertMember hm with rfl | hm
    · exact hn
    · exact hsorted m hm

end Sorted

/-- The tree itself, or its canonical form as a free-form value. -/
def IsFormOf (j c : Json) : Prop := c = j ∨ j.canonical? = some c

def MemberRel (P : Json → Json → Prop) (m n : String × Json) : Prop := m.1 = n.1 ∧ P m.2 n.2

theorem canonicalItems?_eq_some_iff {js cs : List Json} :
    canonicalItems? js = some cs ↔ List.Forall₂ (fun j c => canonical? j = some c) js cs := by
  induction js generalizing cs with
  | nil => cases cs <;> simp [canonicalItems?]
  | cons j js ih =>
    cases cs with
    | nil =>
      rw [canonicalItems?]
      split <;> simp
    | cons c cs =>
      rw [canonicalItems?, List.forall₂_cons, ← ih]
      cases canonical? j <;> cases canonicalItems? js <;> simp

theorem canonicalMembers?_eq_some_iff {ms cs : List (String × Json)} :
    canonicalMembers? ms = some cs ↔ List.Forall₂ (MemberRel fun j c => canonical? j = some c) ms cs := by
  induction ms generalizing cs with
  | nil => cases cs <;> simp [canonicalMembers?]
  | cons m ms ih =>
    cases cs with
    | nil =>
      rw [canonicalMembers?]
      split <;> simp
    | cons c cs =>
      rw [canonicalMembers?, List.forall₂_cons, ← ih]
      simp only [MemberRel]
      cases canonical? m.2 <;> cases canonicalMembers? ms <;> simp [Prod.ext_iff]

theorem canonicalItems?_isSome {js : List Json} (h : ∀ j ∈ js, ∃ c, canonical? j = some c) :
    ∃ cs, canonicalItems? js = some cs := by
  induction js with
  | nil => exact ⟨[], rfl⟩
  | cons j js ih =>
    obtain ⟨⟨c, hc⟩, hjs⟩ := List.forall_mem_cons.mp h
    obtain ⟨cs, hcs⟩ := ih hjs
    exact ⟨c :: cs, by rw [canonicalItems?, hc, hcs]⟩

theorem canonicalMembers?_isSome {ms : List (String × Json)} (h : ∀ m ∈ ms, ∃ c, canonical? m.2 = some c) :
    ∃ cs, canonicalMembers? ms = some cs := by
  induction ms with
  | nil => exact ⟨[], rfl⟩
  | cons m ms ih =>
    obtain ⟨⟨c, hc⟩, hms⟩ := List.forall_mem_cons.mp h
    obtain ⟨cs, hcs⟩ := ih hms
    exact ⟨(m.1, c) :: cs, by rw [canonicalMembers?, hc, hcs]⟩

theorem IsFormOf.arr {js : List Json} {c : Json} (h : IsFormOf (.arr js) c) :
    ∃ cs, c = .arr cs ∧ List.Forall₂ IsFormOf js cs := by
  rcases h with rfl | h
  · exact ⟨js, rfl, List.forall₂_same.mpr fun j _ => .inl rfl⟩
  · obtain ⟨cs, hcs, rfl⟩ := Option.map_eq_some_iff.mp h
    exact ⟨cs, rfl, (canonicalItems?_eq_some_iff.mp hcs).imp fun _ _ => .inr⟩

theorem MemberRel.keys_eq {P : Json → Json → Prop} {ms cs : List (String × Json)}
    (h : List.Forall₂ (MemberRel P) ms cs) : ms.map Prod.fst = cs.map Prod.fst := by
  induction h with
  | nil => rfl
  | cons h _ ih => rw [List.map_cons, List.map_cons, h.1, ih]

theorem MemberRel.exists_of_mem {P : Json → Json → Prop} {ms cs : List (String × Json)}
    (h : List.Forall₂ (MemberRel P) ms cs) {name : String} {j : Json} (hm : (name, j) ∈ ms) :
    ∃ c, P j c ∧ (name, c) ∈ cs := by
  induction h with
  | nil => cases hm
  | @cons m n ms cs h _ ih =>
    rcases List.mem_cons.mp hm with rfl | hm
    · obtain ⟨rfl, hvalue⟩ := h
      exact ⟨n.2, hvalue, List.mem_cons_self⟩
    · obtain ⟨c, hc, hmem⟩ := ih hm
      exact ⟨c, hc, List.mem_cons_of_mem n hmem⟩

theorem IsFormOf.obj {ms : List (String × Json)} {c : Json} (keys : (ms.map Prod.fst).Nodup)
    (h : IsFormOf (.obj ms) c) : ∃ cs, c = .obj cs ∧ (cs.map Prod.fst).Perm (ms.map Prod.fst) ∧
      ∀ {name j}, (name, j) ∈ ms → ∃ c, IsFormOf j c ∧ (name, c) ∈ cs := by
  rcases h with rfl | h
  · exact ⟨ms, rfl, .refl _, fun {name j} hm => ⟨j, .inl rfl, hm⟩⟩
  · obtain ⟨cs, hcs, rfl⟩ := Option.map_eq_some_iff.mp h
    have hall := canonicalMembers?_eq_some_iff.mp hcs
    have hkeys := MemberRel.keys_eq hall
    have hsorted : (sortMembers cs).Perm cs := sortMembers_perm (hkeys ▸ keys)
    refine ⟨sortMembers cs, rfl, hkeys ▸ hsorted.map Prod.fst, fun {name j} hm => ?_⟩
    obtain ⟨c, hc, hmem⟩ := MemberRel.exists_of_mem hall hm
    exact ⟨c, .inr hc, hsorted.mem_iff.mpr hmem⟩

section Records

variable {names : List String} {ms : List (String × Json)} {name : String} {j : Json}

theorem entryOf?_given (keys : (ms.map Prod.fst).Nodup) (h : (name, j) ∈ ms) :
    entryOf? ms name = some (.given j) := by
  rw [entryOf?, filter_key_eq keys h]

theorem entryOf?_omitted (h : name ∉ ms.map Prod.fst) : entryOf? ms name = some .omitted := by
  have hnone : ms.filter (·.1 == name) = [] := by
    rw [List.filter_eq_nil_iff]
    intro m hm hname
    exact h (eq_of_beq hname ▸ List.mem_map_of_mem hm)
  rw [entryOf?, hnone]

theorem record?_obj (keys : (ms.map Prod.fst).Nodup) (names : List String) :
    ∃ r, record? names (.obj ms) = some r ∧ ∀ name ∈ names, some (r.entry name) = entryOf? ms name := by
  have hentry : ∀ name, ∃ e, entryOf? ms name = some e := by
    intro name
    by_cases h : name ∈ ms.map Prod.fst
    · obtain ⟨m, hm, rfl⟩ := List.mem_map.mp h
      exact ⟨_, entryOf?_given keys hm⟩
    · exact ⟨_, entryOf?_omitted h⟩
  rw [record?]
  induction names with
  | nil => exact ⟨[], rfl, by simp⟩
  | cons n names ih =>
    obtain ⟨e, he⟩ := hentry n
    obtain ⟨r, hr, hall⟩ := ih
    refine ⟨(n, e) :: r, by simp [he, hr], ?_⟩
    intro name hname
    by_cases hsame : n = name
    · subst hsame
      simp [Record.entry, he]
    · have hrest := hall name ((List.mem_cons.mp hname).resolve_left (Ne.symm hsame))
      simpa [Record.entry, hsame] using hrest

/-- The record says what the members say, in one of the forms. -/
structure Record.Tells (r : Record) (names : List String) (ms : List (String × Json)) : Prop where
  given : ∀ {name j}, (name, j) ∈ ms → name ∈ names → ∃ c, IsFormOf j c ∧ r.entry name = .given c
  omitted : ∀ {name}, name ∉ ms.map Prod.fst → name ∈ names → r.entry name = .omitted

theorem record?_tells (keys : (ms.map Prod.fst).Nodup) (names : List String) {c : Json}
    (form : IsFormOf (.obj ms) c) : ∃ r, record? names c = some r ∧ r.Tells names ms := by
  obtain ⟨cs, rfl, hperm, hkept⟩ := form.obj keys
  have hnodup : (cs.map Prod.fst).Nodup := hperm.nodup_iff.mpr keys
  obtain ⟨r, hr, hentry⟩ := record?_obj hnodup names
  refine ⟨r, hr, fun {name j} hmember hname => ?_, fun {name} hfresh hname => ?_⟩
  · obtain ⟨c, hc, hmem⟩ := hkept hmember
    refine ⟨c, hc, Option.some.inj ?_⟩
    rw [hentry name hname, entryOf?_given hnodup hmem]
  · apply Option.some.inj
    rw [hentry name hname, entryOf?_omitted (mt hperm.mem_iff.mp hfresh)]

end Records

/-- A value as it is held: every part of it denotes something, and the keys of an object rise. -/
inductive IsFreeForm : Json → Prop where
  | null : IsFreeForm .null
  | bool (b : Bool) : IsFreeForm (.bool b)
  | int (i : Int) : IsFreeForm (.int i)
  | float (x : Float) : IsFreeForm (.float x)
  | str (s : String) : IsFreeForm (.str s)
  | arr {items : List Json} (parts : ∀ j ∈ items, IsFreeForm j) : IsFreeForm (.arr items)
  | obj {members : List (String × Json)} (rising : members.Pairwise fun m n => m.1 < n.1)
      (parts : ∀ m ∈ members, IsFreeForm m.2) : IsFreeForm (.obj members)

theorem IsFreeForm.canonical?_eq {j : Json} (h : IsFreeForm j) : j.canonical? = some j := by
  induction h with
  | null | bool | int | float | str => rfl
  | arr _ ih => rw [canonical?, canonicalItems?_eq_some_iff.mpr (List.forall₂_same.mpr ih), Option.map_some]
  | obj rising _ ih =>
    have hmembers := canonicalMembers?_eq_some_iff.mpr (List.forall₂_same.mpr fun m hm => ⟨rfl, ih m hm⟩)
    rw [canonical?, hmembers, Option.map_some, sortMembers_of_rising rising]

theorem isFreeForm_strings (items : List String) : IsFreeForm (.strings items) := by
  apply IsFreeForm.arr
  intro j hj
  obtain ⟨s, -, rfl⟩ := List.mem_map.mp hj
  exact .str s

mutual

theorem isFreeForm_of_canonical? : ∀ {j c : Json}, j.canonical? = some c → IsFreeForm c
  | .null, _, rfl => .null
  | .bool b, _, rfl => .bool b
  | .int i, _, rfl => .int i
  | .float x, _, rfl => .float x
  | .str s, _, rfl => .str s
  | .arr items, c, h => by
    obtain ⟨cs, hcs, rfl⟩ := Option.map_eq_some_iff.mp h
    exact .arr (isFreeForm_of_canonicalItems? hcs)
  | .obj members, c, h => by
    obtain ⟨cs, hcs, rfl⟩ := Option.map_eq_some_iff.mp h
    have hparts := isFreeForm_of_canonicalMembers? hcs
    exact .obj (sortMembers_rising cs) fun m hm => hparts m (mem_of_mem_sortMembers hm)

theorem isFreeForm_of_canonicalItems? : ∀ {js cs : List Json}, canonicalItems? js = some cs →
    ∀ c ∈ cs, IsFreeForm c
  | [], _, rfl => List.forall_mem_nil _
  | j :: js, cs, h => by
    obtain ⟨c, cs, hc, hcs, rfl⟩ := List.forall₂_cons_left_iff.mp (canonicalItems?_eq_some_iff.mp h)
    have hrest := isFreeForm_of_canonicalItems? (canonicalItems?_eq_some_iff.mpr hcs)
    exact List.forall_mem_cons.mpr ⟨isFreeForm_of_canonical? hc, hrest⟩

theorem isFreeForm_of_canonicalMembers? : ∀ {ms cs : List (String × Json)}, canonicalMembers? ms = some cs →
    ∀ c ∈ cs, IsFreeForm c.2
  | [], _, rfl => List.forall_mem_nil _
  | (k, j) :: ms, cs, h => by
    obtain ⟨c, cs, hc, hcs, rfl⟩ := List.forall₂_cons_left_iff.mp (canonicalMembers?_eq_some_iff.mp h)
    have hrest := isFreeForm_of_canonicalMembers? (canonicalMembers?_eq_some_iff.mpr hcs)
    exact List.forall_mem_cons.mpr ⟨isFreeForm_of_canonical? hc.2, hrest⟩

end

def IsKept (j : Json) : Prop := ∃ c, j.canonical? = some c

@[simp] theorem isKept_null : IsKept .null := ⟨_, rfl⟩

@[simp] theorem isKept_bool (b : Bool) : IsKept (.bool b) := ⟨_, rfl⟩

@[simp] theorem isKept_int (i : Int) : IsKept (.int i) := ⟨_, rfl⟩

@[simp] theorem isKept_word (n : UInt64) : IsKept (.word n) := ⟨_, rfl⟩

@[simp] theorem isKept_str (s : String) : IsKept (.str s) := ⟨_, rfl⟩

theorem isKept_arr {js : List Json} (h : ∀ j ∈ js, IsKept j) : IsKept (.arr js) := by
  obtain ⟨cs, hcs⟩ := canonicalItems?_isSome h
  exact ⟨.arr cs, by rw [canonical?, hcs, Option.map_some]⟩

theorem isKept_obj {ms : List (String × Json)} (h : ∀ m ∈ ms, IsKept m.2) : IsKept (.obj ms) := by
  obtain ⟨cs, hcs⟩ := canonicalMembers?_isSome h
  exact ⟨.obj (sortMembers cs), by rw [canonical?, hcs, Option.map_some]⟩

@[simp] theorem isKept_strings (items : List String) : IsKept (.strings items) := by
  apply isKept_arr
  simp

@[simp] theorem isKept_strOrNull (o : Option String) : IsKept (.strOrNull o) := by
  cases o with
  | none => exact isKept_null
  | some s => exact isKept_str s

/-- The tree may be kept, and is read as `a` in both its forms. -/
structure ReadsAs {α : Type} (read : Json → Option α) (a : α) (j : Json) : Prop where
  kept : IsKept j
  forms : ∀ {c}, IsFormOf j c → read c = some a

namespace ReadsAs

variable {α : Type} {read : Json → Option α} {a : α} {j : Json}

/-- A tree that is its own canonical form has no other. -/
theorem of_canonical (canonical : j.canonical? = some j) (h : read j = some a) : ReadsAs read a j where
  kept := ⟨j, canonical⟩
  forms := by
    rintro c (rfl | hc)
    · exact h
    · rw [canonical] at hc
      cases hc
      exact h

theorem text (s : String) : ReadsAs text? s (.str s) := .of_canonical rfl rfl

theorem word (n : UInt64) : ReadsAs word? n (.word n) := .of_canonical rfl (word?_word n)

theorem bool (b : Bool) : ReadsAs bool? b (.bool b) := .of_canonical rfl rfl

theorem signed (t : Int64) : ReadsAs signed? t (.int t.toInt) := by
  refine .of_canonical rfl ?_
  rw [signed?, if_pos ⟨t.le_toInt, t.toInt_lt⟩, Int64.ofInt_toInt]

theorem mapM_forms {form : α → Json} {items : List α} (h : ∀ a ∈ items, ReadsAs read a (form a)) {cs : List Json}
    (hall : List.Forall₂ IsFormOf (items.map form) cs) : cs.mapM read = some items := by
  induction items generalizing cs with
  | nil =>
    cases hall
    rfl
  | cons a items ih =>
    obtain ⟨c, cs, hc, hcs, rfl⟩ := List.forall₂_cons_left_iff.mp hall
    obtain ⟨hfirst, hrest⟩ := List.forall_mem_cons.mp h
    simp [hfirst.forms hc, ih hrest hcs]

theorem list {form : α → Json} {items : List α} (h : ∀ a ∈ items, ReadsAs read a (form a)) :
    ReadsAs (list? read) items (.arr (items.map form)) where
  kept := isKept_arr (List.forall_mem_map.mpr fun a ha => (h a ha).kept)
  forms hc := by
    obtain ⟨cs, rfl, hall⟩ := hc.arr
    exact mapM_forms h hall

theorem texts (items : List String) : ReadsAs (list? text?) items (.strings items) := list fun s _ => text s

theorem given (refuses : read .null = none) (h : ReadsAs read a j) : ReadsAs (·.orNull? read) (some a) j where
  kept := h.kept
  forms := by
    intro c hc
    have hread := h.forms hc
    rw [orNull?, hread, Option.map_some]
    rintro rfl
    cases refuses.symm.trans hread

theorem option {form : α → Json} (refuses : read .null = none) {o : Option α}
    (h : ∀ a ∈ o, ReadsAs read a (form a)) : ReadsAs (·.orNull? read) o ((o.map form).getD .null) := by
  cases o with
  | none => exact .of_canonical rfl rfl
  | some a => exact given refuses (h a rfl)

theorem textOrNull (o : Option String) : ReadsAs (·.orNull? text?) o (.strOrNull o) := by
  cases o with
  | none => exact .of_canonical rfl rfl
  | some s => exact given rfl (text s)

theorem wordOrNull (o : Option UInt64) : ReadsAs (·.orNull? word?) o ((o.map Json.word).getD .null) :=
  option rfl fun n _ => word n

/-- An object is read as what is built from any record that tells its members. -/
theorem record {names : List String} {ms : List (String × Json)} {build : Record → Option α}
    (keys : (ms.map Prod.fst).Nodup) (kept : ∀ m ∈ ms, IsKept m.2)
    (h : ∀ r : Record, r.Tells names ms → build r = some a) :
    ReadsAs (fun j => (j.record? names).bind build) a (.obj ms) where
  kept := isKept_obj kept
  forms hc := by
    obtain ⟨r, hr, htells⟩ := record?_tells keys names hc
    rw [hr, Option.bind_some, h r htells]

/-- Different values are told apart by their trees, and even by their canonical forms. -/
theorem eq_of_canonical {b : α} {i : Json} (ha : ReadsAs read a i) (hb : ReadsAs read b j)
    (same : i.canonical? = j.canonical?) : a = b := by
  obtain ⟨c, hc⟩ := ha.kept
  have hread := ha.forms (.inr hc)
  rw [hb.forms (.inr (same ▸ hc))] at hread
  exact (Option.some.inj hread).symm

end ReadsAs

/-- What `write` writes of the values that are `held`, `read` reads back. -/
structure Faithful {α : Type} (write : α → Json) (read : Json → Option α) (held : α → Prop) : Prop where
  written : ∀ a, held a → read (write a) = some a
  /-- From the free-form value that the tree is kept as. -/
  kept : ∀ a, held a → ∃ c, (write a).canonical? = some c ∧ c.IsFreeForm ∧ read c = some a
  distinct : ∀ a b, held a → held b → (write a).canonical? = (write b).canonical? → a = b

theorem Faithful.of_readsAs {α : Type} {write : α → Json} {read : Json → Option α} {held : α → Prop}
    (h : ∀ a, held a → ReadsAs read a (write a)) : Faithful write read held where
  written a ha := (h a ha).forms (.inl rfl)
  kept a ha := by
    obtain ⟨c, hc⟩ := (h a ha).kept
    exact ⟨c, hc, isFreeForm_of_canonical? hc, (h a ha).forms (.inr hc)⟩
  distinct a b ha hb same := (h a ha).eq_of_canonical (h b hb) same

namespace Record.Tells

variable {α : Type} {r : Record} {names : List String} {ms : List (String × Json)} {j : Json}
  {value : Json → Option α} {a : α}

theorem required (h : r.Tells names ms) (name : String) (reads : ReadsAs value a j)
    (member : (name, j) ∈ ms := by simp) (known : name ∈ names := by simp) :
    r.required name value = some a := by
  obtain ⟨c, hc, hentry⟩ := h.given member known
  rw [Record.required, hentry]
  exact reads.forms hc

theorem optional {o : Option α} (h : r.Tells names ms) (name : String) (reads : ReadsAs (·.orNull? value) o j)
    (member : (name, j) ∈ ms := by simp) (known : name ∈ names := by simp) :
    r.optional name value = some o := by
  obtain ⟨c, hc, hentry⟩ := h.given member known
  rw [Record.optional, hentry]
  exact reads.forms hc

theorem defaulted (h : r.Tells names ms) (name : String) (default : α) (reads : ReadsAs value a j)
    (member : (name, j) ∈ ms := by simp) (known : name ∈ names := by simp) :
    r.defaulted name default value = some a := by
  obtain ⟨c, hc, hentry⟩ := h.given member known
  rw [Record.defaulted, hentry]
  exact reads.forms hc

theorem nullable {o : Option α} (h : r.Tells names ms) (name : String) (reads : ReadsAs (·.orNull? value) o j)
    (member : (name, j) ∈ ms := by simp) (known : name ∈ names := by simp) :
    r.nullable name value = some o :=
  h.defaulted name none reads member known

theorem nullable_skipped {o : Option α} {form : α → Json} (h : r.Tells names ms) (name : String)
    (refuses : value .null = none) (reads : ∀ a ∈ o, ReadsAs value a (form a))
    (member : ∀ a, o = some a → (name, form a) ∈ ms) (fresh : o = none → name ∉ ms.map Prod.fst)
    (known : name ∈ names := by simp) : r.nullable name value = some o := by
  cases o with
  | none => rw [Record.nullable, Record.defaulted, h.omitted (fresh rfl) known]
  | some a => exact h.nullable name (.given refuses (reads a rfl)) (member a rfl) known

end Record.Tells

end ChainFeed.Json
