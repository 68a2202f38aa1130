/-!
# JSON trees

A tree keeps the members of an object in the order of the text, repetitions included, because a
record refuses a repeated field. A free-form value is canonical: of a repeated key the last member
counts, and members stand in the order of their keys.
-/

namespace ChainFeed

inductive Json where
  | null
  | bool (value : Bool)
  | int (value : Int)
  | float (value : Float)
  | str (value : String)
  | arr (items : List Json)
  | obj (members : List (String × Json))
  /-- A part that follows the grammar but denotes nothing: a number out of range, half a surrogate
  pair, or nesting beyond the limit. It may be skipped but not kept. -/
  | unreadable
  deriving Inhabited

namespace Json

def nat (n : Nat) : Json := .int n

def word (n : UInt64) : Json := .int n.toNat

def strOrNull : Option String → Json
  | some s => .str s
  | none => .null

def strings (items : List String) : Json := .arr (items.map .str)

def insertMember {α : Type} (key : String) (value : α) : List (String × α) → List (String × α)
  | [] => [(key, value)]
  | (k, v) :: rest =>
    if key = k then (key, value) :: rest
    else if key < k then (key, value) :: (k, v) :: rest
    else (k, v) :: insertMember key value rest

/-- Members in the order of their keys, the last of each key. -/
def sortMembers {α : Type} (members : List (String × α)) : List (String × α) :=
  members.foldl (fun acc m => insertMember m.1 m.2 acc) []

theorem insertMember_of_lt {α : Type} {key : String} {members : List (String × α)} (a : α)
    (h : ∀ m ∈ members, key < m.1) : insertMember key a members = (key, a) :: members := by
  cases members with
  | nil => rfl
  | cons m members =>
    have hless := h m List.mem_cons_self
    have hne : key ≠ m.1 := fun hsame => String.lt_irrefl key (hsame ▸ hless)
    rw [insertMember, if_neg hne, if_pos hless]

theorem sortMembers_of_falling {α : Type} {members : List (String × α)}
    (h : members.Pairwise fun m n => n.1 < m.1) : sortMembers members = members.reverse := by
  have hfold : ∀ later : List (String × α), (∀ m ∈ members, ∀ n ∈ later, m.1 < n.1) →
      members.foldl (fun acc m => insertMember m.1 m.2 acc) later = members.reverse ++ later := by
    induction members with
    | nil => exact fun _ _ => rfl
    | cons m members ih =>
      obtain ⟨hfirst, hrest⟩ := List.pairwise_cons.mp h
      intro later hlater
      obtain ⟨hm, hmembers⟩ := List.forall_mem_cons.mp hlater
      rw [List.foldl_cons, insertMember_of_lt m.2 hm, ih hrest, List.reverse_cons, List.append_assoc]
      · rfl
      · exact fun n hn => List.forall_mem_cons.mpr ⟨hfirst n hn, hmembers n hn⟩
  rw [sortMembers, hfold [] (fun _ _ => List.forall_mem_nil _), List.append_nil]

def object (members : List (String × Json)) : Json := .obj (sortMembers members)

mutual

/-- The canonical form of a free-form value. -/
def canonical? : Json → Option Json
  | .null => some .null
  | .bool b => some (.bool b)
  | .int i => some (.int i)
  | .float x => some (.float x)
  | .str s => some (.str s)
  | .arr items => (canonicalItems? items).map .arr
  | .obj members => (canonicalMembers? members).map fun ms => .obj (sortMembers ms)
  | .unreadable => none

def canonicalItems? : List Json → Option (List Json)
  | [] => some []
  | j :: js =>
    match canonical? j, canonicalItems? js with
    | some j', some js' => some (j' :: js')
    | _, _ => none

def canonicalMembers? : List (String × Json) → Option (List (String × Json))
  | [] => some []
  | (k, j) :: ms =>
    match canonical? j, canonicalMembers? ms with
    | some j', some ms' => some ((k, j') :: ms')
    | _, _ => none

end

mutual

/-- Equality of trees; numbers of different kinds differ, floats compare as numbers. -/
def same : Json → Json → Bool
  | .null, .null => true
  | .bool a, .bool b => a == b
  | .int a, .int b => a == b
  | .float a, .float b => a == b
  | .str a, .str b => a == b
  | .arr a, .arr b => sameItems a b
  | .obj a, .obj b => sameMembers a b
  | _, _ => false

def sameItems : List Json → List Json → Bool
  | [], [] => true
  | a :: as, b :: bs => same a b && sameItems as bs
  | _, _ => false

def sameMembers : List (String × Json) → List (String × Json) → Bool
  | [], [] => true
  | (k, a) :: as, (l, b) :: bs => k == l && same a b && sameMembers as bs
  | _, _ => false

end

instance : BEq Json := ⟨same⟩

def isNull : Json → Bool
  | .null => true
  | _ => false

def text? : Json → Option String
  | .str s => some s
  | _ => none

def bool? : Json → Option Bool
  | .bool b => some b
  | _ => none

def natBelow? (size : Nat) : Json → Option Nat
  | .int i => if 0 ≤ i ∧ i < size then some i.toNat else none
  | _ => none

def word? (j : Json) : Option UInt64 := (j.natBelow? UInt64.size).map UInt64.ofNat

def word32? (j : Json) : Option UInt32 := (j.natBelow? UInt32.size).map UInt32.ofNat

def signed? : Json → Option Int64
  | .int i => if -0x8000000000000000 ≤ i ∧ i < 0x8000000000000000 then some (Int64.ofInt i) else none
  | _ => none

def list? (item : Json → Option α) : Json → Option (List α)
  | .arr items => items.mapM item
  | _ => none

def orNull? (value : Json → Option α) : Json → Option (Option α)
  | .null => some none
  | j => (value j).map some

/-- The member under `key`, the last one if it is repeated. -/
def get? (j : Json) (key : String) : Option Json :=
  match j with
  | .obj members => (members.reverse.find? (·.1 == key)).map (·.2)
  | _ => none

@[simp] theorem text?_str (s : String) : (Json.str s).text? = some s := rfl

theorem toNat_ofNat_word {n : Nat} (h : n < UInt64.size) : (UInt64.ofNat n).toNat = n :=
  UInt64.toNat_ofNat_of_lt' h

@[simp] theorem word?_word (n : UInt64) : (Json.word n).word? = some n := by
  have h : (0 : Int) ≤ (n.toNat : Int) ∧ (n.toNat : Int) < (UInt64.size : Nat) :=
    ⟨Int.natCast_nonneg _, Int.ofNat_lt.mpr n.toNat_lt⟩
  show ((if (0 : Int) ≤ (n.toNat : Int) ∧ (n.toNat : Int) < (UInt64.size : Nat) then
    some (n.toNat : Int).toNat else none).map UInt64.ofNat) = some n
  rw [if_pos h, Int.toNat_natCast, Option.map_some, UInt64.ofNat_toNat]

end Json

end ChainFeed
