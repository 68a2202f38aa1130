import ChainFeed.Json.Basic

/-!
# Records

A record is written as an object, or as the list of its fields in the order they are declared. Unknown
members are skipped and a repeated known member is refused. A list may end early, but then only
fields with a default may be missing.
-/

namespace ChainFeed.Json

inductive Entry where
  | given (value : Json)
  /-- The object has no such member. -/
  | omitted
  /-- The list ended before the field. -/
  | cut

abbrev Record := List (String × Entry)

/-- What an object says about `name`; `none` when it says it twice. -/
def entryOf? (members : List (String × Json)) (name : String) : Option Entry :=
  match members.filter (·.1 == name) with
  | [] => some .omitted
  | [m] => some (.given m.2)
  | _ => none

def entriesOfItems? : List String → List Json → Option Record
  | [], [] => some []
  | [], _ :: _ => none
  | n :: ns, [] => (entriesOfItems? ns []).map ((n, .cut) :: ·)
  | n :: ns, j :: js => (entriesOfItems? ns js).map ((n, .given j) :: ·)

def record? (names : List String) : Json → Option Record
  | .obj members => names.mapM fun n => (entryOf? members n).map (n, ·)
  | .arr items => entriesOfItems? names items
  | _ => none

namespace Record

def entry (r : Record) (name : String) : Entry :=
  match r.find? (·.1 == name) with
  | some (_, e) => e
  | none => .omitted

def required (r : Record) (name : String) (value : Json → Option α) : Option α :=
  match r.entry name with
  | .given j => value j
  | _ => none

def optional (r : Record) (name : String) (value : Json → Option α) : Option (Option α) :=
  match r.entry name with
  | .given j => j.orNull? value
  | .omitted => some none
  | .cut => none

/-- A field with a default; null is no substitute for leaving it out. -/
def defaulted (r : Record) (name : String) (default : α) (value : Json → Option α) : Option α :=
  match r.entry name with
  | .given j => value j
  | _ => some default

/-- A field that may be left out of an object or a list, or be null. -/
def nullable (r : Record) (name : String) (value : Json → Option α) : Option (Option α) :=
  r.defaulted name none (·.orNull? value)

end Record

/-- The name of a variant without data: a string, or an object that maps it to null. -/
def variant? : Json → Option String
  | .str s => some s
  | .obj [(s, .null)] => some s
  | _ => none

end ChainFeed.Json
