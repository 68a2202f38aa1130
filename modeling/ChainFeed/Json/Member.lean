import ChainFeed.Json.Basic

/-!
# Members of objects

Reading an object member by member, where null says the same as leaving a member out.
-/

namespace ChainFeed.Json

def given? (j : Json) (name : String) : Option Json := (j.get? name).filter fun v => !v.isNull

def optionalAt {α : Type} (j : Json) (name : String) (read : Json → Option α) : Option (Option α) :=
  match j.given? name with
  | some v => (read v).map some
  | none => some none

def defaultAt {α : Type} (j : Json) (name : String) (default : α) (read : Json → Option α) : Option α :=
  (j.optionalAt name read).map (·.getD default)

def nat? (j : Json) : Option Nat := j.word?.map UInt64.toNat

def textAt (j : Json) (name : String) : Option String := (j.get? name).bind text?

def wordAt (j : Json) (name : String) : Option UInt64 := (j.get? name).bind word?

def natAt (j : Json) (name : String) : Option Nat := (j.get? name).bind nat?

/-- A truth value, false when it is missing. -/
def flagAt (j : Json) (name : String) : Option Bool := j.defaultAt name false bool?

def itemsAt {α : Type} (j : Json) (name : String) (item : Json → Option α) : Option (List α) :=
  j.defaultAt name [] (list? item)

def textsAt (j : Json) (name : String) : Option (List String) := j.itemsAt name text?

def wordsAt (j : Json) (name : String) : Option (List UInt64) := j.itemsAt name word?

end ChainFeed.Json
