import ChainFeed.Json.Basic
import ChainFeed.Text.Numeral

/-!
# YAML trees

A scalar is kept as it is written: without quotes it may say a number, a truth value or null, and it
is its own text where a text is wanted. A mapping keeps its members in the order of the text,
repetitions included, because a record refuses a repeated field.
-/

namespace ChainFeed

inductive Yaml where
  | plain (text : String)
  /-- What a scalar between quotes says. -/
  | quoted (text : String)
  | sequence (items : List Yaml)
  | mapping (members : List (String × Yaml))
  deriving Inhabited

namespace Yaml

def text? : Yaml → Option String
  | .plain s => some s
  | .quoted s => some s
  | _ => none

/-- Quotes make a text of a truth value. -/
def bool? : Yaml → Option Bool
  | .plain s => if s = "true" then some true else if s = "false" then some false else none
  | _ => none

def natBelow? (size : Nat) : Yaml → Option Nat
  | .plain s => (Text.natural? 10 s.toList).filter (· < size)
  | _ => none

def word? (y : Yaml) : Option UInt64 := (y.natBelow? UInt64.size).map UInt64.ofNat

def word32? (y : Yaml) : Option UInt32 := (y.natBelow? UInt32.size).map UInt32.ofNat

def orNull? {α : Type} (value : Yaml → Option α) : Yaml → Option (Option α)
  | .plain s => if s = "null" then some none else (value (.plain s)).map some
  | y => (value y).map some

def list? {α : Type} (item : Yaml → Option α) : Yaml → Option (List α)
  | .sequence items => items.mapM item
  | _ => none

/-- The values of a mapping under their keys, in the order of the keys; the last of each key, but
every value has to be read. -/
def table? {α : Type} (value : Yaml → Option α) : Yaml → Option (List (String × α))
  | .mapping members => (members.mapM fun m => (value m.2).map (m.1, ·)).map Json.sortMembers
  | _ => none

abbrev Record := List (String × Yaml)

def record? : Yaml → Option Record
  | .mapping members => some members
  | _ => none

namespace Record

def field? (r : Record) (name : String) : Option (Option Yaml) :=
  match r.filter (·.1 == name) with
  | [] => some none
  | [m] => some (some m.2)
  | _ => none

def required {α : Type} (r : Record) (name : String) (value : Yaml → Option α) : Option α :=
  match r.field? name with
  | some (some y) => value y
  | _ => none

/-- A field with a default; null is no substitute for leaving it out. -/
def defaulted {α : Type} (r : Record) (name : String) (default : α) (value : Yaml → Option α) :
    Option α :=
  match r.field? name with
  | some (some y) => value y
  | some none => some default
  | none => none

def nullable {α : Type} (r : Record) (name : String) (value : Yaml → Option α) : Option (Option α) :=
  r.defaulted name none (·.orNull? value)

end Record

end Yaml

end ChainFeed
