import ChainFeed.Json.Basic
import ChainFeed.Text.Decimal
import ChainFeed.Text.Numeral

/-!
# Reading JSON text

The reader accepts exactly the JSON grammar. What follows the grammar but denotes nothing becomes an
unreadable part of the tree, so that a record can skip it: a number out of range, a string with half
a surrogate pair, an object with such a key, and nesting deeper than the limit.
-/

namespace ChainFeed.Json

/-- How deep arrays and objects may nest in what is kept. -/
def maxDepth : Nat := 127

def isSpace (c : Char) : Bool := c == ' ' || c == '\n' || c == '\t' || c == '\r'

def skipSpace (cs : List Char) : List Char := cs.dropWhile isSpace

inductive Piece where
  | char (c : Char)
  | unit (code : Nat)

def shortEscape? : Char → Option Char
  | '"' => some '"'
  | '\\' => some '\\'
  | '/' => some '/'
  | 'b' => some '\x08'
  | 'f' => some '\x0c'
  | 'n' => some '\n'
  | 'r' => some '\r'
  | 't' => some '\t'
  | _ => none

def pieces? : List Char → Option (List Piece × List Char)
  | [] => none
  | '"' :: cs => some ([], cs)
  | '\\' :: 'u' :: a :: b :: c :: d :: cs =>
    match Text.natural? 16 [a, b, c, d], pieces? cs with
    | some code, some (ps, rest) => some (.unit code :: ps, rest)
    | _, _ => none
  | '\\' :: e :: cs =>
    match shortEscape? e, pieces? cs with
    | some c, some (ps, rest) => some (.char c :: ps, rest)
    | _, _ => none
  | c :: cs =>
    if c.toNat < 0x20 || c == '\\' then none
    else (pieces? cs).map fun (ps, rest) => (.char c :: ps, rest)

def isHighUnit (n : Nat) : Bool := 0xD800 ≤ n && n < 0xDC00

def isLowUnit (n : Nat) : Bool := 0xDC00 ≤ n && n < 0xE000

def joinPieces? : List Piece → Option (List Char)
  | [] => some []
  | .char c :: ps => (joinPieces? ps).map (c :: ·)
  | .unit a :: .unit b :: ps =>
    if isHighUnit a then
      if isLowUnit b then
        (joinPieces? ps).map (Char.ofNat (0x10000 + (a - 0xD800) * 0x400 + (b - 0xDC00)) :: ·)
      else none
    else if isLowUnit a then none
    else (joinPieces? (.unit b :: ps)).map (Char.ofNat a :: ·)
  | .unit a :: ps =>
    if isHighUnit a || isLowUnit a then none else (joinPieces? ps).map (Char.ofNat a :: ·)

def quotedText? (cs : List Char) : Option (Option String × List Char) :=
  (pieces? cs).map fun (ps, rest) => ((joinPieces? ps).map String.ofList, rest)

structure Numeral where
  negative : Bool
  whole : List Char
  fraction : List Char
  exponent : Option (Bool × List Char)

def digits (cs : List Char) : List Char × List Char := cs.span Char.isDigit

def fraction? : List Char → Option (List Char × List Char)
  | '.' :: cs =>
    match digits cs with
    | ([], _) => none
    | (ds, rest) => some (ds, rest)
  | cs => some ([], cs)

def exponent? : List Char → Option (Option (Bool × List Char) × List Char)
  | [] => some (none, [])
  | c :: cs =>
    if c == 'e' || c == 'E' then
      let (negative, cs) := match cs with
        | '+' :: r => (false, r)
        | '-' :: r => (true, r)
        | r => (false, r)
      match digits cs with
      | ([], _) => none
      | (ds, rest) => some (some (negative, ds), rest)
    else some (none, c :: cs)

def whole? : List Char → Option (List Char × List Char)
  | '0' :: cs => some (['0'], cs)
  | cs =>
    match digits cs with
    | ([], _) => none
    | (ds, rest) => some (ds, rest)

def numeral? (cs : List Char) : Option (Numeral × List Char) :=
  let (negative, cs) := match cs with
    | '-' :: r => (true, r)
    | r => (false, r)
  match whole? cs with
  | none => none
  | some (whole, cs) =>
    match fraction? cs with
    | none => none
    | some (fraction, cs) =>
      match exponent? cs with
      | none => none
      | some (exponent, rest) => some (⟨negative, whole, fraction, exponent⟩, rest)

def digitsValue (cs : List Char) : Nat := (Text.digitsFrom? 10 cs 0).getD 0

/-- A whole number in range is an integer, unless it is minus zero; everything else is a double. -/
def Numeral.toJson (n : Numeral) : Json :=
  let exponent : Int := match n.exponent with
    | some (negative, ds) => if negative then -(digitsValue ds : Int) else digitsValue ds
    | none => 0
  let double := match Text.Decimal.double? n.negative n.whole n.fraction exponent with
    | some x => .float x
    | none => .unreadable
  if n.fraction.isEmpty && n.exponent.isNone then
    let value := digitsValue n.whole
    if n.negative then (if 0 < value ∧ value ≤ 0x8000000000000000 then .int (-(value : Int)) else double)
    else if value < UInt64.size then .int value else double
  else double

/-- The tree of an object with the members `ms`, some of whose keys may denote nothing. -/
def ofMembers (ms : List (Option String × Json)) : Json :=
  match ms.mapM (fun m => m.1.map (·, m.2)) with
  | some members => .obj members
  | none => .unreadable

def within (room : Nat) (j : Json) : Json := if room = 0 then .unreadable else j

def afterWord? : List Char → List Char → Option (List Char)
  | [], cs => some cs
  | w :: ws, c :: cs => if w = c then afterWord? ws cs else none
  | _ :: _, [] => none

mutual

/-- Reads one tree; `fuel` bounds the steps and `room` the levels left for containers. -/
def tree? : Nat → Nat → List Char → Option (Json × List Char)
  | 0, _, _ => none
  | fuel + 1, room, cs =>
    match skipSpace cs with
    | [] => none
    | c :: rest =>
      if c = '"' then (quotedText? rest).map fun (s, r) => ((s.map .str).getD .unreadable, r)
      else if c = '[' then
        match skipSpace rest with
        | ']' :: r => some (within room (.arr []), r)
        | r => (items? fuel (room - 1) r).map fun (js, r) => (within room (.arr js), r)
      else if c = '\x7b' then
        match skipSpace rest with
        | '\x7d' :: r => some (within room (.obj []), r)
        | r => (members? fuel (room - 1) r).map fun (ms, r) => (within room (ofMembers ms), r)
      else if c = 'n' then (afterWord? ['u', 'l', 'l'] rest).map (.null, ·)
      else if c = 't' then (afterWord? ['r', 'u', 'e'] rest).map (.bool true, ·)
      else if c = 'f' then (afterWord? ['a', 'l', 's', 'e'] rest).map (.bool false, ·)
      else (numeral? (c :: rest)).map fun (n, r) => (n.toJson, r)

def items? : Nat → Nat → List Char → Option (List Json × List Char)
  | 0, _, _ => none
  | fuel + 1, room, cs =>
    match tree? fuel room cs with
    | none => none
    | some (j, rest) =>
      match skipSpace rest with
      | ']' :: r => some ([j], r)
      | ',' :: r => (items? fuel room r).map fun (js, r) => (j :: js, r)
      | _ => none

def members? : Nat → Nat → List Char → Option (List (Option String × Json) × List Char)
  | 0, _, _ => none
  | fuel + 1, room, cs =>
    match skipSpace cs with
    | '"' :: rest =>
      match quotedText? rest with
      | none => none
      | some (key, rest) =>
        match skipSpace rest with
        | ':' :: rest =>
          match tree? fuel room rest with
          | none => none
          | some (j, rest) =>
            match skipSpace rest with
            | '\x7d' :: r => some ([(key, j)], r)
            | ',' :: r => (members? fuel room r).map fun (ms, r) => ((key, j) :: ms, r)
            | _ => none
        | _ => none
    | _ => none

end

/-- The tree of a whole text; every step of the reader consumes a character, so twice the length is
fuel enough. -/
def read? (text : String) : Option Json :=
  let cs := text.toList
  match tree? (2 * cs.length + 2) maxDepth cs with
  | some (j, rest) => if (skipSpace rest).isEmpty then some j else none
  | none => none

def readValue? (text : String) : Option Json := (read? text).bind canonical?

end ChainFeed.Json
