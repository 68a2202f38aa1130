import ChainFeed.Json.Basic
import ChainFeed.Text.Decimal
import ChainFeed.Text.Numeral

/-!
# Printing JSON text

Trees are printed without blanks, members in the order of the tree. Quote, backslash and the control
characters below the space are escaped; everything else is written as it is.
-/

namespace ChainFeed.Json

def charForm (c : Char) : List Char :=
  if c = '"' then ['\\', '"']
  else if c = '\\' then ['\\', '\\']
  else if c = '\x08' then ['\\', 'b']
  else if c = '\x0c' then ['\\', 'f']
  else if c = '\n' then ['\\', 'n']
  else if c = '\r' then ['\\', 'r']
  else if c = '\t' then ['\\', 't']
  else if c.toNat < 0x20 then
    ['\\', 'u', '0', '0', Text.hexDigit (c.toNat / 16), Text.hexDigit (c.toNat % 16)]
  else [c]

def textForm (s : String) : List Char := '"' :: s.toList.flatMap charForm ++ ['"']

mutual

def form : Json → List Char
  | .null => ['n', 'u', 'l', 'l']
  | .bool true => ['t', 'r', 'u', 'e']
  | .bool false => ['f', 'a', 'l', 's', 'e']
  | .int i => (toString i).toList
  | .float x => (Text.Decimal.render x).toList
  | .str s => textForm s
  | .arr [] => ['[', ']']
  | .arr (j :: js) => '[' :: form j ++ itemsForm js
  | .obj [] => ['\x7b', '\x7d']
  | .obj ((k, j) :: ms) => '\x7b' :: textForm k ++ ':' :: form j ++ membersForm ms
  | .unreadable => ['n', 'u', 'l', 'l']

def itemsForm : List Json → List Char
  | [] => [']']
  | j :: js => ',' :: form j ++ itemsForm js

def membersForm : List (String × Json) → List Char
  | [] => ['\x7d']
  | (k, j) :: ms => ',' :: textForm k ++ ':' :: form j ++ membersForm ms

end

def render (j : Json) : String := String.ofList (form j)

end ChainFeed.Json
