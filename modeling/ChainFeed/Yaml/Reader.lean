import ChainFeed.Yaml.Basic
import ChainFeed.Yaml.Quoted

/-!
# Reading YAML text

Of YAML, the texts that are also JSON are read here. YAML has rules of its own for them: some characters
may stand in no text, a tab may not begin a line outside of brackets, lines between quotes are
folded, and a key stands on one line with its colon and is not too long.
-/

namespace ChainFeed.Yaml

def isAllowed (c : Char) : Bool :=
  let n := c.toNat
  n == 0x09 || n == 0x0A || n == 0x0D || (0x20 ≤ n && n < 0x7F) || n == 0x85 ||
    (0xA0 ≤ n && n ≤ 0xFFFD) || 0x10000 ≤ n

/-- The most bytes from the opening quote of a key up to its colon. -/
def maxKey : Nat := 1024

def byteCount (cs : List Char) : Nat := cs.foldl (fun n c => n + c.utf8Size) 0

def isTabOrSpace (c : Char) : Bool := c == ' ' || c == '\t'

def key? (cs : List Char) : Option (String × List Char) :=
  match upToQuote? cs with
  | none => none
  | some (inner, rest) =>
    match rest.span isTabOrSpace with
    | (blanks, ':' :: rest) =>
      if inner.any isBreak || maxKey < byteCount inner + 2 + blanks.length then none
      else (quotedText? inner).map (·, rest)
    | _ => none

def endsPlain (c : Char) : Bool := Json.isSpace c || c == ',' || c == ']' || c == '\x7d'

def isPlain (word : List Char) : Bool :=
  [['n', 'u', 'l', 'l'], ['t', 'r', 'u', 'e'], ['f', 'a', 'l', 's', 'e']].contains word ||
    match Json.numeral? word with
    | some (_, []) => true
    | _ => false

def plain? (cs : List Char) : Option (Yaml × List Char) :=
  let (word, rest) := cs.span (!endsPlain ·)
  if isPlain word then some (.plain (String.ofList word), rest) else none

mutual

def tree? : Nat → List Char → Option (Yaml × List Char)
  | 0, _ => none
  | fuel + 1, cs =>
    match Json.skipSpace cs with
    | '"' :: rest =>
      match upToQuote? rest with
      | some (inner, rest) => (quotedText? inner).map (.quoted ·, rest)
      | none => none
    | '[' :: rest =>
      match Json.skipSpace rest with
      | ']' :: r => some (.sequence [], r)
      | r => (items? fuel r).map fun (ys, r) => (.sequence ys, r)
    | '\x7b' :: rest =>
      match Json.skipSpace rest with
      | '\x7d' :: r => some (.mapping [], r)
      | r => (members? fuel r).map fun (ms, r) => (.mapping ms, r)
    | cs => plain? cs

def items? : Nat → List Char → Option (List Yaml × List Char)
  | 0, _ => none
  | fuel + 1, cs =>
    match tree? fuel cs with
    | none => none
    | some (y, rest) =>
      match Json.skipSpace rest with
      | ']' :: r => some ([y], r)
      | ',' :: r => (items? fuel r).map fun (ys, r) => (y :: ys, r)
      | _ => none

def members? : Nat → List Char → Option (List (String × Yaml) × List Char)
  | 0, _ => none
  | fuel + 1, cs =>
    match Json.skipSpace cs with
    | '"' :: rest =>
      match key? rest with
      | none => none
      | some (key, rest) =>
        match tree? fuel rest with
        | none => none
        | some (y, rest) =>
          match Json.skipSpace rest with
          | '\x7d' :: r => some ([(key, y)], r)
          | ',' :: r => (members? fuel r).map fun (ms, r) => ((key, y) :: ms, r)
          | _ => none
    | _ => none

end

def dropOrderMark : List Char → List Char
  | '\uFEFF' :: cs => cs
  | cs => cs

/-- What may stand before a tree or after its line: no tabs. -/
def isMargin (c : Char) : Bool := Json.isSpace c && c != '\t'

def isEnd (cs : List Char) : Bool := (cs.dropWhile isTabOrSpace).all isMargin

/-- The tree of a whole text; every step of the reader consumes a character, so twice the length is
fuel enough. -/
def read? (text : String) : Option Yaml :=
  let cs := text.toList
  if cs.all isAllowed then
    match (dropOrderMark cs).dropWhile isMargin with
    | '\t' :: _ => none
    | start =>
      match tree? (2 * cs.length + 2) start with
      | some (y, rest) => if isEnd rest then some y else none
      | none => none
  else none

end ChainFeed.Yaml
