import ChainFeed.Json.Reader

/-!
# Quoted scalars

Between quotes, a character that is written as itself may be a blank or a line break, and then the lines
are folded: blanks beside a break are dropped, and one break becomes a blank. An escaped character is
never a blank or a break.
-/

namespace ChainFeed.Yaml

def isBreak (c : Char) : Bool := c == '\u0085' || c == '\u2028' || c == '\u2029'

inductive Mark where
  | char (c : Char)
  | blank
  | lineBreak (c : Char)

/-- Whether a line begins with the mark of a document's start or end, which may not stand in quotes. -/
def startsDocument : List Char → Bool
  | a :: b :: c :: d :: _ =>
    (a == '-' || a == '.') && a == b && b == c && (d == ' ' || isBreak d)
  | _ => false

def charOfCode? (code : Nat) : Option Char :=
  if Json.isHighUnit code || Json.isLowUnit code then none else some (Char.ofNat code)

def marks? : List Char → Option (List Mark)
  | [] => some []
  | '\\' :: 'u' :: a :: b :: c :: d :: cs =>
    match (Text.natural? 16 [a, b, c, d]).bind charOfCode?, marks? cs with
    | some c, some ms => some (.char c :: ms)
    | _, _ => none
  | '\\' :: e :: cs =>
    match Json.shortEscape? e, marks? cs with
    | some c, some ms => some (.char c :: ms)
    | _, _ => none
  | c :: cs =>
    if c.toNat < 0x20 || c == '\\' then none
    else if c = ' ' then (marks? cs).map (.blank :: ·)
    else if isBreak c then (if startsDocument cs then none else (marks? cs).map (.lineBreak c :: ·))
    else (marks? cs).map (.char c :: ·)

def plainBreak (c : Char) : Char := if c = '\u0085' then '\n' else c

/-- What stands for the breaks between two words. A next line gives way to the breaks after it, and alone
it is a blank; a line or paragraph separator stays. -/
def foldedBreaks : List Char → List Char
  | [] => []
  | b :: rest =>
    if b = '\u0085' then (if rest.isEmpty then [' '] else rest.map plainBreak)
    else b :: rest.map plainBreak

/-- What stands between two words, given the blanks before the first break, and the breaks. -/
def between (blanks : Nat) (breaks : List Char) : List Char :=
  if breaks.isEmpty then List.replicate blanks ' ' else foldedBreaks breaks

def foldLines : List Mark → Nat → List Char → List Char
  | [], blanks, breaks => between blanks breaks
  | .blank :: ms, blanks, breaks => foldLines ms (blanks + 1) breaks
  | .lineBreak c :: ms, blanks, breaks => foldLines ms blanks (breaks ++ [c])
  | .char c :: ms, blanks, breaks => between blanks breaks ++ c :: foldLines ms 0 []

def quotedText? (cs : List Char) : Option String :=
  (marks? cs).map fun ms => String.ofList (foldLines ms 0 [])

def upToQuote? : List Char → Option (List Char × List Char)
  | [] => none
  | '"' :: cs => some ([], cs)
  | '\\' :: c :: cs => (upToQuote? cs).map fun (inner, rest) => ('\\' :: c :: inner, rest)
  | c :: cs => (upToQuote? cs).map fun (inner, rest) => (c :: inner, rest)

end ChainFeed.Yaml
