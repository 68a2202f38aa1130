import ChainFeed.Text.Letters
import ChainFeed.Text.Numeral

/-!
# Timestamps

An instant is a date and a time of day in UTC. It is read from an RFC 3339 text with any offset and
printed with the fewest groups of three fraction digits that lose nothing. Reading is lenient: one
digit is enough for a month, a day or an hour, and blanks may stand between the parts.
-/

namespace ChainFeed

/-- An instant. A leap second is the second before it with more than a whole second of
nanoseconds. -/
structure Timestamp where
  year : Int
  month : Nat
  day : Nat
  /-- Second of the day. -/
  second : Nat
  nanos : Nat
  deriving DecidableEq, Repr

namespace Timestamp

def isLeapYear (year : Int) : Bool := year % 4 == 0 && (year % 100 != 0 || year % 400 == 0)

def daysInMonth (year : Int) (month : Nat) : Nat :=
  match month with
  | 2 => if isLeapYear year then 29 else 28
  | 4 | 6 | 9 | 11 => 30
  | _ => 31

def yearRange (year : Int) : Bool := -262143 ≤ year && year ≤ 262142

def isValid (t : Timestamp) : Bool :=
  yearRange t.year && (1 ≤ t.month && t.month ≤ 12) &&
    (1 ≤ t.day && t.day ≤ daysInMonth t.year t.month) && t.second < 86400 && t.nanos < 2000000000

def nextDay (t : Timestamp) : Timestamp :=
  if t.day < daysInMonth t.year t.month then { t with day := t.day + 1 }
  else if t.month < 12 then { t with month := t.month + 1, day := 1 }
  else { t with year := t.year + 1, month := 1, day := 1 }

def previousDay (t : Timestamp) : Timestamp :=
  if 1 < t.day then { t with day := t.day - 1 }
  else if 1 < t.month then { t with month := t.month - 1, day := daysInMonth t.year (t.month - 1) }
  else { t with year := t.year - 1, month := 12, day := 31 }

/-- The instant whose clock, `east` seconds ahead of UTC, shows the fields of `t`. -/
def fromLocal (t : Timestamp) (east : Int) : Timestamp :=
  let second := (t.second : Int) - east
  if second < 0 then { previousDay t with second := (second + 86400).toNat }
  else if 86400 ≤ second then { nextDay t with second := (second - 86400).toNat }
  else { t with second := second.toNat }

def ofUnix (seconds : Int) (nanos : Nat) : Timestamp :=
  let z := seconds / 86400 + 719468
  let era := z / 146097
  let dayOfEra := z % 146097
  let yearOfEra := (dayOfEra - dayOfEra / 1460 + dayOfEra / 36524 - dayOfEra / 146096) / 365
  let dayOfYear := dayOfEra - (365 * yearOfEra + yearOfEra / 4 - yearOfEra / 100)
  let shifted := (5 * dayOfYear + 2) / 153
  let month := if shifted < 10 then shifted + 3 else shifted - 9
  { year := yearOfEra + era * 400 + (if month ≤ 2 then 1 else 0)
    month := month.toNat
    day := (dayOfYear - (153 * shifted + 2) / 5 + 1).toNat
    second := (seconds % 86400).toNat
    nanos }

def padded (width n : Nat) : List Char :=
  let digits := (Nat.repr n).toList
  List.replicate (width - digits.length) '0' ++ digits

def yearForm (year : Int) : List Char :=
  if 0 ≤ year ∧ year ≤ 9999 then padded 4 year.toNat
  else (if year < 0 then '-' else '+') :: padded 4 year.natAbs

def fractionForm (nanos : Nat) : List Char :=
  if nanos = 0 then []
  else if nanos % 1000000 = 0 then '.' :: padded 3 (nanos / 1000000)
  else if nanos % 1000 = 0 then '.' :: padded 6 (nanos / 1000)
  else '.' :: padded 9 nanos

def form (t : Timestamp) : List Char :=
  let leap := 1000000000 ≤ t.nanos
  let second := t.second % 60 + (if leap then 1 else 0)
  yearForm t.year ++ '-' :: padded 2 t.month ++ '-' :: padded 2 t.day ++
    'T' :: padded 2 (t.second / 3600) ++ ':' :: padded 2 (t.second / 60 % 60) ++
    ':' :: padded 2 second ++ fractionForm (if leap then t.nanos - 1000000000 else t.nanos) ++ ['Z']

def render (t : Timestamp) : String := String.ofList t.form

def number? (width : Nat) (cs : List Char) : Option (Nat × List Char) :=
  let digits := (cs.take width).takeWhile Char.isDigit
  (Text.natural? 10 digits).map (·, cs.drop digits.length)

def field? (width : Nat) (cs : List Char) : Option (Nat × List Char) :=
  number? width (Text.skipBlanks cs)

def year? (cs : List Char) : Option (Int × List Char) :=
  match Text.skipBlanks cs with
  | '-' :: r => (number? r.length r).map fun (n, r) => (-(n : Int), r)
  | '+' :: r => (number? r.length r).map fun (n, r) => ((n : Int), r)
  | r => (number? 4 r).map fun (n, r) => ((n : Int), r)

def mark? (c : Char) (cs : List Char) : Option (List Char) :=
  match Text.skipBlanks cs with
  | d :: r => if d = c then some r else none
  | [] => none

/-- The fraction of the second; digits beyond the ninth are dropped. -/
def fraction? : List Char → Option (Nat × List Char)
  | '.' :: cs =>
    (number? 9 cs).map fun (n, r) =>
      (n * Nat.pow 10 (9 - (cs.length - r.length)), r.dropWhile Char.isDigit)
  | cs => some (0, cs)

def pair? (top : Char) : List Char → Option (Nat × List Char)
  | a :: b :: cs =>
    if a.isDigit && a ≤ top && b.isDigit then (Text.natural? 10 [a, b]).map (·, cs) else none
  | _ => none

/-- An offset in seconds east of UTC: `Z`, `UTC`, or a sign, two digits of hours and two of minutes
that colons and blanks may separate. -/
def offset? (cs : List Char) : Option (Int × List Char) :=
  if (cs.take 3).map Char.toUpper = ['U', 'T', 'C'] then some (0, cs.drop 3)
  else
    let signed (negative : Bool) (cs : List Char) : Option (Int × List Char) :=
      match pair? '9' cs with
      | none => none
      | some (hours, cs) =>
        match pair? '5' (cs.dropWhile fun c => c == ':' || Text.isBlank c) with
        | none => none
        | some (minutes, cs) =>
          let east : Int := hours * 3600 + minutes * 60
          if east < 86400 then some (if negative then -east else east, cs) else none
    match cs with
    | 'Z' :: r => some (0, r)
    | 'z' :: r => some (0, r)
    | '+' :: r => signed false r
    | '-' :: r => signed true r
    | '−' :: r => signed true r
    | _ => none

def date? (cs : List Char) : Option ((Int × Nat × Nat) × List Char) := do
  let (year, cs) ← year? cs
  let (month, cs) ← field? 2 (← mark? '-' cs)
  let (day, cs) ← field? 2 (← mark? '-' cs)
  match cs with
  | c :: cs => if c = 'T' ∨ c = 't' ∨ c = ' ' then some ((year, month, day), cs) else none
  | [] => none

def time? (cs : List Char) : Option ((Nat × Nat × Nat × Nat) × List Char) := do
  let (hour, cs) ← field? 2 cs
  let (minute, cs) ← field? 2 (← mark? ':' cs)
  let (second, cs) ← field? 2 (← mark? ':' cs)
  let (nanos, cs) ← fraction? cs
  if hour < 24 ∧ minute < 60 ∧ second ≤ 60 then some ((hour, minute, second, nanos), cs) else none

/-- Reads an instant; second sixty is the leap second. -/
def read? (s : String) : Option Timestamp := do
  let ((year, month, day), cs) ← date? s.toList
  let ((hour, minute, second, nanos), cs) ← time? cs
  let (east, cs) ← offset? (Text.skipBlanks cs)
  let leap := second = 60
  let shown : Timestamp :=
    { year, month, day
      second := hour * 3600 + minute * 60 + (if leap then 59 else second)
      nanos := if leap then nanos + 1000000000 else nanos }
  let t := shown.fromLocal east
  if (Text.skipBlanks cs).isEmpty ∧ shown.isValid ∧ t.isValid then some t else none

end Timestamp

end ChainFeed
