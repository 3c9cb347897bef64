import GraphQuery.Toml.Item
import GraphQuery.Toml.Quoted

/-!
# Numbers, truth values and dates

Values that are written without quotes or brackets. Digits may be grouped by single underscores.
-/

namespace GraphQuery.Toml

/-- The digits of a group with the underscores between them removed. -/
def groupedDigits (isDigit : Char → Bool) : List Char → Option (List Char)
  | [] => none
  | [d] => if isDigit d then some [d] else none
  | d :: e :: rest =>
    if !isDigit d then none
    else if e = '_' then (groupedDigits isDigit rest).map (d :: ·)
    else (groupedDigits isDigit (e :: rest)).map (d :: ·)

/-- The number with the given digits in a base. -/
def ofDigits (base : Nat) (digits : List Char) : Nat :=
  digits.foldl (fun n d => n * base + (hexValue? d).getD 0) 0

/-- A number in a base, with grouped digits. -/
def groupedNumber? (base : Nat) (cs : List Char) : Option Nat :=
  (groupedDigits (fun c => (hexValue? c).any (· < base)) cs).map (ofDigits base)

/-- The digits of a decimal integer, which has no zeros in front. -/
def integerDigits? (cs : List Char) : Option (List Char) := do
  let digits ← groupedDigits Char.isDigit cs
  if digits.length > 1 ∧ digits.head? = some '0' then none else some digits

/-- A sign and what stands behind it. -/
def splitSign : List Char → Bool × List Char
  | '+' :: rest => (false, rest)
  | '-' :: rest => (true, rest)
  | cs => (false, cs)

/-- An integer: decimal with a sign, or in another base with a mark in front. -/
def integer? : List Char → Option Int
  | '0' :: 'x' :: rest => (groupedNumber? 16 rest).map Int.ofNat
  | '0' :: 'o' :: rest => (groupedNumber? 8 rest).map Int.ofNat
  | '0' :: 'b' :: rest => (groupedNumber? 2 rest).map Int.ofNat
  | cs => do
    let (negative, cs) := splitSign cs
    let n := ofDigits 10 (← integerDigits? cs)
    return if negative then -(n : Int) else n

/-- The exponent of a floating-point number, with a sign. -/
def exponent? (cs : List Char) : Option Int := do
  let (negative, cs) := splitSign cs
  let n := ofDigits 10 (← groupedDigits Char.isDigit cs)
  return if negative then -(n : Int) else n

/-- A decimal from the digits in front of the point, those behind it and an exponent. -/
def decimal (whole fraction : List Char) (exponent : Int) : Decimal :=
  ⟨ofDigits 10 (whole ++ fraction), exponent - fraction.length⟩

/-- A floating-point number: an integer with a fraction, an exponent, or both, or one of the special values. -/
def float? (cs : List Char) : Option (Option Decimal) := do
  let (_, cs) := splitSign cs
  if cs = ['i', 'n', 'f'] ∨ cs = ['n', 'a', 'n'] then return none
  let isMark := fun c => c = 'e' || c = 'E'
  let mantissa := cs.takeWhile (!isMark ·)
  let whole ← integerDigits? (mantissa.takeWhile (· != '.'))
  match mantissa.dropWhile (· != '.'), cs.dropWhile (!isMark ·) with
  | [], [] => none
  | [], _ :: e => return decimal whole [] (← exponent? e)
  | _ :: fraction, [] => return decimal whole (← groupedDigits Char.isDigit fraction) 0
  | _ :: fraction, _ :: e =>
    return decimal whole (← groupedDigits Char.isDigit fraction) (← exponent? e)

/-- The number written with exactly the given count of decimal digits, and the text behind it. -/
def fixedDigits? (count : Nat) (cs : List Char) : Option (Nat × List Char) :=
  let digits := cs.take count
  if digits.length = count ∧ digits.all Char.isDigit then some (ofDigits 10 digits, cs.drop count)
  else none

/-- Reads a character that has to stand in front of a text. -/
def behind? (c : Char) : List Char → Option (List Char)
  | [] => none
  | d :: rest => if d = c then some rest else none

/-- The number of days of a month. -/
def daysInMonth (year month : Nat) : Nat :=
  if month = 2 then
    if year % 4 = 0 ∧ (year % 100 ≠ 0 ∨ year % 400 = 0) then 29 else 28
  else if month = 4 ∨ month = 6 ∨ month = 9 ∨ month = 11 then 30
  else 31

/-- The text behind a date. -/
def afterDate? (cs : List Char) : Option (List Char) := do
  let (year, cs) ← fixedDigits? 4 cs
  let (month, cs) ← fixedDigits? 2 (← behind? '-' cs)
  let (day, cs) ← fixedDigits? 2 (← behind? '-' cs)
  if 1 ≤ month ∧ month ≤ 12 ∧ 1 ≤ day ∧ day ≤ daysInMonth year month then some cs else none

/-- The text behind a time of day. The second may be a leap second. -/
def afterTime? (cs : List Char) : Option (List Char) := do
  let (hour, cs) ← fixedDigits? 2 cs
  let (minute, cs) ← fixedDigits? 2 (← behind? ':' cs)
  let (second, cs) ← fixedDigits? 2 (← behind? ':' cs)
  if hour ≤ 23 ∧ minute ≤ 59 ∧ second ≤ 60 then
    match cs with
    | '.' :: rest => if rest.head?.any Char.isDigit then some (rest.dropWhile Char.isDigit) else none
    | _ => some cs
  else none

/-- Whether a text is the offset of a date-time from UTC, or nothing. -/
def isOffset : List Char → Bool
  | [] => true
  | ['Z'] => true
  | ['z'] => true
  | sign :: cs =>
    (sign = '+' || sign = '-') &&
      match (do
        let (hour, cs) ← fixedDigits? 2 cs
        let (minute, cs) ← fixedDigits? 2 (← behind? ':' cs)
        if hour ≤ 23 ∧ minute ≤ 59 then some cs else none) with
      | some [] => true
      | _ => false

/-- Whether a text is a date, a time of day, or both with an offset or without. -/
def isDateTime (cs : List Char) : Bool :=
  match afterDate? cs with
  | some [] => true
  | some (c :: rest) =>
    (c = 'T' || c = 't' || c = ' ') &&
      match afterTime? rest with
      | some rest => isOffset rest
      | none => false
  | none => afterTime? cs == some []

/-- A value written without quotes or brackets. -/
def scalar? (cs : List Char) : Option Item :=
  if cs = "true".toList then some (.boolean true)
  else if cs = "false".toList then some (.boolean false)
  else if isDateTime cs then some .dateTime
  else ((integer? cs).map Item.integer).or ((float? cs).map Item.float)

/-- A character at which a value without quotes or brackets ends. -/
def endsScalar (c : Char) : Bool :=
  isSpace c || c = '\n' || c = '\r' || c = ',' || c = ']' || c = '\x7d' || c = '#'

/-- Reads a value written without quotes or brackets. A date and a time of day may have a space between them. -/
def scalar : Scan Item := do
  let first ← Scan.takeWhile (!endsScalar ·)
  let whole ← match afterDate? first, ← get with
    | some [], ' ' :: c :: rest =>
      if c.isDigit then do
        set (c :: rest)
        pure (first ++ ' ' :: (← Scan.takeWhile (!endsScalar ·)))
      else pure first
    | _, _ => pure first
  match scalar? whole with
  | some item => return item
  | none => failure

end GraphQuery.Toml
