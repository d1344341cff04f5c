import TreeScript.Decimal.Read
import TreeScript.Toml.Text

/-!
# Numbers, dates and times

Underscores may stand between the digits of a number, and no number but zero
begins with a zero. Integers have 64 bits. Dates are those of the calendar.
-/

namespace TreeScript.Toml.Reader

/-- Digits, with single underscores between them. -/
def digits (isDigit : Char → Bool) : Reader (List Char) := do
  let first ← satisfying isDigit
  let more ← many
    (satisfying isDigit <|> (do char '_'; satisfying isDigit))
  return first :: more

/-- An optional sign. -/
def sign : Reader (List Char) := do
  return (← optional (satisfying (fun c => c == '+' || c == '-'))).toList

/-- Whether a digit may begin a number of several digits. -/
def isLeading (c : Char) : Bool := c.isDigit && c != '0'

/-- The digits of a whole decimal number: no zero in front of others. -/
def wholeDigits : Reader (List Char) :=
  (do
    let first ← satisfying isLeading
    let more ← many
      (satisfying Char.isDigit <|> (do char '_'; satisfying Char.isDigit))
    return first :: more)
  <|> (do return [← satisfying Char.isDigit])

/-! ## Integers -/

/-- Whether an integer fits into 64 bits. -/
def fits (n : Int) : Bool :=
  let bound : Int := Nat.pow 2 63
  decide (-bound ≤ n) && decide (n < bound)

/-- An integer, if it fits into 64 bits. -/
def bounded (n : Int) : Reader Int := if fits n then pure n else failure

/-- The value of digits in a base. -/
def ofBase (base : Nat) (ds : List Char) : Nat :=
  ds.foldl (fun n c => base * n + (hexValue? c).getD 0) 0

/-- An integer without sign, in a base that is announced by a letter. -/
def based (mark : String) (base : Nat) : Reader Int := do
  word mark
  let ds ← digits fun c => (hexValue? c).any (· < base)
  bounded (ofBase base ds)

/-- A decimal integer. -/
def decimalInteger : Reader Int := do
  let s ← sign
  let n : Int := Decimal.ofDigits (← wholeDigits)
  bounded (if s == ['-'] then -n else n)

/-- An integer. -/
def integer : Reader Int :=
  based "0x" 16 <|> based "0o" 8 <|> based "0b" 2 <|> decimalInteger

/-! ## Fractions -/

/-- The exponent of a number. -/
def exponent : Reader (List Char) := do
  let e ← satisfying (fun c => c == 'e' || c == 'E')
  let s ← sign
  return e :: s ++ (← digits Char.isDigit)

/-- The digits behind the point of a number. -/
def fraction : Reader (List Char) := do
  char '.'
  return '.' :: (← digits Char.isDigit)

/-- A number with a fraction, an exponent, or both. It must not lie above all
floating-point numbers. -/
def decimalFloat : Reader Float := do
  let s ← sign
  let whole ← wholeDigits
  let tail ← exponent <|> (do
    let f ← fraction
    return f ++ ((← optional exponent).getD []))
  match Decimal.readFloat (String.ofList (s ++ whole ++ tail)) with
  | .ok x => if x == Decimal.infinity then failure else pure x
  | .error _ => failure

/-- Infinity, or the number that is none. -/
def wordFloat : Reader Float := do
  let s ← sign
  let x ← (do word "inf"; return Decimal.infinity)
    <|> (do word "nan"; return Decimal.notANumber)
  return if s == ['-'] then -x else x

/-- A floating-point number. -/
def float : Reader Float := decimalFloat <|> wordFloat

/-! ## Dates and times -/

/-- A number of exactly so many digits, between two bounds. -/
def field (places least most : Nat) : Reader Nat := do
  let n := Decimal.ofDigits (← exactly Char.isDigit places)
  if least ≤ n ∧ n ≤ most then return n else failure

/-- Whether a year has a 29th of February. -/
def isLeapYear (y : Nat) : Bool := y % 4 == 0 && (y % 100 != 0 || y % 400 == 0)

/-- How many days a month has. -/
def daysIn (year month : Nat) : Nat :=
  if month = 2 then if isLeapYear year then 29 else 28
  else if [4, 6, 9, 11].contains month then 30
  else 31

/-- A day of the calendar. -/
def date : Reader Unit := do
  let year ← field 4 0 9999
  char '-'
  let month ← field 2 1 12
  char '-'
  let _ ← field 2 1 (daysIn year month)

/-- A time of the day. A minute may have a leap second. -/
def time : Reader Unit := do
  let _ ← field 2 0 23
  char ':'
  let _ ← field 2 0 59
  char ':'
  let _ ← field 2 0 60
  let _ ← optional (do char '.'; let _ ← run1 Char.isDigit)

/-- The distance of a time from the zero meridian. -/
def offset : Reader Unit :=
  (do let _ ← satisfying (fun c => c == 'Z' || c == 'z'))
  <|> (do
    let _ ← satisfying (fun c => c == '+' || c == '-')
    let _ ← field 2 0 23
    char ':'
    let _ ← field 2 0 59)

/-- What divides the day from the time. -/
def isTimeMark (c : Char) : Bool := c == 'T' || c == 't' || c == ' '

/-- A day, a time, or both. -/
def dateTime : Reader Unit :=
  (do
    date
    let _ ← optional (do
      let _ ← satisfying isTimeMark
      time
      let _ ← optional offset))
  <|> time

end TreeScript.Toml.Reader
