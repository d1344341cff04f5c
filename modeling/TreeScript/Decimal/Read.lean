import TreeScript.Decimal.Basic

/-!
# Reading numbers

A written number has an optional sign, digits with at most one point among
them, and an optional exponent. There must be a digit in front of the exponent,
but it may stand on either side of the point. Infinity and the number that is
none are spelled out, in any case.
-/

namespace TreeScript

/-- **Why a text is not a number.** -/
inductive NumberFault where
  /-- There is no text. -/
  | empty
  /-- The text does not follow the form of a number. -/
  | malformed
deriving Repr, DecidableEq, Inhabited

/-- What the user is told. -/
def NumberFault.message : NumberFault → String
  | .empty => "cannot parse float from empty string"
  | .malformed => "invalid float literal"

namespace Decimal

/-- Whether a minus sign stands at the front of a text, and what stands behind
the sign. A text without sign is kept as it is. -/
def splitSign : List Char → Bool × List Char
  | '-' :: cs => (true, cs)
  | '+' :: cs => (false, cs)
  | cs => (false, cs)

/-- The exponent of a number: nothing, or a letter, an optional sign and at least
one digit. -/
def exponent? : List Char → Option Int
  | [] => some 0
  | c :: cs =>
    if c.toLower = 'e' then
      let (negative, ds) := splitSign cs
      if !ds.isEmpty && ds.all Char.isDigit then
        let n : Int := ofDigits ds
        some (if negative then -n else n)
      else none
    else none

/-- The digits behind a point, and what stands behind them. -/
def splitFraction : List Char → List Char × List Char
  | '.' :: cs => (cs.takeWhile Char.isDigit, cs.dropWhile Char.isDigit)
  | cs => ([], cs)

/-- **The decimal that a text without sign writes.** -/
def ofText? (cs : List Char) : Option Decimal :=
  let whole := cs.takeWhile Char.isDigit
  let (fraction, rest) := splitFraction (cs.dropWhile Char.isDigit)
  if whole.isEmpty && fraction.isEmpty then none
  else
    (exponent? rest).map fun e =>
      ⟨ofDigits (whole ++ fraction), e - fraction.length⟩

/-- The numbers that are spelled out. -/
def ofWord? (cs : List Char) : Option Float :=
  match cs.map Char.toLower with
  | ['n', 'a', 'n'] => some notANumber
  | ['i', 'n', 'f'] | ['i', 'n', 'f', 'i', 'n', 'i', 't', 'y'] => some infinity
  | _ => none

/-- **Reads a floating-point number.** -/
def readFloat (s : String) : Except NumberFault Float :=
  let cs := s.toList
  if cs.isEmpty then .error .empty
  else
    let (negative, body) := splitSign cs
    match ((ofText? body).map toFloat).or (ofWord? body) with
    | some x => .ok (if negative then -x else x)
    | none => .error .malformed

end Decimal

end TreeScript
