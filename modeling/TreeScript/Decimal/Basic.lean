/-!
# Decimal numbers

A decimal is a natural coefficient times a power of ten. Numbers are read and
written as decimals, and stored as floating-point numbers of 64 bits: the module
has the digits of a coefficient and the nearest floating-point number of a
decimal.
-/

namespace TreeScript

/-- **A decimal number**: `coefficient * 10 ^ exponent`. -/
structure Decimal where
  /-- The digits, as one number. -/
  coefficient : Nat
  /-- The power of ten of the last digit. -/
  exponent : Int
deriving Repr, DecidableEq, Inhabited

namespace Decimal

/-- How many decimal digits a number has; zero has none. -/
def digitCount (n : Nat) : Nat :=
  if n = 0 then 0 else digitCount (n / 10) + 1
termination_by n

/-- The value of a text of decimal digits. -/
def ofDigits (cs : List Char) : Nat :=
  cs.foldl (fun n c => 10 * n + (c.toNat - '0'.toNat)) 0

/-- The place of the first digit: a decimal other than zero lies at or above
`10 ^ (scale - 1)` and below `10 ^ scale`. -/
def scale (d : Decimal) : Int := digitCount d.coefficient + d.exponent

/-- The digits of the coefficient as text. -/
def digits (d : Decimal) : List Char := Nat.toDigits 10 d.coefficient

/-- Drops the zeros at the end of the coefficient, at most `n` of them. -/
def trim : Nat → Decimal → Decimal
  | 0, d => d
  | n + 1, d =>
    if d.coefficient ≠ 0 ∧ d.coefficient % 10 = 0 then
      trim n ⟨d.coefficient / 10, d.exponent + 1⟩
    else d

/-- The same number without zeros at the end of its coefficient. -/
def normal (d : Decimal) : Decimal := d.trim (digitCount d.coefficient)

/-- The floating-point number above all others. -/
def infinity : Float := 1.0 / 0.0

/-- The floating-point number that is none. -/
def notANumber : Float := 0.0 / 0.0

/-- **The nearest floating-point number.** From `10 ^ 309` on that is infinity,
and below `10 ^ (-324)` it is zero. -/
def toFloat (d : Decimal) : Float :=
  if d.coefficient = 0 then 0.0
  else if 309 < d.scale then infinity
  else if d.scale < -323 then 0.0
  else
    match d.exponent with
    | .ofNat e => Float.ofScientific d.coefficient false e
    | .negSucc e => Float.ofScientific d.coefficient true (e + 1)

end Decimal

end TreeScript
