import TreeScript.Decimal.Basic

/-!
# The shortest decimal of a floating-point number

A finite floating-point number is a natural mantissa times a power of two. The
decimals that are read back as this number form an interval around it: it
reaches half way to the neighbours, and its ends belong to it if the mantissa is
even. `Dyadic.shortest` is the decimal with the fewest digits in this interval,
and of two such decimals the nearer one, the greater one if both are equally
near.

The search goes over grids. The grid of step `10 ^ k` has two points next to the
number, one at or below it and one above it; if the grid has a point in
the interval, then one of these two lies in it. The first grid that has one, from
coarse to fine, gives the answer. All comparisons are between natural numbers.
-/

namespace TreeScript

/-- **A number `mantissa * 2 ^ exponent`.** -/
structure Dyadic where
  /-- The digits, in base two, as one number. -/
  mantissa : Nat
  /-- The power of two of the last digit. -/
  exponent : Int
deriving Repr, DecidableEq, Inhabited

/-- **What a floating-point number is**: no number, an infinity, or a sign and a
magnitude. -/
inductive FloatParts where
  | notANumber
  | infinite (negative : Bool)
  | finite (negative : Bool) (magnitude : Dyadic)
deriving Repr, DecidableEq, Inhabited

namespace FloatParts

/-- The least exponent of a floating-point number. -/
def leastExponent : Int := -1074

/-- Reads the parts off the 64 bits: one for the sign, eleven for the exponent
and 52 for the mantissa, whose first digit is left out unless the exponent bits
are all zero. -/
def ofBits (bits : Nat) : FloatParts :=
  let negative := bits / Nat.pow 2 63 % 2 == 1
  let biased := bits / Nat.pow 2 52 % Nat.pow 2 11
  let fraction := bits % Nat.pow 2 52
  if biased = 2047 then
    if fraction = 0 then infinite negative else notANumber
  else if biased = 0 then finite negative ⟨fraction, leastExponent⟩
  else
    finite negative
      ⟨Nat.pow 2 52 + fraction, leastExponent + (biased - 1 : Nat)⟩

/-- The parts of a floating-point number. -/
def ofFloat (x : Float) : FloatParts := ofBits x.toBits.toNat

end FloatParts

namespace Dyadic

/-- An interval around a number, all over one denominator. -/
structure Interval where
  /-- The number. -/
  centre : Nat
  /-- The lower end. -/
  low : Nat
  /-- The upper end. -/
  high : Nat
  /-- What the three are divided by. -/
  denominator : Nat
  /-- Whether the ends belong to the interval. -/
  closed : Bool
deriving Repr

/-- Whether the mantissa is the least of its exponent, so that the numbers below
lie twice as close as those above. -/
def atBoundary (x : Dyadic) : Bool :=
  x.mantissa == Nat.pow 2 52 && x.exponent != FloatParts.leastExponent

/-- **The interval of the numbers that are read back as `x`.** It is measured
in quarters of the last digit. -/
def interval (x : Dyadic) : Interval :=
  let unit := Nat.pow 2 (x.exponent - 2).toNat
  { centre := 4 * x.mantissa * unit
    low := (4 * x.mantissa - if x.atBoundary then 1 else 2) * unit
    high := (4 * x.mantissa + 2) * unit
    denominator := Nat.pow 2 (2 - x.exponent).toNat
    closed := x.mantissa % 2 == 0 }

namespace Interval

/-- The least `p` with the centre below `10 ^ p`. -/
def scale (i : Interval) : Int :=
  if i.denominator ≤ i.centre then
    Decimal.digitCount (i.centre / i.denominator)
  else 1 - Decimal.digitCount ((i.denominator - 1) / i.centre)

/-- Whether `n * unit`, over the denominator, lies in the interval. -/
def contains (i : Interval) (n unit : Nat) : Bool :=
  let p := n * unit
  if i.closed then decide (i.low ≤ p) && decide (p ≤ i.high)
  else decide (i.low < p) && decide (p < i.high)

/-- The interval measured in steps of `10 ^ k`: both its numerators and the
length of a step. -/
def onGrid (i : Interval) (k : Int) : Interval × Nat :=
  let stretch := Nat.pow 10 (-k).toNat
  ({ i with
      centre := i.centre * stretch
      low := i.low * stretch
      high := i.high * stretch },
    i.denominator * Nat.pow 10 k.toNat)

/-- The point of the grid of step `10 ^ k` that lies in the interval and is
nearest to its centre. Of two that are equally near it is the greater one. -/
def gridPoint? (i : Interval) (k : Int) : Option Nat :=
  let (g, unit) := i.onGrid k
  let below := g.centre / unit
  let rest := g.centre % unit
  match g.contains below unit, g.contains (below + 1) unit with
  | true, true => some (if 2 * rest < unit then below else below + 1)
  | true, false => some below
  | false, true => some (below + 1)
  | false, false => none

/-- The first grid that has a point in the interval, among `n` grids from the
step `10 ^ k` on, each ten times finer than the one before. -/
def search (i : Interval) : Nat → Int → Decimal
  | 0, k => ⟨(i.onGrid k).1.centre / (i.onGrid k).2, k⟩
  | n + 1, k =>
    match i.gridPoint? k with
    | some a => ⟨a, k⟩
    | none => search i n (k - 1)

end Interval

/-- **The shortest decimal that is read back as `x`.** Seventeen digits always
suffice. -/
def shortest (x : Dyadic) : Decimal :=
  let i := x.interval
  (i.search 17 (i.scale - 1)).normal

end Dyadic

end TreeScript
