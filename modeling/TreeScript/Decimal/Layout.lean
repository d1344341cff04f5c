import TreeScript.Decimal.Shortest

/-!
# How numbers are written

A decimal is written positionally or with an exponent. Which of the two, and
whether a whole number shows a fraction, is what a `Layout` says.
-/

namespace TreeScript

/-- **A way to write numbers.** -/
structure Layout where
  /-- Whether a number whose first digit stands for this power of ten is written
  without exponent. -/
  positional : Int → Bool
  /-- What a whole number without exponent ends with. -/
  wholeEnd : List Char

namespace Layout

/-- The digits of a decimal with its point, and no exponent. -/
def positionalText (l : Layout) (d : Decimal) : List Char :=
  let ds := d.digits
  match d.exponent with
  | .ofNat e => ds ++ List.replicate e '0' ++ l.wholeEnd
  | .negSucc e =>
    let places := e + 1
    if places < ds.length then
      ds.take (ds.length - places) ++ '.' :: ds.drop (ds.length - places)
    else '0' :: '.' :: List.replicate (places - ds.length) '0' ++ ds

/-- The digits of a decimal with the point behind the first one, and the
exponent behind the digits. -/
def scientificText (d : Decimal) : List Char :=
  let mantissa :=
    match d.digits with
    | c :: c' :: rest => c :: '.' :: c' :: rest
    | ds => ds
  mantissa ++ 'e' :: (toString (d.scale - 1)).toList

/-- A decimal other than zero, without zeros at its end. -/
def decimalText (l : Layout) (d : Decimal) : List Char :=
  if l.positional (d.scale - 1) then l.positionalText d else scientificText d

/-- The text of a number without its sign. Zero is written positionally. -/
def magnitudeText (l : Layout) (x : Dyadic) : List Char :=
  if x.mantissa = 0 then l.positionalText ⟨0, 0⟩ else l.decimalText x.shortest

/-- **The text of a floating-point number**, with the fewest digits that are read
back as this number. -/
def text (l : Layout) (x : Float) : String :=
  let sign (negative : Bool) := if negative then ['-'] else []
  match FloatParts.ofFloat x with
  | .notANumber => "NaN"
  | .infinite negative => String.ofList (sign negative ++ ['i', 'n', 'f'])
  | .finite negative m => String.ofList (sign negative ++ l.magnitudeText m)

end Layout

end TreeScript
