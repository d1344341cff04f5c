import TreeScript.Decimal.Layout
import TreeScript.Text.Quoted

/-!
# Values

The values that scripts compute with, their types, and the two ways to write
them: as `print` shows them and as the log shows them.
-/

namespace TreeScript

/-- **The type of a value.** -/
inductive ValueType where
  | nil
  | boolean
  | number
  | text
deriving Repr, DecidableEq, Inhabited

namespace ValueType

/-- Every type. -/
def all : List ValueType := [.nil, .boolean, .number, .text]

/-- How messages name the type. -/
def name : ValueType → String
  | nil => "nil"
  | boolean => "boolean"
  | number => "number"
  | text => "text"

/-- The type with a given name. -/
def ofName? (s : String) : Option ValueType :=
  all.find? (fun t => t.name = s)

end ValueType

/-- **A value.** -/
inductive Value where
  /-- The value of a variable that was given none. -/
  | nil
  | boolean (b : Bool)
  | number (x : Float)
  | text (s : String)
deriving Repr, Inhabited

namespace Value

/-- The type of the value. -/
def type : Value → ValueType
  | nil => .nil
  | boolean _ => .boolean
  | number _ => .number
  | text _ => .text

/-- Whether a condition with this value holds: only `nil` and `false` do
not. -/
def isTruthy : Value → Bool
  | nil => false
  | boolean b => b
  | number _ | text _ => true

/-- **Equality of values.** Values of different types are never equal, and
neither is the number that is none, not even to itself. -/
def equals : Value → Value → Bool
  | nil, nil => true
  | boolean a, boolean b => a == b
  | number x, number y => x == y
  | text s, text t => s == t
  | _, _ => false

/-- Numbers are printed without exponent, and whole numbers without point. -/
def printedNumber : Layout where
  positional _ := true
  wholeEnd := []

/-- The log writes numbers below `10 ^ (-4)` and from `10 ^ 16` on with an
exponent, and the others with a point. -/
def loggedNumber : Layout where
  positional e := decide (-4 ≤ e) && decide (e < 16)
  wholeEnd := ['.', '0']

/-- How a truth value is spelled. -/
def boolText (b : Bool) : String := if b then "true" else "false"

/-- **The value as `print` shows it.** -/
def display : Value → String
  | nil => "nil"
  | boolean b => boolText b
  | number x => printedNumber.text x
  | text s => s

/-- **The value as the log shows it**: with its type, and texts in quotes. -/
def logged : Value → String
  | nil => "Nil"
  | boolean b => "Boolean(" ++ boolText b ++ ")"
  | number x => "Number(" ++ loggedNumber.text x ++ ")"
  | text s => "Text(" ++ quotedText s ++ ")"

end Value

end TreeScript
