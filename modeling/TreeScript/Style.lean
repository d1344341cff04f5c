/-!
# Styled text

Colours and weights on a terminal. A style is switched on by a control sequence
in front of the text and off by another one behind it. A text that itself
switches all styles off gets its style back right behind that place.
-/

namespace TreeScript

/-- **How a text looks** on a terminal. -/
inductive Style where
  | bold
  | boldRed
  | boldYellow
  | boldBlue
  | green
  | blue
  | dimmed
deriving Repr, DecidableEq, Inhabited

namespace Style

/-- The parameters of the control sequence. -/
def parameters : Style → String
  | bold => "1"
  | boldRed => "1;31"
  | boldYellow => "1;33"
  | boldBlue => "1;34"
  | green => "32"
  | blue => "34"
  | dimmed => "2"

/-- A control sequence with the given parameters. -/
def control (parameters : String) : List Char :=
  '\x1b' :: '[' :: parameters.toList ++ ['m']

/-- The control sequence that switches the style on. -/
def on (s : Style) : List Char := control s.parameters

/-- The control sequence that switches all styles off. -/
def off : List Char := control "0"

/-- Puts `again` behind each place where all styles are switched off. -/
def restore (again : List Char) : List Char → List Char
  | '\x1b' :: '[' :: '0' :: 'm' :: cs =>
    '\x1b' :: '[' :: '0' :: 'm' :: again ++ restore again cs
  | c :: cs => c :: restore again cs
  | [] => []

/-- **A text in a style**, if styles are to be used at all. -/
def paint (s : Style) (used : Bool) (text : String) : String :=
  if used then String.ofList (s.on ++ restore s.on text.toList ++ off) else text

@[simp] theorem paint_false (s : Style) (text : String) :
    s.paint false text = text := rfl

end Style

end TreeScript
