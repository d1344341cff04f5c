import TreeScript.Toml.Number
import TreeScript.Toml.Table

/-!
# Configuration texts

A configuration text is a sequence of lines: entries, headers of tables,
comments and blank lines. Reading it gives the table of all entries, or nothing
if the text does not follow the format.
-/

namespace TreeScript.Toml

/-- How many arrays and tables in braces may lie inside each other. -/
def depthLimit : Nat := 79

/-- How many parts a dotted key may have. -/
def keyLimit : Nat := 79

namespace Reader

/-! ## Keys -/

/-- A character of a key without quotes. -/
def isBare (c : Char) : Bool := c.isAlphanum || c == '_' || c == '-'

/-- One part of a key, with blanks around it. -/
def keyPart : Reader String := do
  spaces
  let k ← lineString <|> (do return String.ofList (← run1 isBare))
  spaces
  return k

/-- A key: its parts but the last one, and the last one. -/
def key : Reader (List String × String) := do
  let first ← keyPart
  let more ← many (do char '.'; keyPart)
  let parts := first :: more
  if keyLimit < parts.length then failure
  return (parts.dropLast, parts.getLastD first)

/-! ## Values -/

/-- A value that holds no other values. -/
def scalar : Reader Value :=
  (.string <$> (multilineString <|> lineString))
  <|> (do word "true"; return .boolean true)
  <|> (do word "false"; return .boolean false)
  <|> (do dateTime; return .dateTime)
  <|> (.float <$> float)
  <|> (.integer <$> integer)

/-- At most `n` items of an array and its closing bracket. A comma may stand
behind the last item. -/
def items (value : Reader Value) : Nat → Reader (List Value)
  | 0 => failure
  | n + 1 => do
    filler
    (do char ']'; return [])
    <|> (do
      let v ← value
      filler
      (do char ','; return v :: (← items value n))
      <|> (do char ']'; return [v]))

/-- An array, with line ends and comments between its parts. Each item takes a
character, so the length of the text bounds their number. -/
def array (value : Reader Value) : Reader Value := do
  char '['
  let vs ← fun cs => items value (cs.length + 1) cs
  return .array vs

/-- A key and its value in a table in braces. -/
def pair (value : Reader Value) : Reader ((List String × String) × Value) := do
  let k ← key
  char '='
  spaces
  let v ← value
  spaces
  return (k, v)

/-- The entries of a table in braces. No key may be defined twice. -/
def pairEntries :
    List ((List String × String) × Value) → Entries → Option Entries
  | [], es => some es
  | ((path, k), v) :: ps, es =>
    (addUnder path k (.leaf v) es).bind (pairEntries ps)

/-- A table in braces, on one line. -/
def inlineTable (value : Reader Value) : Reader Value := do
  char '\x7b'
  spaces
  let pairs ← (do
      let first ← pair value
      return first :: (← many (do char ','; pair value)))
    <|> pure []
  char '\x7d'
  match pairEntries pairs [] with
  | some es => return .table (entriesValue es)
  | none => failure

/-- **A value**, with a bound on how deep arrays and tables lie inside each
other. -/
def value : Nat → Reader Value
  | 0, cs => scalar cs
  | d + 1, cs => (scalar <|> array (value d) <|> inlineTable (value d)) cs

end Reader

/-! ## Lines -/

/-- **A text that is being read**: the entries so far, and the table that the
last header has started. -/
structure Draft where
  /-- The entries of the whole text. -/
  entries : Entries := []
  /-- The path of the table that entries go to. -/
  table : List String := []
deriving Inhabited

namespace Draft

/-- Adds an entry to the current table. -/
def add (d : Draft) (path : List String) (k : String) (v : Value) :
    Option Draft :=
  (modifyAt (addUnder path k (.leaf v)) d.table d.entries).map
    fun es => { d with entries := es }

/-- Starts a table by a header. -/
def start (d : Draft) (path : List String) (k : String) : Option Draft :=
  (modifyAt (startTable k) path d.entries).map fun es => ⟨es, path ++ [k]⟩

/-- Starts one more table by a header for several tables. -/
def startMore (d : Draft) (path : List String) (k : String) : Option Draft :=
  (modifyAt (startTables k) path d.entries).map fun es => ⟨es, path ++ [k]⟩

end Draft

namespace Reader

/-- A value that may not be there. -/
def given {α : Type} : Option α → Reader α
  | some a => pure a
  | none => failure

/-- A header for several tables. -/
def tablesHeader (d : Draft) : Reader Draft := do
  word "[["
  let (path, k) ← key
  word "]]"
  lineEnd
  given (d.startMore path k)

/-- A header for one table. -/
def tableHeader (d : Draft) : Reader Draft := do
  char '['
  let (path, k) ← key
  char ']'
  lineEnd
  given (d.start path k)

/-- A line with a key and its value. -/
def entry (d : Draft) : Reader Draft := do
  let (path, k) ← key
  char '='
  spaces
  let v ← value depthLimit
  lineEnd
  given (d.add path k v)

/-- A line without content. -/
def blankLine (d : Draft) : Reader Draft := do
  newline <|> (do comment; newline <|> finish)
  return d

/-- One line. -/
def line (d : Draft) : Reader Draft := do
  spaces
  blankLine d <|> tablesHeader d <|> tableHeader d <|> entry d

/-- At most `n` lines, up to the end of the text. -/
def lines : Nat → Draft → Reader Draft
  | 0, d => do spaces; finish; return d
  | n + 1, d => (do spaces; finish; return d) <|> (do lines n (← line d))

end Reader

/-- **Reads a configuration text.** A byte order mark may stand in front. Each
line takes a character, so the length of the text bounds their number. -/
def read (s : String) : Option (List (String × Value)) :=
  let cs :=
    match s.toList with
    | '\ufeff' :: cs => cs
    | cs => cs
  (Reader.lines cs.length {} cs).map fun (d, _) => entriesValue d.entries

end TreeScript.Toml
