/-!
# Paths

A path is a text whose parts are divided by slashes. Empty parts and single
periods mean nothing, except that a period in front of a relative path is kept.
-/

namespace TreeScript.Path

/-- The parts of a path, divided by slashes. -/
def split : List Char → List (List Char)
  | [] => [[]]
  | '/' :: cs => [] :: split cs
  | c :: cs =>
    match split cs with
    | p :: ps => (c :: p) :: ps
    | [] => [[c]]

/-- Puts parts together again. -/
def join (ps : List (List Char)) : List Char :=
  ['/'].intercalate ps

/-- Whether a part means nothing behind another one. -/
def isEmptyPart (p : List Char) : Bool := p == [] || p == ['.']

/-- Drops the parts at the end that mean nothing. The first part is kept. -/
def trim : List (List Char) → List (List Char)
  | [] => []
  | p :: ps => p :: (ps.reverse.dropWhile isEmptyPart).reverse

/-- The parts without the last one that means something, and without those at
the end that mean nothing. A path of the root alone has no such part. -/
def dropName (ps : List (List Char)) : Option (List (List Char)) :=
  match trim ps with
  | [[]] => none
  | ps => some (trim ps.dropLast)

/-- **The directory of a path**: the path without its last part. It is empty for
a single part, and for the root, which lies in no directory. -/
def directory (path : String) : String :=
  match dropName (split path.toList) with
  | none => ""
  | some [[]] => "/"
  | some ps => String.ofList (join ps)

/-- **The path of a file in a directory.** -/
def inDirectory (directory file : String) : String :=
  if directory.isEmpty then file
  else if directory.endsWith "/" then directory ++ file
  else directory ++ "/" ++ file

end TreeScript.Path
