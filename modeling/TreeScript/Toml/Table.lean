/-!
# Tables

A configuration text is a table of tables. Tables come about in three ways: by a
header of their own, as the surroundings of a table with a header, or by a dotted
key. Which of these it was decides whether more may be added to them, since no
table may be defined twice.
-/

namespace TreeScript.Toml

/-- **A value** of a configuration text. -/
inductive Value where
  | string (s : String)
  | integer (n : Int)
  | float (x : Float)
  | boolean (b : Bool)
  /-- A day, a time, or both. -/
  | dateTime
  | array (items : List Value)
  | table (entries : List (String × Value))
deriving Inhabited

/-- How a table came about. -/
inductive Origin where
  /-- By a header, or in braces. -/
  | stated
  /-- Around a table with a header. -/
  | implied
  /-- By a dotted key. -/
  | dotted
deriving Repr, DecidableEq, Inhabited

/-- **An entry of a table** that is being built. -/
inductive Node where
  /-- A value that is complete. -/
  | leaf (v : Value)
  /-- A table that may still grow. -/
  | table (origin : Origin) (entries : List (String × Node))
  /-- Tables under one header, in order of appearance. -/
  | tables (items : List (List (String × Node)))
deriving Inhabited

/-- The entries of a table, in order. -/
abbrev Entries := List (String × Node)

/-- Sets an entry of a table. -/
def setEntry (key : String) (n : Node) : Entries → Entries
  | [] => [(key, n)]
  | (k, m) :: es =>
    if k = key then (key, n) :: es else (k, m) :: setEntry key n es

/-- Adds an entry to a table that has none under this key. -/
def addEntry (key : String) (n : Node) (es : Entries) : Option Entries :=
  match es.lookup key with
  | some _ => none
  | none => some (es ++ [(key, n)])

/-- Changes the last element of a list. There must be one. -/
def modifyLast {α : Type} (f : α → Option α) : List α → Option (List α)
  | [] => none
  | [a] => (f a).map (fun b => [b])
  | a :: as => (modifyLast f as).map (a :: ·)

/-- **Goes to the table at a path** and changes it there. Tables that are missing
on the way are added; of several tables under one header the last one is
meant. -/
def modifyAt (f : Entries → Option Entries) :
    List String → Entries → Option Entries
  | [], es => f es
  | k :: ks, es =>
    match es.lookup k with
    | none => (modifyAt f ks []).map fun t => setEntry k (.table .implied t) es
    | some (.table o t) =>
      (modifyAt f ks t).map fun t' => setEntry k (.table o t') es
    | some (.tables ts) =>
      (modifyLast (modifyAt f ks) ts).map fun ts' => setEntry k (.tables ts') es
    | some (.leaf _) => none

/-- Adds an entry behind the rest of a dotted key, in a table of the given
origin. The tables on the way must come from dotted keys, too. -/
def addDotted (key : String) (n : Node) :
    Origin → List String → Entries → Option Entries
  | origin, [], es => if origin = .dotted then addEntry key n es else none
  | _, k :: ks, es =>
    match es.lookup k with
    | none =>
      (addDotted key n .dotted ks []).map fun t =>
        setEntry k (.table .dotted t) es
    | some (.table o t) =>
      if o = .stated then none
      else (addDotted key n o ks t).map fun t' => setEntry k (.table o t') es
    | some (.tables ts) =>
      (modifyLast (addDotted key n .stated ks) ts).map fun ts' =>
        setEntry k (.tables ts') es
    | some (.leaf _) => none

/-- **Adds an entry under a key** of one or more parts. -/
def addUnder (path : List String) (key : String) (n : Node) (es : Entries) :
    Option Entries :=
  match path with
  | [] => addEntry key n es
  | path => addDotted key n .stated path es

/-- Starts a table with a header of its own. It may have been implied before. -/
def startTable (key : String) (es : Entries) : Option Entries :=
  match es.lookup key with
  | none => some (es ++ [(key, .table .stated [])])
  | some (.table .implied t) => some (setEntry key (.table .stated t) es)
  | some _ => none

/-- Starts one more table under a header for several tables. -/
def startTables (key : String) (es : Entries) : Option Entries :=
  match es.lookup key with
  | none => some (es ++ [(key, .tables [[]])])
  | some (.tables ts) => some (setEntry key (.tables (ts ++ [[]])) es)
  | some _ => none

mutual

/-- The value of an entry once the text has been read. -/
def Node.value : Node → Value
  | .leaf v => v
  | .table _ es => .table (entriesValue es)
  | .tables ts => .array (tablesValue ts)

/-- The values of all entries. -/
def entriesValue : List (String × Node) → List (String × Value)
  | [] => []
  | (k, n) :: es => (k, n.value) :: entriesValue es

/-- The values of all tables under one header. -/
def tablesValue : List (List (String × Node)) → List Value
  | [] => []
  | t :: ts => .table (entriesValue t) :: tablesValue ts

end

end TreeScript.Toml
