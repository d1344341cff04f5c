import TreeScript.Token.Basic

/-!
# Cutting a text into segments

The characters of a source text split into consecutive **segments**: blanks,
comments, strings, numbers, words, punctuators, and the two kinds of fault, a
string without closing quote and a character that begins no segment.
`Segment.next` takes the longest segment at the front of a text, and
`segments` cuts the whole text.

A segment keeps what it was cut from. `Segment.text` gives its characters back,
and `text_next` says that nothing is lost: the characters of the segment
followed by the rest are the text.
-/

namespace TreeScript

/-! ## Character classes -/

/-- The characters that separate tokens and are otherwise ignored. -/
def isBlank (c : Char) : Bool :=
  c == ' ' || c == '\t' || c == '\r' || c == '\n'

/-- The characters that may begin a word: ASCII letters and the underscore. -/
def isWordStart (c : Char) : Bool := c.isAlpha || c == '_'

/-- The characters that may continue a word: also ASCII digits. -/
def isWordPart (c : Char) : Bool := c.isAlphanum || c == '_'

/-! ## Strings -/

/-- **A unit of a string**: a character that stands for itself, or a backslash
and the character behind it. -/
inductive StringUnit where
  | plain (c : Char)
  | escape (c : Char)
deriving Repr, DecidableEq, Inhabited

namespace StringUnit

/-- The character that an escape stands for, if it is one of the five that the
language knows. -/
def escaped? : Char → Option Char
  | '"' => some '"'
  | '\\' => some '\\'
  | 'n' => some '\n'
  | 'r' => some '\r'
  | 't' => some '\t'
  | _ => none

/-- The characters of the unit in the source. -/
def text : StringUnit → List Char
  | plain c => [c]
  | escape c => ['\\', c]

/-- The characters the unit contributes to the string. An escape that is not
known stands for its own two characters. -/
def decoded : StringUnit → List Char
  | plain c => [c]
  | escape c =>
    match escaped? c with
    | some d => [d]
    | none => ['\\', c]

end StringUnit

/-- How the text behind an opening quote ends. -/
inductive StringEnd where
  /-- With a closing quote, and this text behind it. -/
  | closed (rest : List Char)
  /-- With the end of the text. -/
  | missing
  /-- With a backslash at the end of the text. -/
  | dangling
deriving Repr, DecidableEq

/-- Splits the text behind an opening quote into units, up to the closing
quote. -/
def stringUnits : List Char → List StringUnit × StringEnd
  | [] => ([], .missing)
  | '"' :: cs => ([], .closed cs)
  | ['\\'] => ([], .dangling)
  | '\\' :: c :: cs =>
    let r := stringUnits cs
    (.escape c :: r.1, r.2)
  | c :: cs =>
    let r := stringUnits cs
    (.plain c :: r.1, r.2)

/-! ## Segments -/

/-- **A piece of source text** that is read as one. -/
inductive Segment where
  /-- One blank character. -/
  | blank (c : Char)
  /-- Two slashes and the rest of the line, with its line feed. -/
  | comment (body : List Char)
  /-- A name or a reserved word. -/
  | word (text : List Char)
  /-- A decimal number. -/
  | number (text : List Char)
  /-- A punctuator. -/
  | punctuator (p : Punctuator)
  /-- A string in quotes. -/
  | string (units : List StringUnit)
  /-- An opening quote without a closing one, up to the end of the text. The
  flag tells whether a lone backslash stands at the end. -/
  | unclosed (units : List StringUnit) (dangling : Bool)
  /-- A character that begins no other segment. -/
  | stray (c : Char)
deriving Repr, DecidableEq, Inhabited

/-- The text through the first line feed, and what stands behind it. -/
def throughNewline : List Char → List Char × List Char
  | [] => ([], [])
  | c :: cs =>
    if c = '\n' then ([c], cs)
    else
      let r := throughNewline cs
      (c :: r.1, r.2)

/-- The digits at the front of a text, with a period and further digits if
they follow, and what stands behind. -/
def numberText (cs : List Char) : List Char × List Char :=
  match cs.dropWhile Char.isDigit with
  | '.' :: d :: rest =>
    if d.isDigit then
      (cs.takeWhile Char.isDigit ++ '.' :: d :: rest.takeWhile Char.isDigit,
        rest.dropWhile Char.isDigit)
    else (cs.takeWhile Char.isDigit, '.' :: d :: rest)
  | rest => (cs.takeWhile Char.isDigit, rest)

namespace Segment

/-- The characters of the segment in the source. -/
def text : Segment → List Char
  | blank c => [c]
  | comment body => '/' :: '/' :: body
  | word cs => cs
  | number cs => cs
  | punctuator p => p.text.toList
  | string us => '"' :: us.flatMap StringUnit.text ++ ['"']
  | unclosed us dangling =>
    '"' :: us.flatMap StringUnit.text ++ (if dangling then ['\\'] else [])
  | stray c => [c]

/-- The segment that begins with a quote. -/
def nextString (cs : List Char) : Segment × List Char :=
  match stringUnits cs with
  | (us, .closed rest) => (string us, rest)
  | (us, .missing) => (unclosed us false, [])
  | (us, .dangling) => (unclosed us true, [])

/-- The segment that begins with a punctuator's character, or the character
alone if there is no such punctuator. -/
def nextMark (c : Char) (cs : List Char) : Segment × List Char :=
  match Punctuator.withEqual? c with
  | some (p, q) =>
    match cs with
    | '=' :: rest => (punctuator q, rest)
    | _ => (punctuator p, cs)
  | none =>
    match Punctuator.single? c with
    | some p => (punctuator p, cs)
    | none => (stray c, cs)

/-- **The first segment of a text** that begins with `c`, and the text behind
it. -/
def next (c : Char) (cs : List Char) : Segment × List Char :=
  if isBlank c then (blank c, cs)
  else if c = '"' then nextString cs
  else if isWordStart c then
    (word (c :: cs.takeWhile isWordPart), cs.dropWhile isWordPart)
  else if c.isDigit then
    let r := numberText (c :: cs)
    (number r.1, r.2)
  else if c = '/' then
    match cs with
    | '/' :: rest =>
      let r := throughNewline rest
      (comment r.1, r.2)
    | _ => (punctuator .slash, cs)
  else nextMark c cs

end Segment

/-! ## Nothing is lost -/

theorem throughNewline_append (cs : List Char) :
    (throughNewline cs).1 ++ (throughNewline cs).2 = cs := by
  induction cs with
  | nil => rfl
  | cons c cs ih =>
    simp only [throughNewline]
    split
    · rfl
    · simpa using ih

theorem numberText_append (cs : List Char) :
    (numberText cs).1 ++ (numberText cs).2 = cs := by
  have split_eq : cs.takeWhile Char.isDigit ++ cs.dropWhile Char.isDigit = cs :=
    List.takeWhile_append_dropWhile
  unfold numberText
  split
  · rename_i d rest hd
    rw [hd] at split_eq
    split
    · simpa [List.takeWhile_append_dropWhile] using split_eq
    · exact split_eq
  · exact split_eq

/-- The characters behind an opening quote that the end of the string keeps. -/
def StringEnd.text : StringEnd → List Char
  | closed rest => '"' :: rest
  | missing => []
  | dangling => ['\\']

theorem stringUnits_append (cs : List Char) :
    (stringUnits cs).1.flatMap StringUnit.text ++ (stringUnits cs).2.text
      = cs := by
  fun_induction stringUnits cs with
  | case1 => rfl
  | case2 cs => rfl
  | case3 => rfl
  | case4 c cs r ih => simpa [StringUnit.text] using ih
  | case5 c cs r _ _ _ ih => simpa [StringUnit.text] using ih

namespace Segment

theorem text_nextString (cs : List Char) :
    (nextString cs).1.text ++ (nextString cs).2 = '"' :: cs := by
  have h := stringUnits_append cs
  unfold nextString
  split <;> rename_i hu <;> rw [hu] at h <;>
    simpa [text, StringEnd.text] using h

theorem text_nextMark (c : Char) (cs : List Char) :
    (nextMark c cs).1.text ++ (nextMark c cs).2 = c :: cs := by
  unfold nextMark
  split
  · rename_i p q h
    obtain ⟨hp, hq⟩ := Punctuator.text_of_withEqual? h
    split <;> simp [text, hp, hq]
  · split
    · rename_i p h
      simp [text, Punctuator.text_of_single? h]
    · simp [text]

/-- **Nothing is lost**: a segment followed by the rest is the text. -/
theorem text_next (c : Char) (cs : List Char) :
    (next c cs).1.text ++ (next c cs).2 = c :: cs := by
  unfold next
  split
  · rfl
  split
  · rename_i h
    subst h
    exact text_nextString cs
  split
  · simp [text, List.takeWhile_append_dropWhile]
  split
  · exact numberText_append (c :: cs)
  split
  · rename_i h
    subst h
    split
    · simpa [text] using throughNewline_append _
    · rfl
  · exact text_nextMark c cs

theorem text_ne_nil_next (c : Char) (cs : List Char) :
    (next c cs).1.text ≠ [] := by
  unfold next
  split
  · simp [text]
  split
  · unfold nextString
    split <;> simp [text]
  split
  · simp [text]
  split
  · rename_i hd
    simp only [text, numberText]
    split
    · split <;> simp [hd]
    · simp [hd]
  split
  · split
    · simp [text]
    · simp [text, Punctuator.text]
  · unfold nextMark
    split
    · rename_i p q h
      obtain ⟨hp, hq⟩ := Punctuator.text_of_withEqual? h
      split <;> simp [text, hp, hq]
    · split
      · rename_i p h
        simp [text, Punctuator.text_of_single? h]
      · simp [text]

/-- A segment takes at least one character. -/
theorem length_next (c : Char) (cs : List Char) :
    (next c cs).2.length < (c :: cs).length := by
  have h := congrArg List.length (text_next c cs)
  have hpos : 0 < (next c cs).1.text.length :=
    List.length_pos_iff.2 (text_ne_nil_next c cs)
  rw [List.length_append] at h
  omega

end Segment

/-! ## The whole text -/

/-- **The segments of a text**, in order. -/
def segments (cs : List Char) : List Segment :=
  match cs with
  | [] => []
  | c :: cs' => (Segment.next c cs').1 :: segments (Segment.next c cs').2
termination_by cs.length
decreasing_by exact Segment.length_next c cs'

@[simp] theorem segments_nil : segments [] = [] := by
  rw [segments]

theorem segments_cons (c : Char) (cs : List Char) :
    segments (c :: cs)
      = (Segment.next c cs).1 :: segments (Segment.next c cs).2 := by
  rw [segments]

/-- The segments of a text put together again are the text. -/
theorem flatMap_text_segments (cs : List Char) :
    (segments cs).flatMap Segment.text = cs := by
  fun_induction segments cs with
  | case1 => rfl
  | case2 c cs' ih => simp [ih, Segment.text_next]

/-- Each segment with the position of its first character. -/
def locate (p : Position) : List Segment → List (Position × Segment)
  | [] => []
  | s :: ss => (p, s) :: locate (p.after s.text) ss

end TreeScript
