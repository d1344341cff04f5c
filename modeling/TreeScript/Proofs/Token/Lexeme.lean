import Mathlib
import TreeScript.Token.Segment

/-!
# The lexical grammar

Which pieces a text may be cut into, said without reference to how it is cut. A
**lexeme** at the front of a text is a string of characters of one of seven
kinds (`Lexeme`). Two kinds look at what follows: a comment goes up to the next
line feed, or up to the end of the text if there is none, and a string without
closing quote goes up to the end of the text.

For each kind that is read by a function of its own there is a pair of lemmas:
one says that the function gives a lexeme of this kind, the other that it takes
at least as many characters as any lexeme.

The grammar says which cuts are possible; which of them is made is a matter of
length (`Longest`, `MaximalMunch`). A piece that could not be longer is what the
reader of a text expects, and this is the whole of the lexical specification:
there is no state in it, and nothing is said about the order in which kinds are
tried. That the two are brought together nevertheless is the subject of
`TreeScript.Proofs.Token.Munch`.
-/

namespace TreeScript

/-- **The kinds of pieces** of a text. -/
inductive SegmentKind where
  | blank
  | comment
  | string
  | number
  | word
  | punctuator
  /-- A string without closing quote. -/
  | unterminated
  /-- A character that begins no lexeme. -/
  | unexpected
deriving Repr, DecidableEq, Inhabited

/-- The kind of a segment. -/
def Segment.kind : Segment → SegmentKind
  | blank _ => .blank
  | comment _ => .comment
  | word _ => .word
  | number _ => .number
  | punctuator _ => .punctuator
  | string _ => .string
  | unclosed _ _ => .unterminated
  | stray _ => .unexpected

/-! ## Characters

The classes of characters, said by their members. The tests of the scanner are
equal to them, so that a proof may use whichever is at hand. -/

/-- An ASCII digit. -/
def IsDigit (c : Char) : Prop := '0' ≤ c ∧ c ≤ '9'

/-- An ASCII letter or the underscore. -/
def IsLetter (c : Char) : Prop :=
  ('A' ≤ c ∧ c ≤ 'Z') ∨ ('a' ≤ c ∧ c ≤ 'z') ∨ c = '_'

theorem isDigit_iff {c : Char} : c.isDigit = true ↔ IsDigit c := by
  simp [Char.isDigit, IsDigit, Char.le_def]

theorem isWordStart_iff {c : Char} : isWordStart c = true ↔ IsLetter c := by
  simp [isWordStart, Char.isAlpha, Char.isUpper, Char.isLower, IsLetter,
    Char.le_def, or_assoc]

theorem isWordPart_iff {c : Char} :
    isWordPart c = true ↔ IsLetter c ∨ IsDigit c := by
  rw [← isWordStart_iff, ← isDigit_iff]
  simp only [isWordPart, isWordStart, Char.isAlphanum, Bool.or_eq_true,
    or_right_comm]

theorem isBlank_iff {c : Char} :
    isBlank c = true ↔ c ∈ [' ', '\t', '\r', '\n'] := by
  simp [isBlank, or_assoc]

/-- No character begins both a word and a number. -/
theorem IsDigit.not_isLetter {c : Char} (h : IsDigit c) : ¬ IsLetter c := by
  obtain ⟨-, hhigh⟩ := h
  rintro (⟨h, -⟩ | ⟨h, -⟩ | rfl)
  · exact absurd (Char.le_trans h hhigh) (by decide)
  · exact absurd (Char.le_trans h hhigh) (by decide)
  · exact absurd hhigh (by decide)

theorem isBlank_ne_true {p : Char → Bool} {c : Char} (h : p c = true)
    (hp : [' ', '\t', '\r', '\n'].any p = false) : isBlank c ≠ true := by
  intro hb
  have hany := List.any_eq_true.2 ⟨c, isBlank_iff.1 hb, h⟩
  rw [hp] at hany
  cases hany

/-! ## Lexemes

The grammar itself: the bodies of strings first, as they are the one part with a
structure of its own. -/

/-- **What may stand between two quotes**: characters other than quotes and
backslashes, and backslashes with any character behind them. Line feeds may be
among them, so that a string may go over several lines. -/
inductive StringBody : List Char → Prop
  | nil : StringBody []
  | plain {c : Char} {cs : List Char} (hquote : c ≠ '"') (hslash : c ≠ '\\')
      (h : StringBody cs) : StringBody (c :: cs)
  | escape {c : Char} {cs : List Char} (h : StringBody cs) :
      StringBody ('\\' :: c :: cs)

/-- **A lexeme of some kind** with the text `rest` behind it. The text behind is
needed for the two kinds that look at it, and is arbitrary for all others. -/
inductive Lexeme : SegmentKind → (text rest : List Char) → Prop
  /-- A space, a tab, a carriage return or a line feed. -/
  | blank {c : Char} {rest : List Char} (h : c ∈ [' ', '\t', '\r', '\n']) :
      Lexeme .blank [c] rest
  /-- A comment through the next line feed. -/
  | comment {body rest : List Char} (h : '\n' ∉ body) :
      Lexeme .comment ('/' :: '/' :: (body ++ ['\n'])) rest
  /-- A comment on the last line. -/
  | lastComment {body : List Char} (h : '\n' ∉ body) :
      Lexeme .comment ('/' :: '/' :: body) []
  /-- A string in quotes. -/
  | string {body rest : List Char} (h : StringBody body) :
      Lexeme .string ('"' :: (body ++ ['"'])) rest
  /-- A whole number. -/
  | integer {ds rest : List Char} (hne : ds ≠ []) (h : ∀ d ∈ ds, IsDigit d) :
      Lexeme .number ds rest
  /-- A number with a period, and digits on both sides of it. -/
  | decimal {ds es rest : List Char} (hds : ds ≠ []) (hes : es ≠ [])
      (hd : ∀ d ∈ ds, IsDigit d) (he : ∀ d ∈ es, IsDigit d) :
      Lexeme .number (ds ++ '.' :: es) rest
  /-- A word. -/
  | word {c : Char} {cs rest : List Char} (h : IsLetter c)
      (hs : ∀ d ∈ cs, IsLetter d ∨ IsDigit d) : Lexeme .word (c :: cs) rest
  /-- A punctuator, of one or two characters. -/
  | punctuator {rest : List Char} (p : Punctuator) :
      Lexeme .punctuator p.text.toList rest
  /-- A quote that no quote closes, and all that follows. -/
  | unterminated {cs : List Char}
      (h : ∀ body rest, StringBody body → cs ≠ body ++ '"' :: rest) :
      Lexeme .unterminated ('"' :: cs) []

/-- A lexeme has at least one character, so that cutting makes progress. -/
theorem Lexeme.ne_nil {k : SegmentKind} {text rest : List Char}
    (h : Lexeme k text rest) : text ≠ [] := by
  cases h with
  | integer hne => exact hne
  | punctuator p => cases p <;> decide
  | _ => simp

/-! ## Cuts

A cut is a list of pieces. Stray characters are pieces, too, so that every text
has a cut. -/

/-- **A piece of a text**: its kind and its characters. -/
structure Piece where
  /-- What it is. -/
  kind : SegmentKind
  /-- Its characters. -/
  text : List Char
deriving Repr, DecidableEq

/-- The lexeme `text` in front of `rest` is **the longest** of all lexemes that
start there. -/
structure Longest (k : SegmentKind) (text rest : List Char) : Prop where
  /-- It is a lexeme. -/
  lexeme : Lexeme k text rest
  /-- No other is longer. -/
  longest : ∀ {k' text' rest'}, Lexeme k' text' rest' →
    text' ++ rest' = text ++ rest → text'.length ≤ text.length

/-- No lexeme starts at the front of the text. -/
def StartsNoLexeme (cs : List Char) : Prop :=
  ∀ {k text rest}, Lexeme k text rest → text ++ rest ≠ cs

/-- **The cut of a text by maximal munch**: each piece is the longest lexeme that
starts where the one before it ends, or an unexpected character if no lexeme
starts there. -/
inductive MaximalMunch : List Char → List Piece → Prop
  | nil : MaximalMunch [] []
  | lexeme {k : SegmentKind} {text rest : List Char} {gs : List Piece}
      (h : Longest k text rest) (hrest : MaximalMunch rest gs) :
      MaximalMunch (text ++ rest) (⟨k, text⟩ :: gs)
  | unexpected {c : Char} {cs : List Char} {gs : List Piece}
      (h : StartsNoLexeme (c :: cs)) (hrest : MaximalMunch cs gs) :
      MaximalMunch (c :: cs) (⟨.unexpected, [c]⟩ :: gs)

/-! ## Comments

The function that splits off a comment, in both directions. -/

/-- A comment ends with the first line feed. -/
theorem throughNewline_newline {body : List Char} (h : '\n' ∉ body)
    (rest : List Char) :
    throughNewline (body ++ '\n' :: rest) = (body ++ ['\n'], rest) := by
  induction body with
  | nil => rfl
  | cons c cs ih =>
    have hc : c ≠ '\n' := Ne.symm (List.ne_of_not_mem_cons h)
    rw [List.cons_append, throughNewline, if_neg hc,
      ih (List.not_mem_of_not_mem_cons h)]
    rfl

theorem throughNewline_last {body : List Char} (h : '\n' ∉ body) :
    throughNewline body = (body, []) := by
  induction body with
  | nil => rfl
  | cons c cs ih =>
    have hc : c ≠ '\n' := Ne.symm (List.ne_of_not_mem_cons h)
    rw [throughNewline, if_neg hc, ih (List.not_mem_of_not_mem_cons h)]

/-- What is split off behind two slashes is a comment. -/
theorem lexeme_throughNewline (cs : List Char) :
    Lexeme .comment ('/' :: '/' :: (throughNewline cs).1)
      (throughNewline cs).2 := by
  by_cases h : '\n' ∈ cs
  · obtain ⟨body, rest, rfl, hbody⟩ := List.eq_append_cons_of_mem h
    rw [throughNewline_newline hbody]
    exact .comment hbody
  · rw [throughNewline_last h]
    exact .lastComment h

/-! ## Strings

The same for strings. A body is split into units; the seam between two units is
never inside an escape. -/

theorem stringUnits_quote {body : List Char} (h : StringBody body)
    (rest : List Char) :
    (stringUnits (body ++ '"' :: rest)).2 = .closed rest := by
  induction h with
  | nil => rfl
  | plain hquote hslash _ ih => simp [stringUnits, hslash, ih]
  | escape _ ih => simp [stringUnits, ih]

/-- What is read is a body, whether a quote closes it or not. -/
theorem stringBody_units (cs : List Char) :
    StringBody ((stringUnits cs).1.flatMap StringUnit.text) := by
  fun_induction stringUnits cs with
  | case1 => exact .nil
  | case2 => exact .nil
  | case3 => exact .nil
  | case4 c cs r ih => exact .escape ih
  | case5 c cs hquote hlast hescape r ih =>
    refine .plain hquote (fun hslash => ?_) ih
    cases cs with
    | nil => exact hlast hslash rfl
    | cons d ds => exact hescape d ds hslash rfl

/-- A quote is closed exactly if reading finds a quote that closes it. -/
theorem stringUnits_not_closed {cs : List Char}
    (h : ∀ rest, (stringUnits cs).2 ≠ .closed rest) (body rest : List Char)
    (hbody : StringBody body) : cs ≠ body ++ '"' :: rest := by
  rintro rfl
  exact h rest (stringUnits_quote hbody rest)

/-- What is split off at a quote is a string, or an unterminated one that takes
the whole text. -/
theorem lexeme_nextString (cs : List Char) :
    Lexeme (Segment.nextString cs).1.kind (Segment.nextString cs).1.text
      (Segment.nextString cs).2 := by
  have htext := Segment.text_nextString cs
  have hbody := stringBody_units cs
  unfold Segment.nextString at htext ⊢
  split <;> rename_i hu
  · rw [hu] at hbody
    exact .string hbody
  -- Without a closing quote, the segment is the whole text.
  all_goals
    have hopen : ∀ rest, (stringUnits cs).2 ≠ .closed rest := by
      rw [hu]
      exact nofun
    rw [hu] at htext
    dsimp only at htext ⊢
    rw [List.append_nil] at htext
    rw [htext]
    exact .unterminated (stringUnits_not_closed hopen)

/-! ## Numbers

And for numbers. A period is taken only if a digit stands behind it. -/

theorem isDigit_of_mem_takeWhile {cs : List Char} {d : Char}
    (h : d ∈ cs.takeWhile Char.isDigit) : IsDigit d :=
  isDigit_iff.1 (List.all_eq_true.1 List.all_takeWhile d h)

/-- What is split off at a digit is a number. -/
theorem lexeme_numberText {c : Char} (hc : c.isDigit = true) (cs : List Char) :
    Lexeme .number (numberText (c :: cs)).1 (numberText (c :: cs)).2 := by
  have hne : (c :: cs).takeWhile Char.isDigit ≠ [] := by simp [hc]
  unfold numberText
  split
  · rename_i d rest _
    split
    · rename_i hd
      refine .decimal hne (List.cons_ne_nil _ _)
        (fun _ => isDigit_of_mem_takeWhile) ?_
      exact List.forall_mem_cons.2
        ⟨isDigit_iff.1 hd, fun _ => isDigit_of_mem_takeWhile⟩
    · exact .integer hne fun _ => isDigit_of_mem_takeWhile
  · exact .integer hne fun _ => isDigit_of_mem_takeWhile

/-- A number has at least all digits at the front. -/
theorem length_takeWhile_le_numberText (cs : List Char) :
    (cs.takeWhile Char.isDigit).length ≤ (numberText cs).1.length := by
  unfold numberText
  split
  · split
    · simp
    · exact Nat.le_refl _
  · exact Nat.le_refl _

/-- A period between digits is part of the number. -/
theorem numberText_decimal {ds es : List Char} (hes : es ≠ [])
    (hd : ∀ d ∈ ds, IsDigit d) (he : ∀ d ∈ es, IsDigit d) (rest : List Char) :
    (numberText (ds ++ '.' :: (es ++ rest))).1
      = ds ++ '.' :: (es ++ rest.takeWhile Char.isDigit) := by
  obtain ⟨e, es, rfl⟩ := List.exists_cons_of_ne_nil hes
  obtain ⟨he, hes⟩ := List.forall_mem_cons.1 he
  have hd : ∀ d ∈ ds, d.isDigit = true := fun d h => isDigit_iff.2 (hd d h)
  have hes : ∀ d ∈ es, d.isDigit = true := fun d h => isDigit_iff.2 (hes d h)
  have hdot : Char.isDigit '.' = false := rfl
  unfold numberText
  rw [List.dropWhile_append_of_pos hd, List.takeWhile_append_of_pos hd]
  simp [hdot, isDigit_iff.2 he, List.takeWhile_append_of_pos hes]

end TreeScript
