import TreeScript.Token.Scan

/-!
# Scanning character by character

`SourceText.scan` cuts a text into segments and reads each of them as a whole. Here
the same tokens are found by a machine (`CharLexer`) that goes through the text one
character at a time and has little at hand:

* an iterator over the characters that it has not met, each with the number of
  bytes in front of it;
* at most one character that it has looked at but not consumed, with the mark it
  was found at;
* a line and a column, which are moved when a character is **looked at**, not when
  it is consumed. So they belong to the character behind the one in hand, and the
  mark of the one in hand has to be kept beside it.

What a token is made of is not collected on the way, except in strings. It is cut
out of the whole text afterwards, between the byte offsets of two marks
(`CharLexer.textFrom`). Whether a period belongs to a number depends on two
characters, and the second one is seen through a copy of the iterator
(`CharLexer.peekSecond`).

The machine answers each call with the next token and keeps the errors; behind the
last token it gives the end-of-file token once. All its loops end because they
consume characters. `CharLexer.Moves` says this, together with what no step
touches. That the machine finds what scanning finds is shown in
`TreeScript.Proofs.Token.Simulation`.

The state has a field that decides nothing about what comes next, the flag that
the end was handed out, and the errors are only added to. So a step is known by
how it moves the rest. The loops are defined by recursion on the characters that
are left; for proofs they are unfolded by what the next character is, one
equation for each case.
-/

namespace TreeScript

/-! ## Bytes of a text

Offsets count bytes, as an iterator over a text gives them, while lines and
columns count characters. -/

/-- **The characters of a text with their byte offsets**, counted from `offset`.
A character begins as many bytes further on as the one in front of it takes. -/
def charIndices (offset : Nat) : List Char → List (Nat × Char)
  | [] => []
  | c :: cs => (offset, c) :: charIndices (offset + c.utf8Size) cs

/-- The number of bytes that a text takes. -/
def byteSize : List Char → Nat
  | [] => 0
  | c :: cs => c.utf8Size + byteSize cs

/-- **The part of a text between two byte offsets.** -/
def slice (cs : List Char) (first last : Nat) : List Char :=
  ((charIndices 0 cs).filter fun x => first ≤ x.1 && x.1 < last).map Prod.snd

/-- **A mark in a text**: a byte offset, and the line and column there. -/
structure Mark where
  /-- The number of bytes in front of the mark. -/
  offset : Nat
  /-- The line and the column of the mark. -/
  position : Position
deriving Repr, DecidableEq

/-! ## The state

A character that is in hand was taken from the iterator. Whether one is in hand
is no matter of the text, only of what was asked for last. -/

/-- **The state of a character-wise lexer.** A text without its places could be
read with the iterator alone; the other fields are for places, for the character
that was looked at, and for the errors. -/
structure CharLexer where
  /-- The name of the text. -/
  file : String
  /-- The whole text. -/
  contents : List Char
  /-- The characters that were not looked at, with their byte offsets. -/
  chars : List (Nat × Char)
  /-- The character that was looked at but not consumed, with its mark. -/
  current : Option (Mark × Char)
  /-- The line and column behind all characters that were looked at. -/
  position : Position
  /-- The errors met so far. -/
  errors : List LexicalError
  /-- Whether the end-of-file token has been handed out. -/
  ended : Bool
deriving Repr

namespace CharLexer

/-- A lexer at the start of a text. It has looked at nothing. -/
def ofSource (s : SourceText) : CharLexer where
  file := s.name
  contents := s.text.toList
  chars := charIndices 0 s.text.toList
  current := none
  position := .start
  errors := []
  ended := false

/-- The number of characters that were not consumed. -/
def left (l : CharLexer) : Nat :=
  l.chars.length + if l.current.isSome then 1 else 0

/-! ## Single characters

All that the machine ever does with its iterator is done here. -/

/-- **Looks at the next character.** Only the first look at it moves the
iterator, the line and the column. A character that is in hand already is looked
at again for nothing. -/
def peek (l : CharLexer) : Option Char × CharLexer :=
  match l.current with
  | some x => (some x.2, l)
  | none =>
    match l.chars with
    | [] => (none, l)
    | x :: rest =>
      (some x.2, { l with
        chars := rest
        current := some (⟨x.1, l.position⟩, x.2)
        position := l.position.step x.2 })

/-- Looks at the character behind the next one. The iterator is not moved by
this. -/
def peekSecond (l : CharLexer) : Option Char × CharLexer :=
  match l.peek.1 with
  | none => (none, l.peek.2)
  | some _ => (l.peek.2.chars.head?.map Prod.snd, l.peek.2)

/-- **Consumes the character in hand**, and looks at the one behind it. The
machine is never more than one character ahead, and only this step brings it
there. -/
def consume (l : CharLexer) : CharLexer := { l with current := none }.peek.2

/-- Takes the next character. -/
def nextChar (l : CharLexer) : Option Char × CharLexer :=
  match l.peek.1 with
  | none => (none, l.peek.2)
  | some c => (some c, l.peek.2.consume)

/-- **The mark of the next character**, or of the end of the text. -/
def mark (l : CharLexer) : Mark × CharLexer :=
  match l.peek.2.current with
  | some x => (x.1, l.peek.2)
  | none => (⟨byteSize l.contents, l.peek.2.position⟩, l.peek.2)

/-- The place of a mark. -/
def spanAt (l : CharLexer) (m : Mark) : Span := .ofPosition l.file m.position

/-- Records an error at a mark. -/
def report (l : CharLexer) (m : Mark) (fault : LexicalFault) : CharLexer :=
  { l with errors := l.errors ++ [⟨l.spanAt m, fault⟩] }

/-- The text from a mark to the next character. -/
def textFrom (l : CharLexer) (start : Mark) : List Char × CharLexer :=
  (slice l.contents start.offset l.mark.1.offset, l.mark.2)

/-- **The token from a mark to the next character.** -/
def tokenFrom (l : CharLexer) (start : Mark) (kind : TokenKind) :
    Token × CharLexer :=
  (⟨kind, String.ofList (l.textFrom start).1, l.spanAt start⟩,
    (l.textFrom start).2)

/-! ## What steps keep

The measure is the number of characters that were not consumed, the one in hand
among them. Looking leaves it alone and consuming makes it smaller, if there is
something to consume. -/

/-- **What a step of the machine does to its state**: it may consume characters and
record errors, but the text and its name stay, and whether its end was handed out
is not its business. -/
structure Moves (l l' : CharLexer) : Prop where
  /-- No character comes back. -/
  left_le : l'.left ≤ l.left
  file : l'.file = l.file
  contents : l'.contents = l.contents
  ended : l'.ended = l.ended

namespace Moves

theorem refl (l : CharLexer) : l.Moves l := ⟨Nat.le_refl _, rfl, rfl, rfl⟩

theorem trans {l l' l'' : CharLexer} (h : l.Moves l') (h' : l'.Moves l'') :
    l.Moves l'' :=
  ⟨Nat.le_trans h'.left_le h.left_le, h'.file.trans h.file,
    h'.contents.trans h.contents, h'.ended.trans h.ended⟩

end Moves

section Steps

variable {l : CharLexer} {c : Char}

/-- Looking consumes nothing. -/
theorem left_peek (l : CharLexer) : l.peek.2.left = l.left := by
  unfold peek
  split
  · rfl
  · rename_i hcurrent
    split
    · rfl
    · rename_i hchars
      simp [left, hcurrent, hchars]

/-- Looking moves the iterator, the line and the column at most. -/
theorem moves_peek (l : CharLexer) : l.Moves l.peek.2 := by
  refine ⟨Nat.le_of_eq l.left_peek, ?_, ?_, ?_⟩
  all_goals
    unfold peek
    split
    · rfl
    · split <;> rfl

/-- To look twice is to look once. -/
theorem peek_peek (l : CharLexer) : l.peek.2.peek = l.peek := by
  rcases l with ⟨file, contents, chars, _ | x, position, errors, ended⟩
  · cases chars <;> rfl
  · rfl

/-- Behind a character that was consumed, those are left that the iterator has.
-/
theorem left_consume (l : CharLexer) : l.consume.left = l.chars.length :=
  (left_peek _).trans (Nat.add_zero _)

/-- Consuming leaves no more than before, also at the end of the text. -/
theorem moves_consume (l : CharLexer) : l.Moves l.consume := by
  have h := moves_peek { l with current := none }
  exact ⟨l.left_consume ▸ Nat.le_add_right _ _, h.file, h.contents, h.ended⟩

/-- **To consume a character that is there leaves one less.** All loops of the
machine end for this reason. -/
theorem left_consume_lt (h : l.peek.1 = some c) : l.peek.2.consume.left < l.left := by
  have hcurrent : l.peek.2.current.isSome = true := by
    unfold peek at h ⊢
    split
    · rename_i hcurrent
      exact Option.isSome_iff_exists.2 ⟨_, hcurrent⟩
    · rename_i hcurrent
      rw [hcurrent] at h
      split
      · rename_i hchars
        rw [hchars] at h
        cases h
      · rfl
  have hleft := l.left_peek
  rw [left, if_pos hcurrent] at hleft
  rw [left_consume]
  omega

/-- To take a character is to look at it and to consume it. -/
theorem moves_nextChar (l : CharLexer) : l.Moves l.nextChar.2 := by
  unfold nextChar
  split
  · exact l.moves_peek
  · exact l.moves_peek.trans (moves_consume _)

/-- A character that was taken is consumed. -/
theorem left_nextChar_lt (h : l.nextChar.1 = some c) :
    l.nextChar.2.left < l.left := by
  unfold nextChar at h ⊢
  cases hpeek : l.peek.1 with
  | none =>
    rw [hpeek] at h
    cases h
  | some d => exact left_consume_lt hpeek

/-- To take a mark is to look at the character it belongs to. -/
theorem mark_snd (l : CharLexer) : l.mark.2 = l.peek.2 := by
  unfold mark
  split <;> rfl

theorem moves_mark (l : CharLexer) : l.Moves l.mark.2 :=
  l.mark_snd ▸ l.moves_peek

theorem peek_mark (l : CharLexer) : l.mark.2.peek = l.peek :=
  l.mark_snd ▸ l.peek_peek

theorem moves_report (l : CharLexer) (m : Mark) (fault : LexicalFault) :
    l.Moves (l.report m fault) :=
  ⟨Nat.le_refl _, rfl, rfl, rfl⟩

/-- Cutting out a token needs a look at the character behind it. -/
theorem moves_tokenFrom (l : CharLexer) (start : Mark) (kind : TokenKind) :
    l.Moves (l.tokenFrom start kind).2 :=
  l.moves_mark

end Steps

/-! ## Loops

Three loops that consume: blanks, digits and words by a property of their
characters, comments up to their line feed, strings up to their quote. -/

/-- Consumes characters as long as they have a property. -/
def consumeWhile (p : Char → Bool) (l : CharLexer) : CharLexer :=
  match _h : l.peek.1 with
  | none => l.peek.2
  | some c => if p c then l.peek.2.consume.consumeWhile p else l.peek.2
termination_by l.left
decreasing_by exact left_consume_lt _h

/-- Consumes the rest of a line, with its line feed. -/
def consumeLine (l : CharLexer) : CharLexer :=
  match _h : l.nextChar.1 with
  | none => l.nextChar.2
  | some c => if c = '\n' then l.nextChar.2 else l.nextChar.2.consumeLine
termination_by l.left
decreasing_by exact left_nextChar_lt _h

/-- **Consumes a string behind its opening quote**, which stands at `start`. The
characters that it means so far are `value`: a string is the only token whose text
is collected on the way. -/
def stringFrom (start : Mark) (value : List Char) (l : CharLexer) :
    Option Token × CharLexer :=
  match _h : l.nextChar.1 with
  | none => (none, l.nextChar.2.report start .unterminatedString)
  | some c =>
    if c = '"' then
      (some ⟨.string, String.ofList value, l.spanAt start⟩, l.nextChar.2)
    else if c = '\\' then
      -- An unknown escape is reported at the character behind the backslash.
      let escape := l.nextChar.2.mark
      match escape.2.nextChar.1 with
      | none => (none, escape.2.nextChar.2.report start .unterminatedString)
      | some d =>
        match StringUnit.escaped? d with
        | some e => escape.2.nextChar.2.stringFrom start (value ++ [e])
        | none =>
          (escape.2.nextChar.2.report escape.1 (.invalidEscape d)).stringFrom start
            (value ++ ['\\', d])
    else l.nextChar.2.stringFrom start (value ++ [c])
termination_by l.left
decreasing_by
  · have hmark := l.nextChar.2.moves_mark.left_le
    exact Nat.lt_of_le_of_lt
      (Nat.le_trans (moves_nextChar _).left_le hmark) (left_nextChar_lt _h)
  · have hmark := l.nextChar.2.moves_mark.left_le
    exact Nat.lt_of_le_of_lt
      (Nat.le_trans (moves_nextChar _).left_le hmark) (left_nextChar_lt _h)
  · exact left_nextChar_lt _h

/-- A run of characters, each of which is looked at and then consumed. -/
theorem moves_consumeWhile (p : Char → Bool) (l : CharLexer) :
    l.Moves (l.consumeWhile p) := by
  fun_induction consumeWhile p l with
  | case1 l h => exact l.moves_peek
  | case2 l c h hc ih => exact (l.moves_peek.trans (moves_consume _)).trans ih
  | case3 l c h hc => exact l.moves_peek

/-! The loops unfold by what is found at the next character. -/

section Unfold

variable {l : CharLexer} {c : Char}

theorem consumeWhile_of_none (h : l.peek.1 = none) (p : Char → Bool) :
    l.consumeWhile p = l.peek.2 := by
  rw [consumeWhile]
  split
  · rfl
  · rename_i hsome
    cases h.symm.trans hsome

/-- A run goes on with a character of its kind and ends in front of any other. -/
theorem consumeWhile_of_some (h : l.peek.1 = some c) (p : Char → Bool) :
    l.consumeWhile p
      = if p c then l.peek.2.consume.consumeWhile p else l.peek.2 := by
  rw [consumeWhile]
  split
  · rename_i hnone
    cases h.symm.trans hnone
  · rename_i d hd
    rw [Option.some.inj (h.symm.trans hd)]

theorem consumeLine_of_none (h : l.nextChar.1 = none) :
    l.consumeLine = l.nextChar.2 := by
  rw [consumeLine]
  split
  · rfl
  · rename_i hsome
    cases h.symm.trans hsome

/-- A line feed ends a comment and belongs to it. -/
theorem consumeLine_of_some (h : l.nextChar.1 = some c) :
    l.consumeLine
      = if c = '\n' then l.nextChar.2 else l.nextChar.2.consumeLine := by
  rw [consumeLine]
  split
  · rename_i hnone
    cases h.symm.trans hnone
  · rename_i d hd
    rw [Option.some.inj (h.symm.trans hd)]

/-- The text ended inside the string. The error is placed at the opening quote.
-/
theorem stringFrom_of_none (h : l.nextChar.1 = none) (start : Mark)
    (value : List Char) :
    l.stringFrom start value
      = (none, l.nextChar.2.report start .unterminatedString) := by
  rw [stringFrom]
  split
  · rfl
  · rename_i hsome
    cases h.symm.trans hsome

/-- A quote ends the string. Its token has the place of the opening quote. -/
theorem stringFrom_of_quote (h : l.nextChar.1 = some '"') (start : Mark)
    (value : List Char) :
    l.stringFrom start value
      = (some ⟨.string, String.ofList value, l.spanAt start⟩, l.nextChar.2) := by
  rw [stringFrom]
  split
  · rename_i hnone
    cases h.symm.trans hnone
  · rename_i d hd
    rw [if_pos (Option.some.inj (h.symm.trans hd)).symm]

/-- Any other character than a backslash stands for itself. -/
theorem stringFrom_of_plain (h : l.nextChar.1 = some c) (hquote : c ≠ '"')
    (hslash : c ≠ '\\') (start : Mark) (value : List Char) :
    l.stringFrom start value = l.nextChar.2.stringFrom start (value ++ [c]) := by
  rw [stringFrom]
  split
  · rename_i hnone
    cases h.symm.trans hnone
  · rename_i d hd
    obtain rfl := Option.some.inj (h.symm.trans hd)
    rw [if_neg hquote, if_neg hslash]

/-- A backslash with nothing behind it leaves the string open. -/
theorem stringFrom_of_dangling (h : l.nextChar.1 = some '\\')
    (hnone : l.nextChar.2.mark.2.nextChar.1 = none) (start : Mark)
    (value : List Char) :
    l.stringFrom start value
      = (none,
        l.nextChar.2.mark.2.nextChar.2.report start .unterminatedString) := by
  rw [stringFrom]
  split
  · rename_i hnone
    cases h.symm.trans hnone
  · rename_i d hd
    obtain rfl := Option.some.inj (h.symm.trans hd)
    rw [if_neg (by decide), if_pos rfl]
    dsimp only
    rw [hnone]

/-- A backslash with a character behind it is an escape, known or not. -/
theorem stringFrom_of_escape (h : l.nextChar.1 = some '\\')
    (hc : l.nextChar.2.mark.2.nextChar.1 = some c) (start : Mark)
    (value : List Char) :
    l.stringFrom start value
      = match StringUnit.escaped? c with
        | some e =>
          l.nextChar.2.mark.2.nextChar.2.stringFrom start (value ++ [e])
        | none =>
          (l.nextChar.2.mark.2.nextChar.2.report l.nextChar.2.mark.1
            (.invalidEscape c)).stringFrom start (value ++ ['\\', c]) := by
  rw [stringFrom]
  split
  · rename_i hnone
    cases h.symm.trans hnone
  · rename_i d hd
    obtain rfl := Option.some.inj (h.symm.trans hd)
    rw [if_neg (by decide), if_pos rfl]
    dsimp only
    rw [hc]

end Unfold

/-- A run that begins with a character of its kind is not empty. -/
theorem left_consumeWhile_lt {p : Char → Bool} {l : CharLexer} {c : Char}
    (h : l.peek.1 = some c) (hc : p c = true) :
    (l.consumeWhile p).left < l.left := by
  rw [consumeWhile_of_some h, if_pos hc]
  exact Nat.lt_of_le_of_lt (moves_consumeWhile p _).left_le (left_consume_lt h)

theorem moves_consumeLine (l : CharLexer) : l.Moves l.consumeLine := by
  fun_induction consumeLine l with
  | case1 l h => exact l.moves_nextChar
  | case2 l h => exact l.moves_nextChar
  | case3 l c h hc ih => exact l.moves_nextChar.trans ih

/-- A string may record errors on the way, and nothing else happens beside the
text. -/
theorem moves_stringFrom (start : Mark) (value : List Char) (l : CharLexer) :
    l.Moves (l.stringFrom start value).2 := by
  fun_induction stringFrom start value l with
  | case1 value l h => exact l.moves_nextChar.trans (moves_report ..)
  | case2 value l h => exact l.moves_nextChar
  | case3 value l h escape hnone =>
    exact ((l.moves_nextChar.trans (moves_mark _)).trans
      (moves_nextChar _)).trans (moves_report ..)
  | case4 value l escape d hd e he h _ ih =>
    exact ((l.moves_nextChar.trans (moves_mark _)).trans (moves_nextChar _)).trans ih
  | case5 value l escape d hd he h _ ih =>
    exact (((l.moves_nextChar.trans (moves_mark _)).trans
      (moves_nextChar _)).trans (moves_report ..)).trans ih
  | case6 value l c h hquote hslash ih => exact l.moves_nextChar.trans ih

/-! ## Tokens

Each reader starts at the character that was looked at and takes its mark first.
-/

/-- A punctuator of one character. -/
def single (l : CharLexer) (p : Punctuator) : Token × CharLexer :=
  l.mark.2.consume.tokenFrom l.mark.1 (.punctuator p)

/-- A punctuator of one character, or of two if an equals sign follows. -/
def singleOrEqual (l : CharLexer) (p q : Punctuator) : Token × CharLexer :=
  let behind := l.mark.2.consume
  if behind.peek.1 = some '=' then
    behind.peek.2.consume.tokenFrom l.mark.1 (.punctuator q)
  else behind.peek.2.tokenFrom l.mark.1 (.punctuator p)

/-- A slash, or a comment if another one follows. The first slash of a comment was
already consumed as a token, which is dropped. -/
def slash (l : CharLexer) : Option Token × CharLexer :=
  let token := l.single .slash
  if token.2.peek.1 = some '/' then (none, token.2.peek.2.consumeLine)
  else (some token.1, token.2.peek.2)

/-- A string. -/
def string (l : CharLexer) : Option Token × CharLexer :=
  l.mark.2.consume.stringFrom l.mark.1 []

/-- A name or a reserved word: the text decides, once it was cut out. -/
def word (l : CharLexer) : Token × CharLexer :=
  let text := (l.mark.2.consumeWhile isWordPart).textFrom l.mark.1
  text.2.tokenFrom l.mark.1 (wordKind text.1)

/-- A number. A period belongs to it if a digit stands behind the period. -/
def number (l : CharLexer) : Token × CharLexer :=
  let whole := (l.mark.2.consumeWhile Char.isDigit).peek
  if whole.1 = some '.' ∧ whole.2.peekSecond.1.any Char.isDigit then
    (whole.2.peekSecond.2.consume.consumeWhile Char.isDigit).tokenFrom l.mark.1
      .number
  else whole.2.tokenFrom l.mark.1 .number

/-- A character that begins no token. -/
def stray (l : CharLexer) (c : Char) : CharLexer :=
  l.mark.2.consume.report l.mark.1 (.unexpectedCharacter c)

/-- A result that is a token for certain. -/
def yielding (r : Token × CharLexer) : Option Token × CharLexer := (some r.1, r.2)

/-- **Reads what begins with the character in hand**, which is `c` and no blank:
a token, or something that gives none. -/
def token (l : CharLexer) (c : Char) : Option Token × CharLexer :=
  if c = '"' then l.string
  else if isWordStart c then yielding l.word
  else if c.isDigit then yielding l.number
  else if c = '/' then l.slash
  else
    match Punctuator.withEqual? c, Punctuator.single? c with
    | some pq, _ => yielding (l.singleOrEqual pq.1 pq.2)
    | none, some p => yielding (l.single p)
    | none, none => (none, l.stray c)

section Token

variable {l : CharLexer} {c : Char}

theorem moves_single (l : CharLexer) (p : Punctuator) :
    l.mark.2.consume.Moves (l.single p).2 :=
  moves_tokenFrom ..

/-- A slash consumes itself, and with it the whole comment if there is one. -/
theorem moves_slash (l : CharLexer) : l.mark.2.consume.Moves l.slash.2 := by
  have htoken := l.moves_single .slash
  unfold slash
  dsimp only
  split
  · exact (htoken.trans (moves_peek _)).trans (moves_consumeLine _)
  · exact htoken.trans (moves_peek _)

/-- The equals sign is consumed behind the first character. -/
theorem moves_singleOrEqual (l : CharLexer) (p q : Punctuator) :
    l.mark.2.consume.Moves (l.singleOrEqual p q).2 := by
  unfold singleOrEqual
  dsimp only
  split
  · exact ((moves_peek _).trans (moves_consume _)).trans (moves_tokenFrom ..)
  · exact (moves_peek _).trans (moves_tokenFrom ..)

theorem moves_word (l : CharLexer) :
    (l.mark.2.consumeWhile isWordPart).Moves l.word.2 :=
  (moves_mark _).trans (moves_tokenFrom ..)

theorem moves_peekSecond (l : CharLexer) : l.Moves l.peekSecond.2 := by
  unfold peekSecond
  split <;> exact l.moves_peek

/-- A number is its first run of digits, with a fraction behind it or not. -/
theorem moves_number (l : CharLexer) :
    (l.mark.2.consumeWhile Char.isDigit).Moves l.number.2 := by
  unfold number
  dsimp only
  split
  · -- A period was looked at, and through the copy the digit behind it.
    exact ((((moves_peek _).trans (moves_peekSecond _)).trans
      (moves_consume _)).trans (moves_consumeWhile ..)).trans (moves_tokenFrom ..)
  · exact (moves_peek _).trans (moves_tokenFrom ..)

/-- A step that has first consumed the character in hand. -/
theorem Moves.of_consume {l' : CharLexer} (h : l.mark.2.consume.Moves l') :
    l.Moves l' :=
  (l.moves_mark.trans (moves_consume _)).trans h

/-- **Whatever begins with a character consumes it**, and moves as steps do. The
readers are told apart by the character as in the definition, and each of them
consumes it first. -/
theorem moves_token (h : l.peek.1 = some c) :
    l.Moves (l.token c).2 ∧ (l.token c).2.left < l.left := by
  have hconsume : l.mark.2.consume.left < l.left := by
    rw [mark_snd]
    exact left_consume_lt h
  have hfirst {l' : CharLexer} (hmoves : l.mark.2.consume.Moves l') :
      l.Moves l' ∧ l'.left < l.left :=
    ⟨hmoves.of_consume, Nat.lt_of_le_of_lt hmoves.left_le hconsume⟩
  have hrun {p : Char → Bool} (hc : p c = true) {l' : CharLexer}
      (hmoves : (l.mark.2.consumeWhile p).Moves l') :
      l.Moves l' ∧ l'.left < l.left := by
    have hlt := left_consumeWhile_lt (l := l.mark.2) (by rw [peek_mark, h]) hc
    exact ⟨(l.moves_mark.trans (moves_consumeWhile ..)).trans hmoves,
      Nat.lt_of_le_of_lt hmoves.left_le
        (Nat.lt_of_lt_of_le hlt l.moves_mark.left_le)⟩
  unfold token
  split
  · exact hfirst (moves_stringFrom ..)
  split
  · rename_i hword
    have hpart : isWordPart c = true := by
      simp only [isWordStart, isWordPart, Char.isAlphanum, Bool.or_eq_true] at *
      exact hword.imp_left .inl
    exact hrun hpart l.moves_word
  split
  · rename_i hdigit
    exact hrun hdigit l.moves_number
  split
  · exact hfirst l.moves_slash
  split
  · exact hfirst (l.moves_singleOrEqual _ _)
  · rename_i p _ _
    exact hfirst (l.moves_single p)
  · exact hfirst (moves_report ..)

end Token

/-! ## Calls

A call goes on until it has a token or the text is at its end. The loop around
the calls is counted by what is left, and by the end, which is handed out once.
-/

/-- The end-of-file token, the first time. -/
def endOfFile (l : CharLexer) : Option Token × CharLexer :=
  if l.ended then (none, l)
  else
    (some (.endOfFile (l.spanAt { l with ended := true }.mark.1)),
      { l with ended := true }.mark.2)

/-- **The next token.** Blanks are skipped, and so is what gives no token. -/
def next (l : CharLexer) : Option Token × CharLexer :=
  match _h : (l.consumeWhile isBlank).peek.1 with
  | none => (l.consumeWhile isBlank).peek.2.endOfFile
  | some c =>
    match ((l.consumeWhile isBlank).peek.2.token c).1 with
    | some t => (some t, ((l.consumeWhile isBlank).peek.2.token c).2)
    | none => ((l.consumeWhile isBlank).peek.2.token c).2.next
termination_by l.left
decreasing_by
  have htoken := (moves_token (l := (l.consumeWhile isBlank).peek.2)
    ((congrArg Prod.fst (peek_peek _)).trans _h)).2
  exact Nat.lt_of_lt_of_le htoken
    ((moves_consumeWhile ..).trans (moves_peek _)).left_le

/-- How many calls can still give a token. -/
def callsLeft (l : CharLexer) : Nat := l.left + if l.ended then 0 else 1

/-- The end of the text is a token once; to hand it out takes one from the
count. -/
theorem left_endOfFile_lt {l : CharLexer} {t : Token}
    (h : l.endOfFile.1 = some t) : l.endOfFile.2.callsLeft < l.callsLeft := by
  unfold endOfFile at h ⊢
  split
  · rename_i hended
    rw [if_pos hended] at h
    cases h
  · rename_i hended
    -- The place of the end is a mark, which has to look once more.
    have hmark := moves_mark { l with ended := true }
    rw [callsLeft, hmark.ended, callsLeft, if_neg hended]
    exact Nat.lt_succ_of_le hmark.left_le

/-- A call that gives a token leaves fewer of them. -/
theorem callsLeft_next_lt {l : CharLexer} {t : Token} (h : l.next.1 = some t) :
    l.next.2.callsLeft < l.callsLeft := by
  have hblanks (l : CharLexer) : l.Moves (l.consumeWhile isBlank).peek.2 :=
    (moves_consumeWhile ..).trans (moves_peek _)
  fun_induction next l with
  | case1 l hnone =>
    refine Nat.lt_of_lt_of_le (left_endOfFile_lt h) ?_
    rw [callsLeft, callsLeft, (hblanks l).ended]
    exact Nat.add_le_add_right (hblanks l).left_le _
  | case2 l c hc t' ht =>
    obtain ⟨hmoves, hlt⟩ := moves_token (l := (l.consumeWhile isBlank).peek.2)
      ((congrArg Prod.fst (peek_peek _)).trans hc)
    rw [callsLeft, callsLeft, hmoves.ended, (hblanks l).ended]
    exact Nat.add_lt_add_right
      (Nat.lt_of_lt_of_le hlt (hblanks l).left_le) _
  | case3 l c hc hnone ih =>
    obtain ⟨hmoves, hlt⟩ := moves_token (l := (l.consumeWhile isBlank).peek.2)
      ((congrArg Prod.fst (peek_peek _)).trans hc)
    refine Nat.lt_of_lt_of_le (ih h) ?_
    rw [callsLeft, callsLeft, hmoves.ended, (hblanks l).ended]
    exact Nat.add_le_add_right
      (Nat.le_trans (Nat.le_of_lt hlt) (hblanks l).left_le) _

/-- **All tokens and errors**: calls until there is no token. -/
def collectAll (l : CharLexer) : Scan :=
  match _h : l.next.1 with
  | some t => ⟨t :: l.next.2.collectAll.tokens, l.next.2.collectAll.errors⟩
  | none => ⟨[], l.next.2.errors⟩
termination_by l.callsLeft
decreasing_by all_goals exact callsLeft_next_lt _h

end CharLexer

end TreeScript
