import TreeScript.Proofs.Token.Collect
import TreeScript.Proofs.Token.Machine

/-!
# The machine scans

The character-wise lexer finds the tokens and errors that scanning finds, call by
call (`CharLexer.simulates_next`) and altogether (`charLexer_scans`). So what is
proved about scanning is true of the machine as well.

The machine has seven fields, but where it stands in a text there is only one value
that they can have: with `before` behind it and `ahead` in front of it, and the
first character of `ahead` in hand, it is `CharLexer.facing`. Each of its steps leads
from one such state to another, and one lemma for each step says to which. Two of
them carry the whole development:

* A character is consumed by looking at the one behind it
  (`CharLexer.consume_facing`). The line and column that this look moves are ahead by
  one character, and the mark that was taken with the look is right.
* Text is cut out by byte offsets, which are sums of character sizes. Cut between the
  marks of two states it is the text between them
  (`CharLexer.textFrom_facing`), however many bytes its characters take.

A fresh machine has looked at nothing and is in none of these states; but every call
begins with a look, so it does not matter (`CharLexer.next_peek`).

The lexer of segments is not mentioned by the machine and does not know of
bytes. What the two have in common is the text: a run of characters that the
machine consumes one by one is what the segment functions split off at once. So
the comparison is made for each reader of the machine (`number_facing`,
`string_facing` and so on), from one state `facing` to another, and put together
by the first character in the same order in which both choose
(`CharLexer.token_facing`).
-/

namespace TreeScript

/-! ## Bytes

Offsets are added along a text, and a cut between two of them is found by going
through the characters. -/

theorem byteSize_append (cs ds : List Char) :
    byteSize (cs ++ ds) = byteSize cs + byteSize ds := by
  induction cs with
  | nil => simp [byteSize]
  | cons c cs ih => simp [byteSize, ih, Nat.add_assoc]

/-- The characters of the second text come behind the bytes of the first. -/
theorem charIndices_append (offset : Nat) (cs ds : List Char) :
    charIndices offset (cs ++ ds)
      = charIndices offset cs ++ charIndices (offset + byteSize cs) ds := by
  induction cs generalizing offset with
  | nil => simp [charIndices, byteSize]
  | cons c cs ih => simp [charIndices, byteSize, ih, Nat.add_assoc]

/-- Offsets are put beside the characters, which stay what they are. -/
theorem map_snd_charIndices (offset : Nat) (cs : List Char) :
    (charIndices offset cs).map Prod.snd = cs := by
  induction cs generalizing offset with
  | nil => rfl
  | cons c cs ih => exact congrArg (c :: ·) (ih _)

/-- A character begins inside the text it is a character of. -/
theorem offset_bounds {offset : Nat} {cs : List Char} {x : Nat × Char}
    (h : x ∈ charIndices offset cs) :
    offset ≤ x.1 ∧ x.1 < offset + byteSize cs := by
  induction cs generalizing offset with
  | nil => cases h
  | cons c cs ih =>
    have hsize : byteSize (c :: cs) = c.utf8Size + byteSize cs := by
      simp [byteSize]
    have hpos := c.utf8Size_pos
    rcases List.mem_cons.1 h with rfl | h
    · exact ⟨Nat.le_refl _, by omega⟩
    · have hbounds := ih h
      omega

/-- **What is cut out between two offsets is the text between them.** Characters
that begin in front of the first offset or at the second one are left out, and
no character begins in front of an offset and ends behind it. -/
theorem slice_append (before word rest : List Char) :
    slice (before ++ word ++ rest) (byteSize before) (byteSize (before ++ word))
      = word := by
  unfold slice
  rw [charIndices_append, charIndices_append, List.filter_append,
    List.filter_append, Nat.zero_add, Nat.zero_add]
  have hbefore : (charIndices 0 before).filter
      (fun x => byteSize before ≤ x.1 && x.1 < byteSize (before ++ word)) = [] := by
    refine List.filter_eq_nil_iff.2 fun x hx => ?_
    have hbounds := offset_bounds hx
    simp
    omega
  have hword : (charIndices (byteSize before) word).filter
      (fun x => byteSize before ≤ x.1 && x.1 < byteSize (before ++ word))
        = charIndices (byteSize before) word := by
    refine List.filter_eq_self.2 fun x hx => ?_
    have hbounds := offset_bounds hx
    rw [byteSize_append]
    simp
    omega
  have hrest : (charIndices (byteSize (before ++ word)) rest).filter
      (fun x => byteSize before ≤ x.1 && x.1 < byteSize (before ++ word)) = [] := by
    refine List.filter_eq_nil_iff.2 fun x hx => ?_
    have hbounds := offset_bounds hx
    simp
    omega
  rw [hbefore, hword, hrest, List.nil_append, List.append_nil,
    map_snd_charIndices]

-- The offsets count bytes, not characters.
example : slice "añb".toList 1 3 = ['ñ'] := by decide

namespace CharLexer

/-! ## Where the machine stands

One equation for each operation. They are all of the same form: the operation on
`facing`, and the answer with the next `facing`. -/

/-- **The machine with `before` behind it and `ahead` in front of it.** The first
character of `ahead`, if there is one, was looked at: it is in hand with its mark,
and the line and column are those behind it. -/
def facing (file : String) (before ahead : List Char)
    (errors : List LexicalError) (ended : Bool) : CharLexer where
  file
  contents := before ++ ahead
  chars := charIndices (byteSize (before ++ ahead.take 1)) ahead.tail
  current := ahead.head?.map
    fun c => (⟨byteSize before, Position.start.after before⟩, c)
  position := Position.start.after (before ++ ahead.take 1)
  errors
  ended

section Facing

variable (file : String) (before : List Char) (errors : List LexicalError)
  (ended : Bool) (c : Char) (cs : List Char)

/-- Whoever has looked finds what is there and changes nothing. -/
theorem peek_facing : (facing file before cs errors ended).peek
    = (cs.head?, facing file before cs errors ended) := by
  cases cs <;> rfl

theorem peek_ofSource (s : SourceText) :
    (ofSource s).peek.2 = facing s.name [] s.text.toList [] false := by
  unfold ofSource
  cases s.text.toList with
  | nil => rfl
  | cons c cs =>
    simp [peek, charIndices, facing, byteSize, Position.after]

/-- The copy of the iterator stands behind the character in hand. -/
theorem peekSecond_facing :
    (facing file before (c :: cs) errors ended).peekSecond
      = (cs.head?, facing file before (c :: cs) errors ended) := by
  unfold peekSecond
  rw [peek_facing]
  cases cs <;> rfl

/-- **To consume the character in hand is to go one character on.** -/
theorem consume_facing : (facing file before (c :: cs) errors ended).consume
    = facing file (before ++ [c]) cs errors ended := by
  cases cs with
  | nil => simp [consume, facing, peek, charIndices]
  | cons d ds =>
    simp [consume, facing, peek, charIndices, Position.after_append,
      byteSize_append]
    simp [byteSize, Nat.add_assoc]

theorem nextChar_facing_nil : (facing file before [] errors ended).nextChar
    = (none, facing file before [] errors ended) :=
  rfl

theorem nextChar_facing : (facing file before (c :: cs) errors ended).nextChar
    = (some c, facing file (before ++ [c]) cs errors ended) := by
  unfold nextChar
  rw [peek_facing, List.head?_cons]
  exact congrArg (some c, ·) (consume_facing ..)

/-- **The mark of a state** counts what is behind it, also at the end of the
text, where no character was found. -/
theorem mark_facing : (facing file before cs errors ended).mark
    = (⟨byteSize before, Position.start.after before⟩,
      facing file before cs errors ended) := by
  unfold mark
  rw [peek_facing]
  cases cs with
  | nil => simp [facing]
  | cons c cs => rfl

/-- The text from an earlier mark is what was consumed since. -/
theorem textFrom_facing (word : List Char) (p : Position) :
    (facing file (before ++ word) cs errors ended).textFrom
        ⟨byteSize before, p⟩
      = (word, facing file (before ++ word) cs errors ended) := by
  unfold textFrom
  rw [mark_facing]
  exact congrArg (·, _) (slice_append before word cs)

/-- A token has the text that was consumed since its mark, and the place of
the mark. -/
theorem tokenFrom_facing (word : List Char) (p : Position) (kind : TokenKind) :
    (facing file (before ++ word) cs errors ended).tokenFrom
        ⟨byteSize before, p⟩ kind
      = (⟨kind, String.ofList word, Span.ofPosition file p⟩,
        facing file (before ++ word) cs errors ended) := by
  unfold tokenFrom
  rw [textFrom_facing]
  rfl

/-- Errors are recorded behind the others, and the machine stands where it was.
-/
theorem report_facing (m : Mark) (fault : LexicalFault) :
    (facing file before cs errors ended).report m fault
      = facing file before cs
          (errors ++ [⟨Span.ofPosition file m.position, fault⟩]) ended :=
  rfl

/-! ## Loops

A loop reaches the first character that ends it, which is where splitting a text
ends too. -/

/-- **A run of characters is consumed as a whole.** The machine looks at the
character that ends the run, and this look is part of the state on the right as
well. -/
theorem consumeWhile_facing (p : Char → Bool) :
    (facing file before cs errors ended).consumeWhile p
      = facing file (before ++ cs.takeWhile p) (cs.dropWhile p) errors ended := by
  induction cs generalizing before with
  | nil =>
    rw [consumeWhile_of_none (by rw [peek_facing]; rfl), peek_facing]
    simp
  | cons c cs ih =>
    rw [consumeWhile_of_some (c := c) (by rw [peek_facing]; rfl), peek_facing]
    by_cases hc : p c = true
    · rw [if_pos hc, consume_facing, ih, List.takeWhile_cons_of_pos hc,
        List.dropWhile_cons_of_pos hc, List.append_assoc]
      rfl
    · rw [if_neg hc, List.takeWhile_cons_of_neg hc,
        List.dropWhile_cons_of_neg hc, List.append_nil]

/-- A comment goes up to its line feed and takes it along. -/
theorem consumeLine_facing :
    (facing file before cs errors ended).consumeLine
      = facing file (before ++ (throughNewline cs).1) (throughNewline cs).2 errors
          ended := by
  induction cs generalizing before with
  | nil =>
    rw [consumeLine_of_none rfl, nextChar_facing_nil]
    simp [throughNewline]
  | cons c cs ih =>
    rw [consumeLine_of_some (c := c) (by rw [nextChar_facing]), nextChar_facing,
      throughNewline]
    by_cases hc : c = '\n'
    · rw [if_pos hc, if_pos hc]
    · rw [if_neg hc, if_neg hc, ih, List.append_assoc]
      rfl

/-! ## Strings

The one token that is not cut out. The value is collected beside the units, and
an error may come between two of them, so the induction has three results to
keep: the value, the errors and what is behind the machine. -/

/-- **What comes of a string** that begins at `start`, once its units were
consumed: `value` was decoded before them, and `before` stood in front of them.
Both ways to end a string are covered, as the units in front are treated
alike. -/
def stringEnding (start : Mark) (value : List Char) (units : List StringUnit) :
    StringEnd → Option Token × CharLexer
  | .closed rest =>
    (some ⟨.string, String.ofList (value ++ units.flatMap StringUnit.decoded),
        Span.ofPosition file start.position⟩,
      facing file (before ++ units.flatMap StringUnit.text ++ ['"']) rest
        (errors ++ unitErrors file (Position.start.after before) units) ended)
  | .missing =>
    (none,
      (facing file (before ++ units.flatMap StringUnit.text) []
        (errors ++ unitErrors file (Position.start.after before) units)
          ended).report start .unterminatedString)
  | .dangling =>
    (none,
      (facing file (before ++ units.flatMap StringUnit.text ++ ['\\']) []
        (errors ++ unitErrors file (Position.start.after before) units)
          ended).report start .unterminatedString)

/-- The errors of units are those of the first and those of the others, which stand
behind its text. -/
theorem unitErrors_cons (p : Position) (u : StringUnit) (us : List StringUnit) :
    unitErrors file p (u :: us)
      = unitErrors file p [u] ++ unitErrors file (p.after u.text) us := by
  cases u with
  | plain c => rfl
  | escape c =>
    simp only [unitErrors, StringUnit.text, Position.after_cons,
      Position.after_nil]
    cases StringUnit.escaped? c <;> rfl

/-- One unit more in front of a string has its share in the value, the errors and
what is behind the machine. -/
theorem stringEnding_cons (start : Mark) (value : List Char) (u : StringUnit)
    (us : List StringUnit) (finish : StringEnd) :
    stringEnding file (before ++ u.text)
        (errors ++ unitErrors file (Position.start.after before) [u]) ended start
        (value ++ u.decoded) us finish
      = stringEnding file before errors ended start value (u :: us) finish := by
  cases finish <;>
    simp only [stringEnding, List.flatMap_cons, unitErrors_cons file _ u us,
      Position.after_append, List.append_assoc]

/-- **A string is consumed unit by unit**, up to its closing quote or the end of
the text. The induction is on the units of the text ahead. A backslash is taken
together with the character behind it, as a unit has them. -/
theorem stringFrom_facing (start : Mark) (value : List Char) :
    (facing file before cs errors ended).stringFrom start value
      = stringEnding file before errors ended start value (stringUnits cs).1
          (stringUnits cs).2 := by
  fun_induction stringUnits cs generalizing before errors value with
  | case1 =>
    rw [stringFrom_of_none rfl, nextChar_facing_nil]
    simp [stringEnding, unitErrors]
  | case2 cs =>
    rw [stringFrom_of_quote (by rw [nextChar_facing]), nextChar_facing]
    simp [stringEnding, unitErrors, spanAt, facing]
  | case3 =>
    have hfirst := nextChar_facing file before errors ended '\\' []
    have hsecond : (facing file before ['\\'] errors ended).nextChar.2.mark.2
        = facing file (before ++ ['\\']) [] errors ended := by
      rw [hfirst, mark_facing]
    rw [stringFrom_of_dangling (by rw [hfirst]) (by rw [hsecond]; rfl), hsecond,
      nextChar_facing_nil]
    simp [stringEnding, unitErrors]
  | case4 c cs r ih =>
    have hfirst := nextChar_facing file before errors ended '\\' (c :: cs)
    have hmark : (facing file before ('\\' :: c :: cs) errors ended).nextChar.2.mark
        = (⟨byteSize (before ++ ['\\']), Position.start.after (before ++ ['\\'])⟩,
          facing file (before ++ ['\\']) (c :: cs) errors ended) := by
      rw [hfirst, mark_facing]
    have hsecond := nextChar_facing file (before ++ ['\\']) errors ended c cs
    rw [stringFrom_of_escape (c := c) (by rw [hfirst])
      (by rw [hmark, hsecond]), hmark, hsecond, ← stringEnding_cons]
    -- An escape that is not known adds an error, at the mark behind the backslash.
    cases he : StringUnit.escaped? c with
    | some e => simp [ih, StringUnit.decoded, StringUnit.text, unitErrors, he, r]
    | none =>
      simp [report_facing, ih, StringUnit.decoded, StringUnit.text, unitErrors, he,
        Position.after_append, r]
  | case5 c cs hquote hlast hescape r ih =>
    have hfirst := nextChar_facing file before errors ended c cs
    have hslash : c ≠ '\\' := by
      rintro rfl
      cases cs with
      | nil => exact hlast rfl rfl
      | cons d ds => exact hescape d ds rfl rfl
    rw [stringFrom_of_plain (c := c) (by rw [hfirst]) hquote hslash, hfirst, ih,
      ← stringEnding_cons]
    simp [StringUnit.decoded, StringUnit.text, unitErrors, r]

/-! ## Segments

What begins with each character, on both sides. -/

/-- **The machine has read a segment**: it gives its token, if there is one, has
its text behind it and its errors among the others. -/
def reading (g : Segment) (ahead : List Char) : Option Token × CharLexer :=
  (g.token? file (Position.start.after before),
    facing file (before ++ g.text) ahead
      (errors ++ g.errors file (Position.start.after before)) ended)

/-- A string is what its units are, with the quotes around them. -/
theorem string_facing :
    (facing file before ('"' :: cs) errors ended).string
      = reading file before errors ended (Segment.nextString cs).1
          (Segment.nextString cs).2 := by
  unfold string
  rw [mark_facing, consume_facing, stringFrom_facing]
  unfold Segment.nextString
  obtain ⟨us, finish⟩ := stringUnits cs
  cases finish <;>
    simp [stringEnding, reading, Segment.token?, Segment.text, Segment.errors,
      Position.after_append, report_facing]

/-- A punctuator of one character is cut out behind this character. -/
theorem single_facing {p : Punctuator} (hp : p.text.toList = [c]) :
    yielding ((facing file before (c :: cs) errors ended).single p)
      = reading file before errors ended (.punctuator p) cs := by
  have htext : String.ofList [c] = p.text := by
    rw [← hp, String.ofList_toList]
  unfold single
  rw [mark_facing, consume_facing, tokenFrom_facing, htext]
  simp [yielding, reading, Segment.token?, Segment.text, Segment.errors, hp]

/-- A character that an equals sign may follow. The longer punctuator is taken
if it does. -/
theorem singleOrEqual_facing {p q : Punctuator}
    (h : Punctuator.withEqual? c = some (p, q)) :
    yielding ((facing file before (c :: cs) errors ended).singleOrEqual p q)
      = reading file before errors ended (Segment.next c cs).1
          (Segment.next c cs).2 := by
  obtain ⟨hp, hq⟩ := Punctuator.text_of_withEqual? h
  unfold singleOrEqual
  dsimp only
  rw [mark_facing, consume_facing, peek_facing]
  by_cases hequal : cs.head? = some '='
  · obtain ⟨ds, rfl⟩ : ∃ ds, cs = '=' :: ds := by
      cases cs with
      | nil => cases hequal
      | cons d ds => exact ⟨ds, by rw [Option.some.inj hequal]⟩
    have htext : String.ofList [c, '='] = q.text := by
      rw [← hq, String.ofList_toList]
    rw [if_pos hequal, consume_facing, List.append_assoc, tokenFrom_facing,
      (Segment.next_withEqual? h).1]
    simp [yielding, reading, Segment.token?, Segment.text, Segment.errors, hq,
      htext]
  · have hne (ds : List Char) : cs ≠ '=' :: ds := by
      rintro rfl
      exact hequal rfl
    have htext : String.ofList [c] = p.text := by
      rw [← hp, String.ofList_toList]
    rw [if_neg hequal, tokenFrom_facing, Segment.next_withEqual?_of_ne h hne]
    simp [yielding, reading, Segment.token?, Segment.text, Segment.errors, hp,
      htext]

/-- A second slash makes a comment. -/
theorem slash_facing : (facing file before ('/' :: cs) errors ended).slash
    = reading file before errors ended (Segment.next '/' cs).1
        (Segment.next '/' cs).2 := by
  have hsingle := single_facing file before errors ended '/' cs
    (p := .slash) (by decide)
  obtain ⟨htoken, hstate⟩ := Prod.mk.inj hsingle
  unfold slash
  dsimp only
  rw [hstate, peek_facing]
  by_cases hslash : cs.head? = some '/'
  · obtain ⟨ds, rfl⟩ : ∃ ds, cs = '/' :: ds := by
      cases cs with
      | nil => cases hslash
      | cons d ds => exact ⟨ds, by rw [Option.some.inj hslash]⟩
    -- The second slash is consumed with the rest of the line.
    rw [if_pos hslash, consumeLine_facing, Segment.next_comment, throughNewline,
      if_neg (by decide)]
    simp [reading, Segment.token?, Segment.text, Segment.errors, Punctuator.text]
  · have hne (ds : List Char) : cs ≠ '/' :: ds := by
      rintro rfl
      exact hslash rfl
    rw [if_neg hslash, htoken, Segment.next_slash hne]
    rfl

/-- A word is cut out behind its last character, and only then is it a keyword
or a name. -/
theorem word_facing (h : isWordStart c = true) :
    yielding (facing file before (c :: cs) errors ended).word
      = reading file before errors ended (Segment.next c cs).1
          (Segment.next c cs).2 := by
  have hpart : isWordPart c = true := by
    simp only [isWordStart, isWordPart, Char.isAlphanum, Bool.or_eq_true] at *
    exact h.imp_left .inl
  unfold word
  rw [mark_facing, consumeWhile_facing]
  dsimp only
  rw [textFrom_facing, tokenFrom_facing, Segment.next_word h,
    List.takeWhile_cons_of_pos hpart, List.dropWhile_cons_of_pos hpart]
  simp [yielding, reading, Segment.token?, Segment.text, Segment.errors]

/-- **A period belongs to a number** if a digit is behind it. -/
theorem numberText_of_digit {text rest : List Char} {d : Char}
    (h : text.dropWhile Char.isDigit = '.' :: d :: rest) (hd : d.isDigit = true) :
    numberText text
      = (text.takeWhile Char.isDigit ++ '.' :: (d :: rest).takeWhile Char.isDigit,
        (d :: rest).dropWhile Char.isDigit) := by
  unfold numberText
  simp [h, hd]

/-- Without such a digit a number is its first run of digits. -/
theorem numberText_of_not {text : List Char}
    (h : ¬ ∃ d rest, text.dropWhile Char.isDigit = '.' :: d :: rest
      ∧ d.isDigit = true) :
    numberText text
      = (text.takeWhile Char.isDigit, text.dropWhile Char.isDigit) := by
  unfold numberText
  split
  · rename_i d rest htext
    rw [if_neg fun hd => h ⟨d, rest, htext, hd⟩, htext]
  · rfl

/-- The machine finds out whether a digit is behind a period by looking two
characters ahead. -/
theorem looks_like_fraction_iff {ahead : List Char} :
    (ahead.head? = some '.'
        ∧ (facing file before ahead errors ended).peekSecond.1.any Char.isDigit)
      ↔ ∃ d rest, ahead = '.' :: d :: rest ∧ d.isDigit = true := by
  constructor
  · rintro ⟨hdot, hdigit⟩
    cases ahead with
    | nil => cases hdot
    | cons x xs =>
      obtain rfl : x = '.' := Option.some.inj hdot
      rw [peekSecond_facing] at hdigit
      cases xs with
      | nil => cases hdigit
      | cons d rest => exact ⟨d, rest, rfl, hdigit⟩
  · rintro ⟨d, rest, rfl, hd⟩
    rw [peekSecond_facing]
    exact ⟨rfl, hd⟩

/-- A number ends behind its digits, or behind those of its fraction. -/
theorem number_facing (h : c.isDigit = true) :
    yielding (facing file before (c :: cs) errors ended).number
      = reading file before errors ended (Segment.next c cs).1
          (Segment.next c cs).2 := by
  unfold number
  dsimp only
  rw [mark_facing, consumeWhile_facing, peek_facing, Segment.next_number h]
  generalize c :: cs = text
  dsimp only
  by_cases hfraction : ∃ d rest, text.dropWhile Char.isDigit = '.' :: d :: rest
      ∧ d.isDigit = true
  · rw [if_pos ((looks_like_fraction_iff ..).2 hfraction)]
    obtain ⟨d, rest, htext, hd⟩ := hfraction
    rw [htext, peekSecond_facing, consume_facing, consumeWhile_facing,
      List.append_assoc, List.append_assoc, tokenFrom_facing,
      numberText_of_digit htext hd]
    simp [yielding, reading, Segment.token?, Segment.text, Segment.errors]
  · rw [if_neg (mt (looks_like_fraction_iff ..).1 hfraction), tokenFrom_facing,
      numberText_of_not hfraction]
    simp [yielding, reading, Segment.token?, Segment.text, Segment.errors]

/-- **What begins with a character is read as the segment there.** The machine
chooses among its readers as cutting chooses among segments. -/
theorem token_facing (hblank : isBlank c = false) :
    (facing file before (c :: cs) errors ended).token c
      = reading file before errors ended (Segment.next c cs).1
          (Segment.next c cs).2 := by
  unfold token
  split
  · rename_i hquote
    subst hquote
    exact string_facing file before errors ended cs
  rename_i hquote
  split
  · rename_i hword
    exact word_facing file before errors ended c cs hword
  rename_i hword
  split
  · rename_i hdigit
    exact number_facing file before errors ended c cs hdigit
  rename_i hdigit
  split
  · rename_i hslash
    subst hslash
    exact slash_facing file before errors ended cs
  rename_i hslash
  split
  · rename_i pq _ hpq
    exact singleOrEqual_facing file before errors ended c cs hpq
  · rename_i p _ hp
    rw [Segment.next_single? hp]
    exact single_facing file before errors ended c cs (Punctuator.text_of_single? hp)
  · rename_i hpq hp
    have hnext : Segment.next c cs = (.stray c, cs) := by
      unfold Segment.next Segment.nextMark
      rw [if_neg (by simp [hblank]), if_neg hquote, if_neg hword, if_neg hdigit,
        if_neg hslash, hpq, hp]
    unfold stray
    rw [mark_facing, consume_facing, report_facing, hnext]
    rfl

end Facing

/-! ## Calls

Calls of the two lexers, by induction on what is ahead. -/

theorem next_of_none {l : CharLexer} (h : (l.consumeWhile isBlank).peek.1 = none) :
    l.next = (l.consumeWhile isBlank).peek.2.endOfFile := by
  rw [next]
  split
  · rfl
  · rename_i hsome
    cases h.symm.trans hsome

/-- Behind the blanks comes a character. What it begins gives a token, or the
call goes on. -/
theorem next_of_some {l : CharLexer} {c : Char}
    (h : (l.consumeWhile isBlank).peek.1 = some c) :
    l.next = match ((l.consumeWhile isBlank).peek.2.token c).1 with
      | some t => (some t, ((l.consumeWhile isBlank).peek.2.token c).2)
      | none => ((l.consumeWhile isBlank).peek.2.token c).2.next := by
  rw [next]
  split
  · rename_i hnone
    cases h.symm.trans hnone
  · rename_i d hd
    obtain rfl := Option.some.inj (h.symm.trans hd)
    rfl

/-- A run begins with a look, so one more look in front changes nothing. -/
theorem consumeWhile_peek (p : Char → Bool) (l : CharLexer) :
    l.peek.2.consumeWhile p = l.consumeWhile p := by
  have hpeek := l.peek_peek
  cases h : l.peek.1 with
  | none =>
    rw [consumeWhile_of_none h, consumeWhile_of_none (by rw [hpeek, h]), hpeek]
  | some c =>
    rw [consumeWhile_of_some h, consumeWhile_of_some (c := c) (by rw [hpeek, h]),
      hpeek]

theorem next_congr {l l' : CharLexer}
    (h : l.consumeWhile isBlank = l'.consumeWhile isBlank) : l.next = l'.next := by
  cases hpeek : (l.consumeWhile isBlank).peek.1 with
  | none => rw [next_of_none hpeek, next_of_none (h ▸ hpeek), h]
  | some c =>
    have hpeek' : (l'.consumeWhile isBlank).peek.1 = some c := h ▸ hpeek
    rw [next_of_some hpeek, next_of_some hpeek', h]

/-- **A call begins with a look**, so one more look in front of it changes
nothing. -/
theorem next_peek (l : CharLexer) : l.peek.2.next = l.next :=
  next_congr (consumeWhile_peek isBlank l)

/-- **A call reads the segment ahead**, and goes on if it gives no token. A blank is
passed in this way like any other segment without a token, although the machine
skips blanks in a loop of their own. -/
theorem next_facing_cons (file : String) (before : List Char)
    (errors : List LexicalError) (ended : Bool) (c : Char) (cs : List Char) :
    (facing file before (c :: cs) errors ended).next
      = let r := reading file before errors ended (Segment.next c cs).1
          (Segment.next c cs).2
        if r.1.isSome then r else r.2.next := by
  cases hc : isBlank c with
  | true =>
    rw [Segment.next_blank hc]
    dsimp only [reading, Segment.token?, Segment.text, Segment.errors]
    rw [if_neg (by simp), List.append_nil]
    refine next_congr ?_
    rw [consumeWhile_facing, consumeWhile_facing, List.takeWhile_cons_of_pos hc,
      List.dropWhile_cons_of_pos hc, List.append_assoc]
    rfl
  | false =>
    have hblanks : (facing file before (c :: cs) errors ended).consumeWhile isBlank
        = facing file before (c :: cs) errors ended := by
      rw [consumeWhile_facing, List.takeWhile_cons_of_neg (by simp [hc]),
        List.dropWhile_cons_of_neg (by simp [hc]), List.append_nil]
    rw [next_of_some (c := c) (by rw [hblanks, peek_facing]; rfl), hblanks,
      peek_facing, token_facing file before errors ended c cs hc]
    dsimp only
    obtain ⟨_ | t, l⟩ := reading file before errors ended (Segment.next c cs).1
      (Segment.next c cs).2 <;> rfl

/-- **The machine and a lexer stand at the same place of a text**: after a look the
machine has a part of the text behind it, and the segments of the rest are ahead of
the lexer. They have met the same errors. -/
def Simulates (m : CharLexer) (l : Lexer) : Prop :=
  ∃ before ahead, m.peek.2 = facing l.file before ahead l.errors l.ended
    ∧ l.pending = locate (Position.start.after before) (segments ahead)
    ∧ l.finish = Position.start.after (before ++ ahead)

theorem simulates_ofSource (s : SourceText) :
    (ofSource s).Simulates (.ofSource s) :=
  ⟨[], s.text.toList, peek_ofSource s, rfl, rfl⟩

theorem simulates_facing {l : Lexer} {before ahead : List Char}
    (hpending : l.pending = locate (Position.start.after before) (segments ahead))
    (hfinish : l.finish = Position.start.after (before ++ ahead)) :
    (facing l.file before ahead l.errors l.ended).Simulates l :=
  ⟨before, ahead, by rw [peek_facing], hpending, hfinish⟩

/-- The end of the text is where the machine is when nothing is ahead. -/
theorem next_facing_nil {l : Lexer} {before : List Char} (hpending : l.pending = [])
    (hfinish : l.finish = Position.start.after before) :
    (facing l.file before [] l.errors l.ended).next.1 = l.next.1
      ∧ (facing l.file before [] l.errors l.ended).next.2.Simulates l.next.2 := by
  obtain ⟨file, pending, finish, errors, ended⟩ := l
  obtain rfl : pending = [] := hpending
  obtain rfl : finish = _ := hfinish
  have hsame (b : Bool) : Simulates (facing file before [] errors b)
      ⟨file, [], Position.start.after before, errors, b⟩ :=
    simulates_facing (l := ⟨file, [], _, errors, b⟩) (by rw [segments_nil]; rfl)
      (by rw [List.append_nil])
  have hblanks (b : Bool) : (facing file before [] errors b).consumeWhile isBlank
      = facing file before [] errors b := by
    rw [consumeWhile_facing, List.takeWhile_nil, List.append_nil]
    rfl
  have hmark := mark_facing file before errors true []
  rw [next_of_none (by rw [hblanks]; rfl), hblanks]
  cases ended with
  | true =>
    have hlexer : Lexer.next ⟨file, [], Position.start.after before, errors, true⟩
        = (none, ⟨file, [], Position.start.after before, errors, true⟩) :=
      Lexer.next_of_ended rfl rfl
    rw [hlexer]
    exact ⟨rfl, hsame true⟩
  | false =>
    have hmachine : (facing file before [] errors false).endOfFile
        = (some (.endOfFile (Span.ofPosition file (Position.start.after before))),
          facing file before [] errors true) := by
      show (some (Token.endOfFile (Span.ofPosition file
        (facing file before [] errors true).mark.1.position)),
          (facing file before [] errors true).mark.2) = _
      rw [hmark]
    rw [show (facing file before [] errors false).peek.2.endOfFile = _ from hmachine,
      Lexer.next_of_nil rfl rfl]
    exact ⟨rfl, hsame true⟩

/-- **A call of the machine is a call of the lexer.** They give the same answer and
stand at the same place again. The induction is on what is ahead: what gives no token
is passed by both, the machine in its loop and the lexer in its rounds. -/
theorem next_facing {l : Lexer} {before ahead : List Char}
    (hpending : l.pending = locate (Position.start.after before) (segments ahead))
    (hfinish : l.finish = Position.start.after (before ++ ahead)) :
    (facing l.file before ahead l.errors l.ended).next.1 = l.next.1
      ∧ (facing l.file before ahead l.errors l.ended).next.2.Simulates
        l.next.2 := by
  generalize hn : ahead.length = n
  induction n using Nat.strongRecOn generalizing l before ahead with
  | _ n ih =>
    cases ahead with
    | nil =>
      rw [segments_nil] at hpending
      rw [List.append_nil] at hfinish
      exact next_facing_nil hpending hfinish
    | cons c cs =>
      have htext := Segment.text_next c cs
      have hlength := Segment.length_next c cs
      rw [segments_cons, locate] at hpending
      generalize hg : Segment.next c cs = r at *
      obtain ⟨g, rest⟩ := r
      have hround := Lexer.round_of_cons hpending
      have hpending' : l.round.pending
          = locate (Position.start.after (before ++ g.text)) (segments rest) := by
        rw [hround, Position.after_append]
      have hfinish' : l.round.finish
          = Position.start.after (before ++ g.text ++ rest) := by
        rw [hround, List.append_assoc, htext]
        exact hfinish
      have hstate : (reading l.file before l.errors l.ended g rest).2
          = facing l.round.file (before ++ g.text) rest l.round.errors
              l.round.ended := by
        rw [hround]
        rfl
      rw [next_facing_cons, hg]
      dsimp only
      cases ht : g.token? l.file (Position.start.after before) with
      | some t =>
        have hanswer : (reading l.file before l.errors l.ended g rest).1 = some t :=
          ht
        rw [if_pos (by rw [hanswer]; rfl), Lexer.next_of_some hpending ht]
        refine ⟨hanswer, ?_⟩
        rw [hstate]
        exact simulates_facing hpending' hfinish'
      | none =>
        have hanswer : (reading l.file before l.errors l.ended g rest).1 = none := ht
        rw [if_neg (by rw [hanswer]; simp), Lexer.next_of_none hpending ht, hstate]
        exact ih rest.length (hn ▸ hlength) hpending' hfinish' rfl

/-- **Machine and lexer go together**, call by call. The look that the machine
may not yet have made is made here. -/
theorem simulates_next {m : CharLexer} {l : Lexer} (h : m.Simulates l) :
    m.next.1 = l.next.1 ∧ m.next.2.Simulates l.next.2 := by
  obtain ⟨before, ahead, hpeek, hpending, hfinish⟩ := h
  rw [← next_peek, hpeek]
  exact next_facing hpending hfinish

/-- The errors that were met can be read off at any time. -/
theorem errors_of_simulates {m : CharLexer} {l : Lexer} (h : m.Simulates l) :
    m.errors = l.errors := by
  obtain ⟨before, ahead, hpeek, -⟩ := h
  have herrors : m.peek.2.errors = m.errors := by
    unfold peek
    split
    · rfl
    · split <;> rfl
  rw [← herrors, hpeek]
  rfl

/-- Calls until there is no token collect the same. -/
theorem collectAll_of_simulates {m : CharLexer} {l : Lexer} (h : m.Simulates l) :
    m.collectAll = l.collectAll := by
  fun_induction collectAll m generalizing l with
  | case1 m t hsome ih =>
    obtain ⟨hanswer, hnext⟩ := simulates_next h
    rw [Lexer.collectAll]
    split
    · rename_i t' l' hl
      rw [hl] at hanswer hnext
      obtain rfl := Option.some.inj (hsome.symm.trans hanswer)
      rw [ih hnext]
    · rename_i l' hl
      rw [hl] at hanswer
      cases hsome.symm.trans hanswer
  | case2 m hnone =>
    obtain ⟨hanswer, hnext⟩ := simulates_next h
    rw [Lexer.collectAll]
    split
    · rename_i t' l' hl
      rw [hl] at hanswer
      cases hnone.symm.trans hanswer
    · rename_i l' hl
      rw [hl] at hnext
      rw [errors_of_simulates hnext]

/-- The machine after some calls. -/
def afterCalls (m : CharLexer) (n : Nat) : CharLexer :=
  (fun m => m.next.2)^[n] m

theorem simulates_afterCalls {m : CharLexer} {l : Lexer} (h : m.Simulates l)
    (n : Nat) : (m.afterCalls n).Simulates (l.afterCalls n) := by
  induction n generalizing m l with
  | zero => exact h
  | succ n ih => exact ih (simulates_next h).2

end CharLexer

/-- **The machine scans.** On every text, the character-wise lexer collects the
tokens and errors that scanning finds. It gives them out in the same calls as the
lexer of segments does: after any number of calls, both have met the same errors, and
the next call gives the same answer. -/
theorem charLexer_scans (s : SourceText) :
    (CharLexer.ofSource s).collectAll = s.scan
      ∧ ∀ n, ((CharLexer.ofSource s).afterCalls n).next.1 = s.scan.tokens[n]?
        ∧ ((CharLexer.ofSource s).afterCalls n).errors
          = ((Lexer.ofSource s).afterCalls n).errors := by
  have hstart := CharLexer.simulates_ofSource s
  have hsound := Lexer.sound_ofSource s
  refine ⟨?_, fun n => ⟨?_, ?_⟩⟩
  · rw [CharLexer.collectAll_of_simulates hstart]
    exact Lexer.collectAll_eq hsound
  · rw [(CharLexer.simulates_next (CharLexer.simulates_afterCalls hstart n)).1]
    exact Lexer.answer_eq_getElem? hsound n
  · exact CharLexer.errors_of_simulates (CharLexer.simulates_afterCalls hstart n)

end TreeScript
