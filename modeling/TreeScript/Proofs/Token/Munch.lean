import TreeScript.Token.Scan
import TreeScript.Proofs.Token.Lexeme

/-!
# Maximal munch

A text is cut by **maximal munch**: each piece is the longest lexeme at its
start, or a single unexpected character where no lexeme starts
(`MaximalMunch`). A text has exactly one such cut, and it is the one into
segments (`maximalMunch_iff`).

The reason is a pair of facts about the first segment of a text. It is a lexeme,
or an unexpected character (`Segment.lexeme_next`); and every lexeme at the
front of the text is shorter, or has the same kind (`Lexeme.covers_next`).

What scanning a text gives is then read off the pieces (`scan_maximalMunch`).

The second fact says more than that nothing is longer. Two lexemes of the same
length could be of different kinds, and then the cut would not be unique. They
are not: a keyword is a word like any other here, and only two characters begin
lexemes of more than one kind. Behind a slash the comment is the longer one, and
behind a quote there is a string or an unterminated one, but never both.

From there on the argument is about lists. A cut is built by the recursion of
cutting, and any other cut agrees with it piece by piece.
-/

namespace TreeScript

namespace Segment

variable {c : Char} {cs : List Char}

/-! ## The first segment is a lexeme

By the character it begins with, in the order in which the scanner tries them. -/

/-- What is neither blank, letter, digit, quote nor slash is a punctuator, with
an equals sign or without, or a stray character. -/
theorem lexeme_nextMark (c : Char) (cs : List Char) :
    nextMark c cs = (stray c, cs)
      ∨ Lexeme (nextMark c cs).1.kind (nextMark c cs).1.text
          (nextMark c cs).2 := by
  unfold nextMark
  split
  · split
    · exact .inr (.punctuator _)
    · exact .inr (.punctuator _)
  · split
    · exact .inr (.punctuator _)
    · exact .inl rfl

/-- **The first segment of a text is a lexeme**, unless it is an unexpected
character. The character it begins with decides which kind it has. -/
theorem lexeme_next (c : Char) (cs : List Char) :
    next c cs = (stray c, cs)
      ∨ Lexeme (next c cs).1.kind (next c cs).1.text (next c cs).2 := by
  unfold next
  split
  · rename_i hc
    exact .inr (.blank (isBlank_iff.1 hc))
  split
  · exact .inr (lexeme_nextString cs)
  split
  · rename_i hc
    refine .inr (.word (isWordStart_iff.1 hc) fun d hd => isWordPart_iff.1 ?_)
    exact List.all_eq_true.1 List.all_takeWhile d hd
  split
  · rename_i hc
    exact .inr (lexeme_numberText hc cs)
  split
  · split
    · exact .inr (lexeme_throughNewline _)
    · exact .inr (.punctuator .slash)
  · exact lexeme_nextMark c cs

/-! ## No lexeme is longer

Here the cases are those of the lexeme, and the segment is computed: what a
lexeme begins with decides which reader gets the text. -/

theorem next_blank (h : isBlank c = true) : next c cs = (blank c, cs) :=
  if_pos h

/-- A letter begins a word. -/
theorem next_word (h : isWordStart c = true) :
    next c cs
      = (word (c :: cs.takeWhile isWordPart), cs.dropWhile isWordPart) := by
  have hblank : isBlank c ≠ true := isBlank_ne_true h rfl
  have hquote : c ≠ '"' := by
    rintro rfl
    cases h
  unfold next
  rw [if_neg hblank, if_neg hquote, if_pos h]

/-- A digit begins a number. -/
theorem next_number (h : c.isDigit = true) :
    next c cs = (number (numberText (c :: cs)).1, (numberText (c :: cs)).2) := by
  have hblank : isBlank c ≠ true := isBlank_ne_true h rfl
  have hquote : c ≠ '"' := by
    rintro rfl
    cases h
  have hword : isWordStart c ≠ true := fun hw =>
    (isDigit_iff.1 h).not_isLetter (isWordStart_iff.1 hw)
  unfold next
  rw [if_neg hblank, if_neg hquote, if_neg hword, if_pos h]

theorem next_comment :
    next '/' ('/' :: cs)
      = (comment (throughNewline cs).1, (throughNewline cs).2) :=
  rfl

theorem next_slash (h : ∀ rest, cs ≠ '/' :: rest) :
    next '/' cs = (punctuator .slash, cs) := by
  rw [next, if_neg (by decide), if_neg (by decide), if_neg (by decide),
    if_neg (by decide), if_pos rfl]
  exact h

theorem next_single? {p : Punctuator} (h : Punctuator.single? c = some p) :
    next c cs = (punctuator p, cs) := by
  unfold Punctuator.single? at h
  split at h
  all_goals first
    | obtain rfl := Option.some.inj h; rfl
    | cases h

/-- A mark that may have an equal sign behind it. -/
theorem next_withEqual? {p q : Punctuator}
    (h : Punctuator.withEqual? c = some (p, q)) :
    next c ('=' :: cs) = (punctuator q, cs)
      ∧ ((next c cs).1 = punctuator p ∨ (next c cs).1 = punctuator q) := by
  have hmark : ∀ ds, next c ds = nextMark c ds := by
    unfold Punctuator.withEqual? at h
    split at h
    all_goals first
      | exact fun _ => rfl
      | cases h
  rw [hmark, hmark]
  unfold nextMark
  rw [h]
  refine ⟨rfl, ?_⟩
  dsimp only
  split
  · exact .inr rfl
  · exact .inl rfl

/-- A mark that may have an equal sign behind it stands alone without one. -/
theorem next_withEqual?_of_ne {p q : Punctuator}
    (h : Punctuator.withEqual? c = some (p, q)) (hcs : ∀ ds, cs ≠ '=' :: ds) :
    next c cs = (punctuator p, cs) := by
  obtain ⟨hp, hq⟩ := Punctuator.text_of_withEqual? h
  have htext := text_next c cs
  rcases (next_withEqual? h).2 with hnext | hnext
  · rw [hnext, text, hp] at htext
    exact Prod.ext hnext (List.cons.inj htext).2
  · rw [hnext, text, hq] at htext
    exact absurd (List.cons.inj htext).2.symm (hcs _)

/-- **A segment covers a lexeme** at the same start: it is longer, or of the
same length and the same kind. Of two lexemes that cover each other, both are
the same. -/
def Covers (g : Segment) (k : SegmentKind) (text : List Char) : Prop :=
  text.length ≤ g.text.length ∧ (text.length = g.text.length → k = g.kind)

/-- A lexeme of the same kind that is not longer is covered. -/
theorem covers_of_length_le {g : Segment} {text : List Char}
    (h : text.length ≤ g.text.length) : g.Covers g.kind text :=
  ⟨h, fun _ => rfl⟩

theorem covers_of_length_lt {g : Segment} {k : SegmentKind} {text : List Char}
    (h : text.length < g.text.length) : g.Covers k text :=
  ⟨Nat.le_of_lt h, fun heq => absurd heq (Nat.ne_of_lt h)⟩

end Segment

/-- Every punctuator is a slash, or is read by one of the two tables. -/
theorem Punctuator.mem_tables (p : Punctuator) :
    p = .slash ∨ (∃ c, single? c = some p)
      ∨ (∃ c q, withEqual? c = some (p, q))
      ∨ ∃ c q, withEqual? c = some (q, p) := by
  have h : p = .slash ∨ single? (p.text.toList.headD ' ') = some p
      ∨ (∃ q ∈ all, withEqual? (p.text.toList.headD ' ') = some (p, q))
      ∨ ∃ q ∈ all, withEqual? (p.text.toList.headD ' ') = some (q, p) := by
    cases p <;> decide
  rcases h with h | h | ⟨q, -, h⟩ | ⟨q, -, h⟩
  · exact .inl h
  · exact .inr (.inl ⟨_, h⟩)
  · exact .inr (.inr (.inl ⟨_, q, h⟩))
  · exact .inr (.inr (.inr ⟨_, q, h⟩))

namespace Lexeme

open Segment

/-- The text of a punctuator is at the front, so its first character has chosen
the segment. -/
theorem covers_punctuator (p : Punctuator) {c : Char} {cs rest : List Char}
    (h : p.text.toList ++ rest = c :: cs) :
    (next c cs).1.Covers .punctuator p.text.toList := by
  rcases p.mem_tables with rfl | ⟨d, hp⟩ | ⟨d, q, hq⟩ | ⟨d, q, hq⟩
  · obtain ⟨rfl, rfl⟩ : '/' = c ∧ rest = cs := List.cons.inj h
    -- A slash is a punctuator unless it begins a comment.
    by_cases hslash : ∃ rest', rest = '/' :: rest'
    · obtain ⟨rest', rfl⟩ := hslash
      rw [next_comment]
      exact covers_of_length_lt (Nat.succ_lt_succ (Nat.succ_pos _))
    · rw [next_slash fun rest' hr => hslash ⟨rest', hr⟩]
      exact covers_of_length_le (Nat.le_refl _)
  · have ht := Punctuator.text_of_single? hp
    rw [ht] at h
    obtain ⟨rfl, rfl⟩ := List.cons.inj h
    rw [next_single? hp]
    exact covers_of_length_le (Nat.le_refl _)
  · -- One character, and maybe the equal sign behind it.
    obtain ⟨ht, ht'⟩ := Punctuator.text_of_withEqual? hq
    rw [ht] at h
    obtain ⟨rfl, rfl⟩ := List.cons.inj h
    have hlen : p.text.toList.length ≤ q.text.toList.length := by
      rw [ht, ht']
      exact Nat.le_succ 1
    rcases (next_withEqual? hq).2 with hn | hn
    · rw [hn]
      exact covers_of_length_le (Nat.le_refl _)
    · rw [hn]
      exact covers_of_length_le hlen
  · obtain ⟨-, ht⟩ := Punctuator.text_of_withEqual? hq
    rw [ht] at h
    obtain ⟨rfl, rfl⟩ := List.cons.inj h
    show (next d ('=' :: rest)).1.Covers _ _
    rw [(next_withEqual? hq).1]
    exact covers_of_length_le (Nat.le_refl _)

/-- A string that a quote closes ends at the first quote that can close it. -/
theorem covers_string {body : List Char} (h : StringBody body)
    (rest : List Char) :
    (next '"' (body ++ '"' :: rest)).1.Covers .string
      ('"' :: (body ++ ['"'])) := by
  have hclosed := stringUnits_quote h rest
  have htext := stringUnits_append (body ++ '"' :: rest)
  show (nextString _).1.Covers _ _
  unfold nextString
  cases hu : stringUnits (body ++ '"' :: rest) with
  | mk us e =>
    rw [hu] at hclosed htext
    obtain rfl : e = .closed rest := hclosed
    obtain rfl : us.flatMap StringUnit.text = body :=
      List.append_cancel_right htext
    exact covers_of_length_le (Nat.le_refl _)

/-- A quote that no quote closes is a segment up to the end of the text. -/
theorem covers_unterminated {cs : List Char}
    (h : ∀ body rest, StringBody body → cs ≠ body ++ '"' :: rest) :
    (next '"' cs).1.Covers .unterminated ('"' :: cs) := by
  have htext := text_nextString cs
  have happend := stringUnits_append cs
  have hbody := stringBody_units cs
  show (nextString cs).1.Covers _ _
  unfold nextString at htext ⊢
  cases hu : stringUnits cs with
  | mk us e =>
    rw [hu] at htext happend hbody
    cases e with
    | closed rest => exact absurd happend.symm (h _ rest hbody)
    | missing | dangling =>
      dsimp only at htext ⊢
      rw [List.append_nil] at htext
      rw [← htext]
      exact covers_of_length_le (Nat.le_refl _)

/-- Digits at the front begin a number, and the number has them all. -/
theorem covers_number {c : Char} {cs ds us text : List Char} (hne : ds ≠ [])
    (hds : ∀ d ∈ ds, IsDigit d) (heq : ds ++ us = c :: cs)
    (h : text.length ≤ (numberText (ds ++ us)).1.length) :
    (next c cs).1.Covers .number text := by
  obtain ⟨d, ds, rfl⟩ := List.exists_cons_of_ne_nil hne
  obtain rfl : d = c := (List.cons.inj heq).1
  rw [heq] at h
  rw [next_number (isDigit_iff.2 (hds d (List.mem_cons_self ..)))]
  exact covers_of_length_le h

/-- **No lexeme is longer than the first segment** of the text it starts, and
one of the same length has the same kind. The cases are the kinds of lexemes.
For words and numbers a longer run of characters was split off already; for
strings and comments the end is the first possible one. -/
theorem covers_next {k : SegmentKind} {text rest : List Char}
    (h : Lexeme k text rest) {c : Char} {cs : List Char}
    (heq : text ++ rest = c :: cs) : (next c cs).1.Covers k text := by
  cases h with
  | blank hc =>
    obtain ⟨rfl, rfl⟩ := List.cons.inj heq
    rw [next_blank (isBlank_iff.2 hc)]
    exact covers_of_length_le (Nat.le_refl _)
  | comment hbody =>
    rw [List.cons_append, List.cons_append, List.append_assoc] at heq
    obtain ⟨rfl, rfl⟩ := List.cons.inj heq
    rw [next_comment, List.singleton_append, throughNewline_newline hbody]
    exact covers_of_length_le (Nat.le_refl _)
  | lastComment hbody =>
    rw [List.append_nil] at heq
    obtain ⟨rfl, rfl⟩ := List.cons.inj heq
    rw [next_comment, throughNewline_last hbody]
    exact covers_of_length_le (Nat.le_refl _)
  | string hbody =>
    rw [List.cons_append, List.append_assoc] at heq
    obtain ⟨rfl, rfl⟩ := List.cons.inj heq
    exact covers_string hbody rest
  | integer hne hds =>
    have hall : ∀ d ∈ text, d.isDigit = true := fun d hd =>
      isDigit_iff.2 (hds d hd)
    refine covers_number hne hds heq (Nat.le_trans ?_
      (length_takeWhile_le_numberText (text ++ rest)))
    rw [List.takeWhile_append_of_pos hall, List.length_append]
    exact Nat.le_add_right _ _
  | @decimal ds es rest hds hes hd he =>
    rw [List.append_assoc, List.cons_append] at heq
    refine covers_number hds hd heq ?_
    rw [numberText_decimal hes hd he]
    simp
  | @word c' cs' rest hc hds =>
    rw [List.cons_append] at heq
    obtain ⟨rfl, rfl⟩ := List.cons.inj heq
    have hpart : ∀ d ∈ cs', isWordPart d = true :=
      fun d hd => isWordPart_iff.2 (hds d hd)
    rw [next_word (isWordStart_iff.2 hc), List.takeWhile_append_of_pos hpart]
    refine covers_of_length_le (Nat.succ_le_succ ?_)
    rw [List.length_append]
    exact Nat.le_add_right _ _
  | punctuator p => exact covers_punctuator p heq
  | unterminated hopen =>
    rw [List.append_nil] at heq
    obtain ⟨rfl, rfl⟩ := List.cons.inj heq
    exact covers_unterminated hopen

end Lexeme

/-! ## The cut into segments

Both facts together, and the induction over the text. -/

/-- The piece that a segment is. -/
def Segment.piece (g : Segment) : Piece := ⟨g.kind, g.text⟩

/-- **The first segment is the longest lexeme**, or an unexpected character
where no lexeme starts. Nothing is assumed of the text, which may also begin in
the middle of what was meant as a string. -/
theorem Segment.longest_next (c : Char) (cs : List Char) :
    (next c cs = (stray c, cs) ∧ StartsNoLexeme (c :: cs))
      ∨ Longest (next c cs).1.kind (next c cs).1.text (next c cs).2 := by
  rcases lexeme_next c cs with hstray | hlexeme
  · refine .inl ⟨hstray, fun {k text rest} h heq => ?_⟩
    obtain ⟨hle, hkind⟩ := h.covers_next heq
    rw [hstray] at hle hkind
    -- A lexeme of length one would have the kind of the segment.
    have hlen : text.length = 1 :=
      Nat.le_antisymm hle (List.length_pos_iff.2 h.ne_nil)
    obtain rfl := hkind hlen
    cases h
  · refine .inr ⟨hlexeme, fun h heq => ?_⟩
    rw [text_next] at heq
    exact (h.covers_next heq).1

/-- **The longest lexeme at the front of a text is its first segment.** So a cut
by maximal munch has no choice at its first piece. -/
theorem Longest.eq_next {k : SegmentKind} {text rest : List Char}
    (h : Longest k text rest) {c : Char} {cs : List Char}
    (heq : text ++ rest = c :: cs) :
    (⟨k, text⟩ : Piece) = (Segment.next c cs).1.piece
      ∧ rest = (Segment.next c cs).2 := by
  obtain ⟨hle, hkind⟩ := h.lexeme.covers_next heq
  rcases Segment.longest_next c cs with ⟨-, hno⟩ | hnext
  · exact absurd heq (hno h.lexeme)
  -- Both are longest, so they have the same length and start the same text.
  have htext := Segment.text_next c cs
  have hge := h.longest hnext.lexeme (htext.trans heq.symm)
  have hlen := Nat.le_antisymm hle hge
  obtain ⟨ht, hr⟩ := List.append_inj (heq.trans htext.symm) hlen
  obtain rfl := hkind hlen
  exact ⟨congrArg _ ht, hr⟩

/-- The segments are such a cut. -/
theorem maximalMunch_segments (cs : List Char) :
    MaximalMunch cs ((segments cs).map Segment.piece) := by
  fun_induction segments cs with
  | case1 => exact .nil
  | case2 c cs ih =>
    rcases Segment.longest_next c cs with ⟨hstray, hno⟩ | hlongest
    · rw [hstray] at ih ⊢
      exact .unexpected hno ih
    · have hcut := MaximalMunch.lexeme hlongest ih
      rwa [Segment.text_next] at hcut

/-- **A text has one cut by maximal munch**, the one into its segments. This is
existence and uniqueness in one. -/
theorem maximalMunch_iff {cs : List Char} {gs : List Piece} :
    MaximalMunch cs gs ↔ gs = (segments cs).map Segment.piece := by
  refine ⟨fun h => ?_, fun h => h ▸ maximalMunch_segments cs⟩
  induction h with
  | nil => rw [segments_nil, List.map_nil]
  | @lexeme k text rest gs h _ ih =>
    obtain ⟨c, cs, hcs⟩ := List.exists_cons_of_ne_nil
      (show text ++ rest ≠ [] by simp [h.lexeme.ne_nil])
    obtain ⟨hpiece, hrest⟩ := h.eq_next hcs
    rw [hcs, segments_cons, List.map_cons, ← hpiece, ← hrest, ih]
  | @unexpected c cs gs h _ ih =>
    rcases Segment.longest_next c cs with ⟨hstray, -⟩ | hlongest
    · rw [segments_cons, hstray, ih]
      rfl
    · exact absurd (Segment.text_next c cs) (h hlongest.lexeme)

-- A period without a digit behind it is no part of the number.
example : (segments "12.<==".toList).map Segment.piece
    = [⟨.number, ['1', '2']⟩, ⟨.punctuator, ['.']⟩, ⟨.punctuator, ['<', '=']⟩,
      ⟨.punctuator, ['=']⟩] := by
  cbv

/-! ## What the pieces yield

Tokens and errors are described by the pieces, without the functions that
compute them. -/

/-- Each piece with the position of its first character. -/
def placed (p : Position) : List Piece → List (Position × Piece)
  | [] => []
  | g :: gs => (p, g) :: placed (p.after g.text) gs

/-- Whether pieces of the kind are tokens. -/
def SegmentKind.isToken : SegmentKind → Bool
  | string | number | word | punctuator => true
  | blank | comment | unterminated | unexpected => false

/-- **The token of a piece**, at the place of its first character. Its text is
that of the piece, unless it is a string. A word is a keyword if there is a
keyword with its text, and a name if there is none. -/
inductive TokenOf (file : String) : Position × Piece → Token → Prop
  | string {p : Position} {text : List Char} {value : String} :
      TokenOf file (p, ⟨.string, text⟩)
        ⟨.string, value, Span.ofPosition file p⟩
  | number {p : Position} {text : List Char} :
      TokenOf file (p, ⟨.number, text⟩)
        ⟨.number, String.ofList text, Span.ofPosition file p⟩
  | keyword {p : Position} {text : List Char} {k : Keyword}
      (h : k.text = String.ofList text) :
      TokenOf file (p, ⟨.word, text⟩)
        ⟨.keyword k, String.ofList text, Span.ofPosition file p⟩
  | name {p : Position} {text : List Char}
      (h : ∀ k : Keyword, k.text ≠ String.ofList text) :
      TokenOf file (p, ⟨.word, text⟩)
        ⟨.identifier, String.ofList text, Span.ofPosition file p⟩
  | punctuator {p : Position} {text : List Char} {m : Punctuator}
      (h : m.text = String.ofList text) :
      TokenOf file (p, ⟨.punctuator, text⟩)
        ⟨.punctuator m, String.ofList text, Span.ofPosition file p⟩

/-- The error of a piece that is no lexeme, or is a string without closing
quote. -/
def Piece.fault? (file : String) : Position × Piece → Option LexicalError
  | (p, ⟨.unexpected, [c]⟩) =>
    some ⟨Span.ofPosition file p, .unexpectedCharacter c⟩
  | (p, ⟨.unterminated, _⟩) =>
    some ⟨Span.ofPosition file p, .unterminatedString⟩
  | _ => none

/-- Whether the error is an unexpected character or a string without closing
quote. -/
def LexicalError.isFault (e : LexicalError) : Bool :=
  e.fault.code == "E001" || e.fault.code == "E002"

/-- Positions go by the texts of pieces, which are those of the segments. -/
theorem placed_piece (p : Position) (gs : List Segment) :
    placed p (gs.map Segment.piece)
      = (locate p gs).map fun (q, g) => (q, g.piece) := by
  induction gs generalizing p with
  | nil => rfl
  | cons g gs ih =>
    rw [List.map_cons, placed, ih, locate, List.map_cons]
    rfl

/-- A word is a keyword or a name, by the table of keywords. -/
theorem tokenOf_word (file : String) (p : Position) (cs : List Char) :
    TokenOf file (p, ⟨.word, cs⟩)
      ⟨wordKind cs, String.ofList cs, Span.ofPosition file p⟩ := by
  unfold wordKind
  split
  · rename_i k hk
    exact .keyword (by simpa using List.find?_some hk)
  · rename_i hk
    exact .name fun k => by simpa using List.find?_eq_none.1 hk k k.mem_all

theorem tokenOf_punctuator (file : String) (p : Position) (m : Punctuator) :
    TokenOf file (p, ⟨.punctuator, m.text.toList⟩)
      ⟨.punctuator m, m.text, Span.ofPosition file p⟩ := by
  have htext : m.text = String.ofList m.text.toList :=
    String.ofList_toList.symm
  have h : TokenOf file (p, ⟨.punctuator, m.text.toList⟩) _ := .punctuator htext
  rwa [← htext] at h

/-- **The tokens of segments** are those of the pieces that are tokens. -/
theorem forall₂_tokenOf (file : String) (gs : List (Position × Segment)) :
    List.Forall₂ (TokenOf file)
      ((gs.map fun (q, g) => (q, g.piece)).filter (·.2.kind.isToken))
      (gs.filterMap fun (q, g) => g.token? file q) := by
  induction gs with
  | nil => exact .nil
  | cons pg gs ih =>
    obtain ⟨p, g⟩ := pg
    cases g with
    | blank c => exact ih
    | comment body => exact ih
    | unclosed us dangling => exact ih
    | stray c => exact ih
    | word cs => exact .cons (tokenOf_word file p cs) ih
    | number cs => exact .cons .number ih
    | string us => exact .cons .string ih
    | punctuator m => exact .cons (tokenOf_punctuator file p m) ih

/-- The errors inside a string are unknown escapes. -/
theorem filter_unitErrors (file : String) (p : Position)
    (us : List StringUnit) :
    (unitErrors file p us).filter LexicalError.isFault = [] := by
  fun_induction unitErrors file p us with
  | case1 => rfl
  | case2 p c us ih => exact ih
  | case3 p c us q d hd ih => exact ih
  | case4 p c us q hd ih => exact ih

/-- The other errors are those of pieces that are no lexemes, and of strings
that are not closed. -/
theorem filter_errors (file : String) (gs : List (Position × Segment)) :
    (gs.flatMap fun (q, g) => g.errors file q).filter LexicalError.isFault
      = (gs.map fun (q, g) => (q, g.piece)).filterMap (Piece.fault? file) := by
  induction gs with
  | nil => rfl
  | cons pg gs ih =>
    obtain ⟨p, g⟩ := pg
    rw [List.flatMap_cons, List.filter_append, ih, List.map_cons]
    cases g with
    | blank c => rfl
    | comment body => rfl
    | word cs => rfl
    | number cs => rfl
    | punctuator m => rfl
    | stray c => rfl
    | string us => exact congrArg (· ++ _) (filter_unitErrors file _ us)
    | unclosed us dangling =>
      show List.filter _ (unitErrors file _ us ++ [_]) ++ _ = _
      rw [List.filter_append, filter_unitErrors]
      rfl

/-- **Scanning is maximal munch.** A text has exactly one cut into pieces each of
which is the longest lexeme at its start, or else an unexpected character. The
tokens of the text are those of its strings, numbers, words and punctuators, in
order, and then the end of the text; the errors other than unknown escapes are
those of its unexpected characters and its string without closing quote, in
order. -/
theorem scan_maximalMunch (s : SourceText) :
    ∃ pieces, MaximalMunch s.text.toList pieces
      ∧ (∀ others, MaximalMunch s.text.toList others → others = pieces)
      ∧ (∃ tokens,
          s.scan.tokens = tokens ++ [Token.endOfFile (s.spanAt s.finish)]
          ∧ List.Forall₂ (TokenOf s.name)
              ((placed .start pieces).filter (·.2.kind.isToken)) tokens)
      ∧ s.scan.errors.filter LexicalError.isFault
        = (placed .start pieces).filterMap (Piece.fault? s.name) := by
  refine ⟨_, maximalMunch_segments s.text.toList, fun _ => maximalMunch_iff.1,
    ⟨_, rfl, ?_⟩, ?_⟩
  · rw [placed_piece]
    exact forall₂_tokenOf s.name s.segments
  · rw [placed_piece]
    exact filter_errors s.name s.segments

end TreeScript
