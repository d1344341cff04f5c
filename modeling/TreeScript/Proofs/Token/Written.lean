import TreeScript.Proofs.Token.LineBreak
import TreeScript.Proofs.Token.Literal

/-!
# Tokens written out

Tokens can be written out as a text that is scanned to just these tokens. A string
is written in quotes, with escapes where they are needed and, for line breaks and
tabs, where they are wanted (`Quotes`); every other token is written as it stands
(`Writes`). Blanks keep neighbours apart (`Spaced`).

The reason is that a written token is one segment as soon as a blank or the end of
the text follows (`Writes.segments_append`): neither a blank nor the end goes on
with a word, a number or a punctuator. From this the whole text follows by
induction on the tokens (`Spaced.segments`).

How a list of tokens is written is a relation, not a printer. A printer would
have to choose between escapes and blanks, and the theorem would be about its
choices; here it holds of every choice. That there is one is said apart
(`exists_spaced`).

A comment is never written, and the rule for blanks is stricter than it has to
be: some neighbours could stand without one.
-/

namespace TreeScript

/-! ## Written tokens

What can be written at all are texts of tokens as they come from scanning. -/

/-- **The tokens that can be written out**, by kind and text. -/
inductive Printable : TokenKind × String → Prop
  | keyword (k : Keyword) : Printable (.keyword k, k.text)
  | punctuator (m : Punctuator) : Printable (.punctuator m, m.text)
  /-- A name is a word that is no keyword. -/
  | identifier {c : Char} {cs : List Char} (hc : IsLetter c)
      (hcs : ∀ d ∈ cs, IsLetter d ∨ IsDigit d)
      (hname : ∀ k : Keyword, k.text ≠ String.ofList (c :: cs)) :
      Printable (.identifier, String.ofList (c :: cs))
  | integer {ds : List Char} (hne : ds ≠ []) (hds : ∀ d ∈ ds, IsDigit d) :
      Printable (.number, String.ofList ds)
  | decimal {ds es : List Char} (hds : ds ≠ []) (hes : es ≠ [])
      (hd : ∀ d ∈ ds, IsDigit d) (he : ∀ d ∈ es, IsDigit d) :
      Printable (.number, String.ofList (ds ++ '.' :: es))
  /-- A string is any text at all. -/
  | string (value : String) : Printable (.string, value)

/-- **What is written between quotes** for a text. Quotes and backslashes are
escaped; line feeds, carriage returns and tabs may be. So one text may be
written in several ways. -/
inductive Quotes : (value body : List Char) → Prop
  | nil : Quotes [] []
  | raw {c : Char} {value body : List Char} (hquote : c ≠ '"')
      (hslash : c ≠ '\\') (h : Quotes value body) : Quotes (c :: value) (c :: body)
  | escaped {c d : Char} {value body : List Char} (hc : Escape c d)
      (h : Quotes value body) : Quotes (d :: value) ('\\' :: c :: body)

/-- **What is written for a token.** -/
inductive Writes : TokenKind × String → List Char → Prop
  | string {value : String} {body : List Char}
      (h : Quotes value.toList body) :
      Writes (.string, value) ('"' :: (body ++ ['"']))
  | other {k : TokenKind} {lexeme : String} (h : k ≠ .string) :
      Writes (k, lexeme) lexeme.toList

/-- **What is written for a list of tokens**, with one or more blanks between
neighbours. The first token begins the text and the last one ends it. -/
inductive Spaced : List (TokenKind × String) → List Char → Prop
  | nil : Spaced [] []
  | single {x : TokenKind × String} {text : List Char} (h : Writes x text) :
      Spaced [x] text
  | cons {x y : TokenKind × String} {xs : List (TokenKind × String)}
      {text blanks rest : List Char} (h : Writes x text) (hne : blanks ≠ [])
      (hblanks : ∀ c ∈ blanks, c ∈ [' ', '\t', '\r', '\n'])
      (hrest : Spaced (y :: xs) rest) :
      Spaced (x :: y :: xs) (text ++ (blanks ++ rest))

/-- Every text can be written between quotes. -/
theorem exists_quotes (value : List Char) : ∃ body, Quotes value body := by
  induction value with
  | nil => exact ⟨_, .nil⟩
  | cons c value ih =>
    obtain ⟨body, h⟩ := ih
    by_cases hquote : c = '"'
    · subst hquote
      exact ⟨_, .escaped .quote h⟩
    by_cases hslash : c = '\\'
    · subst hslash
      exact ⟨_, .escaped .backslash h⟩
    · exact ⟨_, .raw hquote hslash h⟩

theorem exists_writes (x : TokenKind × String) : ∃ text, Writes x text := by
  obtain ⟨k, lexeme⟩ := x
  by_cases hk : k = .string
  · subst hk
    obtain ⟨body, h⟩ := exists_quotes lexeme.toList
    exact ⟨_, .string h⟩
  · exact ⟨_, .other hk⟩

/-- Every list of tokens can be written out. -/
theorem exists_spaced (xs : List (TokenKind × String)) :
    ∃ text, Spaced xs text := by
  induction xs with
  | nil => exact ⟨_, .nil⟩
  | cons x xs ih =>
    obtain ⟨text, h⟩ := exists_writes x
    cases xs with
    | nil => exact ⟨_, .single h⟩
    | cons y xs =>
      obtain ⟨rest, hrest⟩ := ih
      exact ⟨_, .cons h (List.cons_ne_nil ' ' []) (by simp) hrest⟩

/-- What is written for a text is a literal that stands for it, without unknown
escapes. -/
theorem Quotes.literal {value body : List Char} (h : Quotes value body)
    (n : Nat) : Literal n body value [] := by
  induction h generalizing n with
  | nil => exact .nil
  | raw hquote hslash _ ih => exact .plain hquote hslash (ih (n + 1))
  | escaped hc _ ih => exact .known hc (ih (n + 2))

/-! ## Written tokens are segments

For each kind of token, its segment in front of a blank. That something else
than a blank could follow is not considered: a written text has none. -/

/-- **A blank or the end of the text comes next.** -/
def BlankAhead (rest : List Char) : Prop :=
  ∀ c ∈ rest.head?, c ∈ [' ', '\t', '\r', '\n']

namespace BlankAhead

variable {rest : List Char}

/-- A run of characters that are no blanks ends where a blank comes next. -/
theorem takeWhile_append (h : BlankAhead rest) {p : Char → Bool}
    (hp : [' ', '\t', '\r', '\n'].any p = false) {cs : List Char}
    (hcs : ∀ c ∈ cs, p c = true) :
    (cs ++ rest).takeWhile p = cs ∧ (cs ++ rest).dropWhile p = rest := by
  rw [List.takeWhile_append_of_pos hcs, List.dropWhile_append_of_pos hcs]
  cases rest with
  | nil => simp
  | cons d rest =>
    have hd : p d = false :=
      Bool.eq_false_iff.2 (List.any_eq_false.1 hp d (h d rfl))
    simp [hd]

theorem ne_cons (h : BlankAhead rest) {c : Char}
    (hc : c ∉ [' ', '\t', '\r', '\n']) (cs : List Char) : rest ≠ c :: cs := by
  rintro rfl
  exact hc (h c rfl)

end BlankAhead

/-- The segment is the token and nothing is wrong with it. -/
structure Segment.Shows (g : Segment) (x : TokenKind × String) : Prop where
  /-- Its token has this kind and this text. -/
  content : g.content? = some x
  /-- It has no errors. -/
  clean : ∀ file p, g.errors file p = []

section Next

variable {rest : List Char}

theorem wordKind_keyword (k : Keyword) :
    wordKind k.text.toList = .keyword k := by
  cases k <;> rfl

theorem wordKind_name {cs : List Char}
    (h : ∀ k : Keyword, k.text ≠ String.ofList cs) :
    wordKind cs = .identifier := by
  have hnone : Keyword.ofText? (String.ofList cs) = none :=
    List.find?_eq_none.2 fun k _ => by simpa using h k
  rw [wordKind, hnone]

/-- A keyword is a word. -/
theorem Keyword.exists_text (k : Keyword) :
    ∃ c cs, k.text.toList = c :: cs ∧ isWordStart c = true
      ∧ ∀ d ∈ cs, isWordPart d = true := by
  have hstart : isWordStart (k.text.toList.headD ' ') = true := by
    cases k <;> decide
  have hpart : k.text.toList.tail.all isWordPart = true := by
    cases k <;> decide
  cases htext : k.text.toList with
  | nil =>
    rw [htext] at hstart
    cases hstart
  | cons c cs =>
    rw [htext] at hstart hpart
    exact ⟨c, cs, rfl, hstart, List.all_eq_true.1 hpart⟩

theorem segments_word (hrest : BlankAhead rest) {c : Char} {cs : List Char}
    (hc : isWordStart c = true) (hcs : ∀ d ∈ cs, isWordPart d = true) :
    segments (c :: cs ++ rest) = .word (c :: cs) :: segments rest := by
  obtain ⟨htake, hdrop⟩ := hrest.takeWhile_append (by decide) hcs
  rw [List.cons_append, segments_cons, Segment.next_word hc, htake, hdrop]

theorem segments_number {c : Char} {cs : List Char} (hc : c.isDigit = true)
    (h : numberText (c :: cs ++ rest) = (c :: cs, rest)) :
    segments (c :: cs ++ rest) = .number (c :: cs) :: segments rest := by
  rw [List.cons_append] at h ⊢
  rw [segments_cons, Segment.next_number hc, h]

/-- Digits in front of a blank are all of the number. -/
theorem numberText_integer (hrest : BlankAhead rest) {ds : List Char}
    (hds : ∀ d ∈ ds, IsDigit d) : numberText (ds ++ rest) = (ds, rest) := by
  obtain ⟨htake, hdrop⟩ :=
    hrest.takeWhile_append (by decide) fun d hd => isDigit_iff.2 (hds d hd)
  unfold numberText
  rw [htake, hdrop]
  split
  · exact absurd rfl (hrest.ne_cons (by decide) _)
  · rfl

theorem numberText_fraction (hrest : BlankAhead rest) {ds es : List Char}
    (hes : es ≠ []) (hd : ∀ d ∈ ds, IsDigit d) (he : ∀ d ∈ es, IsDigit d) :
    numberText (ds ++ '.' :: es ++ rest) = (ds ++ '.' :: es, rest) := by
  obtain ⟨htake, -⟩ := hrest.takeWhile_append (p := Char.isDigit) (by decide)
    (List.forall_mem_nil _)
  have hnumber := numberText_decimal hes hd he rest
  have happend := numberText_append (ds ++ '.' :: es ++ rest)
  rw [List.nil_append] at htake
  rw [htake, List.append_nil, ← List.cons_append, ← List.append_assoc] at hnumber
  rw [hnumber] at happend
  exact Prod.ext hnumber (List.append_cancel_left happend)

/-- A punctuator is a segment. -/
theorem segments_punctuator (hrest : BlankAhead rest) (m : Punctuator) :
    segments (m.text.toList ++ rest) = .punctuator m :: segments rest := by
  rcases m.mem_tables with rfl | ⟨c, hm⟩ | ⟨c, q, hm⟩ | ⟨c, q, hm⟩
  · show segments ('/' :: rest) = _
    rw [segments_cons, Segment.next_slash (hrest.ne_cons (by decide))]
  · rw [Punctuator.text_of_single? hm, List.singleton_append, segments_cons,
      Segment.next_single? hm]
  · rw [(Punctuator.text_of_withEqual? hm).1, List.singleton_append,
      segments_cons, Segment.next_withEqual?_of_ne hm (hrest.ne_cons (by decide))]
  · rw [(Punctuator.text_of_withEqual? hm).2, List.cons_append,
      List.singleton_append, segments_cons, (Segment.next_withEqual? hm).1]

end Next

/-- Units without unknown escapes have no errors. -/
theorem unitErrors_eq_nil {n : Nat} {us : List StringUnit}
    (h : unknownEscapes n us = []) (file : String) (p : Position) :
    unitErrors file p us = [] := by
  induction us generalizing n p with
  | nil => rfl
  | cons u us ih =>
    cases u with
    | plain c => exact ih h (p.step c)
    | escape c =>
      unfold unitErrors
      cases hc : StringUnit.escaped? c with
      | some d =>
        rw [unknownEscapes_known (escaped?_eq_some_iff.1 hc)] at h
        exact ih h _
      | none =>
        rw [unknownEscapes_unknown (escaped?_eq_none_iff.1 hc)] at h
        cases h

/-- **A written token is a segment** if a blank or the end of the text follows.
For strings nothing has to follow: the closing quote ends them. -/
theorem Writes.segments_append {x : TokenKind × String} {text rest : List Char}
    (h : Writes x text) (hx : Printable x) (hrest : BlankAhead rest) :
    ∃ g, segments (text ++ rest) = g :: segments rest ∧ g.Shows x := by
  cases h with
  | @string value body h =>
    -- The closing quote ends a string, whatever follows.
    obtain ⟨us, hnext, -, hvalue, hknown⟩ := (h.literal 0).exists_next rest
    refine ⟨.string us, ?_, ?_, fun file p => unitErrors_eq_nil hknown file _⟩
    · rw [List.cons_append, List.append_assoc, List.singleton_append,
        segments_cons, hnext]
    · show some (TokenKind.string,
        String.ofList (us.flatMap StringUnit.decoded)) = _
      rw [hvalue, String.ofList_toList]
  | other hk =>
    cases hx with
    | string value => exact absurd rfl hk
    | keyword k =>
      obtain ⟨c, cs, htext, hc, hcs⟩ := k.exists_text
      refine ⟨.word k.text.toList, ?_, ?_, fun _ _ => rfl⟩
      · rw [htext, segments_word hrest hc hcs]
      · show some (wordKind k.text.toList, String.ofList k.text.toList) = _
        rw [wordKind_keyword, String.ofList_toList]
    | @identifier c cs hc hcs hname =>
      refine ⟨.word (c :: cs), ?_, ?_, fun _ _ => rfl⟩
      · rw [String.toList_ofList]
        exact segments_word hrest (isWordStart_iff.2 hc) fun d hd =>
          isWordPart_iff.2 (hcs d hd)
      · show some (wordKind (c :: cs), String.ofList (c :: cs)) = _
        rw [wordKind_name hname]
    | @integer ds hne hds =>
      refine ⟨.number ds, ?_, rfl, fun _ _ => rfl⟩
      rw [String.toList_ofList]
      obtain ⟨d, ds, rfl⟩ := List.exists_cons_of_ne_nil hne
      exact segments_number (isDigit_iff.2 (hds d (List.mem_cons_self ..)))
        (numberText_integer hrest hds)
    | @decimal ds es hds hes hd he =>
      refine ⟨.number (ds ++ '.' :: es), ?_, rfl, fun _ _ => rfl⟩
      rw [String.toList_ofList]
      obtain ⟨d, ds, rfl⟩ := List.exists_cons_of_ne_nil hds
      exact segments_number (isDigit_iff.2 (hd d (List.mem_cons_self ..)))
        (numberText_fraction hrest hes hd he)
    | punctuator m =>
      exact ⟨.punctuator m, segments_punctuator hrest m, rfl, fun _ _ => rfl⟩

/-! ## Written lists of tokens

The induction, with the blanks between two tokens as segments of their own. -/

/-- Each blank is a segment. -/
theorem segments_blanks {blanks : List Char}
    (h : ∀ c ∈ blanks, c ∈ [' ', '\t', '\r', '\n']) (rest : List Char) :
    segments (blanks ++ rest) = blanks.map .blank ++ segments rest := by
  induction blanks with
  | nil => rfl
  | cons c blanks ih =>
    obtain ⟨hc, hblanks⟩ := List.forall_mem_cons.1 h
    rw [List.cons_append, segments_cons, Segment.next_blank (isBlank_iff.2 hc),
      ih hblanks]
    rfl

/-- **The segments of written tokens** are these tokens and blanks between them.
So the tokens of the text are those that were written, as blanks yield none. -/
theorem Spaced.segments {xs : List (TokenKind × String)} {text : List Char}
    (h : Spaced xs text) (hxs : ∀ x ∈ xs, Printable x) :
    (TreeScript.segments text).filterMap Segment.content? = xs
      ∧ ∀ g ∈ TreeScript.segments text, ∀ file p, g.errors file p = [] := by
  induction h with
  | nil => simp
  | @single x text h =>
    have hend : BlankAhead [] := nofun
    obtain ⟨g, hg, hshows⟩ :=
      h.segments_append (hxs x (List.mem_singleton_self x)) hend
    rw [List.append_nil, segments_nil] at hg
    rw [hg]
    exact ⟨by simp [hshows.content], by simpa using hshows.clean⟩
  | @cons x y xs text blanks rest h hne hblanks _ ih =>
    obtain ⟨hx, hxs⟩ := List.forall_mem_cons.1 hxs
    have hahead : BlankAhead (blanks ++ rest) := by
      obtain ⟨c, cs, rfl⟩ := List.exists_cons_of_ne_nil hne
      rintro _ ⟨⟩
      exact hblanks c (List.mem_cons_self ..)
    obtain ⟨g, hg, hshows⟩ := h.segments_append hx hahead
    obtain ⟨hcontents, hclean⟩ := ih hxs
    rw [hg, segments_blanks hblanks]
    constructor
    · have hnone : (blanks.map Segment.blank).filterMap Segment.content? = [] := by
        simp [Segment.content?, Segment.token?]
      rw [List.filterMap_cons_some hshows.content, List.filterMap_append, hnone,
        hcontents, List.nil_append]
    · refine List.forall_mem_cons.2 ⟨hshows.clean, fun g' hg' => ?_⟩
      rcases List.mem_append.1 hg' with hblank | hrest
      · obtain ⟨c, -, rfl⟩ := List.mem_map.1 hblank
        exact fun _ _ => rfl
      · exact hclean g' hrest

/-- **Scanning undoes writing.** Tokens that can be written out are scanned from
whatever is written for them, in any way and with any blanks between neighbours:
the text has their kinds and texts, then its end, and no lexical errors. -/
theorem scan_spaced (xs : List (TokenKind × String))
    (h : ∀ x ∈ xs, Printable x) :
    (∃ text, Spaced xs text)
      ∧ ∀ s : SourceText, Spaced xs s.text.toList →
        s.scan.tokens.map (fun t => (t.kind, t.lexeme)) = xs ++ [(.endOfFile, "")]
          ∧ s.scan.errors = [] := by
  refine ⟨exists_spaced xs, fun s hs => ?_⟩
  obtain ⟨hcontents, hclean⟩ := hs.segments h
  constructor
  · rw [s.tokens_eq, List.map_append, s.contents_front, hcontents]
    rfl
  · refine List.flatMap_eq_nil_iff.2 fun (p, g) hmem => hclean g ?_ s.name p
    rw [← map_snd_locate .start (TreeScript.segments s.text.toList)]
    exact List.mem_map_of_mem hmem

/-- The tokens of a comparison, with a quote, a backslash and a line feed in the
string. -/
def comparisonTokens : List (TokenKind × String) :=
  [(.keyword .printKw, "print"), (.identifier, "a1"),
    (.punctuator .lessEqual, "<="), (.number, "1.5"), (.string, "\"\\\n")]

/-- These tokens with several blanks, and with the line feed left as it is. -/
def comparisonText : SourceText :=
  ⟨"", "print\r\na1\t<= 1.5  \"\\\"\\\\\n\""⟩

/-- The string is written with the two escapes it needs and a line feed as it
is. -/
theorem scan_spaced_comparisonTokens :
    comparisonText.scan.tokens.map (fun t => (t.kind, t.lexeme))
        = comparisonTokens ++ [(.endOfFile, "")]
      ∧ comparisonText.scan.errors = [] := by
  have hone : IsDigit '1' := isDigit_iff.1 rfl
  have hname : Printable (.identifier, String.ofList ['a', '1']) :=
    .identifier (isWordStart_iff.1 rfl) (List.forall_mem_singleton.2 (.inr hone))
      fun k => by cases k <;> decide
  have hnumber : Printable (.number, String.ofList (['1'] ++ '.' :: ['5'])) :=
    .decimal (List.cons_ne_nil _ _) (List.cons_ne_nil _ _)
      (List.forall_mem_singleton.2 hone)
      (List.forall_mem_singleton.2 (isDigit_iff.1 rfl))
  have hprintable : ∀ x ∈ comparisonTokens, Printable x := by
    simp only [comparisonTokens, List.forall_mem_cons]
    exact ⟨.keyword .printKw, hname, .punctuator .lessEqual, hnumber,
      .string _, nofun⟩
  refine (scan_spaced comparisonTokens hprintable).2 comparisonText ?_
  have hstring : Writes (.string, "\"\\\n")
      ('"' :: (['\\', '"', '\\', '\\', '\n'] ++ ['"'])) :=
    .string (.escaped .quote (.escaped .backslash
      (.raw (by decide) (by decide) .nil)))
  have hspaced : Spaced comparisonTokens
      ("print".toList ++ (['\r', '\n'] ++ ("a1".toList ++ (['\t']
        ++ ("<=".toList ++ ([' '] ++ ("1.5".toList ++ ([' ', ' '] ++ _)))))))) :=
    .cons (.other nofun) (List.cons_ne_nil _ _) (by simp)
      (.cons (.other nofun) (List.cons_ne_nil _ _) (by simp)
        (.cons (.other nofun) (List.cons_ne_nil _ _) (by simp)
          (.cons (.other nofun) (List.cons_ne_nil _ _) (by simp)
            (.single hstring))))
  exact hspaced

end TreeScript
