import TreeScript.Proofs.Token.Munch

/-!
# Line breaks end segments

A segment looks at what stands behind it only to find its own end. A line feed
ends every segment but a string without closing quote: no word, number or
punctuator goes on behind it, and a comment ends with it. So if a text ends with a
line feed and has no unclosed string, it does not matter what follows: the
segments of two texts put together are those of the first and those of the second
(`segments_append`).

A session cuts its input in just this way before it scans anything, so this is
why it finds the tokens of the whole text. The condition on strings is needed:
an open string goes on behind the line feed and may be closed on the next line.

The second half of the module puts pieces of texts together, and counts what
they yield without regard to places. Places are not those of the whole text as
long as each line is scanned alone.
-/

namespace TreeScript

/-- **The text is empty or ends with a line feed.** -/
def EndsLine (cs : List Char) : Prop := ∀ c ∈ cs.getLast?, c = '\n'

theorem EndsLine.of_suffix {cs rest : List Char} (h : EndsLine cs)
    (hrest : rest <:+ cs) : EndsLine rest := by
  obtain ⟨front, rfl⟩ := hrest
  intro c hc
  refine h c ?_
  rw [List.getLast?_append, hc]
  rfl

/-! ## Ends that are found in front of a line feed

For each function that looks for the end of a segment: with a line feed in the
text that follows, it finds the same end. -/

section Newline

variable (cs ds : List Char)

/-- A run of characters without line feeds ends in front of a line feed. -/
theorem takeWhile_append_newline {p : Char → Bool} (hp : p '\n' = false) :
    (cs ++ '\n' :: ds).takeWhile p = cs.takeWhile p
      ∧ (cs ++ '\n' :: ds).dropWhile p = cs.dropWhile p ++ '\n' :: ds := by
  induction cs with
  | nil => simp [hp]
  | cons c cs ih =>
    cases hc : p c with
    | false => simp [hc]
    | true => simp [hc, ih]

theorem throughNewline_append_of_mem {cs : List Char} (h : '\n' ∈ cs) :
    throughNewline (cs ++ ds)
      = ((throughNewline cs).1, (throughNewline cs).2 ++ ds) := by
  obtain ⟨body, rest, rfl, hbody⟩ := List.eq_append_cons_of_mem h
  rw [throughNewline_newline hbody, List.append_assoc, List.cons_append,
    throughNewline_newline hbody]

/-- A string ends at its closing quote. -/
theorem stringUnits_append_of_closed {cs rest : List Char}
    (h : (stringUnits cs).2 = .closed rest) :
    stringUnits (cs ++ ds) = ((stringUnits cs).1, .closed (rest ++ ds)) := by
  fun_induction stringUnits cs with
  | case1 => cases h
  | case2 cs =>
    obtain rfl : cs = rest := StringEnd.closed.inj h
    rfl
  | case3 => cases h
  | case4 c cs r ih =>
    simp only [List.cons_append]
    rw [stringUnits, ih h]
  | case5 c cs hquote hlast hescape r ih =>
    have hslash : c ≠ '\\' := by
      intro hslash
      cases cs with
      | nil => exact hlast hslash rfl
      | cons d ds => exact hescape d ds hslash rfl
    simp only [List.cons_append]
    simp [stringUnits, hslash, ih h, r]

/-- A line feed closes no string. -/
theorem stringUnits_newline_of_open
    (h : ∀ rest, (stringUnits cs).2 ≠ .closed rest) (rest : List Char) :
    (stringUnits (cs ++ ['\n'])).2 ≠ .closed rest := by
  intro hclosed
  have happend := stringUnits_append (cs ++ ['\n'])
  rw [hclosed] at happend
  -- The closing quote is not the last character, so it was there before.
  rcases List.eq_nil_or_concat rest with rfl | ⟨front, last, rfl⟩
  · have hlast := congrArg List.getLast? happend
    simp [StringEnd.text] at hlast
  · have hcs : cs = (stringUnits (cs ++ ['\n'])).1.flatMap StringUnit.text
        ++ '"' :: front := by
      rw [StringEnd.text, List.concat_eq_append, ← List.cons_append,
        ← List.append_assoc] at happend
      exact (List.append_inj' happend rfl).1.symm
    exact stringUnits_not_closed h _ _ (stringBody_units _) hcs

/-- No digit and no period goes on behind a line feed. -/
theorem numberText_append_newline :
    numberText (cs ++ '\n' :: ds)
      = ((numberText cs).1, (numberText cs).2 ++ '\n' :: ds) := by
  have hnewline : Char.isDigit '\n' = false := rfl
  obtain ⟨htake, hdrop⟩ := takeWhile_append_newline cs ds hnewline
  unfold numberText
  rw [htake, hdrop]
  match cs.dropWhile Char.isDigit with
  | [] => rfl
  | [d] =>
    by_cases hd : d = '.'
    · subst hd
      rfl
    · simp [hd]
  | d :: e :: rest =>
    by_cases hd : d = '.'
    · subst hd
      obtain ⟨htake, hdrop⟩ := takeWhile_append_newline rest ds hnewline
      by_cases he : e.isDigit = true <;> simp [he, htake, hdrop]
    · simp [hd]

/-- An equals sign behind a line feed belongs to no punctuator. -/
theorem nextMark_append_newline (c : Char) :
    Segment.nextMark c (cs ++ '\n' :: ds)
      = ((Segment.nextMark c cs).1, (Segment.nextMark c cs).2 ++ '\n' :: ds) := by
  unfold Segment.nextMark
  split
  · cases cs with
    | nil => rfl
    | cons d cs => by_cases hd : d = '=' <;> simp [hd]
  · split <;> rfl

end Newline

/-! ## Segments in front of a line feed

From these to the first segment of a text, by the character it begins with. -/

namespace Segment

variable {c : Char} {cs : List Char}

/-- A quote that is not closed is an unterminated string. -/
theorem kind_nextString_of_open
    (h : ∀ rest, (stringUnits cs).2 ≠ .closed rest) :
    (nextString cs).1.kind = .unterminated := by
  unfold nextString
  split <;> rename_i hunits
  · exact absurd (congrArg Prod.snd hunits) (h _)
  · rfl
  · rfl

/-- A string is closed in front of the line feed, or it is open with the line
feed in it as well as without. -/
theorem nextString_newline (cs : List Char) :
    (∀ ds, nextString (cs ++ '\n' :: ds)
        = ((nextString cs).1, (nextString cs).2 ++ '\n' :: ds))
      ∨ ((nextString cs).1.kind = .unterminated
          ∧ (nextString (cs ++ ['\n'])).1.kind = .unterminated) := by
  by_cases hclosed : ∃ rest, (stringUnits cs).2 = .closed rest
  · obtain ⟨rest, hclosed⟩ := hclosed
    refine .inl fun ds => ?_
    unfold nextString
    rw [stringUnits_append_of_closed _ hclosed,
      show stringUnits cs = ((stringUnits cs).1, .closed rest) from
        Prod.ext rfl hclosed]
  · have hopen := not_exists.1 hclosed
    exact .inr ⟨kind_nextString_of_open hopen,
      kind_nextString_of_open (stringUnits_newline_of_open cs hopen)⟩

/-- A line feed behind a slash ends a comment, or comes behind it. -/
theorem next_slash_newline (cs : List Char) :
    (∀ ds, next '/' (cs ++ '\n' :: ds)
        = ((next '/' cs).1, (next '/' cs).2 ++ '\n' :: ds))
      ∨ (∃ body, next '/' cs = (comment body, [])
          ∧ ∀ ds, next '/' (cs ++ '\n' :: ds) = (comment (body ++ ['\n']), ds)) := by
  match cs with
  | [] => exact .inl fun ds => rfl
  | d :: rest =>
    by_cases hd : d = '/'
    · subst hd
      simp only [List.cons_append, next_comment]
      by_cases hmem : '\n' ∈ rest
      · refine .inl fun ds => ?_
        rw [throughNewline_append_of_mem _ hmem]
      · refine .inr ⟨rest, ?_, fun ds => ?_⟩
        · rw [throughNewline_last hmem]
        · rw [throughNewline_newline hmem]
    · have hslash (ds : List Char) : ∀ rest', d :: ds ≠ '/' :: rest' :=
        fun _ heq => hd (List.cons.inj heq).1
      refine .inl fun ds => ?_
      rw [List.cons_append, next_slash (hslash _), next_slash (hslash _)]
      rfl

/-- **What a line feed behind a text does to its first segment.** It leaves the
segment as it is, or it ends a comment that went up to the end of the text, or the
segment is a string that is not closed, and stays one. -/
theorem next_newline (c : Char) (cs : List Char) :
    (∀ ds, next c (cs ++ '\n' :: ds) = ((next c cs).1, (next c cs).2 ++ '\n' :: ds))
      ∨ (∃ body, next c cs = (comment body, [])
          ∧ ∀ ds, next c (cs ++ '\n' :: ds) = (comment (body ++ ['\n']), ds))
      ∨ ((next c cs).1.kind = .unterminated
          ∧ (next c (cs ++ ['\n'])).1.kind = .unterminated) := by
  by_cases hblank : isBlank c = true
  · refine .inl fun ds => ?_
    rw [next_blank hblank, next_blank hblank]
  by_cases hquote : c = '"'
  · subst hquote
    exact (nextString_newline cs).imp_right .inr
  by_cases hword : isWordStart c = true
  · refine .inl fun ds => ?_
    obtain ⟨htake, hdrop⟩ := takeWhile_append_newline cs ds (p := isWordPart) rfl
    rw [next_word hword, next_word hword, htake, hdrop]
  by_cases hdigit : c.isDigit = true
  · refine .inl fun ds => ?_
    rw [next_number hdigit, next_number hdigit, ← List.cons_append,
      numberText_append_newline]
  by_cases hslash : c = '/'
  · subst hslash
    exact (next_slash_newline cs).imp_right .inl
  · have hmark (ds : List Char) : next c ds = nextMark c ds := by
      unfold next
      rw [if_neg hblank, if_neg hquote, if_neg hword, if_neg hdigit,
        if_neg hslash]
    refine .inl fun ds => ?_
    rw [hmark, hmark, nextMark_append_newline]

theorem exists_unclosed_of_kind {g : Segment} (h : g.kind = .unterminated) :
    ∃ us dangling, g = .unclosed us dangling := by
  cases g with
  | unclosed us dangling => exact ⟨us, dangling, rfl⟩
  | _ => cases h

/-- **A segment that ends in front of a line feed does not see what follows.**
The segment may reach up to the line feed or take it along, but nothing behind
it has a say in where it ends. -/
theorem next_append (ds : List Char) (h : EndsLine (c :: cs))
    (hclosed : ∀ us dangling, (next c cs).1 ≠ .unclosed us dangling) :
    next c (cs ++ ds) = ((next c cs).1, (next c cs).2 ++ ds) := by
  rcases List.eq_nil_or_concat cs with rfl | ⟨front, last, rfl⟩
  · obtain rfl : c = '\n' := h c rfl
    rfl
  · rw [List.concat_eq_append] at h hclosed ⊢
    have hlast : EndsLine [last] := h.of_suffix ⟨c :: front, rfl⟩
    obtain rfl : last = '\n' := hlast last rfl
    rw [List.append_assoc, List.singleton_append]
    rcases next_newline c front with hsame | ⟨body, -, hcomment⟩ | ⟨-, hopen⟩
    · rw [hsame, hsame, List.append_assoc]
      rfl
    · rw [hcomment, hcomment]
      rfl
    · obtain ⟨us, dangling, hunclosed⟩ := exists_unclosed_of_kind hopen
      exact absurd hunclosed (hclosed us dangling)

end Segment

/-- **The segments of two texts put together** are those of the first and those
of the second, if the first ends with a line feed and has no unclosed string.
The induction is on the segments of the first text: what is left of it behind
each of them still ends with a line feed. -/
theorem segments_append {cs : List Char} (h : EndsLine cs)
    (hclosed : ∀ us dangling, .unclosed us dangling ∉ segments cs)
    (ds : List Char) : segments (cs ++ ds) = segments cs ++ segments ds := by
  fun_induction segments cs with
  | case1 => rw [List.nil_append, List.nil_append]
  | case2 c cs ih =>
    have hnext := Segment.next_append ds h fun us dangling heq =>
      hclosed us dangling (heq ▸ List.mem_cons_self ..)
    have hsuffix : (Segment.next c cs).2 <:+ c :: cs :=
      ⟨_, Segment.text_next c cs⟩
    have hrest := ih (h.of_suffix hsuffix) fun us dangling hmem =>
      hclosed us dangling (List.mem_cons_of_mem _ hmem)
    rw [List.cons_append, segments_cons, hnext, hrest, List.cons_append]

/-! ## Texts in pieces

Segments, tokens and errors of a text from those of its pieces. -/

/-- The segments of pieces of a text are those of the text, if all pieces but the
last end with a line feed and none has an unclosed string. -/
theorem segments_flatten {pieces : List (List Char)}
    (hend : ∀ cs ∈ pieces.dropLast, EndsLine cs)
    (hclosed : ∀ cs ∈ pieces, ∀ us dangling,
      .unclosed us dangling ∉ segments cs) :
    segments pieces.flatten = pieces.flatMap segments := by
  induction pieces with
  | nil => exact segments_nil
  | cons cs pieces ih =>
    obtain ⟨hcs, hpieces⟩ := List.forall_mem_cons.1 hclosed
    rw [List.flatten_cons, List.flatMap_cons]
    by_cases hne : pieces = []
    · subst hne
      simp
    · rw [List.dropLast_cons_of_ne_nil hne] at hend
      obtain ⟨hcsend, hend⟩ := List.forall_mem_cons.1 hend
      rw [segments_append hcsend hcs, ih hend hpieces]

/-- The kind and the text of the token of a segment, wherever it stands. -/
def Segment.content? (g : Segment) : Option (TokenKind × String) :=
  (g.token? "" .start).map fun t => (t.kind, t.lexeme)

/-- A place has no part in the kind and the text of a token. -/
theorem Segment.content_token? (file : String) (p : Position) (g : Segment) :
    (g.token? file p).map (fun t => (t.kind, t.lexeme)) = g.content? := by
  cases g <;> rfl

/-- The segment is no piece of a text without errors. -/
def Segment.isFault : Segment → Bool
  | unclosed _ _ | stray _ => true
  | _ => false

/-- The errors inside a string are warnings. -/
theorem unitErrors_countP (file : String) (p : Position)
    (us : List StringUnit) :
    (unitErrors file p us).countP (·.fault.severity == .error) = 0 := by
  fun_induction unitErrors file p us with
  | case1 => rfl
  | case2 p c us ih => exact ih
  | case3 p c us q d hd ih => exact ih
  | case4 p c us q hd ih =>
    exact (List.countP_cons_of_neg Bool.false_ne_true).trans ih

/-- A segment has one error if it is a fault, warnings aside. -/
theorem Segment.errors_countP (file : String) (p : Position) (g : Segment) :
    (g.errors file p).countP (·.fault.severity == .error)
      = if g.isFault then 1 else 0 := by
  cases g with
  | string us => exact unitErrors_countP file _ us
  | unclosed us dangling =>
    show List.countP _ (unitErrors file _ us ++ [_]) = _
    rw [List.countP_append, unitErrors_countP]
    rfl
  | blank | comment | word | number | punctuator | stray => rfl

section Scan

variable (source : SourceText)

/-- The tokens of a text in front of its end. -/
def SourceText.front : List Token :=
  source.segments.filterMap fun (p, g) => g.token? source.name p

theorem SourceText.tokens_eq :
    source.scan.tokens
      = source.front ++ [Token.endOfFile (source.spanAt source.finish)] :=
  rfl

theorem map_snd_locate (p : Position) (gs : List Segment) :
    (locate p gs).map Prod.snd = gs := by
  induction gs generalizing p with
  | nil => rfl
  | cons g gs ih => rw [locate, List.map_cons, ih]

/-- **The kinds and texts of the tokens** do not depend on places. They are
found segment by segment, so texts with the same segments have the same ones. -/
theorem SourceText.contents_front :
    source.front.map (fun t => (t.kind, t.lexeme))
      = (TreeScript.segments source.text.toList).filterMap Segment.content? := by
  have hcontent : (fun x : Position × Segment =>
      (x.2.token? source.name x.1).map fun t => (t.kind, t.lexeme))
        = Segment.content? ∘ Prod.snd :=
    funext fun (p, g) => g.content_token? source.name p
  unfold front
  rw [List.map_filterMap, hcontent, ← List.filterMap_map]
  exact congrArg _ (map_snd_locate _ _)

theorem countP_errors_locate (file : String) (p : Position)
    (gs : List Segment) :
    ((locate p gs).flatMap fun (q, g) => g.errors file q).countP
        (·.fault.severity == .error) = gs.countP Segment.isFault := by
  induction gs generalizing p with
  | nil => rfl
  | cons g gs ih =>
    rw [locate, List.flatMap_cons, List.countP_append, g.errors_countP, ih,
      List.countP_cons, Nat.add_comm]

/-- **How many lexical errors there are**, warnings aside, is how many segments
are faults. -/
theorem SourceText.errors_countP :
    source.scan.errors.countP (·.fault.severity == .error)
      = (TreeScript.segments source.text.toList).countP Segment.isFault :=
  countP_errors_locate source.name .start _

/-- Only the last token is the end of the text. -/
theorem SourceText.isEnd_front : ∀ t ∈ source.front, t.isEnd = false := by
  intro t ht
  obtain ⟨⟨p, g⟩, -, ht⟩ := List.mem_filterMap.1 ht
  cases g with
  | word cs =>
    obtain rfl := Option.some.inj ht
    unfold Token.isEnd wordKind
    split <;> rfl
  | number | punctuator | string =>
    obtain rfl := Option.some.inj ht
    rfl
  | blank | comment | unclosed | stray => cases ht

end Scan

end TreeScript
