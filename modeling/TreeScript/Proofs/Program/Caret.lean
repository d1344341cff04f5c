import TreeScript.Printer
import TreeScript.Proofs.Exec.Provenance
import TreeScript.Proofs.Token.Place

/-!
# The caret under a diagnostic

There are two ways to count lines. Places are counted while scanning: only a line
feed ends a line, a carriage return takes a column like any other character, and
behind a last line feed there is one more line. Quoted lines are cut out of the
text (`linesOf`): a carriage return in front of a line feed belongs to the line
end, and behind a last line feed there is no line.

Both agree where it matters. A place is a cut of the text in two (`CutAt`), and the
quoted line goes on at the cut as the text does, if the cut does not fall between a
carriage return and its line feed (`CutAt.quotes`). No diagnostic has such a place:
tokens and most faults begin with a character that is not blank, and an unknown
escape has a backslash in front of it. So the caret stands under the character that
the diagnostic speaks about (`caret_under_column`).

The proof is about lists of characters and goes in three steps: what the lines
of a text are, where a place cuts the text, and at which characters diagnostics
have their places. The rendering comes in at the end. It is a few strings put
together, and what has to be known of them is only how many characters stand in
front of the caret and that none of these is one itself.
-/

namespace TreeScript

/-! ## Lines of a text

The function that cuts lines out of a text, by the line feeds in front of a
place. -/

namespace SourceText

section Lines

variable {body front col rest line : List Char}

/-- An empty text has no lines, not one that is empty. -/
theorem linesOf_nil : linesOf [] = [] := by
  rw [linesOf]

/-- A line feed ends a line. -/
theorem linesOf_newline (h : '\n' ∉ body) (rest : List Char) :
    linesOf (body ++ '\n' :: rest) = dropReturn body :: linesOf rest := by
  have hbody : ∀ c ∈ body, decide (c ≠ '\n') = true := fun c hc =>
    decide_eq_true fun heq => h (heq ▸ hc)
  have htake : (body ++ '\n' :: rest).takeWhile (· ≠ '\n') = body := by
    rw [List.takeWhile_append_of_pos hbody]
    simp
  have hdrop : (body ++ '\n' :: rest).dropWhile (· ≠ '\n') = '\n' :: rest := by
    rw [List.dropWhile_append_of_pos hbody]
    simp
  obtain ⟨c, cs, hcs⟩ := List.exists_cons_of_ne_nil
    (List.append_ne_nil_of_right_ne_nil body (List.cons_ne_nil '\n' rest))
  rw [hcs] at htake hdrop ⊢
  rw [linesOf]
  split
  · rename_i hnil
    cases hdrop.symm.trans hnil
  · rename_i d ds hrest
    obtain ⟨-, rfl⟩ := List.cons.inj (hdrop.symm.trans hrest)
    rw [htake]

/-- Without a line feed, a text is one line. -/
theorem linesOf_last (h : '\n' ∉ body) (hne : body ≠ []) :
    linesOf body = [body] := by
  have hdrop : body.dropWhile (· ≠ '\n') = [] :=
    List.dropWhile_eq_nil_iff.2 fun c hc =>
      decide_eq_true fun heq => h (heq ▸ hc)
  obtain ⟨c, cs, rfl⟩ := List.exists_cons_of_ne_nil hne
  rw [linesOf]
  split
  · rfl
  · rename_i hrest
    cases hdrop.symm.trans hrest

/-- What ends with a line feed has one, unless it is empty. -/
theorem eq_nil_of_endsLine (h : EndsLine front) (hmem : '\n' ∉ front) :
    front = [] := by
  by_contra hne
  have hlast := h _ (List.getLast?_eq_some_getLast hne)
  exact hmem (hlast ▸ List.getLast_mem hne)

/-- **Whole lines in front of a text** come in front of its lines, one for each
line feed. The induction takes off the first of them. -/
theorem exists_linesOf_append (h : EndsLine front) (rest : List Char) :
    ∃ lines, lines.length = front.count '\n'
      ∧ linesOf (front ++ rest) = lines ++ linesOf rest := by
  induction hn : front.count '\n' generalizing front with
  | zero =>
    rw [eq_nil_of_endsLine h (List.count_eq_zero.1 hn)]
    exact ⟨[], rfl, rfl⟩
  | succ n ih =>
    have hmem : '\n' ∈ front := List.count_pos_iff.1 (hn ▸ Nat.succ_pos n)
    obtain ⟨body, more, rfl, hbody⟩ := List.eq_append_cons_of_mem hmem
    have hmore : EndsLine more := h.of_suffix ⟨body ++ ['\n'], by simp⟩
    have hcount : more.count '\n' = n := by
      simpa [List.count_eq_zero.2 hbody] using hn
    obtain ⟨lines, hlength, hlines⟩ := ih hmore hcount
    refine ⟨dropReturn body :: lines, congrArg (· + 1) hlength, ?_⟩
    rw [List.append_assoc, List.cons_append, linesOf_newline hbody, hlines,
      List.cons_append]

/-- A carriage return is dropped at the end of a line only. -/
theorem dropReturn_append (h : rest = [] → col.getLast? ≠ some '\r') :
    dropReturn (col ++ rest) = col ++ dropReturn rest := by
  unfold dropReturn
  rcases List.eq_nil_or_concat rest with rfl | ⟨init, last, rfl⟩
  · simp [h rfl]
  · simp only [List.concat_eq_append, ← List.append_assoc, List.getLast?_concat]
    split <;> simp

theorem dropReturn_subset (cs : List Char) : dropReturn cs ⊆ cs := by
  unfold dropReturn
  split
  · exact List.dropLast_subset cs
  · exact List.Subset.refl cs

/-- The first character of a line is dropped only if it is such a return. -/
theorem head?_dropReturn {c : Char} {cs : List Char} (hc : c ≠ '\r') :
    (dropReturn (c :: cs)).head? = some c := by
  have h : dropReturn ([c] ++ cs) = [c] ++ dropReturn cs :=
    dropReturn_append fun _ heq => hc (Option.some.inj heq)
  rw [List.singleton_append] at h
  rw [h]
  rfl

/-- Only an empty text has no lines. -/
theorem eq_nil_of_linesOf (h : linesOf rest = []) : rest = [] := by
  cases rest with
  | nil => rfl
  | cons c cs =>
    rw [linesOf] at h
    split at h <;> cases h

/-- **The first line of a text goes on as the text does**: behind characters
without a line feed, it has the next characters of the text, and it has the
character that comes next if that one is not blank. -/
theorem head?_linesOf (hcol : '\n' ∉ col)
    (hwhole : col.getLast? = some '\r' → rest.head? ≠ some '\n')
    (h : (linesOf (col ++ rest)).head? = some line) :
    ∃ tail, line = col ++ tail ∧ '\n' ∉ tail
      ∧ ∀ c ∈ rest.head?, isBlank c ≠ true → tail.head? = some c := by
  by_cases hmem : '\n' ∈ rest
  · obtain ⟨body, more, rfl, hbody⟩ := List.eq_append_cons_of_mem hmem
    have hline : '\n' ∉ col ++ body := by simp [hcol, hbody]
    -- A return that is dropped stands behind the cut, not in front of it.
    have hdrop : dropReturn (col ++ body) = col ++ dropReturn body :=
      dropReturn_append fun hnil hreturn => hwhole hreturn (by rw [hnil]; rfl)
    rw [← List.append_assoc, linesOf_newline hline, hdrop] at h
    refine ⟨dropReturn body, (Option.some.inj h).symm,
      fun hn => hbody (dropReturn_subset body hn), fun c hc hblank => ?_⟩
    cases body with
    | nil =>
      obtain rfl := Option.some.inj hc
      exact absurd rfl hblank
    | cons d ds =>
      obtain rfl := Option.some.inj hc
      refine head?_dropReturn fun hreturn => hblank ?_
      rw [hreturn]
      rfl
  · have hne : col ++ rest ≠ [] := by
      intro hnil
      rw [hnil, linesOf_nil] at h
      cases h
    rw [linesOf_last (by simp [hcol, hmem]) hne] at h
    exact ⟨rest, (Option.some.inj h).symm, hmem, fun c hc _ => hc⟩

end Lines

/-! ## Lines at places

The quoted line of a place and the text at the place have a beginning and a next
character in common, no more: a line may end in the middle of a token, as
strings go over several lines. -/

/-- **The text is cut at a place** in two, and not inside a line end. The cut is
the common ground of places, which count characters, and of quoted lines, which
are cut out of the text. -/
structure CutAt (s : SourceText) (span : Span) (before rest : List Char) :
    Prop where
  /-- The parts are the text. -/
  text : s.text.toList = before ++ rest
  /-- The place is that of the cut. -/
  span : span = s.place before.length
  /-- A carriage return stays with its line feed. -/
  whole : before.getLast? = some '\r' → rest.head? ≠ some '\n'

/-- The characters of a text behind its last line feed. -/
def lastLine (before : List Char) : List Char :=
  before.rtakeWhile (· ≠ '\n')

theorem newline_not_mem_lastLine (before : List Char) :
    '\n' ∉ lastLine before := by
  intro h
  have hne := List.mem_rtakeWhile_imp h
  exact of_decide_eq_true hne rfl

namespace CutAt

variable {s : SourceText} {span : Span} {before rest : List Char}

theorem liesIn (h : s.CutAt span before rest) : span.LiesIn s.name := by
  rw [h.span, place_eq]
  exact Span.liesIn_ofPosition (Position.line_pos_after Nat.one_pos _)

/-- A column counts the characters of the line in front of the cut, and one
more. -/
theorem column_eq (h : s.CutAt span before rest) :
    span.column = 1 + (lastLine before).length := by
  rw [h.span, place, h.text, List.take_left]
  rfl

/-- **The line of a place** is the first of the text behind the last line feed
in front of the place. Places count lines by their line feeds, and the lines
that end with one of these come in front. -/
theorem line?_eq (h : s.CutAt span before rest) :
    s.line? span.line
      = (linesOf (lastLine before ++ rest)).head?.map String.ofList := by
  have hsplit : before = before.rdropWhile (· ≠ '\n') ++ lastLine before :=
    List.rdropWhile_append_rtakeWhile.symm
  have hends : EndsLine (before.rdropWhile (· ≠ '\n')) := by
    intro c hc
    by_contra hne
    obtain ⟨hnil, rfl⟩ := List.mem_getLast?_eq_getLast hc
    exact List.rdropWhile_last_not _ _ hnil (decide_eq_true hne)
  have hcount : before.count '\n'
      = (before.rdropWhile (· ≠ '\n')).count '\n' := by
    conv_lhs => rw [hsplit]
    rw [List.count_append, List.count_eq_zero.2 (newline_not_mem_lastLine before),
      Nat.add_zero]
  obtain ⟨lines, hlength, hlines⟩ :=
    exists_linesOf_append hends (lastLine before ++ rest)
  have hline : span.line = before.count '\n' + 1 := by
    rw [h.span, place, h.text, List.take_left]
    exact Nat.add_comm 1 _
  have htext : s.text.toList
      = before.rdropWhile (· ≠ '\n') ++ (lastLine before ++ rest) := by
    rw [h.text, ← List.append_assoc, ← hsplit]
  rw [hline, line?, SourceText.lines, htext, hlines, List.getElem?_map, hcount,
    ← hlength, List.getElem?_append_right (Nat.le_refl _), Nat.sub_self,
    List.head?_eq_getElem?]

/-- **A quoted line goes on at the place as the text does.** What was passed of
the line is the same on both sides; of what comes, only the next character is
compared, as a carriage return may be dropped behind it. -/
theorem quotes (h : s.CutAt span before rest) {line : String}
    (hline : s.line? span.line = some line) :
    ∃ tail, line.toList = lastLine before ++ tail ∧ '\n' ∉ tail
      ∧ ∀ c ∈ rest.head?, isBlank c ≠ true → tail.head? = some c := by
  rw [h.line?_eq] at hline
  obtain ⟨cs, hcs, rfl⟩ := Option.map_eq_some_iff.1 hline
  rw [String.toList_ofList]
  refine head?_linesOf (newline_not_mem_lastLine before) (fun hreturn => ?_) hcs
  obtain ⟨front, hfront⟩ : lastLine before <:+ before := List.rtakeWhile_suffix _ _
  refine h.whole ?_
  rw [← hfront, List.getLast?_append, hreturn]
  rfl

theorem newline_not_mem_line (h : s.CutAt span before rest) {line : String}
    (hline : s.line? span.line = some line) : '\n' ∉ line.toList := by
  obtain ⟨tail, htail, hnewline, -⟩ := h.quotes hline
  rw [htail, List.mem_append, not_or]
  exact ⟨newline_not_mem_lastLine before, hnewline⟩

/-- The character of a quoted line at the column of a place is that of the text
behind the cut. -/
theorem getElem?_line (h : s.CutAt span before rest) {line : String}
    (hline : s.line? span.line = some line) {c : Char}
    (hc : rest.head? = some c) (hblank : isBlank c ≠ true) :
    line.toList[span.column - 1]? = some c := by
  obtain ⟨tail, htail, -, hhead⟩ := h.quotes hline
  have hcolumn : span.column - 1 = (lastLine before).length := by
    rw [h.column_eq, Nat.add_sub_cancel_left]
  rw [htail, hcolumn, List.getElem?_append_right (Nat.le_refl _), Nat.sub_self,
    ← List.head?_eq_getElem?]
  exact hhead c hc hblank

/-- **The column is one of the quoted line**, or the one behind it. The column
behind the line is reached at the end of a text that has no last line feed,
where a missing token is reported. -/
theorem column_le (h : s.CutAt span before rest) {line : String}
    (hline : s.line? span.line = some line) :
    1 ≤ span.column ∧ span.column ≤ line.length + 1 := by
  obtain ⟨tail, htail, -⟩ := h.quotes hline
  rw [h.column_eq, ← String.length_toList, htail, List.length_append]
  omega

/-- A place without a line is the end of a text that is empty or ends with a line
feed. -/
theorem of_line?_eq_none (h : s.CutAt span before rest)
    (hline : s.line? span.line = none) :
    span = s.spanAt s.finish
      ∧ (s.text.toList = [] ∨ s.text.toList.getLast? = some '\n') := by
  rw [h.line?_eq, Option.map_eq_none_iff, List.head?_eq_none_iff] at hline
  obtain ⟨hlast, rfl⟩ := List.append_eq_nil_iff.1 (eq_nil_of_linesOf hline)
  have htext := h.text
  rw [List.append_nil] at htext
  refine ⟨?_, ?_⟩
  · rw [h.span, ← htext, place_length]
  · rw [htext]
    by_cases hne : before = []
    · exact .inl hne
    · have hend := List.rtakeWhile_eq_nil_iff.1 hlast hne
      right
      rw [List.getLast?_eq_some_getLast hne]
      simpa using hend

end CutAt

end SourceText

/-! ## Places of tokens and faults

Every place that is reported is one in front of a character of a segment. Which
character it is depends on the segment, and for unknown escapes it is the one
behind a backslash. -/

/-- **The character that a token begins with**: the quote of a string, the first
character of the text of any other token. The end of the text has none. -/
def Token.opening? (t : Token) : Option Char :=
  match t.kind with
  | .string => some '"'
  | _ => t.lexeme.toList.head?

/-- A token begins with the first character of its segment. -/
theorem Segment.opening?_of_token? {file : String} {p : Position} {g : Segment}
    {t : Token} (h : g.token? file p = some t) :
    t.opening? = g.text.head? := by
  cases g with
  | word cs =>
    obtain rfl := Option.some.inj h
    have hkind : wordKind cs ≠ .string := by
      unfold wordKind
      split <;> exact nofun
    unfold Token.opening?
    split
    · exact absurd ‹_› hkind
    · exact congrArg List.head? String.toList_ofList
  | number cs =>
    obtain rfl := Option.some.inj h
    exact congrArg List.head? String.toList_ofList
  | punctuator m | string us =>
    obtain rfl := Option.some.inj h
    rfl
  | blank | comment | unclosed | stray => cases h

theorem Segment.head?_text_next (c : Char) (cs : List Char) :
    (next c cs).1.text.head? = some c := by
  obtain ⟨d, ds, htext⟩ := List.exists_cons_of_ne_nil (text_ne_nil_next c cs)
  have happend := text_next c cs
  rw [htext] at happend ⊢
  exact congrArg some (List.cons.inj happend).1

/-- **A segment is the first one of what stands behind a part of the text.** -/
theorem exists_next_of_mem_locate {before cs : List Char} {p : Position}
    {g : Segment}
    (h : (p, g) ∈ locate (Position.start.after before) (segments cs)) :
    ∃ front c rest, cs = front ++ c :: rest
      ∧ p = Position.start.after (before ++ front)
      ∧ g = (Segment.next c rest).1 := by
  fun_induction segments cs generalizing before with
  | case1 => cases h
  | case2 c cs ih =>
    rcases List.mem_cons.1 h with hhead | htail
    · obtain ⟨rfl, rfl⟩ := Prod.mk.inj hhead
      exact ⟨[], c, cs, rfl, by rw [List.append_nil], rfl⟩
    · rw [← Position.after_append] at htail
      obtain ⟨front, d, rest, hrest, hp, hg⟩ := ih htail
      refine ⟨(Segment.next c cs).1.text ++ front, d, rest, ?_, ?_, hg⟩
      · rw [List.append_assoc, ← hrest, Segment.text_next]
      · rw [hp, List.append_assoc]

/-- An error of units stands behind a backslash. -/
theorem exists_escape_of_mem_unitErrors {file : String} {p : Position}
    {us : List StringUnit} {e : LexicalError} (h : e ∈ unitErrors file p us) :
    ∃ front c back, us.flatMap StringUnit.text = front ++ '\\' :: c :: back
      ∧ e.span = Span.ofPosition file (p.after (front ++ ['\\'])) := by
  fun_induction unitErrors file p us with
  | case1 => cases h
  | case2 p c us ih =>
    obtain ⟨front, d, back, htext, hspan⟩ := ih h
    exact ⟨c :: front, d, back, congrArg (c :: ·) htext, hspan⟩
  | case3 p c us q d hd ih =>
    obtain ⟨front, d, back, htext, hspan⟩ := ih h
    exact ⟨'\\' :: c :: front, d, back, congrArg ('\\' :: c :: ·) htext, hspan⟩
  | case4 p c us q hd ih =>
    rcases List.mem_cons.1 h with rfl | h
    · exact ⟨[], c, us.flatMap StringUnit.text, rfl, rfl⟩
    · obtain ⟨front, d, back, htext, hspan⟩ := ih h
      exact ⟨'\\' :: c :: front, d, back, congrArg ('\\' :: c :: ·) htext, hspan⟩

/-- **An error of a segment** stands where the segment begins, or behind a backslash
in it. -/
theorem Segment.span_of_mem_errors {file : String} {p : Position} {g : Segment}
    {e : LexicalError} (h : e ∈ g.errors file p) :
    (e.span = Span.ofPosition file p ∧ g.kind ≠ .blank)
      ∨ ∃ front c back, g.text = front ++ '\\' :: c :: back
        ∧ e.span = Span.ofPosition file (p.after (front ++ ['\\'])) := by
  have hunits {us : List StringUnit} (h : e ∈ unitErrors file (p.step '"') us)
      (ending : List Char) :
      ∃ front c back,
        '"' :: (us.flatMap StringUnit.text ++ ending) = front ++ '\\' :: c :: back
        ∧ e.span = Span.ofPosition file (p.after (front ++ ['\\'])) := by
    obtain ⟨front, c, back, htext, hspan⟩ := exists_escape_of_mem_unitErrors h
    refine ⟨'"' :: front, c, back ++ ending, ?_, hspan⟩
    rw [htext, List.append_assoc]
    rfl
  cases g with
  | blank | comment | word | number | punctuator => cases h
  | stray c =>
    rw [List.mem_singleton.1 h]
    exact .inl ⟨rfl, nofun⟩
  | string us => exact .inr (hunits h _)
  | unclosed us dangling =>
    rcases List.mem_append.1 h with h | h
    · exact .inr (hunits h _)
    · rw [List.mem_singleton.1 h]
      exact .inl ⟨rfl, nofun⟩

section Cuts

variable {source : SourceText}

theorem SourceText.cutAt_of_not_isBlank {before rest : List Char} {c : Char}
    (h : source.text.toList = before ++ c :: rest) (hc : isBlank c ≠ true) :
    source.CutAt (Span.ofPosition source.name (Position.start.after before))
      before (c :: rest) := by
  refine ⟨h, (SourceText.place_append h).symm, fun _ heq => hc ?_⟩
  rw [Option.some.inj heq]
  rfl

/-- Every segment of a text is the first one of what is behind some part of
it. -/
theorem exists_next_of_mem_segments {p : Position} {g : Segment}
    (h : (p, g) ∈ source.segments) :
    ∃ before c rest, source.text.toList = before ++ c :: rest
      ∧ p = Position.start.after before ∧ g = (Segment.next c rest).1 :=
  @exists_next_of_mem_locate [] _ _ _ h

/-- **The text is cut at each of its tokens**, in front of the character that
the token begins with. That character is no blank, so the cut is not inside a
line end. -/
theorem exists_cutAt_of_mem_tokens {t : Token} (h : t ∈ source.scan.tokens) :
    ∃ before rest, source.CutAt t.span before rest
      ∧ (t.isEnd = false → ∃ c, t.opening? = some c ∧ rest.head? = some c
        ∧ isBlank c ≠ true) := by
  rcases mem_scan_tokens h with ⟨p, g, hg, ht⟩ | rfl
  · obtain ⟨before, c, rest, htext, rfl, rfl⟩ := exists_next_of_mem_segments hg
    have hblank : isBlank c ≠ true := by
      intro hblank
      rw [Segment.next_blank hblank] at ht
      cases ht
    have hopening : t.opening? = some c := by
      rw [Segment.opening?_of_token? ht, Segment.head?_text_next]
    rw [Segment.span_of_token? ht]
    exact ⟨before, c :: rest, SourceText.cutAt_of_not_isBlank htext hblank,
      fun _ => ⟨c, hopening, rfl, hblank⟩⟩
  · refine ⟨source.text.toList, [], ⟨?_, source.place_length.symm, nofun⟩, nofun⟩
    rw [List.append_nil]

/-- **The text is cut at each of its lexical faults.** The cut of an unknown
escape is behind its backslash, which is why it cannot be inside a line end
either. -/
theorem exists_cutAt_of_mem_errors {e : LexicalError}
    (h : e ∈ source.scan.errors) :
    ∃ before rest, source.CutAt e.span before rest := by
  obtain ⟨⟨p, g⟩, hg, he⟩ := List.mem_flatMap.1 h
  obtain ⟨before, c, rest, htext, rfl, rfl⟩ := exists_next_of_mem_segments hg
  rcases Segment.span_of_mem_errors he with ⟨hspan, hkind⟩ | ⟨front, d, back, hg, hspan⟩
  · have hblank : isBlank c ≠ true := by
      intro hblank
      rw [Segment.next_blank hblank] at hkind
      exact hkind rfl
    rw [hspan]
    exact ⟨_, _, SourceText.cutAt_of_not_isBlank htext hblank⟩
  · -- The cut behind a backslash may be in front of a line feed.
    have hcut : source.text.toList
        = (before ++ (front ++ ['\\']))
          ++ d :: (back ++ (Segment.next c rest).2) := by
      rw [htext, ← Segment.text_next c rest, hg]
      simp
    refine ⟨_, _, hcut, ?_, fun hreturn => ?_⟩
    · rw [hspan, SourceText.place_append hcut, ← Position.after_append]
    · simp at hreturn

end Cuts

/-! ## The rendering

Only the form without colours is looked at. -/

/-- What a rendering begins with, and all of it if no line is quoted. -/
def Diagnostic.header (d : Diagnostic) : String :=
  d.severity.text ++ ": " ++ d.text ++ "\n"

/-- What stands in front of the quoted line: its number and a bar. -/
def Diagnostic.gutter (d : Diagnostic) : String :=
  toString d.span.line ++ " | "

/-- The line under the quoted one, with the caret at its end. -/
def Diagnostic.caretLine (d : Diagnostic) : String :=
  Printer.blanks (toString d.span.line).length ++ " | "
    ++ Printer.blanks (d.span.column - 1) ++ "^"

section Rendering

variable {p : Printer} {d : Diagnostic} {source : SourceText}

/-- Without colours nothing is put around a text. -/
theorem Printer.paint_eq (h : p.settings.color = false) (s : Style)
    (text : String) : p.paint s text = text := by
  rw [paint, h, Bool.false_and, Style.paint_false]

/-- **A rendering without colours** is the header, and behind it the quoted line
and the caret, if there is a line to quote. -/
theorem Printer.render_eq (h : p.settings.color = false) :
    p.render d = match p.quotedLine? d.span with
      | some line => d.header ++ (d.gutter ++ line) ++ "\n" ++ d.caretLine ++ "\n"
      | none => d.header := by
  unfold render context
  simp only [paint_eq h]
  cases p.quotedLine? d.span with
  | none => simp [Diagnostic.header]
  | some line =>
    rw [← String.toList_inj]
    simp [Diagnostic.header, Diagnostic.gutter, Diagnostic.caretLine]

theorem Printer.quotedLine?_eq (hsource : p.source = some source)
    (hcontext : p.settings.sourceContext = true) {span : Span}
    (hspan : span.LiesIn source.name) :
    p.quotedLine? span = source.line? span.line := by
  simp [quotedLine?, hsource, hcontext, hspan.1, hspan.2]

theorem Diagnostic.newline_not_mem_gutter : '\n' ∉ d.gutter.toList := by
  have hdigits : '\n' ∉ Nat.toDigits 10 d.span.line := by
    intro h
    cases Nat.isDigit_of_mem_toDigits (by decide) (by decide) h
  simp [gutter, hdigits]

/-- In front of the caret there are blanks and a bar. -/
theorem Diagnostic.exists_toList_caretLine (d : Diagnostic) :
    ∃ front, d.caretLine.toList = front ++ ['^'] ∧ (∀ c ∈ front, c ∈ [' ', '|'])
      ∧ front.length = d.gutter.length + (d.span.column - 1) := by
  refine ⟨(Printer.blanks (toString d.span.line).length ++ " | "
    ++ Printer.blanks (d.span.column - 1)).toList, ?_, ?_, ?_⟩
  · rw [caretLine, String.toList_append]
    rfl
  · simp [Printer.blanks]
  · simp only [Printer.blanks, gutter, String.length_append, String.length_toList,
      String.length_ofList, List.length_replicate]

theorem Diagnostic.newline_not_mem_caretLine : '\n' ∉ d.caretLine.toList := by
  obtain ⟨front, hcaret, hfront, -⟩ := d.exists_toList_caretLine
  rw [hcaret]
  intro h
  rcases List.mem_append.1 h with h | h
  · simpa using hfront _ h
  · simp at h

/-- **The only caret** is under the column of the diagnostic. The characters in
front of it are blanks and a bar. -/
theorem Diagnostic.caretLine_eq_caret_iff (i : Nat) :
    d.caretLine.toList[i]? = some '^'
      ↔ i = d.gutter.length + (d.span.column - 1) := by
  obtain ⟨front, hcaret, hfront, hlength⟩ := d.exists_toList_caretLine
  have hmem : '^' ∉ front := fun h => by simpa using hfront _ h
  rw [hcaret, ← hlength]
  constructor
  · intro h
    by_cases hi : i < front.length
    · rw [List.getElem?_append_left hi] at h
      exact absurd (List.mem_of_getElem? h) hmem
    · obtain ⟨hlt, -⟩ := List.getElem?_eq_some_iff.1 h
      rw [List.length_append, List.length_singleton] at hlt
      omega
  · rintro rfl
    exact List.getElem?_concat_length

end Rendering

/-! ## Diagnostics of a run

Lexical faults have a cut by the segment they come from, all others by the token
they point at. -/

section Runs

variable {source : SourceText} {rounds : Nat} {env : Env} {d : Diagnostic}

/-- A diagnostic of a run is that of a lexical fault, or points at a token. -/
theorem mem_diagnostics_run (h : d ∈ (source.run rounds env).diagnostics) :
    (∃ e ∈ source.scan.errors, d = e.diagnostic)
      ∨ ∃ t ∈ source.scan.tokens, d.PointsAt t := by
  rw [source.diagnostics_run, List.append_assoc] at h
  rcases List.mem_append.1 h with h | h
  · obtain ⟨e, he, rfl⟩ := List.mem_map.1 h
    exact .inl ⟨e, he, rfl⟩
  right
  rcases List.mem_append.1 h with h | h
  · obtain ⟨e, he, rfl⟩ := List.mem_map.1 h
    exact ((like_parse_scan source).2 e he).pointsAt
  · unfold haltDiagnostics at h
    split at h
    · rename_i e he
      rw [List.mem_singleton.1 h]
      exact (founded_execAll source rounds (source.start env) _ he).pointsAt
    · cases h

/-- **The text is cut at each diagnostic of a run.** -/
theorem exists_cutAt_of_mem_diagnostics
    (h : d ∈ (source.run rounds env).diagnostics) :
    ∃ before rest, source.CutAt d.span before rest := by
  rcases mem_diagnostics_run h with ⟨e, he, rfl⟩ | ⟨t, ht, hpoints⟩
  · exact exists_cutAt_of_mem_errors he
  · obtain ⟨before, rest, hcut, -⟩ := exists_cutAt_of_mem_tokens ht
    exact ⟨before, rest, hpoints.span_eq ▸ hcut⟩

/-- There is nothing to report about an empty text. -/
theorem diagnostics_run_of_nil (h : source.text.toList = []) :
    (source.run rounds env).diagnostics = [] := by
  have hscan : source.scan
      = ⟨[Token.endOfFile (source.spanAt source.finish)], []⟩ := by
    unfold SourceText.scan SourceText.segments
    rw [h, segments_nil]
    rfl
  have hparse (span : Span) : parse [Token.endOfFile span] = ⟨[], []⟩ := by
    unfold parse
    rw [ofTokens_end rfl, program_nil]
  rw [source.diagnostics_run, hscan, hparse, Stmt.execAll_nil]
  rfl

end Runs

/-- **The caret stands under the character that is reported.** A diagnostic of a
run tells of a lexical fault or points at a token. If its line is in the text, its
column is one of the line or the one behind it. The rendering then ends with the
quoted line and a line with a single caret, as far to the right as the column is
in the quoted line; and if the diagnostic has the place of a token, the character
in this column is the first one of the token. If its line is not in the text, it is
at the end of a text that ends with a line feed, and only the header is shown. -/
theorem caret_under_column (source : SourceText) (rounds : Nat) (env : Env)
    {p : Printer} (hsource : p.source = some source)
    (hcontext : p.settings.sourceContext = true)
    (hcolor : p.settings.color = false) :
    ∀ d ∈ (source.run rounds env).diagnostics,
      (d.kind = .lexical ∨ ∃ t ∈ source.scan.tokens, d.PointsAt t)
      ∧ (∀ line, source.line? d.span.line = some line →
          (1 ≤ d.span.column ∧ d.span.column ≤ line.length + 1)
          ∧ (∃ caret : String,
              p.render d
                = d.header ++ (d.gutter ++ line) ++ "\n" ++ caret ++ "\n"
              ∧ '\n' ∉ (d.gutter ++ line).toList ∧ '\n' ∉ caret.toList
              ∧ ∀ i, caret.toList[i]? = some '^'
                ↔ i = d.gutter.length + (d.span.column - 1))
          ∧ ∀ t ∈ source.scan.tokens, d.span = t.span → t.isEnd = false →
              ∃ c, t.opening? = some c
                ∧ line.toList[d.span.column - 1]? = some c)
      ∧ (source.line? d.span.line = none →
          d.span = source.spanAt source.finish
          ∧ source.text.toList.getLast? = some '\n'
          ∧ p.render d = d.header) := by
  intro d hd
  obtain ⟨before, rest, hcut⟩ := exists_cutAt_of_mem_diagnostics hd
  have hrender := Printer.render_eq hcolor (d := d)
  rw [Printer.quotedLine?_eq hsource hcontext hcut.liesIn] at hrender
  refine ⟨?_, fun line hline => ⟨hcut.column_le hline, ?_, ?_⟩, fun hline => ?_⟩
  · exact (mem_diagnostics_run hd).imp_left fun ⟨e, _, he⟩ => he ▸ rfl
  · rw [hline] at hrender
    refine ⟨d.caretLine, hrender, ?_, d.newline_not_mem_caretLine,
      d.caretLine_eq_caret_iff⟩
    rw [String.toList_append, List.mem_append, not_or]
    exact ⟨d.newline_not_mem_gutter, hcut.newline_not_mem_line hline⟩
  · intro t ht hspan hend
    obtain ⟨before, rest, hcut, hopening⟩ := exists_cutAt_of_mem_tokens ht
    obtain ⟨c, hc, hhead, hblank⟩ := hopening hend
    rw [← hspan] at hcut
    exact ⟨c, hc, hcut.getElem?_line hline hhead hblank⟩
  · rw [hline] at hrender
    obtain ⟨hspan, hnil | hlast⟩ := hcut.of_line?_eq_none hline
    · -- An empty text has no lines either, but nothing is wrong with it.
      rw [diagnostics_run_of_nil hnil] at hd
      cases hd
    · exact ⟨hspan, hlast, hrender⟩

/-- A string with an escaped line end, a sum that its operands do not fit, and a
statement that lacks its expression. -/
def brokenSum : SourceText := ⟨"sum", "\"\\\r\n\" + nil;\nprint\n"⟩

/-- The return in front of the line feed is not part of the first line. -/
theorem lines_brokenSum :
    brokenSum.lines = ["\"\\", "\" + nil;", "print"] := by
  have htext : brokenSum.text.toList = ['"', '\\', '\r'] ++ '\n'
      :: ("\" + nil;".toList ++ '\n' :: ("print".toList ++ ['\n'])) := rfl
  rw [SourceText.lines, htext, SourceText.linesOf_newline (by decide),
    SourceText.linesOf_newline (by decide), SourceText.linesOf_newline (by decide),
    SourceText.linesOf_nil]
  rfl

/-- A printer for this text that does not use colours. -/
def plainPrinter : Printer :=
  { settings := { color := false }, colourful := true, source := some brokenSum }

/-- The caret of the sum stands under its operator. The expression is missed behind
the last line, so there is nothing to quote. -/
theorem caret_under_column_brokenSum :
    let sum := RuntimeError.diagnostic ⟨⟨"sum", 2, 3⟩,
      .typeMismatch "+" "two numbers or two strings" .text .nil⟩
    let missing := ParseError.diagnostic
      (.expectedExpression (.endOfFile ⟨"sum", 4, 1⟩))
    sum ∈ (brokenSum.run 0 {}).diagnostics
      ∧ missing ∈ (brokenSum.run 0 {}).diagnostics
      ∧ brokenSum.line? 2 = some "\" + nil;" ∧ brokenSum.line? 4 = none
      ∧ (∃ caret : String,
          plainPrinter.render sum
            = sum.header ++ (sum.gutter ++ "\" + nil;") ++ "\n" ++ caret ++ "\n"
          ∧ '\n' ∉ (sum.gutter ++ "\" + nil;").toList ∧ '\n' ∉ caret.toList
          ∧ ∀ i, caret.toList[i]? = some '^' ↔ i = sum.gutter.length + 2)
      ∧ plainPrinter.render missing = missing.header := by
  intro sum missing
  have hparse : parse brokenSum.scan.tokens
      = ⟨[.expression ⟨"sum", 1, 1⟩ (.binary ⟨⟨"sum", 2, 3⟩, .add⟩
            (.literal ⟨.string, "\\\r\n", ⟨"sum", 1, 1⟩⟩)
            (.literal ⟨.keyword .nilKw, "nil", ⟨"sum", 2, 5⟩⟩))],
          [.expectedExpression (.endOfFile ⟨"sum", 4, 1⟩)]⟩ := by
    cbv
  have hsum : sum ∈ (brokenSum.run 0 {}).diagnostics := by
    rw [SourceText.diagnostics_run, hparse]
    exact List.mem_append_right _ (List.mem_singleton_self sum)
  have hmissing : missing ∈ (brokenSum.run 0 {}).diagnostics := by
    rw [SourceText.diagnostics_run, hparse]
    exact List.mem_append_left _
      (List.mem_append_right _ (List.mem_singleton_self missing))
  have hquoted : brokenSum.line? 2 = some "\" + nil;" :=
    congrArg (·[1]?) lines_brokenSum
  have hnone : brokenSum.line? 4 = none := congrArg (·[3]?) lines_brokenSum
  have hcaret (d : Diagnostic) := caret_under_column brokenSum 0 {}
    (p := plainPrinter) rfl rfl rfl d
  obtain ⟨-, hcaretLine, -⟩ := (hcaret sum hsum).2.1 _ hquoted
  exact ⟨hsum, hmissing, hquoted, hnone, hcaretLine,
    ((hcaret missing hmissing).2.2 hnone).2.2⟩

end TreeScript
