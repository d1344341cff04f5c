import TreeScript.Proofs.Token.Place

/-!
# Texts joined at a line break

Two texts with a line feed between them are scanned as if each stood alone, if no
string of the first is left open (`scan_joined`). The line feed is a blank of its
own, or it ends a comment that goes up to the end of the first text
(`segments_newline`); neither yields anything. The tokens and errors of the second
text only move down, by the lines of the first (`locate_down`).

The statement about the seam is made for anything that segments yield, of which
tokens and errors are two cases: a function from located segments to lists that
gives nothing for blanks and comments (`flatMap_joined`). What moves down is
treated in the same way, by one lemma for each layer from positions to segments.
-/

namespace TreeScript

/-! ## Segments around the line feed

The line feed is not part of the first text, but it may become part of the last
segment of it. -/

/-- **The segments of a text with a line feed behind it.** The line feed is a
segment of its own or ends a comment, and then the segments of what follows
come. -/
theorem segments_newline {cs : List Char}
    (hclosed : ∀ us dangling, .unclosed us dangling ∉ segments cs) :
    (∀ ds, segments (cs ++ '\n' :: ds)
        = segments cs ++ .blank '\n' :: segments ds)
      ∨ ∃ front body, segments cs = front ++ [.comment body]
        ∧ ∀ ds, segments (cs ++ '\n' :: ds)
          = front ++ .comment (body ++ ['\n']) :: segments ds := by
  fun_induction segments cs with
  | case1 =>
    refine .inl fun ds => ?_
    rw [List.nil_append, segments_cons]
    rfl
  | case2 c cs ih =>
    simp only [List.cons_append, segments_cons c]
    rcases Segment.next_newline c cs with hsame | ⟨body, hcs, hcomment⟩ | ⟨hopen, -⟩
    · have hrest := ih fun us dangling hmem =>
        hclosed us dangling (List.mem_cons_of_mem _ hmem)
      simp only [hsame]
      rcases hrest with hrest | ⟨front, body, hfront, hrest⟩
      · exact .inl fun ds => congrArg (_ :: ·) (hrest ds)
      · refine .inr ⟨(Segment.next c cs).1 :: front, body, ?_, fun ds => ?_⟩
        · rw [hfront, List.cons_append]
        · rw [hrest, List.cons_append]
    · -- The comment goes up to the end of the text, so it is the last segment.
      refine .inr ⟨[], body, ?_, fun ds => ?_⟩
      · rw [hcs, segments_nil, List.nil_append]
      · rw [hcomment, List.nil_append]
    · obtain ⟨us, dangling, hunclosed⟩ := Segment.exists_unclosed_of_kind hopen
      exact absurd (hunclosed ▸ List.mem_cons_self ..) (hclosed us dangling)

/-- The second list of segments begins where the first one ends. -/
theorem locate_append (p : Position) (gs hs : List Segment) :
    locate p (gs ++ hs)
      = locate p gs ++ locate (p.after (gs.flatMap Segment.text)) hs := by
  induction gs generalizing p with
  | nil => rfl
  | cons g gs ih =>
    rw [List.cons_append, locate, ih, locate, List.flatMap_cons,
      Position.after_append, List.cons_append]

section Yield

variable {α : Type} {cs : List Char} {f : Position × Segment → List α}

/-- **What segments yield** is not changed by a line feed between texts, if
blanks and comments yield nothing. The line feed is a blank of its own, or it
makes the comment in front of it longer by one character; in both cases nothing
is yielded. -/
theorem flatMap_locate_newline (hblank : ∀ p c, f (p, .blank c) = [])
    (hcomment : ∀ p body, f (p, .comment body) = [])
    (hclosed : ∀ us dangling, .unclosed us dangling ∉ segments cs)
    (p : Position) (ds : List Char) :
    (locate p (segments (cs ++ '\n' :: ds))).flatMap f
      = (locate p (segments cs)).flatMap f
        ++ (locate (p.after (cs ++ ['\n'])) (segments ds)).flatMap f := by
  have htext := flatMap_text_segments cs
  rcases segments_newline hclosed with hsegments | ⟨front, body, hcs, hsegments⟩
  · rw [hsegments, locate_append, locate, List.flatMap_append, List.flatMap_cons,
      hblank, List.nil_append, htext, Position.after_append]
    rfl
  · rw [hcs, List.flatMap_append] at htext
    rw [hsegments, hcs, locate_append, locate_append, ← htext]
    simp only [locate, List.flatMap_append, List.flatMap_cons, hcomment,
      List.flatMap_nil, List.nil_append, List.append_nil, Position.after_append,
      Segment.text, Position.after_cons]

end Yield

/-! ## Moving down

Columns stay, since the second text begins behind a line feed. -/

section Down

variable {n : Nat}

/-- The position `n` lines further down, in the same column. -/
def Position.down (n : Nat) (p : Position) : Position :=
  { p with line := p.line + n }

/-- The place `n` lines further down, in the same column. -/
def Span.down (n : Nat) (s : Span) : Span := { s with line := s.line + n }

/-- The token `n` lines further down. -/
def Token.down (n : Nat) (t : Token) : Token := { t with span := t.span.down n }

/-- The error `n` lines further down. -/
def LexicalError.down (n : Nat) (e : LexicalError) : LexicalError :=
  { e with span := e.span.down n }

namespace Position

theorem down_step (p : Position) (c : Char) :
    (p.down n).step c = (p.step c).down n := by
  unfold step down
  split
  · rw [Nat.add_right_comm]
  · rfl

theorem down_after (p : Position) (cs : List Char) :
    (p.down n).after cs = (p.after cs).down n := by
  induction cs generalizing p with
  | nil => rfl
  | cons c cs ih => rw [after_cons, after_cons, down_step, ih]

/-- Behind a line feed, all that is left of a text is how many lines it has. -/
theorem start_after_newline (cs : List Char) :
    start.after (cs ++ ['\n']) = start.down (1 + cs.count '\n') := by
  rw [after_append, start_after]
  exact congrArg (Position.mk · 1) (Nat.add_comm _ 1)

end Position

/-- The warnings of a string that stands further down. -/
theorem unitErrors_down (file : String) (p : Position) (us : List StringUnit) :
    unitErrors file (p.down n) us
      = (unitErrors file p us).map (LexicalError.down n) := by
  fun_induction unitErrors file p us with
  | case1 => rfl
  | case2 p c us ih => rw [unitErrors, Position.down_step, ih]
  | case3 p c us q d hd ih =>
    rw [unitErrors, hd]
    dsimp only
    rw [Position.down_step, Position.down_step, ih]
  | case4 p c us q hd ih =>
    rw [unitErrors, hd]
    dsimp only
    rw [Position.down_step, Position.down_step, ih]
    rfl

theorem Segment.token?_down (file : String) (p : Position) (g : Segment) :
    g.token? file (p.down n) = (g.token? file p).map (Token.down n) := by
  cases g <;> rfl

/-- The errors of a segment that stands further down. -/
theorem Segment.errors_down (file : String) (p : Position) (g : Segment) :
    g.errors file (p.down n)
      = (g.errors file p).map (LexicalError.down n) := by
  cases g with
  | blank | comment | word | number | punctuator | stray => rfl
  | string us => rw [errors, errors, Position.down_step, unitErrors_down]
  | unclosed us dangling =>
    rw [errors, errors, Position.down_step, unitErrors_down, List.map_append]
    rfl

/-- **The segments of a text that begins further down** are further down. Only
the positions depend on where the text begins, not how it is cut. -/
theorem locate_down (p : Position) (gs : List Segment) :
    locate (p.down n) gs = (locate p gs).map fun (q, g) => (q.down n, g) := by
  induction gs generalizing p with
  | nil => rfl
  | cons g gs ih => rw [locate, locate, Position.down_after, ih, List.map_cons]

end Down

/-! ## Scanning texts that are joined

The two parts put together, for what segments yield in general and then for
tokens and errors. -/

section Joined

variable {source : SourceText} {α : Type} {cs : List Char}
  {f : Position × Segment → List α} {move : Nat → α → α}

/-- **What joined texts yield**: what the first yields, and what the second
yields further down. What is yielded may depend on the position, as tokens and
errors do, so the second part is that of segments further down. -/
theorem flatMap_joined (hblank : ∀ p c, f (p, .blank c) = [])
    (hcomment : ∀ p body, f (p, .comment body) = [])
    (hdown : ∀ n p g, f (p.down n, g) = (f (p, g)).map (move n))
    (hclosed : ∀ us dangling, .unclosed us dangling ∉ segments cs)
    (ds : List Char) :
    (locate .start (segments (cs ++ '\n' :: ds))).flatMap f
      = (locate .start (segments cs)).flatMap f
        ++ ((locate .start (segments ds)).flatMap f).map
          (move (1 + cs.count '\n')) := by
  rw [flatMap_locate_newline hblank hcomment hclosed, Position.start_after_newline,
    locate_down, List.flatMap_map, List.map_flatMap]
  simp only [hdown]

/-- A text without errors on open strings has none. -/
theorem unclosed_not_mem_segments
    (h : ∀ e ∈ source.scan.errors, e.fault ≠ .unterminatedString)
    (us : List StringUnit) (dangling : Bool) :
    .unclosed us dangling ∉ segments source.text.toList := by
  intro hmem
  rw [← map_snd_locate .start (segments source.text.toList)] at hmem
  obtain ⟨⟨p, g⟩, hg, rfl⟩ := List.mem_map.1 hmem
  refine h ⟨Span.ofPosition source.name p, .unterminatedString⟩ ?_ rfl
  exact List.mem_flatMap.2
    ⟨_, hg, List.mem_append_right _ (List.mem_singleton_self _)⟩

/-- The tokens in front of the end, as what the segments yield. -/
theorem SourceText.front_eq_flatMap (s : SourceText) :
    s.front = s.segments.flatMap fun (p, g) => (g.token? s.name p).toList :=
  List.filterMap_eq_flatMap_toList _ _

end Joined

/-- **Scanning is compositional at line breaks.** If no string of a text is left
open, then the text scans to the same tokens and errors with a line feed and any
other text behind it: first come its own, without the end of the text, then those
of the second text with its end, moved down by the lines of the first. -/
theorem scan_joined (name first second : String)
    (h : ∀ e ∈ (SourceText.mk name first).scan.errors,
      e.fault ≠ .unterminatedString) :
    let scanned (text : String) : Scan := (SourceText.mk name text).scan
    let shift := 1 + first.toList.count '\n'
    (∃ tokens last, (scanned first).tokens = tokens ++ [last]
        ∧ last.isEnd = true ∧ (∀ t ∈ tokens, t.isEnd = false)
        ∧ (scanned (first ++ "\n" ++ second)).tokens
          = tokens ++ (scanned second).tokens.map (Token.down shift))
      ∧ (scanned (first ++ "\n" ++ second)).errors
        = (scanned first).errors
          ++ (scanned second).errors.map (LexicalError.down shift) := by
  intro scanned shift
  have hclosed := unclosed_not_mem_segments h
  have htext : (first ++ "\n" ++ second).toList
      = first.toList ++ '\n' :: second.toList := by
    simp
  have hfront : (SourceText.mk name (first ++ "\n" ++ second)).front
      = (SourceText.mk name first).front
        ++ (SourceText.mk name second).front.map (Token.down shift) := by
    simp only [SourceText.front_eq_flatMap, SourceText.segments, htext]
    refine flatMap_joined (fun _ _ => rfl) (fun _ _ => rfl) (fun n p g => ?_)
      hclosed _
    rw [Segment.token?_down, Option.toList_map]
  have hfinish : Position.start.after (first ++ "\n" ++ second).toList
      = (Position.start.after second.toList).down shift := by
    rw [htext, ← Position.down_after, ← Position.start_after_newline,
      ← Position.after_append, List.append_assoc]
    rfl
  refine ⟨⟨_, _, SourceText.tokens_eq _, rfl, SourceText.isEnd_front _, ?_⟩, ?_⟩
  · simp only [scanned, SourceText.tokens_eq, SourceText.finish, hfront, hfinish,
      List.map_append, List.append_assoc]
    rfl
  · simp only [scanned, SourceText.scan, SourceText.segments, htext]
    exact flatMap_joined (fun _ _ => rfl) (fun _ _ => rfl)
      (fun n p g => g.errors_down name p) hclosed _

/-- A string over two lines with an unknown escape, and a number with a dot behind
it that no digit follows. -/
def halfFraction : SourceText := ⟨"half", "\"\\q\n\" 12."⟩

/-- The digit behind the line feed does not become a fraction, and the character
that begins no token is two lines further down. -/
theorem scan_joined_halfFraction :
    (∀ e ∈ halfFraction.scan.errors, e.fault ≠ .unterminatedString)
      ∧ (SourceText.mk "half" (halfFraction.text ++ "\n" ++ "5 @")).scan
        = ⟨[⟨.string, "\\q\n", ⟨"half", 1, 1⟩⟩,
              ⟨.number, "12", ⟨"half", 2, 3⟩⟩,
              ⟨.punctuator .period, ".", ⟨"half", 2, 5⟩⟩,
              ⟨.number, "5", ⟨"half", 3, 1⟩⟩,
              Token.endOfFile ⟨"half", 3, 4⟩],
            [⟨⟨"half", 1, 3⟩, .invalidEscape 'q'⟩,
              ⟨⟨"half", 3, 3⟩, .unexpectedCharacter '@'⟩]⟩ := by
  have herrors : halfFraction.scan.errors
      = [⟨⟨"half", 1, 3⟩, .invalidEscape 'q'⟩] := by
    cbv
  have htokens : halfFraction.scan.tokens
      = [⟨.string, "\\q\n", ⟨"half", 1, 1⟩⟩, ⟨.number, "12", ⟨"half", 2, 3⟩⟩,
          ⟨.punctuator .period, ".", ⟨"half", 2, 5⟩⟩]
        ++ [Token.endOfFile ⟨"half", 2, 6⟩] := by
    cbv
  have hclosed : ∀ e ∈ halfFraction.scan.errors,
      e.fault ≠ .unterminatedString := by
    rw [herrors]
    decide
  obtain ⟨⟨tokens, last, hfirst, -, -, hjoined⟩, hfaults⟩ :=
    scan_joined "half" halfFraction.text "5 @" hclosed
  obtain ⟨rfl, -⟩ := List.append_inj' (htokens.symm.trans hfirst) rfl
  exact ⟨hclosed, congrArg₂ Scan.mk (hjoined.trans (by cbv)) (hfaults.trans (by cbv))⟩

end TreeScript
