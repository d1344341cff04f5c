import TreeScript.Proofs.Token.Place

/-!
# Strings in a scan

A lexer reads a text in **rounds**, one segment in each (`Lexer.round`), and a call
for the next token makes rounds until one gives a token (`Lexer.next_of_some`,
`Lexer.next_of_none`). A quote that stands ahead after some rounds stands outside
of strings and comments, since a round reads these as a whole.

What the next round does in front of a quote depends on the text behind it only. If
that begins with a literal and a closing quote, the round gives the string that the
literal stands for; if not, it reads all that is left (`next_string`).

Speaking of rounds makes it possible to say what is ahead at a quote, and
whether a quote is one that opens a string: inside of strings and comments no
round begins. The lexer itself only has calls; that a call is a number of rounds
is the first part of the module.
-/

namespace TreeScript

namespace Lexer

/-! ## Rounds

The segments ahead are those that cutting has found, and a round takes the
first. -/

/-- **The text that was not read.** -/
def ahead (l : Lexer) : List Char := l.pending.flatMap fun (_, g) => g.text

/-- **The tokens that are still to come**, with the end of the text behind
them. -/
def upcoming (l : Lexer) : List Token :=
  (l.pending.filterMap fun (p, g) => g.token? l.file p)
    ++ [Token.endOfFile (Span.ofPosition l.file l.finish)]

/-- **One round**: the first segment ahead is read, and its errors are
recorded. -/
def round (l : Lexer) : Lexer :=
  match l.pending with
  | [] => l
  | (p, g) :: rest =>
    { l with pending := rest, errors := l.errors ++ g.errors l.file p }

variable {l : Lexer} {p : Position} {g : Segment}
  {rest : List (Position × Segment)}

theorem round_of_cons (h : l.pending = (p, g) :: rest) :
    l.round
      = { l with pending := rest, errors := l.errors ++ g.errors l.file p } := by
  rw [round, h]

/-- The token of the segment, if it has one, comes first. -/
theorem upcoming_of_cons (h : l.pending = (p, g) :: rest) :
    l.upcoming = (g.token? l.file p).toList ++ l.round.upcoming := by
  rw [round_of_cons h, upcoming, h, List.filterMap_cons]
  dsimp only
  cases g.token? l.file p with
  | none => rfl
  | some t => rfl

/-- A round that gives a token is the last one of a call. -/
theorem next_of_some {t : Token} (h : l.pending = (p, g) :: rest)
    (ht : g.token? l.file p = some t) : l.next = (some t, l.round) := by
  rw [round_of_cons h, next, h, advance, ht]

/-- After a round that gives no token, the call goes on. -/
theorem next_of_none (h : l.pending = (p, g) :: rest)
    (ht : g.token? l.file p = none) : l.next = l.round.next := by
  have hadvance : advance l.file l.pending
      = (g.errors l.file p ++ (advance l.file rest).1,
        (advance l.file rest).2) := by
    rw [h, advance, ht]
  rw [round_of_cons h, next, next, hadvance]
  obtain ⟨es, _ | ⟨t, rest⟩⟩ := advance l.file rest
  · simp only [List.append_assoc]
  · simp only [List.append_assoc]

/-- The lexer after it has handed out the end of the text. -/
def stopped (l : Lexer) : Lexer := { l with ended := true }

/-- With nothing ahead, a call gives the end of the text. -/
theorem next_of_nil (h : l.pending = []) (hended : l.ended = false) :
    l.next = (some (Token.endOfFile (Span.ofPosition l.file l.finish)),
      l.stopped) := by
  simp [next, stopped, h, hended, advance]

theorem next_stopped (h : l.pending = []) : l.stopped.next.1 = none := by
  simp [next, stopped, h, advance]

/-! ## Where a lexer stands

A lexer between two rounds is determined by the part of the text it has behind
it. -/

/-- **The lexer stands behind `before`** in a text, and `rest` is ahead. Of the
tokens and errors of the text, it has those that are not ahead. This determines
what every further call gives. -/
structure Stands (l : Lexer) (s : SourceText) (before rest : List Char) :
    Prop where
  /-- The text is what was read and what was not. -/
  text : s.text.toList = before ++ rest
  /-- Places carry the name of the text. -/
  file : l.file = s.name
  /-- The end of the text is known. -/
  finish : l.finish = s.finish
  /-- The end of the text was not handed out. -/
  ended : l.ended = false
  /-- The segments of the rest are ahead. -/
  pending : l.pending = locate (Position.start.after before) (segments rest)
  /-- The errors that were met, and those ahead, are all errors. -/
  errors : s.scan.errors
    = l.errors ++ l.pending.flatMap fun (p, g) => g.errors s.name p
  /-- The tokens to come are the last tokens of the text. -/
  tokens : l.upcoming <:+ s.scan.tokens

namespace Stands

variable {s : SourceText} {before after : List Char} {c : Char}

/-- The text ahead is what the segments ahead are cut from. -/
theorem ahead_eq {rest : List Char} (h : l.Stands s before rest) :
    l.ahead = rest := by
  have hmap : l.ahead = (l.pending.map Prod.snd).flatMap Segment.text := by
    rw [List.flatMap_map]
    rfl
  rw [hmap, h.pending, map_snd_locate, flatMap_text_segments]

/-- At the start nothing is behind the lexer. -/
theorem ofSource (s : SourceText) : (ofSource s).Stands s [] s.text.toList where
  text := rfl
  file := rfl
  finish := rfl
  ended := rfl
  pending := rfl
  errors := rfl
  tokens := List.suffix_refl _

/-- The segment that the next round takes, with its position. -/
theorem pending_cons (h : l.Stands s before (c :: after)) :
    l.pending = (Position.start.after before, (Segment.next c after).1)
      :: locate (Position.start.after (before ++ (Segment.next c after).1.text))
        (segments (Segment.next c after).2) := by
  rw [h.pending, segments_cons, locate, Position.after_append]

/-- **A round reads one segment.** -/
theorem round (h : l.Stands s before (c :: after)) :
    l.round.Stands s (before ++ (Segment.next c after).1.text)
      (Segment.next c after).2 := by
  have hpending := h.pending_cons
  have hupcoming : l.round.upcoming <:+ l.upcoming :=
    ⟨_, (upcoming_of_cons hpending).symm⟩
  have htokens := hupcoming.trans h.tokens
  rw [round_of_cons hpending] at htokens ⊢
  refine ⟨?_, h.file, h.finish, h.ended, rfl, ?_, htokens⟩
  · rw [h.text, List.append_assoc, Segment.text_next]
  · rw [h.errors, hpending, List.flatMap_cons, h.file, List.append_assoc]

/-- **After any number of rounds** the lexer stands somewhere in the text.
Behind the last segment a round changes nothing, so that any number of them will
do. -/
theorem exists_of_rounds (s : SourceText) (n : Nat) :
    ∃ before rest, (Lexer.round^[n] (.ofSource s)).Stands s before rest := by
  induction n with
  | zero => exact ⟨_, _, ofSource s⟩
  | succ n ih =>
    rw [Function.iterate_succ_apply']
    obtain ⟨before, rest, h⟩ := ih
    cases rest with
    | nil =>
      have hnil : Lexer.round (Lexer.round^[n] (.ofSource s))
          = Lexer.round^[n] (.ofSource s) := by
        rw [Lexer.round, h.pending, segments_nil]
        rfl
      rw [hnil]
      exact ⟨_, _, h⟩
    | cons c after => exact ⟨_, _, h.round⟩

/-! ## In front of a quote

The two cases, by whether a closing quote is ahead. Both use what is known of
the units behind a quote. -/

/-- **A literal and a closing quote behind it are read as a string.** Whatever
follows the closing quote is not looked at, which is why it may be any text. -/
theorem next_closed (h : l.Stands s before ('"' :: after))
    {body value rest : List Char} {unknown : List (Nat × Char)}
    (hafter : after = body ++ '"' :: rest)
    (hbody : Literal (before.length + 1) body value unknown) :
    l.next = (some ⟨.string, String.ofList value, s.place before.length⟩, l.round)
      ∧ l.upcoming
        = ⟨.string, String.ofList value, s.place before.length⟩
          :: l.round.upcoming
      ∧ l.round.errors = l.errors ++ s.report (invalidEscapes unknown)
      ∧ l.round.ahead = rest := by
  obtain ⟨us, hnext, rfl, rfl, rfl⟩ := hbody.exists_next rest
  subst hafter
  have hround := h.round
  have hpending := h.pending_cons
  have hplace := SourceText.place_append h.text
  have hunits := unitErrors_behind_quote h.text
  rw [hnext] at hround hpending
  have htoken : (Segment.string us).token? l.file (Position.start.after before)
      = some ⟨.string, String.ofList (us.flatMap StringUnit.decoded),
          s.place before.length⟩ := by
    rw [Segment.token?, h.file, hplace]
  refine ⟨next_of_some hpending htoken, ?_, ?_, hround.ahead_eq⟩
  · rw [upcoming_of_cons hpending, htoken]
    rfl
  · rw [round_of_cons hpending, ← hunits, h.file]
    rfl

/-- **Without a closing quote** all that is left is read, and no token is left
but the end of the text. The units in front of the end are whole ones, but for a
backslash at the very end; their warnings are given, and then the error for the
quote. -/
theorem next_open (h : l.Stands s before ('"' :: after))
    (hopen : ∀ body value unknown rest, after = body ++ '"' :: rest →
      ¬ Literal (before.length + 1) body value unknown) :
    ∃ body value unknown tail, after = body ++ tail
      ∧ (tail = [] ∨ tail = ['\\'])
      ∧ Literal (before.length + 1) body value unknown
      ∧ l.next.1 = some (Token.endOfFile (s.place s.text.toList.length))
      ∧ l.upcoming = [Token.endOfFile (s.place s.text.toList.length)]
      ∧ l.next.2.errors
        = l.errors ++ s.report (invalidEscapes unknown
            ++ [(before.length, .unterminatedString)])
      ∧ l.next.2.ahead = []
      ∧ s.scan.errors = l.next.2.errors
      ∧ l.next.2.next.1 = none := by
  obtain ⟨us, dangling, hnext, hproper⟩ := Literal.exists_next_open hopen
  have hround := h.round
  have hpending := h.pending_cons
  have hplace := SourceText.place_append h.text
  rw [hnext] at hround hpending
  have hafter : after = us.flatMap StringUnit.text
      ++ (if dangling then ['\\'] else []) := by
    have htext := Segment.text_next '"' after
    rw [hnext, List.append_nil] at htext
    exact (List.cons.inj htext).2.symm
  have hunits := unitErrors_behind_quote (hafter ▸ h.text)
  -- The round gives no token and leaves nothing, so the call ends the text.
  have hnil : l.round.pending = [] := by
    rw [hround.pending, segments_nil]
    rfl
  have hcall : l.next
      = (some (Token.endOfFile (s.place s.text.toList.length)),
        l.round.stopped) := by
    rw [next_of_none hpending rfl, next_of_nil hnil hround.ended, hround.file,
      hround.finish, s.place_length]
    rfl
  have herrors : l.round.errors = l.errors ++ s.report (invalidEscapes
      (unknownEscapes (before.length + 1) us)
        ++ [(before.length, .unterminatedString)]) := by
    rw [round_of_cons hpending, SourceText.report_append, ← hunits, h.file,
      SourceText.report_cons, hplace]
    rfl
  refine ⟨_, _, _, _, hafter, by cases dangling <;> simp,
    .of_units hproper _, ?_, ?_, ?_, ?_, ?_, ?_⟩
  · rw [hcall]
  · rw [upcoming_of_cons hpending, upcoming, hnil, hround.file, hround.finish,
      s.place_length]
    rfl
  · rw [hcall]
    exact herrors
  · rw [hcall]
    exact hround.ahead_eq
  · rw [hcall, hround.errors, hnil]
    exact List.append_nil _
  · rw [hcall]
    exact next_stopped hnil

end Stands

end Lexer

/-- **String literals decode correctly.** Let a quote stand ahead after any number
of rounds over a text. If a literal and a closing quote stand behind it, the next
token is the string that the literal stands for, at the place of the quote; one
warning is added for each escape that is not known, in order, and the text behind
the closing quote is ahead. If not, there are no tokens left but the end of the
text: the next call gives it and the one after that nothing. The text is read to
its end, the warnings of the whole units are added, and then one error for the
missing quote, which is the last error of the text. -/
theorem next_string (s : SourceText) (n : Nat) {after : List Char}
    (h : (Lexer.round^[n] (.ofSource s)).ahead = '"' :: after) :
    let l := Lexer.round^[n] (.ofSource s)
    ∃ before, s.text.toList = before ++ '"' :: after
      ∧ l.upcoming <:+ s.scan.tokens
      ∧ (∀ body value unknown rest, after = body ++ '"' :: rest →
          Literal (before.length + 1) body value unknown →
          l.next
            = (some ⟨.string, String.ofList value, s.place before.length⟩, l.round)
          ∧ l.upcoming
            = ⟨.string, String.ofList value, s.place before.length⟩
              :: l.round.upcoming
          ∧ l.round.errors = l.errors ++ s.report (invalidEscapes unknown)
          ∧ l.round.ahead = rest)
      ∧ ((∀ body value unknown rest, after = body ++ '"' :: rest →
            ¬ Literal (before.length + 1) body value unknown) →
          ∃ body value unknown tail, after = body ++ tail
            ∧ (tail = [] ∨ tail = ['\\'])
            ∧ Literal (before.length + 1) body value unknown
            ∧ l.next.1 = some (Token.endOfFile (s.place s.text.toList.length))
            ∧ l.upcoming = [Token.endOfFile (s.place s.text.toList.length)]
            ∧ l.next.2.errors
              = l.errors ++ s.report (invalidEscapes unknown
                  ++ [(before.length, .unterminatedString)])
            ∧ l.next.2.ahead = []
            ∧ s.scan.errors = l.next.2.errors
            ∧ l.next.2.next.1 = none) := by
  intro l
  obtain ⟨before, rest, hstands⟩ := Lexer.Stands.exists_of_rounds s n
  obtain rfl : rest = '"' :: after := hstands.ahead_eq.symm.trans h
  exact ⟨before, hstands.text, hstands.tokens,
    fun _ _ _ _ => hstands.next_closed, hstands.next_open⟩

/-- A name, a string with an unknown escape and a known one, and a string that ends
the text in the middle of an escape. -/
def twoQuotes : SourceText := ⟨"quotes", "x \"\\q\\n\" \"y\\"⟩

/-- In front of the first quote there are two rounds. The string behind it has its
known escape decoded, and there is a warning for the other one. -/
theorem next_string_twoQuotes :
    (Lexer.round^[2] (.ofSource twoQuotes)).ahead
        = '"' :: (['\\', 'q', '\\', 'n'] ++ '"' :: [' ', '"', 'y', '\\'])
      ∧ Literal 3 ['\\', 'q', '\\', 'n'] ['\\', 'q', '\n'] [(4, 'q')]
      ∧ (Lexer.round^[2] (.ofSource twoQuotes)).next.1
        = some ⟨.string, "\\q\n", ⟨"quotes", 1, 3⟩⟩
      ∧ (Lexer.round^[2] (.ofSource twoQuotes)).round.errors
        = [⟨⟨"quotes", 1, 5⟩, .invalidEscape 'q'⟩] := by
  have hahead : (Lexer.round^[2] (.ofSource twoQuotes)).ahead
      = '"' :: (['\\', 'q', '\\', 'n'] ++ '"' :: [' ', '"', 'y', '\\']) := by
    cbv
  have hliteral : Literal 3 ['\\', 'q', '\\', 'n'] ['\\', 'q', '\n']
      [(4, 'q')] :=
    .unknown (by rintro d ⟨⟩) (.known .lineFeed .nil)
  obtain ⟨before, htext, -, hclosed, -⟩ := next_string twoQuotes 2 hahead
  obtain rfl : before = ['x', ' '] :=
    List.append_cancel_right (htext.symm.trans (by cbv))
  obtain ⟨hnext, -, herrors, -⟩ := hclosed _ _ _ _ rfl hliteral
  refine ⟨hahead, hliteral, ?_, ?_⟩
  · rw [hnext]
    cbv
  · rw [herrors]
    cbv

end TreeScript
