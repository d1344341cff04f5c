import TreeScript.Proofs.Token.LineBreak
import TreeScript.Proofs.Token.Literal

/-!
# Places by counting

Scanning keeps track of places character by character. Here a place is found by
counting in the text in front of it (`SourceText.place`): the line is one more
than the number of its line feeds, and the column is one more than the number of
its characters behind the last of them.

What has a place in a text has an **anchor**, a character of the text, or its end.
The anchor of a token is the first character of its piece (`offsets`); those of
the faults of a piece are listed by `FaultsOf`. All places that scanning gives are
those of the anchors, by counting (`scan_places`).

Counting is the specification here: it looks at the text alone and knows nothing
of segments. The position that scanning carries along is shown to be the counted
one once (`Position.start_after`), by induction from the end of the text, where
one more character adds to the line or to the column.

Pieces are then located by their anchors instead of positions. That anchors grow
is plain, as each piece has a character; that positions grow with them is a
property of counting.
-/

namespace TreeScript

/-! ## Positions

The order of positions is that of reading: by lines and then by columns. -/

namespace Position

/-- **The position behind a text** is found by counting. The induction adds
characters at the end, where a line feed resets the count of the column. -/
theorem start_after (cs : List Char) :
    start.after cs
      = ⟨1 + cs.count '\n', 1 + (cs.rtakeWhile (· ≠ '\n')).length⟩ := by
  induction cs using List.reverseRecOn with
  | nil => rfl
  | append_singleton cs c ih =>
    rw [after_append, ih, after_cons, after_nil]
    by_cases hc : c = '\n'
    · subst hc
      simp [step, Nat.add_assoc]
    · simp [step, hc, Nat.add_assoc]

/-- The position comes before another one of the same text. -/
def Precedes (p q : Position) : Prop :=
  p.line < q.line ∨ p.line = q.line ∧ p.column < q.column

variable {p q r : Position}

theorem Precedes.trans (h : p.Precedes q) (k : q.Precedes r) :
    p.Precedes r := by
  unfold Precedes at *
  omega

/-- A line feed goes to a later line, and any other character to a later column.
-/
theorem precedes_step (p : Position) (c : Char) : p.Precedes (p.step c) := by
  unfold step
  split
  · exact .inl (Nat.lt_succ_self _)
  · exact .inr ⟨rfl, Nat.lt_succ_self _⟩

/-- **Every character moves the position on.** -/
theorem precedes_after {cs : List Char} (h : cs ≠ []) :
    p.Precedes (p.after cs) := by
  induction cs generalizing p with
  | nil => exact absurd rfl h
  | cons c cs ih =>
    by_cases hcs : cs = []
    · subst hcs
      exact p.precedes_step c
    · exact (p.precedes_step c).trans (ih hcs)

end Position

/-! ## Places

A place of a text is what counting gives for a number of characters. -/

namespace SourceText

/-- **The place behind `n` characters** of the text: how many line feeds there are
among them, and how many of them stand behind the last line feed. Both are counted
from one. -/
def place (s : SourceText) (n : Nat) : Span :=
  let before := s.text.toList.take n
  ⟨s.name, 1 + before.count '\n', 1 + (before.rtakeWhile (· ≠ '\n')).length⟩

variable {s : SourceText}

/-- Counting and keeping track agree at every character. -/
theorem place_eq (s : SourceText) (n : Nat) :
    s.place n
      = Span.ofPosition s.name (Position.start.after (s.text.toList.take n)) := by
  rw [Position.start_after]
  rfl

theorem place_append {before rest : List Char}
    (h : s.text.toList = before ++ rest) :
    s.place before.length
      = Span.ofPosition s.name (Position.start.after before) := by
  rw [place_eq, h, List.take_left]

/-- The end of the text is the place behind all of its characters. -/
theorem place_length (s : SourceText) :
    s.place s.text.toList.length = s.spanAt s.finish := by
  rw [place_eq, List.take_length]
  rfl

theorem one_le_place (s : SourceText) (n : Nat) :
    1 ≤ (s.place n).line ∧ 1 ≤ (s.place n).column :=
  ⟨Nat.le_add_right 1 _, Nat.le_add_right 1 _⟩

/-- **Later characters have later places.** -/
theorem place_precedes {m n : Nat} (hmn : m < n)
    (hn : n ≤ s.text.toList.length) :
    (s.place m).position.Precedes (s.place n).position := by
  have hsplit : s.text.toList.take n
      = s.text.toList.take m ++ (s.text.toList.take n).drop m := by
    have hle : min m n = m := Nat.min_eq_left (Nat.le_of_lt hmn)
    rw [← List.take_append_drop m (s.text.toList.take n), List.take_take, hle,
      List.drop_left' (List.length_take_of_le (by omega))]
  have hne : (s.text.toList.take n).drop m ≠ [] := by
    rw [Ne, List.drop_eq_nil_iff, List.length_take_of_le hn]
    omega
  rw [place_eq, place_eq, hsplit, Position.after_append]
  exact Position.precedes_after hne

end SourceText

/-! ## Anchors

Pieces with the number of characters in front of them. -/

/-- **Each piece with its anchor**: how many characters stand in front of it.
Numbers of characters are added more easily than positions, whose columns begin
anew on every line. -/
def offsets (n : Nat) : List Piece → List (Nat × Piece)
  | [] => []
  | g :: gs => (n, g) :: offsets (n + g.text.length) gs

/-- The faults of escapes that are not known. -/
def invalidEscapes (unknown : List (Nat × Char)) : List (Nat × LexicalFault) :=
  unknown.map fun (n, c) => (n, .invalidEscape c)

/-- **The faults of a piece**, in the order in which they are reported, each with
its anchor. That of an unexpected character is the character, that of a string
without closing quote is the opening quote, and that of an unknown escape is the
character behind the backslash. -/
inductive FaultsOf : Nat × Piece → List (Nat × LexicalFault) → Prop
  | unexpected {n : Nat} {c : Char} :
      FaultsOf (n, ⟨.unexpected, [c]⟩) [(n, .unexpectedCharacter c)]
  | string {n : Nat} {body value : List Char} {unknown : List (Nat × Char)}
      (h : Literal (n + 1) body value unknown) :
      FaultsOf (n, ⟨.string, '"' :: (body ++ ['"'])⟩) (invalidEscapes unknown)
  /-- At the end of the text, half an escape may be left. -/
  | unterminated {n : Nat} {body value tail : List Char}
      {unknown : List (Nat × Char)} (htail : tail = [] ∨ tail = ['\\'])
      (h : Literal (n + 1) body value unknown) :
      FaultsOf (n, ⟨.unterminated, '"' :: (body ++ tail)⟩)
        (invalidEscapes unknown ++ [(n, .unterminatedString)])
  | none {n : Nat} {g : Piece}
      (h : g.kind ∈ [.blank, .comment, .number, .word, .punctuator]) :
      FaultsOf (n, g) []

section Offsets

variable {n : Nat} {gs : List Piece}

/-- The text of a piece stands where its anchor is. -/
theorem prefix_of_mem_offsets {before : List Char} {x : Nat × Piece}
    (h : x ∈ offsets before.length gs) :
    x.2.text <+: (before ++ gs.flatMap Piece.text).drop x.1 := by
  induction gs generalizing before with
  | nil => cases h
  | cons g gs ih =>
    rw [List.flatMap_cons]
    rcases List.mem_cons.1 h with rfl | h
    · rw [List.drop_left]
      exact List.prefix_append _ _
    · rw [← List.append_assoc]
      exact ih (by rwa [List.length_append])

/-- Anchors are counted from the start of the list. -/
theorem le_of_mem_offsets {x : Nat × Piece} (h : x ∈ offsets n gs) :
    n ≤ x.1 := by
  induction gs generalizing n with
  | nil => cases h
  | cons g gs ih =>
    rcases List.mem_cons.1 h with rfl | h
    · exact Nat.le_refl _
    · exact Nat.le_trans (Nat.le_add_right _ _) (ih h)

/-- Every anchor lies in front of the end. -/
theorem lt_of_mem_offsets (hne : ∀ g ∈ gs, g.text ≠ []) {x : Nat × Piece}
    (h : x ∈ offsets n gs) : x.1 < n + (gs.flatMap Piece.text).length := by
  induction gs generalizing n with
  | nil => cases h
  | cons g gs ih =>
    obtain ⟨hg, hgs⟩ := List.forall_mem_cons.1 hne
    have hpos := List.length_pos_iff.2 hg
    rw [List.flatMap_cons, List.length_append]
    rcases List.mem_cons.1 h with rfl | h
    · show n < _
      omega
    · have hlt := ih hgs h
      omega

/-- **Anchors come in the order of the text.** Pieces have characters, so no two
begin at the same one. -/
theorem pairwise_offsets (hne : ∀ g ∈ gs, g.text ≠ []) :
    (offsets n gs).Pairwise (·.1 < ·.1) := by
  induction gs generalizing n with
  | nil => exact .nil
  | cons g gs ih =>
    obtain ⟨hg, hgs⟩ := List.forall_mem_cons.1 hne
    refine .cons (fun x hx => ?_) (ih hgs)
    exact Nat.lt_of_lt_of_le
      (Nat.lt_add_of_pos_right (List.length_pos_iff.2 hg)) (le_of_mem_offsets hx)

/-- The positions of pieces are those behind the text in front of them. -/
theorem placed_eq_offsets (before : List Char) (gs : List Piece) :
    placed (Position.start.after before) gs
      = (offsets before.length gs).map fun (i, g) =>
          (Position.start.after ((before ++ gs.flatMap Piece.text).take i), g) := by
  induction gs generalizing before with
  | nil => rfl
  | cons g gs ih =>
    rw [placed, ← Position.after_append, ih, offsets, List.map_cons,
      List.flatMap_cons, List.length_append, List.append_assoc]
    dsimp only
    rw [List.take_left]

end Offsets

/-! ## Faults of a piece

The errors of a segment are placed by positions; here they are matched with the
faults of the piece, placed by anchors. The text in front of the piece is
carried through the induction, since a place depends on all of it. -/

/-- The units of a segment that begins with a quote. -/
def Segment.units : Segment → List StringUnit
  | string us | unclosed us _ => us
  | blank _ | comment _ | word _ | number _ | punctuator _ | stray _ => []

/-- The units of a segment come from splitting a text. -/
theorem Segment.proper_next (c : Char) (cs : List Char) :
    ∀ u ∈ (next c cs).1.units, u.Proper := by
  have hstring : ∀ u ∈ (nextString cs).1.units, u.Proper := by
    have hunits := proper_stringUnits cs
    unfold nextString
    split <;> rename_i hu <;> rwa [hu] at hunits
  have hmark : (nextMark c cs).1.units = [] := by
    unfold nextMark
    split
    · split <;> rfl
    · split <;> rfl
  unfold next
  split
  · exact nofun
  split
  · exact hstring
  split
  · exact nofun
  split
  · exact nofun
  split
  · split <;> exact nofun
  · rw [hmark]
    exact nofun

section Faults

variable {s : SourceText} {before rest : List Char}

/-- The faults of a text at the places of their anchors. -/
def SourceText.report (s : SourceText) (faults : List (Nat × LexicalFault)) :
    List LexicalError :=
  faults.map fun (n, f) => ⟨s.place n, f⟩

theorem SourceText.report_cons (n : Nat) (f : LexicalFault)
    (faults : List (Nat × LexicalFault)) :
    s.report ((n, f) :: faults) = ⟨s.place n, f⟩ :: s.report faults :=
  rfl

theorem SourceText.report_append (faults more : List (Nat × LexicalFault)) :
    s.report (faults ++ more) = s.report faults ++ s.report more :=
  List.map_append

/-- **The errors of units** stand behind the backslashes of the unknown escapes.
The induction moves units from behind the seam to the text in front of it. -/
theorem unitErrors_eq_report {us : List StringUnit}
    (h : s.text.toList = before ++ (us.flatMap StringUnit.text ++ rest)) :
    unitErrors s.name (Position.start.after before) us
      = s.report (invalidEscapes (unknownEscapes before.length us)) := by
  induction us generalizing before with
  | nil => rfl
  | cons u us ih =>
    rw [List.flatMap_cons, List.append_assoc, ← List.append_assoc] at h
    have hrest := ih h
    rw [Position.after_append, List.length_append] at hrest
    cases u with
    | plain c => exact hrest
    | escape c =>
      have hsplit : s.text.toList = before ++ ['\\']
          ++ c :: (us.flatMap StringUnit.text ++ rest) := by
        rw [h]
        simp [StringUnit.text]
      have hplace := SourceText.place_append hsplit
      rw [Position.after_append, List.length_append] at hplace
      unfold unitErrors unknownEscapes
      dsimp only
      cases StringUnit.escaped? c with
      | some d => exact hrest
      | none =>
        rw [invalidEscapes, List.map_cons, SourceText.report_cons]
        exact congrArg₂ List.cons
          (congrArg (LexicalError.mk · (.invalidEscape c)) hplace.symm) hrest

/-- The errors of the units behind a quote. -/
theorem unitErrors_behind_quote {us : List StringUnit}
    (h : s.text.toList
      = before ++ '"' :: (us.flatMap StringUnit.text ++ rest)) :
    unitErrors s.name ((Position.start.after before).step '"') us
      = s.report (invalidEscapes (unknownEscapes (before.length + 1) us)) := by
  have hsplit : s.text.toList
      = before ++ ['"'] ++ (us.flatMap StringUnit.text ++ rest) := by
    rw [h, List.append_assoc]
    rfl
  have hunits := unitErrors_eq_report hsplit
  rwa [Position.after_append, List.length_append] at hunits

/-- **The errors of a segment are the faults of its piece**, each at the place
of its anchor. For a string the faults are read off its units, and the opening
quote is the one character in front of them. -/
theorem Segment.exists_faultsOf {g : Segment} (hg : ∀ u ∈ g.units, u.Proper)
    (h : s.text.toList = before ++ (g.text ++ rest)) :
    ∃ faults, FaultsOf (before.length, g.piece) faults
      ∧ g.errors s.name (Position.start.after before) = s.report faults := by
  have hplace := SourceText.place_append h
  cases g with
  | blank | comment | word | number | punctuator =>
    exact ⟨[], .none (by simp [piece, kind]), rfl⟩
  | stray c =>
    refine ⟨_, .unexpected, ?_⟩
    rw [SourceText.report_cons, hplace]
    rfl
  | string us =>
    have hquote : s.text.toList
        = before ++ '"' :: (us.flatMap StringUnit.text ++ '"' :: rest) := by
      rw [h, text]
      simp
    exact ⟨_, .string (.of_units hg _), unitErrors_behind_quote hquote⟩
  | unclosed us dangling =>
    refine ⟨_, .unterminated (by cases dangling <;> simp) (.of_units hg _), ?_⟩
    rw [text, List.cons_append, List.cons_append, List.append_assoc] at h
    rw [errors, unitErrors_behind_quote h, ← hplace, SourceText.report_append]
    rfl

/-- **The errors of the segments of a text are the faults of its pieces**, by
induction on what is left of the text. -/
theorem exists_faultsOf_segments (h : s.text.toList = before ++ rest) :
    ∃ faults, List.Forall₂ FaultsOf
        (offsets before.length ((segments rest).map Segment.piece)) faults
      ∧ ((locate (Position.start.after before) (segments rest)).flatMap
          fun (p, g) => g.errors s.name p) = s.report faults.flatten := by
  fun_induction segments rest generalizing before with
  | case1 => exact ⟨[], .nil, rfl⟩
  | case2 c cs ih =>
    rw [← Segment.text_next c cs] at h
    obtain ⟨faults, hfaults, herrors⟩ :=
      Segment.exists_faultsOf (Segment.proper_next c cs) h
    rw [← List.append_assoc] at h
    obtain ⟨more, hmore, hrest⟩ := ih h
    rw [List.length_append] at hmore
    refine ⟨faults :: more, .cons hfaults hmore, ?_⟩
    rw [locate, List.flatMap_cons, ← Position.after_append, hrest,
      List.flatten_cons, SourceText.report_append, ← herrors]

end Faults

/-! ## Places of a scan

For a cut of the whole text, the two lists of tokens and errors. -/

section Scan

variable {s : SourceText} {pieces : List Piece}

theorem flatMap_text_of_maximalMunch {cs : List Char}
    (h : MaximalMunch cs pieces) : pieces.flatMap Piece.text = cs := by
  rw [maximalMunch_iff.1 h, List.flatMap_map]
  exact flatMap_text_segments cs

theorem ne_nil_of_maximalMunch {cs : List Char} (h : MaximalMunch cs pieces) :
    ∀ g ∈ pieces, g.text ≠ [] := by
  induction h with
  | nil => exact nofun
  | lexeme h _ ih => exact List.forall_mem_cons.2 ⟨h.lexeme.ne_nil, ih⟩
  | unexpected _ _ ih => exact List.forall_mem_cons.2 ⟨List.cons_ne_nil _ _, ih⟩

/-- **The tokens of a text** stand at the anchors of the pieces that are
tokens. -/
theorem forall₂_tokenOf_offsets (hcut : MaximalMunch s.text.toList pieces) :
    List.Forall₂
      (fun (n, g) t => TokenOf s.name ((s.place n).position, g) t
        ∧ t.span = s.place n)
      ((offsets 0 pieces).filter (·.2.kind.isToken)) s.front := by
  have htext := flatMap_text_of_maximalMunch hcut
  have hplaced : placed .start pieces = (offsets 0 pieces).map fun (i, g) =>
      (Position.start.after (s.text.toList.take i), g) := by
    have hplaced := placed_eq_offsets [] pieces
    rwa [htext] at hplaced
  have htokens := forall₂_tokenOf s.name s.segments
  have hpieces : (s.segments.map fun (q, g) => (q, g.piece))
      = placed .start pieces := by
    rw [maximalMunch_iff.1 hcut, placed_piece]
    rfl
  rw [hpieces, hplaced, List.filter_map, List.forall₂_map_left_iff] at htokens
  refine htokens.imp fun ⟨n, g⟩ t ht => ?_
  dsimp only at ht ⊢
  rw [s.place_eq n]
  exact ⟨ht, by cases ht <;> rfl⟩

/-- **The places of tokens are those of increasing anchors**, of which the last
is the end of the text. Increasing anchors have increasing places, so this gives
the order of the tokens together with their places. -/
theorem exists_anchors (hcut : MaximalMunch s.text.toList pieces) :
    ∃ anchors : List Nat, s.scan.tokens.map Token.span = anchors.map s.place
      ∧ anchors.Pairwise (· < ·) ∧ ∀ n ∈ anchors, n ≤ s.text.toList.length := by
  have hne := ne_nil_of_maximalMunch hcut
  have hspans : ((offsets 0 pieces).filter (·.2.kind.isToken)).map
      (fun x => s.place x.1) = s.front.map Token.span := by
    rw [← List.forall₂_eq_eq_eq, List.forall₂_map_left_iff,
      List.forall₂_map_right_iff]
    exact (forall₂_tokenOf_offsets hcut).imp fun _ _ h => h.2.symm
  have hlt : ∀ n ∈ ((offsets 0 pieces).filter (·.2.kind.isToken)).map Prod.fst,
      n < s.text.toList.length := by
    intro n hn
    obtain ⟨x, hx, rfl⟩ := List.mem_map.1 hn
    have hlt := lt_of_mem_offsets hne (List.mem_filter.1 hx).1
    rwa [flatMap_text_of_maximalMunch hcut, Nat.zero_add] at hlt
  refine ⟨((offsets 0 pieces).filter (·.2.kind.isToken)).map Prod.fst
    ++ [s.text.toList.length], ?_, ?_, ?_⟩
  · rw [s.tokens_eq, ← s.place_length, List.map_append, ← hspans, List.map_append,
      List.map_map]
    rfl
  · refine List.pairwise_append.2 ⟨?_, List.pairwise_singleton _ _, ?_⟩
    · exact List.pairwise_map.2 ((pairwise_offsets hne).filter _)
    · intro m hm n hn
      rw [List.mem_singleton.1 hn]
      exact hlt m hm
  · intro n hn
    rcases List.mem_append.1 hn with hn | hn
    · exact Nat.le_of_lt (hlt n hn)
    · exact Nat.le_of_eq (List.mem_singleton.1 hn)

/-- **Positions are exact.** A text has a cut into pieces by maximal munch, each of
which stands in the text where its anchor is. The tokens of the text are those of
the pieces that are tokens, each at the place of its first character, and then the
end of the text at the place behind all characters; the errors are the faults of
the pieces, each at the place of its anchor. All places are found by counting, so
lines and columns begin with one, and each token has a later place than the one
before it. -/
theorem scan_places (s : SourceText) :
    ∃ pieces, MaximalMunch s.text.toList pieces
      ∧ (∀ x ∈ offsets 0 pieces, x.2.text <+: s.text.toList.drop x.1)
      ∧ (∃ tokens,
          s.scan.tokens
            = tokens ++ [Token.endOfFile (s.place s.text.toList.length)]
          ∧ List.Forall₂
              (fun (n, g) t => TokenOf s.name ((s.place n).position, g) t
                ∧ t.span = s.place n)
              ((offsets 0 pieces).filter (·.2.kind.isToken)) tokens)
      ∧ (∃ faults, List.Forall₂ FaultsOf (offsets 0 pieces) faults
          ∧ s.scan.errors = s.report faults.flatten)
      ∧ (∀ t ∈ s.scan.tokens, 1 ≤ t.span.line ∧ 1 ≤ t.span.column)
      ∧ (∀ e ∈ s.scan.errors, 1 ≤ e.span.line ∧ 1 ≤ e.span.column)
      ∧ s.scan.tokens.Pairwise
          fun t u => t.span.position.Precedes u.span.position := by
  have hcut := maximalMunch_segments s.text.toList
  have htext := flatMap_text_of_maximalMunch hcut
  have hstart : s.text.toList = [] ++ s.text.toList := rfl
  obtain ⟨faults, hfaults, herrors⟩ := exists_faultsOf_segments hstart
  obtain ⟨anchors, hspans, hincreasing, hle⟩ := exists_anchors hcut
  have hend : s.scan.tokens
      = s.front ++ [Token.endOfFile (s.place s.text.toList.length)] := by
    rw [s.place_length, s.tokens_eq]
  refine ⟨_, hcut, fun x hx => ?_, ⟨_, hend, forall₂_tokenOf_offsets hcut⟩,
    ⟨faults, hfaults, herrors⟩, fun t ht => ?_, fun e he => ?_, ?_⟩
  · have hprefix := @prefix_of_mem_offsets _ [] x hx
    rwa [htext] at hprefix
  · have hmem := List.mem_map_of_mem (f := Token.span) ht
    rw [hspans] at hmem
    obtain ⟨n, -, hn⟩ := List.mem_map.1 hmem
    rw [← hn]
    exact s.one_le_place n
  · have hmem : e ∈ s.report faults.flatten := herrors ▸ he
    obtain ⟨⟨n, f⟩, -, rfl⟩ := List.mem_map.1 hmem
    exact s.one_le_place n
  · have hpairwise : (anchors.map s.place).Pairwise
        fun a b => a.position.Precedes b.position :=
      List.pairwise_map.2 (hincreasing.imp_of_mem fun _ hn hlt =>
        SourceText.place_precedes hlt (hle _ hn))
    rwa [← hspans, List.pairwise_map] at hpairwise

end Scan

end TreeScript
