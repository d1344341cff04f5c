import TreeScript.Proofs.Token.Munch

/-!
# String literals

What stands between the quotes of a string is a sequence of units: characters
that stand for themselves, and backslashes with a character behind them. Five
escapes are known (`Escape`); any other one stands for its own two characters.
`Literal` says all this of the characters as they are written, without units: what
they stand for, and which escapes among them are not known.

The text behind a quote is split into units in just this way. Whole units are
found whatever ends the string (`Literal.exists_units`), and the units that are
found are a literal (`Literal.of_units`).

Positions enter as numbers of characters, and only for the unknown escapes: a
warning is placed at one of them. So `Literal` has the number of characters in
front of the body as an index, which moves along with the body.
-/

namespace TreeScript

/-- **The escapes that are known**: the character behind the backslash, and the
character that the two stand for. -/
inductive Escape : Char → Char → Prop
  | quote : Escape '"' '"'
  | backslash : Escape '\\' '\\'
  | lineFeed : Escape 'n' '\n'
  | carriageReturn : Escape 'r' '\r'
  | tab : Escape 't' '\t'

/-- **What the characters between quotes stand for.** `Literal n body value
unknown` says that `body` is made of whole units and stands for `value`. The
escapes in it that are not known are `unknown`, in order: for each the character
behind the backslash, and how many characters of the text stand in front of that
one if `n` characters stand in front of the body. -/
inductive Literal : Nat → (body value : List Char) → List (Nat × Char) → Prop
  | nil {n : Nat} : Literal n [] [] []
  /-- A character that stands for itself. -/
  | plain {n : Nat} {c : Char} {body value : List Char}
      {unknown : List (Nat × Char)} (hquote : c ≠ '"') (hslash : c ≠ '\\')
      (h : Literal (n + 1) body value unknown) :
      Literal n (c :: body) (c :: value) unknown
  /-- An escape that stands for another character. -/
  | known {n : Nat} {c d : Char} {body value : List Char}
      {unknown : List (Nat × Char)} (hc : Escape c d)
      (h : Literal (n + 2) body value unknown) :
      Literal n ('\\' :: c :: body) (d :: value) unknown
  /-- An escape that is kept as it is written. -/
  | unknown {n : Nat} {c : Char} {body value : List Char}
      {unknown : List (Nat × Char)} (hc : ∀ d, ¬ Escape c d)
      (h : Literal (n + 2) body value unknown) :
      Literal n ('\\' :: c :: body) ('\\' :: c :: value) ((n + 1, c) :: unknown)

/-- The table of escapes is the relation. -/
theorem escaped?_eq_some_iff {c d : Char} :
    StringUnit.escaped? c = some d ↔ Escape c d := by
  constructor
  · intro h
    unfold StringUnit.escaped? at h
    split at h
    · exact Option.some.inj h ▸ .quote
    · exact Option.some.inj h ▸ .backslash
    · exact Option.some.inj h ▸ .lineFeed
    · exact Option.some.inj h ▸ .carriageReturn
    · exact Option.some.inj h ▸ .tab
    · cases h
  · rintro (_ | _) <;> rfl

theorem escaped?_eq_none_iff {c : Char} :
    StringUnit.escaped? c = none ↔ ∀ d, ¬ Escape c d := by
  simp only [Option.eq_none_iff_forall_ne_some, Ne, escaped?_eq_some_iff]

/-! ## Units

What a unit is decoded to, and which units are unknown escapes. A unit with a
quote or a lone backslash is not proper; splitting a text makes no such unit. -/

/-- A character that stands for itself is neither a quote nor a backslash. -/
def StringUnit.Proper : StringUnit → Prop
  | plain c => c ≠ '"' ∧ c ≠ '\\'
  | escape _ => True

/-- The units that a text is split into are proper. -/
theorem proper_stringUnits (cs : List Char) :
    ∀ u ∈ (stringUnits cs).1, u.Proper := by
  fun_induction stringUnits cs with
  | case1 | case2 | case3 => exact List.forall_mem_nil _
  | case4 c cs r ih => exact List.forall_mem_cons.2 ⟨trivial, ih⟩
  | case5 c cs hquote hlast hescape r ih =>
    refine List.forall_mem_cons.2 ⟨⟨hquote, fun hslash => ?_⟩, ih⟩
    cases cs with
    | nil => exact hlast hslash rfl
    | cons d ds => exact hescape d ds hslash rfl

/-- **The unknown escapes among units** with `n` characters in front of them. -/
def unknownEscapes : Nat → List StringUnit → List (Nat × Char)
  | _, [] => []
  | n, .plain _ :: us => unknownEscapes (n + 1) us
  | n, .escape c :: us =>
    match StringUnit.escaped? c with
    | some _ => unknownEscapes (n + 2) us
    | none => (n + 1, c) :: unknownEscapes (n + 2) us

section Escape

variable {n : Nat} {c : Char} {us : List StringUnit}

theorem unknownEscapes_known {d : Char} (h : Escape c d) :
    unknownEscapes n (.escape c :: us) = unknownEscapes (n + 2) us := by
  rw [unknownEscapes, escaped?_eq_some_iff.2 h]

/-- An unknown one is recorded at the character behind the backslash. -/
theorem unknownEscapes_unknown (h : ∀ d, ¬ Escape c d) :
    unknownEscapes n (.escape c :: us)
      = (n + 1, c) :: unknownEscapes (n + 2) us := by
  rw [unknownEscapes, escaped?_eq_none_iff.2 h]

theorem decoded_known {d : Char} (h : Escape c d) :
    (StringUnit.escape c).decoded = [d] := by
  rw [StringUnit.decoded, escaped?_eq_some_iff.2 h]

theorem decoded_unknown (h : ∀ d, ¬ Escape c d) :
    (StringUnit.escape c).decoded = ['\\', c] := by
  rw [StringUnit.decoded, escaped?_eq_none_iff.2 h]

end Escape

/-! ## Literals and units

Both directions: units make a literal, and a literal is split into units, by
induction on one or the other. -/

namespace Literal

variable {n : Nat} {body value : List Char} {unknown : List (Nat × Char)}

/-- **Proper units are a literal**, and stand for what they are decoded to. The
number of characters in front goes along with the units, as an escape has two of
them. -/
theorem of_units {us : List StringUnit} (h : ∀ u ∈ us, u.Proper) (n : Nat) :
    Literal n (us.flatMap StringUnit.text) (us.flatMap StringUnit.decoded)
      (unknownEscapes n us) := by
  induction us generalizing n with
  | nil => exact .nil
  | cons u us ih =>
    obtain ⟨hu, hus⟩ := List.forall_mem_cons.1 h
    cases u with
    | plain c => exact .plain hu.1 hu.2 (ih hus (n + 1))
    | escape c =>
      rw [List.flatMap_cons, List.flatMap_cons]
      by_cases hc : ∃ d, Escape c d
      · obtain ⟨d, hc⟩ := hc
        rw [unknownEscapes_known hc, decoded_known hc]
        exact .known hc (ih hus (n + 2))
      · have hc : ∀ d, ¬ Escape c d := not_exists.1 hc
        rw [unknownEscapes_unknown hc, decoded_unknown hc]
        exact .unknown hc (ih hus (n + 2))

/-- **A literal is split into its units**, whatever ends the string behind it.
The units do not depend on what comes behind the literal, because the seam
behind the last of them is not in the middle of an escape. -/
theorem exists_units (h : Literal n body value unknown) (e : StringEnd) :
    ∃ us, stringUnits (body ++ e.text) = (us, e)
      ∧ us.flatMap StringUnit.text = body
      ∧ us.flatMap StringUnit.decoded = value
      ∧ unknownEscapes n us = unknown := by
  induction h with
  | nil => exact ⟨[], by cases e <;> rfl, rfl, rfl, rfl⟩
  | @plain n c body value unknown hquote hslash _ ih =>
    obtain ⟨us, hus, rfl, rfl, rfl⟩ := ih
    refine ⟨.plain c :: us, ?_, rfl, rfl, rfl⟩
    rw [List.cons_append]
    simp [stringUnits, hslash, hus]
  | @known n c d body value unknown hc _ ih =>
    obtain ⟨us, hus, rfl, rfl, rfl⟩ := ih
    refine ⟨.escape c :: us, ?_, rfl, ?_, unknownEscapes_known hc⟩
    · rw [List.cons_append, List.cons_append, stringUnits, hus]
    · rw [List.flatMap_cons, decoded_known hc]
      rfl
  | @unknown n c body value unknown hc _ ih =>
    obtain ⟨us, hus, rfl, rfl, rfl⟩ := ih
    refine ⟨.escape c :: us, ?_, rfl, ?_, unknownEscapes_unknown hc⟩
    · rw [List.cons_append, List.cons_append, stringUnits, hus]
    · rw [List.flatMap_cons, decoded_unknown hc]
      rfl

/-- A literal with a closing quote behind it is a string. -/
theorem exists_next (h : Literal n body value unknown) (rest : List Char) :
    ∃ us, Segment.next '"' (body ++ '"' :: rest) = (.string us, rest)
      ∧ us.flatMap StringUnit.text = body
      ∧ us.flatMap StringUnit.decoded = value
      ∧ unknownEscapes n us = unknown := by
  obtain ⟨us, hunits, hus⟩ := h.exists_units (.closed rest)
  refine ⟨us, ?_, hus⟩
  show Segment.nextString (body ++ (StringEnd.closed rest).text) = _
  rw [Segment.nextString, hunits]

/-- A quote with no literal and no closing quote behind it is left open: the
segment is the rest of the text. -/
theorem exists_next_open {after : List Char}
    (h : ∀ body value unknown rest, after = body ++ '"' :: rest →
      ¬ Literal n body value unknown) :
    ∃ us dangling, Segment.next '"' after = (.unclosed us dangling, [])
      ∧ ∀ u ∈ us, u.Proper := by
  have hproper := proper_stringUnits after
  have happend := stringUnits_append after
  show ∃ us dangling, Segment.nextString after = _ ∧ _
  unfold Segment.nextString
  cases hunits : stringUnits after with
  | mk us e =>
    rw [hunits] at hproper happend
    cases e with
    | closed rest => exact absurd (of_units hproper n) (h _ _ _ rest happend.symm)
    | missing => exact ⟨us, false, rfl, hproper⟩
    | dangling => exact ⟨us, true, rfl, hproper⟩

end Literal

end TreeScript
