import TreeScript.Session
import TreeScript.Proofs.Token.LineBreak

/-!
# Lines of an input

A session cuts its input into lines while it is still bytes, and only then asks
for the text of each line. This is the same as cutting the text of the whole
input: a byte that encodes a line feed encodes nothing else, so no character is
ever cut in two (`lines_encode`). In particular every line of a valid input is
valid.

The other direction is not needed and not true: an input may have lines that are
no text among lines that are. What a session does then is a matter of its turns.
-/

namespace TreeScript

/-! ## Lines of characters

Cutting a text at its line feeds, each of which stays with its line. -/

/-- **The lines of a text**, each with its line feed. -/
def textLines : List Char → List (List Char)
  | [] => []
  | c :: cs =>
    if c = '\n' then [c] :: textLines cs
    else
      match textLines cs with
      | [] => [[c]]
      | l :: ls => (c :: l) :: ls

section TextLines

variable {c : Char} (cs : List Char)

theorem textLines_newline : textLines ('\n' :: cs) = ['\n'] :: textLines cs :=
  if_pos rfl

/-- A character that is no line feed belongs to the first line. -/
theorem textLines_cons (h : c ≠ '\n') :
    textLines (c :: cs)
      = (c :: (textLines cs).headD []) :: (textLines cs).tail := by
  rw [textLines, if_neg h]
  cases textLines cs <;> rfl

/-- The lines make up the text. -/
theorem flatten_textLines : (textLines cs).flatten = cs := by
  induction cs with
  | nil => rfl
  | cons c cs ih =>
    by_cases hc : c = '\n'
    · subst hc
      rw [textLines_newline, List.flatten_cons, ih]
      rfl
    · rw [textLines_cons cs hc, List.flatten_cons]
      refine (List.cons_append ..).trans (congrArg (c :: ·) ?_)
      cases hlines : textLines cs with
      | nil => rwa [hlines] at ih
      | cons l ls => rwa [hlines] at ih

/-- **Every line but the last ends with a line feed.** -/
theorem getLast?_textLines :
    ∀ l ∈ (textLines cs).dropLast, l.getLast? = some '\n' := by
  induction cs with
  | nil => exact nofun
  | cons c cs ih =>
    intro l hl
    by_cases hc : c = '\n'
    · subst hc
      rw [textLines_newline] at hl
      by_cases hne : textLines cs = []
      · rw [hne] at hl
        cases hl
      · rw [List.dropLast_cons_of_ne_nil hne] at hl
        rcases List.mem_cons.1 hl with rfl | hl
        · rfl
        · exact ih l hl
    · rw [textLines_cons cs hc] at hl
      cases hlines : textLines cs with
      | nil =>
        rw [hlines] at hl
        cases hl
      | cons l' ls =>
        rw [hlines] at hl ih
        simp only [List.headD_cons, List.tail_cons] at hl
        by_cases hne : ls = []
        · rw [hne] at hl
          cases hl
        · rw [List.dropLast_cons_of_ne_nil hne] at hl ih
          rcases List.mem_cons.1 hl with rfl | hl
          · rw [List.getLast?_cons, ih l' (List.mem_cons_self ..)]
            rfl
          · exact ih l (List.mem_cons_of_mem _ hl)

theorem endsLine_textLines : ∀ l ∈ (textLines cs).dropLast, EndsLine l := by
  intro l hl c hc
  rw [getLast?_textLines cs l hl] at hc
  exact (Option.some.inj hc).symm

end TextLines

/-! ## Lines of bytes

The same for bytes, and the encoding between the two. -/

/-- The bytes of a text. -/
def encode (cs : List Char) : Bytes := cs.flatMap String.utf8EncodeChar

theorem encode_cons (c : Char) (cs : List Char) :
    encode (c :: cs) = String.utf8EncodeChar c ++ encode cs :=
  List.flatMap_cons

theorem text?_encode (cs : List Char) :
    (encode cs).text? = some (String.ofList cs) := by
  have hbytes : (⟨(encode cs).toArray⟩ : ByteArray) = cs.utf8Encode :=
    ByteArray.ext List.data_toByteArray.symm
  unfold Bytes.text? String.fromUTF8?
  rw [hbytes, dif_pos ⟨cs, rfl⟩]
  rfl

/-- Bytes that stand for a text are the bytes of the text. -/
theorem eq_encode_of_text? {bs : Bytes} {text : String}
    (h : bs.text? = some text) : bs = encode text.toList := by
  unfold Bytes.text? String.fromUTF8? at h
  split at h
  · rename_i hvalid
    obtain rfl := Option.some.inj h
    have hbytes : (String.fromUTF8 ⟨bs.toArray⟩ hvalid).toList.utf8Encode
        = ⟨bs.toArray⟩ :=
      String.utf8Encode_toList
    have hdata := congrArg (fun b => b.data.toList) hbytes
    simpa [List.utf8Encode, encode] using hdata.symm
  · cases h

/-- **A line feed is encoded by a single byte, and no other character has this
byte.** -/
theorem ne_newline_of_mem_utf8EncodeChar {c : Char} (h : c ≠ '\n') :
    ∀ b ∈ String.utf8EncodeChar c, b ≠ 10 := by
  have hsmall : c.val.toNat ≠ 10 := fun heq => h (Char.ext (UInt32.toNat.inj heq))
  have hbyte {n : Nat} (hn : n % 256 ≠ 10) : UInt8.ofNat n ≠ 10 := by
    intro heq
    exact hn (by simpa using congrArg UInt8.toNat heq)
  intro b hb
  unfold String.utf8EncodeChar at hb
  dsimp only at hb
  -- All bytes of a longer encoding are at least 128.
  split at hb
  · rw [List.mem_singleton.1 hb]
    exact hbyte (by omega)
  split at hb
  · simp only [List.mem_cons, List.not_mem_nil, or_false] at hb
    rcases hb with rfl | rfl <;> exact hbyte (by omega)
  split at hb
  · simp only [List.mem_cons, List.not_mem_nil, or_false] at hb
    rcases hb with rfl | rfl | rfl <;> exact hbyte (by omega)
  · simp only [List.mem_cons, List.not_mem_nil, or_false] at hb
    rcases hb with rfl | rfl | rfl | rfl <;> exact hbyte (by omega)

/-- Bytes that are no line feed belong to the first line. -/
theorem lines_append {front : Bytes} (hne : front ≠ [])
    (h : ∀ b ∈ front, b ≠ 10) (bs : Bytes) :
    Bytes.lines (front ++ bs)
      = (front ++ (Bytes.lines bs).headD []) :: (Bytes.lines bs).tail := by
  induction front with
  | nil => exact absurd rfl hne
  | cons b front ih =>
    obtain ⟨hb, hfront⟩ := List.forall_mem_cons.1 h
    rw [List.cons_append, Bytes.lines, if_neg hb]
    by_cases hnil : front = []
    · subst hnil
      cases hlines : Bytes.lines bs with
      | nil => simp [hlines]
      | cons l ls => simp [hlines]
    · rw [ih hnil hfront]
      rfl

/-- **The lines of the bytes of a text are the bytes of its lines.** So it does
not matter whether an input is cut before it is decoded or after. -/
theorem lines_encode (cs : List Char) :
    Bytes.lines (encode cs) = (textLines cs).map encode := by
  induction cs with
  | nil => rfl
  | cons c cs ih =>
    rw [encode_cons]
    by_cases hc : c = '\n'
    · subst hc
      rw [textLines_newline, List.map_cons, ← ih]
      rfl
    · have hne : String.utf8EncodeChar c ≠ [] := by
        rw [← List.length_pos_iff, String.length_utf8EncodeChar]
        exact c.utf8Size_pos
      rw [lines_append hne (ne_newline_of_mem_utf8EncodeChar hc), ih,
        textLines_cons cs hc, List.map_cons, encode_cons]
      cases textLines cs <;> rfl

end TreeScript
