import Mathlib

/-!
# Forms

A **form** is an atom, or a head with forms behind it, in parentheses. Atoms are
words, or texts in quotes with no quote inside; heads are words. Words have no
blanks and no closing parentheses, and begin with something else than an opening
parenthesis or a quote.

Such a form can be read back from its characters: no other form has them, also
with something behind it, as long as that begins with a blank or a closing
parenthesis (`Form.Proper.legible`).

The display of a tree is such a form, and that a tree can be told from its
display rests on the statement below. It is about characters and forms only, so
nothing here depends on what the heads and atoms of a tree are.

Reading back is not done by a reader. That a form is **legible** is an equality:
if its characters with something behind them are those of another form with
something behind them, then both the forms and what stands behind them are the
same. In this shape it is proved by induction on the first form, since what
stands behind a part is again some text.
-/

namespace TreeScript

/-! ## Forms -/

/-- **A form**: an atom, or a head with its parts behind it, in parentheses. -/
inductive Form where
  | atom (text : String)
  | node (head : String) (parts : List Form)

namespace Form

mutual

/-- **The characters of a form.** -/
def chars : Form → List Char
  | atom text => text.toList
  | node head parts => '(' :: (head.toList ++ (charsAll parts ++ [')']))

/-- The characters of several forms, each behind a blank. -/
def charsAll : List Form → List Char
  | [] => []
  | x :: xs => ' ' :: (x.chars ++ charsAll xs)

end

end Form

/-- **A word of a form**: it has no blanks and no closing parentheses, and begins
with something else than an opening parenthesis or a quote. -/
def IsWord (cs : List Char) : Prop :=
  (∀ c ∈ cs, c ≠ ' ' ∧ c ≠ ')') ∧ cs.headD '(' ≠ '(' ∧ cs.headD '(' ≠ '"'

instance (cs : List Char) : Decidable (IsWord cs) :=
  inferInstanceAs (Decidable (_ ∧ _))

/-- **An atom of a form**: a word, or a text in quotes with no quote inside. -/
inductive IsAtom : List Char → Prop
  | word {cs : List Char} (h : IsWord cs) : IsAtom cs
  | quoted {body : List Char} (h : '"' ∉ body) : IsAtom ('"' :: (body ++ ['"']))

/-- **Forms that can be read back.** -/
inductive Form.Proper : Form → Prop
  | atom {text : String} (h : IsAtom text.toList) : Proper (.atom text)
  | node {head : String} {parts : List Form} (hhead : IsWord head.toList)
      (hparts : ∀ x ∈ parts, x.Proper) : Proper (.node head parts)

/-! ## Reading forms back

A word ends at the first blank or closing parenthesis, and a text in quotes at
the next quote. So where the first atom of a text ends is determined by the
text. -/

/-- What may stand behind a form: nothing, a blank or a closing parenthesis. -/
def Bounded (rest : List Char) : Prop := ∀ c ∈ rest.head?, c = ' ' ∨ c = ')'

/-- Texts that end in front of the first character without a property, or in
front of the end, are the same if they stand at the front of the same text. -/
theorem append_inj_of_all {p : Char → Bool} {cs ds rest rest' : List Char}
    (hcs : ∀ c ∈ cs, p c = true) (hds : ∀ c ∈ ds, p c = true)
    (hrest : ∀ c ∈ rest.head?, p c = false)
    (hrest' : ∀ c ∈ rest'.head?, p c = false) (h : cs ++ rest = ds ++ rest') :
    cs = ds ∧ rest = rest' := by
  have htake {cs rest : List Char} (hcs : ∀ c ∈ cs, p c = true)
      (hrest : ∀ c ∈ rest.head?, p c = false) :
      (cs ++ rest).takeWhile p = cs := by
    rw [List.takeWhile_append_of_pos hcs]
    cases rest with
    | nil => simp
    | cons c rest => simp [hrest c rfl]
  have hfront : cs = ds := by rw [← htake hcs hrest, h, htake hds hrest']
  subst hfront
  exact ⟨rfl, List.append_cancel_left h⟩

/-- A word is told from what stands behind it, as it has neither of the
characters that may come next. -/
theorem IsWord.append_inj {cs ds rest rest' : List Char} (hcs : IsWord cs)
    (hds : IsWord ds) (hrest : Bounded rest) (hrest' : Bounded rest')
    (h : cs ++ rest = ds ++ rest') : cs = ds ∧ rest = rest' := by
  refine append_inj_of_all (p := fun c => c != ' ' && c != ')')
    (fun c hc => ?_) (fun c hc => ?_) (fun c hc => ?_) (fun c hc => ?_) h
  · simpa using hcs.1 c hc
  · simpa using hds.1 c hc
  · rcases hrest c hc with rfl | rfl <;> rfl
  · rcases hrest' c hc with rfl | rfl <;> rfl

/-- A word is not empty, and its first character tells it from a text in quotes
and from a form in parentheses. -/
theorem IsWord.exists_cons {cs : List Char} (h : IsWord cs) :
    ∃ c ds, cs = c :: ds ∧ c ≠ '(' ∧ c ≠ '"' := by
  cases cs with
  | nil => exact absurd rfl h.2.1
  | cons c ds => exact ⟨c, ds, rfl, h.2⟩

/-- An atom is told from what stands behind it. For a text in quotes this is so
whatever comes next, as it ends with its quote. -/
theorem IsAtom.append_inj {cs ds rest rest' : List Char} (hcs : IsAtom cs)
    (hds : IsAtom ds) (hrest : Bounded rest) (hrest' : Bounded rest')
    (h : cs ++ rest = ds ++ rest') : cs = ds ∧ rest = rest' := by
  cases hcs with
  | word hcs =>
    cases hds with
    | word hds => exact hcs.append_inj hds hrest hrest' h
    | quoted _ =>
      obtain ⟨c, _, rfl, -, hquote⟩ := hcs.exists_cons
      exact absurd (List.cons.inj h).1 hquote
  | @quoted body hbody =>
    cases hds with
    | word hds =>
      obtain ⟨c, _, rfl, -, hquote⟩ := hds.exists_cons
      exact absurd (List.cons.inj h).1.symm hquote
    | @quoted body' hbody' =>
      have htail : body ++ '"' :: rest = body' ++ '"' :: rest' := by
        simpa using h
      have hbodies := append_inj_of_all (p := (· != '"'))
        (fun c hc => bne_iff_ne.2 (ne_of_mem_of_not_mem hc hbody))
        (fun c hc => bne_iff_ne.2 (ne_of_mem_of_not_mem hc hbody'))
        (by simp) (by simp) htail
      obtain ⟨rfl, hrests⟩ := hbodies
      exact ⟨rfl, (List.cons.inj hrests).2⟩

/-- An atom is no node: nodes begin with a parenthesis, and no atom does. -/
theorem IsAtom.head_ne {cs rest ds : List Char} (h : IsAtom cs) :
    cs ++ rest ≠ '(' :: ds := by
  intro heq
  cases h with
  | word h =>
    obtain ⟨c, _, rfl, hparen, -⟩ := h.exists_cons
    exact hparen (List.cons.inj heq).1
  | quoted _ => cases heq

namespace Form

/-- **The form can be read back** with anything behind it that bounds it: no other
form has its characters in front of the same text. -/
def Legible (x : Form) : Prop :=
  ∀ {y : Form} {rest rest' : List Char}, y.Proper → Bounded rest →
    Bounded rest' → x.chars ++ rest = y.chars ++ rest' → x = y ∧ rest = rest'

/-- What stands behind the head of a node, and behind each of its parts, bounds
it: it is a blank if there is another part, and the closing parenthesis
otherwise. -/
theorem bounded_charsAll (xs : List Form) (rest : List Char) :
    Bounded (charsAll xs ++ ')' :: rest) := by
  cases xs with
  | nil =>
    rintro _ ⟨⟩
    exact .inr rfl
  | cons x xs =>
    rintro _ ⟨⟩
    exact .inl rfl

/-- **Parts can be read back** up to the closing parenthesis, by induction on the
parts: a blank goes on, a parenthesis stops. -/
theorem charsAll_append_inj {xs ys : List Form} {rest rest' : List Char}
    (hxs : ∀ x ∈ xs, x.Legible) (hys : ∀ y ∈ ys, y.Proper)
    (h : charsAll xs ++ ')' :: rest = charsAll ys ++ ')' :: rest') :
    xs = ys ∧ rest = rest' := by
  induction xs generalizing ys with
  | nil =>
    cases ys with
    | nil => exact ⟨rfl, (List.cons.inj h).2⟩
    | cons y ys => cases (List.cons.inj h).1
  | cons x xs ih =>
    cases ys with
    | nil => cases (List.cons.inj h).1
    | cons y ys =>
      obtain ⟨hx, hxs'⟩ := List.forall_mem_cons.1 hxs
      obtain ⟨hy, hys'⟩ := List.forall_mem_cons.1 hys
      have htail : x.chars ++ (charsAll xs ++ ')' :: rest)
          = y.chars ++ (charsAll ys ++ ')' :: rest') := by
        simpa [charsAll] using h
      obtain ⟨rfl, hmore⟩ :=
        hx hy (bounded_charsAll xs rest) (bounded_charsAll ys rest') htail
      obtain ⟨rfl, hrest⟩ := ih hxs' hys' hmore
      exact ⟨rfl, hrest⟩

/-- The characters of a node, as they are used here: a parenthesis, a head, and
all that bounds it. -/
theorem chars_node_append (head : String) (parts : List Form)
    (rest : List Char) :
    (node head parts).chars ++ rest
      = '(' :: (head.toList ++ (charsAll parts ++ ')' :: rest)) := by
  simp [chars]

/-- **Forms can be read back**, by induction on the form. An atom and a node are
told apart by their first characters, and of two nodes the heads and then the
parts are compared. -/
theorem Proper.legible {x : Form} (hx : x.Proper) : x.Legible := by
  induction hx with
  | atom hatom =>
    intro y rest rest' hy hrest hrest' h
    cases hy with
    | atom hatom' =>
      obtain ⟨htext, hrests⟩ := hatom.append_inj hatom' hrest hrest' h
      exact ⟨congrArg Form.atom (String.toList_inj.1 htext), hrests⟩
    | node => exact absurd (h.trans (chars_node_append ..)) hatom.head_ne
  | node hhead _ ih =>
    intro y rest rest' hy hrest hrest' h
    rw [chars_node_append] at h
    cases hy with
    | atom hatom => exact absurd h.symm hatom.head_ne
    | node hhead' hparts' =>
      rw [chars_node_append] at h
      obtain ⟨htext, hmore⟩ := hhead.append_inj hhead' (bounded_charsAll _ _)
        (bounded_charsAll _ _) (List.cons.inj h).2
      obtain ⟨rfl, hrests⟩ := charsAll_append_inj (fun x hx => ih x hx) hparts' hmore
      obtain rfl := String.toList_inj.1 htext
      exact ⟨rfl, hrests⟩

/-- **Forms with the same characters are the same.** -/
theorem Proper.eq_of_chars {x y : Form} (hx : x.Proper) (hy : y.Proper)
    (h : x.chars = y.chars) : x = y := by
  have hnothing : Bounded [] := nofun
  exact (hx.legible hy hnothing hnothing (congrArg (· ++ []) h)).1

end Form

end TreeScript
