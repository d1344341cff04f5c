import TreeScript.Proofs.Parser.Likeness
import TreeScript.Proofs.Token.Place

/-!
# Faults come in the order of the text

A fault is recorded when a declaration is given up, and the token it speaks about
may lie behind: that an assignment has no target is said after its right side was
read, and a block records the faults inside it before its own. Still the tokens
of the faults never go back.

The reason is where they lie. Whatever a parser is given, the faults it has met
speak of tokens between the one it began at and the one it stopped at
(`Parser.InOrder`). One parser begins where the other has stopped, so the faults
of both are in order again (`TokenStream.Meets.append`). The one fault that
speaks of a token behind is that of an assignment without a target, and reading
its right side has recorded no fault by then (`Levels.meets_assignTo`).

Which tokens are meant is said by their numbers in the list. Since parsers decide
by kinds alone, lists of the same kinds have their faults at the same numbers, and
this tells tokens apart that look the same.

How the proof goes. The faults of a stream are spoken about by numbers in this
stream (`TokenStream.Meets`), and what is said of a suffix is carried over by
adding to the numbers (`TokenStream.token?_add`). That this goes through the
combinators is all that is needed of statements (`Parser.inOrder_kept`). For
lists of the same kinds one list is read with the numbers of its tokens written
in as places (`numbered`), and what is read of the others is like it.
-/

namespace TreeScript

/-! ## Tokens by number

The end-of-file token has a number too, since a fault may be at the end. -/

namespace TokenStream

variable {s mid rest : TokenStream}

/-- **The token with a given number**, where the end counts as the last one. -/
def token? (s : TokenStream) (i : Nat) : Option Token :=
  (s.tokens ++ [s.finish])[i]?

/-- The first number is that of the next token, at the end as well. -/
theorem token?_zero (s : TokenStream) : s.token? 0 = some s.here := by
  obtain ⟨_ | ⟨t, ts⟩, z⟩ := s <;> rfl

/-- What is left of a stream has its tokens further on: by as many as are gone.
-/
theorem token?_add (h : rest.IsSuffix s) (i : Nat) :
    s.token? (s.tokens.length - rest.tokens.length + i) = rest.token? i := by
  obtain ⟨ts, z⟩ := s
  obtain ⟨us, y⟩ := rest
  obtain ⟨⟨front, hfront⟩, hz⟩ := h
  obtain rfl : front ++ us = ts := hfront
  obtain rfl : y = z := hz
  show (front ++ us ++ [y])[(front ++ us).length - us.length + i]? = _
  rw [List.length_append, Nat.add_sub_cancel, List.append_assoc,
    List.getElem?_append_right (Nat.le_add_right _ _), Nat.add_sub_cancel_left]
  rfl

/-! ## Faults between two places

The relation is about a stretch of reading, from one stream to what is left of
it. Stretches are put together where one ends and the next begins. -/

/-- **The faults are met in order** while reading goes from `s` to `rest`: they
speak of tokens of `s` with numbers that never decrease, and none is behind the
next token of `rest`. -/
def Meets (s rest : TokenStream) (faults : List ParseError) : Prop :=
  ∃ indices : List Nat,
    List.Forall₂ (fun e i => s.token? i = some e.token) faults indices
      ∧ indices.Pairwise (· ≤ ·)
      ∧ ∀ i ∈ indices, i + rest.tokens.length ≤ s.tokens.length

namespace Meets

variable {faults more : List ParseError}

theorem nil (s rest : TokenStream) : s.Meets rest [] :=
  ⟨[], .nil, .nil, nofun⟩

/-- Reading may have gone further. Faults stay in front of where it has got to.
-/
theorem mono (h : s.Meets mid faults) (hrest : rest.IsSuffix mid) :
    s.Meets rest faults := by
  obtain ⟨indices, htokens, hsorted, hle⟩ := h
  refine ⟨indices, htokens, hsorted, fun i hi => ?_⟩
  exact Nat.le_trans (Nat.add_le_add_left hrest.length_le i) (hle i hi)

/-- **Faults that are met later come behind.** The first ones are not behind the
place where the others begin. -/
theorem append (h : s.Meets mid faults) (hmid : mid.IsSuffix s)
    (hmore : mid.Meets rest more) (hrest : rest.IsSuffix mid) :
    s.Meets rest (faults ++ more) := by
  have hlength := hmid.length_le
  obtain ⟨indices, htokens, hsorted, hle⟩ := h
  obtain ⟨indices', htokens', hsorted', hle'⟩ := hmore
  let shift (i : Nat) := s.tokens.length - mid.tokens.length + i
  refine ⟨indices ++ indices'.map shift, List.rel_append htokens ?_, ?_, ?_⟩
  · rw [List.forall₂_map_right_iff]
    exact htokens'.imp fun e i hi => (token?_add hmid i).trans hi
  · refine List.pairwise_append.2 ⟨hsorted, ?_, fun i hi j hj => ?_⟩
    · exact List.pairwise_map.2
        (hsorted'.imp fun hij => Nat.add_le_add_left hij _)
    · obtain ⟨k, -, rfl⟩ := List.mem_map.1 hj
      have := hle i hi
      show i ≤ s.tokens.length - mid.tokens.length + k
      omega
  · intro i hi
    rcases List.mem_append.1 hi with hi | hi
    · exact Nat.le_trans (Nat.add_le_add_left hrest.length_le i) (hle i hi)
    · obtain ⟨k, hk, rfl⟩ := List.mem_map.1 hi
      have := hle' k hk
      show s.tokens.length - mid.tokens.length + k + _ ≤ _
      omega

/-- Reading may have begun earlier. The numbers grow, all by the same. -/
theorem earlier (h : mid.Meets rest faults) (hmid : mid.IsSuffix s)
    (hrest : rest.IsSuffix mid) : s.Meets rest faults :=
  (nil s mid).append hmid h hrest

theorem here {e : ParseError} (h : e.token = s.here) : s.Meets s [e] := by
  refine ⟨[0], .cons ?_ .nil, List.pairwise_singleton _ _, ?_⟩
  · rw [token?_zero, h]
  · intro i hi
    rw [List.mem_singleton.1 hi, Nat.zero_add]

end Meets

end TokenStream

/-! ## Parsers

A parser stops with a fault or with an answer. The fault that stops it counts
with those it has recorded, as it was met last. -/

/-- All faults of a reply: those recorded on the way, and the one that stopped the
parser. -/
def Reply.faults {α : Type} (r : Reply α) : List ParseError :=
  r.recorded ++
    match r.outcome with
    | .ok _ => []
    | .error e => [e]

namespace Parser

variable {α β : Type}

/-- **The parser meets its faults in order**, between where it begins and where
it stops. This is what goes through sequences: the second part begins where the
first has stopped, so its faults are no earlier. -/
def InOrder (p : Parser α) : Prop :=
  ∀ s : TokenStream, s.Meets (p.run s).rest (p.run s).faults

/-- A reply whose faults are in order, and one that goes on from it. If the
first stops with a fault, nothing goes on. -/
theorem meets_andThen {s : TokenStream} {r : Reply α}
    {f : α → TokenStream → Reply β} (hrest : r.rest.IsSuffix s)
    (hr : s.Meets r.rest r.faults)
    (hf : ∀ a, r.outcome = .ok a → (f a r.rest).rest.IsSuffix r.rest
      ∧ r.rest.Meets (f a r.rest).rest (f a r.rest).faults) :
    s.Meets (r.andThen f).rest (r.andThen f).faults := by
  obtain ⟨_ | a, recorded, rest⟩ := r
  · exact hr
  · obtain ⟨hsuffix, hmore⟩ := hf a rfl
    have hall := hr.append hrest hmore hsuffix
    unfold Reply.faults at hall
    rw [List.append_nil, ← List.append_assoc] at hall
    exact hall

theorem inOrder_pure (a : α) : (pure a : Parser α).InOrder :=
  fun s => .nil s s

/-- A fault at the next token is met where the parser begins and stops. -/
theorem inOrder_failHere {f : Token → ParseError} (h : ParseError.AtNext f) :
    (failHere f : Parser α).InOrder :=
  fun s => .here (h.token s.here)

/-- **One parser after another.** The second begins where the first has stopped,
and is run only if the first has answered. -/
theorem InOrder.bind {p : Parser α} {f : α → Parser β} (hp : p.InOrder)
    (hf : ∀ s a, (p.run s).outcome = .ok a → (f a).InOrder) :
    (p >>= f).InOrder :=
  fun s => meets_andThen (p.rest_suffix s) (hp s) fun a ha =>
    ⟨(f a).rest_suffix _, hf s a ha _⟩

/-- **A choice by the next token.** What follows the token is met behind it. -/
theorem inOrder_onNext {f : Token → Option (Parser α)} {otherwise : Parser α}
    (hf : ∀ t p, f t = some p → p.InOrder) (ho : otherwise.InOrder) :
    (onNext f otherwise).InOrder := by
  intro s
  simp only [onNext]
  split
  · rename_i p hp
    obtain ⟨t, -, htp⟩ := Option.bind_eq_some_iff.1 hp
    exact (hf t p htp s.tail).earlier s.tail_isSuffix (p.rest_suffix _)
  · exact ho s

/-- **Chains meet their faults in order**, by induction on the tokens: an operator
is taken before its operand is read. -/
theorem meets_chainTail (table : OperatorTable) {operand : Parser Expr}
    (h : operand.InOrder) (lhs : Expr) (s : TokenStream) :
    s.Meets (chainTail table operand lhs s).rest
      (chainTail table operand lhs s).faults := by
  induction hlen : s.tokens.length using Nat.strongRecOn
    generalizing s lhs with
  | ind n ih =>
    obtain ⟨_ | ⟨t, ts⟩, z⟩ := s
    · rw [chainTail_of_none (by simp)]
      exact .nil _ _
    cases hop : table.find? t with
    | none =>
      rw [chainTail_of_none (by simpa using hop)]
      exact .nil _ _
    | some op =>
      have hoperand := operand.rest_suffix ⟨ts, z⟩
      have hlt : (operand.run ⟨ts, z⟩).rest.tokens.length < n := by
        rw [← hlen]
        exact Nat.lt_succ_of_le hoperand.length_le
      have hmeets := meets_andThen (f := fun rhs => chainTail table operand
          (.binary op lhs rhs)) hoperand (h ⟨ts, z⟩) fun rhs _ =>
        ⟨chainTail_rest_isSuffix table operand _ _, ih _ hlt _ _ rfl⟩
      rw [chainTail_of_some hop]
      exact hmeets.earlier (TokenStream.tail_isSuffix ⟨t :: ts, z⟩)
        (Reply.andThen_rest_isSuffix _ _ hoperand fun rhs =>
          chainTail_rest_isSuffix table operand _)

theorem InOrder.chain (table : OperatorTable) {operand : Parser Expr}
    (h : operand.InOrder) : (operand.chain table).InOrder :=
  fun s => meets_andThen (operand.rest_suffix s) (h s) fun lhs _ =>
    ⟨chainTail_rest_isSuffix table operand lhs _, meets_chainTail table h lhs _⟩

/-- Behind a clean reading, a parser goes on as from a start of its own. -/
theorem Reads.run_bind {p : Parser α} {z : Token} {ts us : List Token} {a : α}
    (h : p.Reads z ts a us) (f : α → Parser β) :
    (p >>= f).run ⟨ts, z⟩ = (f a).run ⟨us, z⟩ := by
  show (p.run ⟨ts, z⟩).andThen _ = _
  rw [show p.run ⟨ts, z⟩ = ⟨.ok a, [], ⟨us, z⟩⟩ from h]
  rfl

end Parser

/-! ## Assignments

When it turns out that an assignment has no target, its right side was read and
the next token is far behind. The fault speaks of the equal sign, which lies in
front of all that was taken since. -/

namespace Levels

variable {inner : Levels}

/-- **The right side of an assignment**, behind an equal sign at the front of `s`.
That the left side is no name is said of the equal sign, and then nothing is said
of the right side. -/
theorem meets_assignTo (hq : inner.expression.parser.Quiet)
    (he : inner.expression.parser.InOrder) (target : Expr) {equals : Token}
    {s : TokenStream} (hs : s.here = equals) :
    let r := (inner.expression.parser >>= assignTo target equals).run s.tail
    s.Meets r.rest r.faults := by
  have hexpression := he s.tail
  have hquiet := hq s.tail
  have hrest := inner.expression.parser.rest_suffix s.tail
  show s.Meets ((inner.expression.parser.run s.tail).andThen _).rest
    ((inner.expression.parser.run s.tail).andThen _).faults
  generalize inner.expression.parser.run s.tail = r at *
  obtain ⟨_ | value, recorded, rest⟩ := r
  · exact hexpression.earlier s.tail_isSuffix hrest
  · obtain rfl : recorded = [] := hquiet
    have hequals : s.Meets rest [.invalidAssignmentTarget equals] :=
      have hfault : (ParseError.invalidAssignmentTarget equals).token = s.here :=
        hs.symm
      (TokenStream.Meets.here hfault).mono (hrest.trans s.tail_isSuffix)
    cases target with
    | reference name => exact .nil _ _
    | _ => exact hequals

/-- **What stands behind a target meets its faults in order**, with or without
an equal sign. If there is one, the parser is followed from it on, as the equal
sign is known only there. -/
theorem inOrder_behindTarget (hq : inner.expression.parser.Quiet)
    (he : inner.expression.parser.InOrder) (target : Expr) :
    (inner.behindTarget target).InOrder := by
  rintro ⟨ts, z⟩
  unfold behindTarget
  by_cases h : ∃ t ∈ ts.head?, t.kind = .punctuator .equal
  · obtain ⟨t, ht, hkind⟩ := h
    obtain ⟨us, rfl⟩ := List.head?_eq_some_iff.1 ht
    have hsome : (Parser.accept .equal).Reads z (t :: us) (some t) us :=
      Parser.reads_accept.2 (.inl ⟨t, rfl, hkind, rfl⟩)
    rw [hsome.run_bind]
    exact meets_assignTo hq he target (s := ⟨t :: us, z⟩) rfl
  · have hother : ∀ t ∈ ts.head?, t.kind ≠ .punctuator .equal :=
      fun t ht hkind => h ⟨t, ht, hkind⟩
    have hnone : (Parser.accept .equal).Reads z ts none ts :=
      Parser.reads_accept.2 (.inr ⟨rfl, rfl, hother⟩)
    rw [hnone.run_bind]
    exact .nil _ _

end Levels

/-! ## Sequences of declarations

A declaration that is dropped leaves its fault, and then tokens are skipped.
Skipping only goes on, so the order is kept. -/

/-- What one declaration of a sequence records are all its faults: also the one
that has stopped it, as the sequence goes on. -/
theorem Rule.recorded_once (item : Rule Stmt) (s : TokenStream) :
    (item.once s).recorded = (item.run s).faults := by
  unfold once Reply.faults
  dsimp only
  cases (item.run s).outcome with
  | ok d => exact (List.append_nil _).symm
  | error e => rfl

/-- Reading resumes no earlier than where the declaration was given up. -/
theorem Rule.once_rest_isSuffix_run (item : Rule Stmt) (s : TokenStream) :
    (item.once s).rest.IsSuffix (item.run s).rest := by
  unfold once
  dsimp only
  split
  · exact .refl _
  · exact resync_isSuffix s _

theorem Rule.meets_once {item : Rule Stmt} (h : item.parser.InOrder)
    (s : TokenStream) :
    s.Meets (item.once s).rest (item.once s).recorded := by
  rw [recorded_once]
  exact (h s).mono (item.once_rest_isSuffix_run s)

/-- **A sequence meets its faults in order**, by induction on the tokens: each
declaration begins where reading resumed after the one before. -/
theorem meets_declarations (stop : Token → Bool) {item : Rule Stmt}
    (h : item.parser.InOrder) (s : TokenStream) :
    s.Meets (declarations stop item s).rest
      (declarations stop item s).recorded := by
  induction hlen : s.tokens.length using Nat.strongRecOn generalizing s with
  | ind n ih =>
    obtain ⟨_ | ⟨t, ts⟩, z⟩ := s
    · rw [declarations_nil]
      exact .nil _ _
    cases hstop : stop t with
    | true =>
      rw [declarations_of_stop hstop]
      exact .nil _ _
    | false =>
      have hlt := item.length_once_lt (s := ⟨t :: ts, z⟩) (List.cons_ne_nil t ts)
      have hmore := ih _ (hlen ▸ hlt) (item.once ⟨t :: ts, z⟩).rest rfl
      rw [declarations_eq_append item hstop]
      exact (Rule.meets_once h _).append (item.once_rest_isSuffix _) hmore
        (declarations_rest_isSuffix stop item _)

/-- A sequence as a parser never stops with a fault of its own. -/
theorem Parser.inOrder_declarations (stop : Token → Bool) {item : Rule Stmt}
    (h : item.parser.InOrder) : (Parser.declarations stop item).InOrder := by
  intro s
  have hmeets := meets_declarations stop h s
  rwa [← List.append_nil (TreeScript.declarations stop item s).recorded]
    at hmeets

/-! ## All rules

The rest of the grammar is combinators. -/

/-- **The combinators meet their faults in order.** Nothing less is asked behind
a token. -/
theorem Parser.inOrder_kept : KeptBySequences InOrder InOrder where
  weaken h := h
  ret := inOrder_pure
  bind := InOrder.bind
  failHere := inOrder_failHere
  onNext := inOrder_onNext
  here := fun s => .nil s s
  nextIs _ := fun s => .nil s s
  behind_bind := InOrder.bind
  declarations := inOrder_declarations _

/-- **Expressions meet their faults in order**, whatever the budget. Only
assignments need to be looked at, because their fault lies behind, and here it
matters that nothing was recorded since. -/
theorem Rule.inOrder_expression (b : Nat) : (expression b).parser.InOrder :=
  (Parser.inOrder_kept.levels (fun table _ h => h.chain table)
    (fun b target he =>
      Levels.inOrder_behindTarget (levels_quiet b).1 he target) b).1

/-- **Declarations meet their faults in order**, whatever the budget, since
expressions do. -/
theorem Rule.inOrder_declaration (b : Nat) :
    (declaration (.expression b) (.statement b)).parser.InOrder :=
  (Parser.inOrder_kept.statement inOrder_expression b).2

/-! ## Programs

A list without an end-of-file token is read as if one stood behind it. A fault
may be at this token, which is in no list, so it is put into the list for what
follows. -/

theorem TokenStream.meets_program (s : TokenStream) :
    s.Meets s.program.rest s.program.recorded :=
  meets_declarations _ (Rule.inOrder_declaration nestingBudget) s

/-- **A token list with the end-of-file token that is implied behind it**, at the
place of its last token. -/
def withEnd (ts : List Token) : List Token :=
  ts ++ [.endOfFile ((ts.getLast?.map Token.span).getD .unknown)]

section WithEnd

variable (ts : List Token)

theorem exists_isEnd_withEnd : ∃ t ∈ withEnd ts, t.isEnd = true :=
  ⟨_, List.mem_append_right ts (List.mem_singleton_self _), rfl⟩

/-- The implied token changes nothing: it is the one that the stream gets
anyway, and if there is another in front of it, it is never reached. -/
theorem ofTokens_withEnd :
    TokenStream.ofTokens (withEnd ts) = TokenStream.ofTokens ts := by
  unfold withEnd
  cases hfind : ts.find? Token.isEnd with
  | some z =>
    obtain ⟨hz, front, behind, rfl, hfront⟩ := List.find?_eq_some_iff_append.1 hfind
    have hno : ∀ t ∈ front, t.isEnd = false := by simpa using hfront
    rw [List.append_assoc, ofTokens_append hno (by simp),
      ofTokens_append hno (by simp), List.cons_append, ofTokens_cons_end hz,
      ofTokens_cons_end hz]
  | none =>
    have hno : ∀ t ∈ ts, t.isEnd = false := by simpa using hfind
    have hall : ts.takeWhile (fun t => !t.isEnd) = ts :=
      List.takeWhile_eq_self_iff.2 fun t ht => by rw [hno t ht]; rfl
    rw [ofTokens_append hno (by simp), ofTokens_cons_end rfl, List.append_nil]
    unfold TokenStream.ofTokens
    rw [hfind, hall]

theorem parse_withEnd : parse (withEnd ts) = parse ts := by
  unfold parse
  rw [ofTokens_withEnd]

/-- The implied token has the same kind whatever the list. -/
theorem kinds_withEnd :
    (withEnd ts).map Token.kind = ts.map Token.kind ++ [.endOfFile] := by
  unfold withEnd
  rw [List.map_append]
  rfl

end WithEnd

/-- The tokens of a stream and its end stand at the front of a list that has an
end-of-file token. -/
theorem getElem?_of_token? {ts : List Token} (hend : ∃ t ∈ ts, t.isEnd = true)
    {i : Nat} {t : Token} (h : (TokenStream.ofTokens ts).token? i = some t) :
    ts[i]? = some t := by
  obtain ⟨z, hfind⟩ := Option.isSome_iff_exists.1 (List.find?_isSome.2 hend)
  obtain ⟨hz, front, behind, rfl, hfront⟩ := List.find?_eq_some_iff_append.1 hfind
  have hno : ∀ t ∈ front, t.isEnd = false := by simpa using hfront
  unfold TokenStream.token? at h
  rw [ofTokens_append hno (by simp), ofTokens_cons_end hz, List.append_nil] at h
  obtain ⟨hi, -⟩ := List.getElem?_eq_some_iff.1 h
  rw [List.append_cons front z behind, List.getElem?_append_left hi, h]

/-! ## Numbers of tokens

Two tokens of a list may be equal, so a fault that has a token does not say
which one it means. In the numbered list no two tokens are equal. It has the
same kinds, and a parser sees nothing else. -/

/-- The tokens with their numbers for places. -/
def numbered (ts : List Token) : List Token :=
  ts.mapIdx fun i t => { t with span := ⟨"", 0, i⟩ }

/-- A token is like the one of the list that has its number. -/
def Likeness.byNumber (us : List Token) : Likeness where
  rel t u := t.kind = u.kind ∧ us[t.span.column]? = some u
  kind_eq h := h.1

variable {ts us : List Token}

/-- Each token of the numbered list is like the one with its number, in any list
of the same kinds. -/
theorem forall₂_byNumber (h : us.map Token.kind = ts.map Token.kind) :
    List.Forall₂ (Likeness.byNumber us).rel (numbered ts) us := by
  have hlen : us.length = ts.length := by simpa using congrArg List.length h
  refine List.forall₂_iff_get.2 ⟨?_, fun i hi hu => ?_⟩
  · rw [numbered, List.length_mapIdx, hlen]
  · have hkind := congrArg (·[i]?) h
    simp only [List.get_eq_getElem, numbered, List.getElem_mapIdx]
    refine ⟨?_, List.getElem?_eq_getElem hu⟩
    have hi : i < ts.length := hlen ▸ hu
    simpa [hu, hi] using hkind.symm

theorem column_of_numbered {i : Nat} {t : Token}
    (h : (numbered ts)[i]? = some t) : t.span.column = i := by
  rw [numbered, List.getElem?_mapIdx] at h
  obtain ⟨u, -, rfl⟩ := Option.map_eq_some_iff.1 h
  rfl

theorem exists_isEnd_numbered (h : ∃ t ∈ ts, t.isEnd = true) :
    ∃ t ∈ numbered ts, t.isEnd = true := by
  obtain ⟨t, ht, hz⟩ := h
  obtain ⟨i, hi, rfl⟩ := List.mem_iff_getElem.1 ht
  exact ⟨_, List.mem_mapIdx.2 ⟨i, hi, rfl⟩, hz⟩

/-- Faults that are alike speak of tokens that are alike. -/
theorem ParseError.Like.token {L : Likeness} {e f : ParseError} (h : e.Like L f) :
    L.rel e.token f.token := by
  cases h <;> assumption

/-- **The numbers of the faults** of a token list, found by reading the numbered
list. A fault keeps its token but not where the token stood, and equal tokens
are told apart by numbering them first. -/
def faultNumbers (ts : List Token) : List Nat :=
  (parse (numbered (withEnd ts))).errors.map (·.token.span.column)

/-- **The numbers of the faults never decrease**, and none is behind the first
end-of-file token. In the numbered list the number of a token is its place, so
the order of numbers is read off the faults themselves. -/
theorem faultNumbers_sorted (ts : List Token) :
    (faultNumbers ts).Pairwise (· ≤ ·)
      ∧ ∀ i ∈ faultNumbers ts, i ≤ ts.findIdx Token.isEnd := by
  have hend := exists_isEnd_numbered (exists_isEnd_withEnd ts)
  have hlength := (like_ofTokens (forall₂_byNumber rfl) hend).length_eq
  rw [ofTokens_withEnd, TokenStream.length_ofTokens ts] at hlength
  obtain ⟨indices, htokens, hsorted, hle⟩ :=
    (TokenStream.ofTokens (numbered (withEnd ts))).meets_program
  have hnumbers : faultNumbers ts = indices := by
    unfold faultNumbers
    rw [← List.forall₂_eq_eq_eq, List.forall₂_map_left_iff]
    exact htokens.imp fun e i h => column_of_numbered (getElem?_of_token? hend h)
  rw [hnumbers]
  refine ⟨hsorted, fun i hi => ?_⟩
  rw [← hlength]
  exact Nat.le_of_add_right_le (hle i hi)

/-- **The faults speak of the tokens with these numbers**, in every list with
tokens of the same kinds. -/
theorem forall₂_faultNumbers (h : us.map Token.kind = ts.map Token.kind) :
    List.Forall₂ (fun e i => (withEnd us)[i]? = some e.token) (parse us).errors
      (faultNumbers ts) := by
  have hkinds : (withEnd us).map Token.kind = (withEnd ts).map Token.kind := by
    rw [kinds_withEnd, kinds_withEnd, h]
  have halike := (like_parse (forall₂_byNumber hkinds)
    (exists_isEnd_numbered (exists_isEnd_withEnd ts))).2
  rw [← parse_withEnd us, faultNumbers, List.forall₂_map_right_iff]
  exact List.Forall₂.flip (halike.imp fun e f h => h.token.2)

/-! ## Places of faults

In a text, tokens with higher numbers stand further on, and so the order of
numbers is one of lines and columns. -/

/-- The place is not behind another one of the same text. -/
def Span.NotBehind (a b : Span) : Prop :=
  a.line < b.line ∨ a.line = b.line ∧ a.column ≤ b.column

section Scan

variable {source : SourceText}

/-- The tokens of a text have increasing places. -/
theorem pairwise_precedes_scan (source : SourceText) :
    source.scan.tokens.Pairwise
      fun t u => t.span.position.Precedes u.span.position := by
  obtain ⟨anchors, hspans, hincreasing, hle⟩ :=
    exists_anchors (maximalMunch_segments source.text.toList)
  have hpairwise : (anchors.map source.place).Pairwise
      fun a b => a.position.Precedes b.position :=
    List.pairwise_map.2 (hincreasing.imp_of_mem fun _ hn hlt =>
      SourceText.place_precedes hlt (hle _ hn))
  rwa [← hspans, List.pairwise_map] at hpairwise

/-- Tokens with higher numbers have later places. -/
theorem notBehind_of_le {i j : Nat} {t u : Token} (hij : i ≤ j)
    (hi : source.scan.tokens[i]? = some t)
    (hj : source.scan.tokens[j]? = some u) : t.span.NotBehind u.span := by
  rcases Nat.eq_or_lt_of_le hij with rfl | hlt
  · obtain rfl : t = u := Option.some.inj (hi.symm.trans hj)
    exact .inr ⟨rfl, Nat.le_refl _⟩
  · obtain ⟨hi', rfl⟩ := List.getElem?_eq_some_iff.1 hi
    obtain ⟨hj', rfl⟩ := List.getElem?_eq_some_iff.1 hj
    have hprecedes := List.pairwise_iff_getElem.1
      (pairwise_precedes_scan source) i j hi' hj' hlt
    exact hprecedes.imp_right fun ⟨hline, hcolumn⟩ =>
      ⟨hline, Nat.le_of_lt hcolumn⟩

/-- The tokens of a text have an end, so the implied one is never meant. -/
theorem getElem?_withEnd_scan {i : Nat}
    (h : i ≤ source.scan.tokens.findIdx Token.isEnd) :
    (withEnd source.scan.tokens)[i]? = source.scan.tokens[i]? := by
  have hend : source.scan.tokens.findIdx Token.isEnd
      < source.scan.tokens.length := by
    rw [List.findIdx_lt_length, source.tokens_eq]
    exact ⟨_, List.mem_append_right _ (List.mem_singleton_self _), rfl⟩
  exact List.getElem?_append_left (Nat.lt_of_le_of_lt h hend)

/-- **The faults of a text have places in order**, by the numbers of their
tokens. -/
theorem pairwise_notBehind_errors (source : SourceText) :
    (parse source.scan.tokens).errors.Pairwise
      fun e f => e.token.span.NotBehind f.token.span := by
  obtain ⟨hsorted, hle⟩ := faultNumbers_sorted source.scan.tokens
  let token? (i : Nat) := (withEnd source.scan.tokens)[i]?
  have hnumbers : (faultNumbers source.scan.tokens).map token?
      = (parse source.scan.tokens).errors.map (some ·.token) := by
    rw [← List.forall₂_eq_eq_eq, List.forall₂_map_left_iff,
      List.forall₂_map_right_iff]
    exact List.Forall₂.flip (forall₂_faultNumbers rfl)
  have hplaces : ((faultNumbers source.scan.tokens).map token?).Pairwise
      fun o o' => ∀ t ∈ o, ∀ u ∈ o', t.span.NotBehind u.span := by
    refine List.pairwise_map.2 (hsorted.imp_of_mem ?_)
    intro i j hi hj hij t ht u hu
    exact notBehind_of_le hij ((getElem?_withEnd_scan (hle i hi)).symm.trans ht)
      ((getElem?_withEnd_scan (hle j hj)).symm.trans hu)
  rw [hnumbers, List.pairwise_map] at hplaces
  exact hplaces.imp fun h => h _ rfl _ rfl

end Scan

/-- **Faults come in the order of the text.** Whatever the tokens are, the faults
speak of tokens with numbers that never decrease, and none is behind the first
end-of-file token, where one that is implied counts as the last. Which numbers
these are depends on the kinds of the tokens alone, so tokens that look the same
are told apart. Hence the diagnostics for the grammar of every text are in the
order of lines and columns. -/
theorem parse_faults_in_order :
    (∀ ts : List Token, ∃ indices : List Nat,
        indices.Pairwise (· ≤ ·)
        ∧ (∀ i ∈ indices, i ≤ ts.findIdx Token.isEnd)
        ∧ ∀ us : List Token, us.map Token.kind = ts.map Token.kind →
          List.Forall₂ (fun e i => (withEnd us)[i]? = some e.token)
            (parse us).errors indices)
    ∧ ∀ source : SourceText,
        ((parse source.scan.tokens).errors.map ParseError.diagnostic).Pairwise
          fun d e => d.span.NotBehind e.span := by
  refine ⟨fun ts => ?_, fun source => ?_⟩
  · obtain ⟨hsorted, hle⟩ := faultNumbers_sorted ts
    exact ⟨faultNumbers ts, hsorted, hle, fun us h => forall₂_faultNumbers h⟩
  · exact List.pairwise_map.2 (pairwise_notBehind_errors source)

-- An assignment to a number, and a semicolon with nothing in front of it.
example : faultNumbers ([.number, .punctuator .equal, .number,
    .punctuator .semicolon, .punctuator .semicolon].map .ofKind) = [1, 4] := by
  cbv

end TreeScript
