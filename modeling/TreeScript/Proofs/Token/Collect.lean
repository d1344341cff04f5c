import TreeScript.Proofs.Token.Strings

/-!
# Calling a lexer to the end

A lexer is called for one token at a time. What it will give is a list
(`Lexer.remaining`): the tokens ahead and the end of the text, or nothing once the
end was handed out. A call takes the first element of this list, adds the errors
that it meets on the way to those met before, and loses none (`Lexer.next_spec`).
So the calls give the tokens of the text one after the other and then nothing, and
collecting them is scanning the text (`calls_collect`).

Each segment pays for what it yields with its characters (`Segment.yield_le`), which
bounds the tokens and errors of a text by its length.

The specification of a call (`Lexer.Calls`) is kept small on purpose: what
remains, and what was recorded. Everything about any number of calls follows
from it and is said of lists (`List.drop`, `<+:`), so that calls need no
induction of their own below `Lexer.afterCalls_spec`.
-/

namespace TreeScript

namespace Lexer

/-! ## One call

A call makes rounds until one gives a token. The induction over these rounds is
done here. -/

/-- **The tokens that calls will give.** A call takes the first of them. -/
def remaining (l : Lexer) : List Token := if l.ended then [] else l.upcoming

/-- The errors that were met, and those ahead. -/
def allErrors (l : Lexer) : List LexicalError :=
  l.errors ++ l.pending.flatMap fun (p, g) => g.errors l.file p

/-- **Nothing is ahead once the end of the text was handed out.** -/
def Sound (l : Lexer) : Prop := l.ended = true → l.pending = []

/-- **What a call does**: it gives the first of the remaining tokens, and
records errors behind those that were met before. The errors that are ahead
become errors that were met; together they stay the same. -/
structure Calls (l : Lexer) (answer : Option Token) (l' : Lexer) : Prop where
  /-- The answer is the first of the remaining tokens. -/
  answer : answer = l.remaining.head?
  /-- The others remain. -/
  remaining : l'.remaining = l.remaining.tail
  /-- Errors move from those ahead to those that were met. -/
  allErrors : l'.allErrors = l.allErrors
  /-- The errors that were met before are kept. -/
  recorded : l.errors <+: l'.errors
  /-- The next call can rely on the same. -/
  sound : l'.Sound

variable {l : Lexer} {p : Position} {g : Segment}
  {rest : List (Position × Segment)}

/-- Before the end was handed out, all that is upcoming remains. -/
theorem remaining_of_not_ended (h : l.ended = false) :
    l.remaining = l.upcoming := by
  simp [remaining, h]

theorem allErrors_round (h : l.pending = (p, g) :: rest) :
    l.round.allErrors = l.allErrors := by
  rw [round_of_cons h, allErrors, allErrors, h, List.flatMap_cons,
    List.append_assoc]

/-- After the end of the text, a call gives nothing and records nothing. -/
theorem next_of_ended (h : l.ended = true) (hpending : l.pending = []) :
    l.next = (none, l) := by
  obtain ⟨file, pending, finish, errors, ended⟩ := l
  obtain rfl : pending = [] := hpending
  obtain rfl : ended = true := h
  simp [next, advance]

/-- A call with the text in front of it, by induction on the segments ahead. -/
theorem calls_of_not_ended (h : l.ended = false) :
    l.Calls l.next.1 l.next.2 := by
  have hremaining := remaining_of_not_ended h
  generalize hgs : l.pending = gs
  induction gs generalizing l with
  | nil =>
    rw [next_of_nil hgs h]
    refine ⟨?_, ?_, rfl, List.prefix_refl _, fun _ => hgs⟩
    · rw [hremaining, upcoming, hgs]
      rfl
    · rw [hremaining, upcoming, hgs]
      rfl
  | cons pg rest ih =>
    obtain ⟨p, g⟩ := pg
    have hupcoming := upcoming_of_cons hgs
    have hround : l.round.ended = false ∧ l.round.pending = rest := by
      rw [round_of_cons hgs]
      exact ⟨h, rfl⟩
    have hrecorded : l.errors <+: l.round.errors := by
      rw [round_of_cons hgs]
      exact List.prefix_append _ _
    have hahead := remaining_of_not_ended hround.1
    cases ht : g.token? l.file p with
    | some t =>
      rw [ht] at hupcoming
      rw [next_of_some hgs ht]
      refine ⟨?_, ?_, allErrors_round hgs, hrecorded, fun hended => ?_⟩
      · rw [hremaining, hupcoming]
        rfl
      · rw [hremaining, hupcoming, hahead]
        rfl
      · rw [hround.1] at hended
        cases hended
    | none =>
      rw [ht] at hupcoming
      rw [next_of_none hgs ht]
      have hcalls := ih hround.1 hahead hround.2
      have hsame : l.round.remaining = l.remaining := by
        rw [hremaining, hupcoming, hahead]
        rfl
      exact ⟨hsame ▸ hcalls.answer, hsame ▸ hcalls.remaining,
        hcalls.allErrors.trans (allErrors_round hgs),
        hrecorded.trans hcalls.recorded, hcalls.sound⟩

/-- **Every call takes one step along the remaining tokens.** This is the only
statement about the inside of a call; it covers the call that hands out the end
of the text and those behind it. -/
theorem next_spec (h : l.Sound) : l.Calls l.next.1 l.next.2 := by
  cases hended : l.ended with
  | false => exact calls_of_not_ended hended
  | true =>
    have hremaining : l.remaining = [] := by simp [remaining, hended]
    rw [next_of_ended hended (h hended)]
    refine ⟨?_, ?_, rfl, List.prefix_refl _, h⟩
    · rw [hremaining]
      rfl
    · rw [hremaining]
      rfl

/-! ## Any number of calls

The answers of calls are the elements of a list. -/

/-- The lexer after `n` calls. -/
def afterCalls (l : Lexer) (n : Nat) : Lexer := (fun l => l.next.2)^[n] l

theorem afterCalls_succ (l : Lexer) (n : Nat) :
    l.afterCalls (n + 1) = (l.afterCalls n).next.2 :=
  Function.iterate_succ_apply' ..

/-- **After `n` calls**, all remaining tokens but the first `n` remain. All
errors are accounted for at any time, be they met or ahead. -/
theorem afterCalls_spec (h : l.Sound) (n : Nat) :
    (l.afterCalls n).Sound
      ∧ (l.afterCalls n).remaining = l.remaining.drop n
      ∧ (l.afterCalls n).allErrors = l.allErrors := by
  induction n with
  | zero => exact ⟨h, rfl, rfl⟩
  | succ n ih =>
    obtain ⟨hsound, hremaining, herrors⟩ := ih
    have hcall := next_spec hsound
    rw [afterCalls_succ]
    refine ⟨hcall.sound, ?_, hcall.allErrors.trans herrors⟩
    rw [hcall.remaining, hremaining, List.tail_drop]

/-- **The answers are the remaining tokens**, by number, and none behind them. -/
theorem answer_eq_getElem? (h : l.Sound) (n : Nat) :
    (l.afterCalls n).next.1 = l.remaining[n]? := by
  obtain ⟨hsound, hremaining, -⟩ := afterCalls_spec h n
  rw [(next_spec hsound).answer, hremaining, List.head?_drop]

/-- Errors are recorded for good. -/
theorem errors_prefix (h : l.Sound) {m n : Nat} (hmn : m ≤ n) :
    (l.afterCalls m).errors <+: (l.afterCalls n).errors := by
  induction hmn with
  | refl => exact List.prefix_refl _
  | @step n _ ih =>
    rw [afterCalls_succ]
    exact ih.trans (next_spec (afterCalls_spec h n).1).recorded

/-- A lexer with no tokens left has handed out the end of the text. -/
theorem ended_of_remaining (h : l.remaining = []) : l.ended = true := by
  unfold remaining at h
  split at h
  · assumption
  · simp [upcoming] at h

/-- After the last token, calls give nothing and change nothing, and all errors
have been recorded. -/
theorem exhausted (h : l.Sound) {n : Nat} (hn : l.remaining.length ≤ n) :
    (l.afterCalls n).next = (none, l.afterCalls n)
      ∧ (l.afterCalls n).errors = l.allErrors := by
  obtain ⟨hsound, hremaining, herrors⟩ := afterCalls_spec h n
  rw [List.drop_eq_nil_of_le hn] at hremaining
  have hended := ended_of_remaining hremaining
  have hpending := hsound hended
  refine ⟨next_of_ended hended hpending, ?_⟩
  rw [← herrors, allErrors, hpending]
  exact (List.append_nil _).symm

/-- **Collecting gives all remaining tokens and all errors.** Collecting stops
at the first call without a token, and by then nothing remains. -/
theorem collectAll_eq (h : l.Sound) :
    l.collectAll = ⟨l.remaining, l.allErrors⟩ := by
  fun_induction collectAll l with
  | case1 l t l' hnext rest ih =>
    have hcall := next_spec h
    rw [hnext] at hcall
    have hrest : rest = ⟨l.remaining.tail, l.allErrors⟩ := by
      rw [← hcall.remaining, ← hcall.allErrors]
      exact ih hcall.sound
    rw [hrest]
    exact congrArg (Scan.mk · _) (List.cons_head?_tail hcall.answer.symm)
  | case2 l l' hnext =>
    have hcall := next_spec h
    rw [hnext] at hcall
    have hremaining : l.remaining = [] :=
      List.head?_eq_none_iff.1 hcall.answer.symm
    have hended := ended_of_remaining hremaining
    have hsame : l' = l := by
      rw [next_of_ended hended (h hended)] at hnext
      exact (congrArg Prod.snd hnext).symm
    rw [hsame, hremaining, allErrors, h hended]
    exact congrArg _ (List.append_nil _).symm

/-- A lexer at the start of a text has not handed out its end. -/
theorem sound_ofSource (s : SourceText) : (ofSource s).Sound := nofun

end Lexer

/-! ## The budget

What a text can yield, counted by its characters. The units of a string have
their errors inside the string, so they are paid for by the characters between
the quotes. -/

/-- Each error of units has two characters to itself. -/
theorem length_unitErrors_le (file : String) (p : Position)
    (us : List StringUnit) :
    (unitErrors file p us).length ≤ (us.flatMap StringUnit.text).length := by
  fun_induction unitErrors file p us with
  | case1 => exact Nat.le_refl _
  | case2 p c us ih =>
    rw [List.flatMap_cons, List.length_append]
    exact Nat.le_trans ih (Nat.le_add_left _ _)
  | case3 p c us q d hd ih =>
    rw [List.flatMap_cons, List.length_append]
    exact Nat.le_trans ih (Nat.le_add_left _ _)
  | case4 p c us q hd ih =>
    have hescape : (StringUnit.escape c).text.length = 2 := rfl
    rw [List.flatMap_cons, List.length_append, List.length_cons]
    omega

/-- **A segment has a character for each token and each error it yields.** A
string has two quotes and can pay for its token with these, so that its escapes
pay for the warnings. -/
theorem Segment.yield_le (file : String) (p : Position) {g : Segment}
    (h : g.text ≠ []) :
    (g.token? file p).toList.length + (g.errors file p).length
      ≤ g.text.length := by
  have hpos := List.length_pos_iff.2 h
  cases g with
  | blank | comment => exact Nat.zero_le _
  | word | number | punctuator | stray => exact hpos
  | string us =>
    have hle := length_unitErrors_le file (p.step '"') us
    show 1 + (unitErrors file (p.step '"') us).length ≤ _
    rw [text, List.length_append, List.length_cons]
    omega
  | unclosed us dangling =>
    have hle := length_unitErrors_le file (p.step '"') us
    show 0 + (unitErrors file (p.step '"') us ++ [_]).length ≤ _
    rw [text, List.length_append, List.length_singleton, List.length_append,
      List.length_cons]
    omega

theorem text_ne_nil_of_mem_segments (cs : List Char) :
    ∀ g ∈ segments cs, g.text ≠ [] := by
  fun_induction segments cs with
  | case1 => exact List.forall_mem_nil _
  | case2 c cs ih =>
    exact List.forall_mem_cons.2 ⟨Segment.text_ne_nil_next c cs, ih⟩

/-- The tokens and errors of segments are at most as many as their characters. -/
theorem length_yields_le (file : String) (p : Position) {gs : List Segment}
    (h : ∀ g ∈ gs, g.text ≠ []) :
    ((locate p gs).filterMap fun (q, g) => g.token? file q).length
        + ((locate p gs).flatMap fun (q, g) => g.errors file q).length
      ≤ (gs.flatMap Segment.text).length := by
  induction gs generalizing p with
  | nil => exact Nat.le_refl _
  | cons g gs ih =>
    obtain ⟨hg, hgs⟩ := List.forall_mem_cons.1 h
    have hhead := Segment.yield_le file p hg
    have htail := ih (p.after g.text) hgs
    have htokens : ((locate p (g :: gs)).filterMap
          fun (q, g) => g.token? file q).length
        = (g.token? file p).toList.length
          + ((locate (p.after g.text) gs).filterMap
              fun (q, g) => g.token? file q).length := by
      rw [locate, List.filterMap_cons]
      dsimp only
      cases g.token? file p with
      | none => exact (Nat.zero_add _).symm
      | some t => exact Nat.add_comm _ _
    have herrors : ((locate p (g :: gs)).flatMap
          fun (q, g) => g.errors file q).length
        = (g.errors file p).length
          + ((locate (p.after g.text) gs).flatMap
              fun (q, g) => g.errors file q).length := by
      rw [locate, List.flatMap_cons, List.length_append]
    rw [htokens, herrors, List.flatMap_cons, List.length_append]
    omega

namespace SourceText

/-- **Tokens and errors of a text** are at most one more than its characters: the
end of the text has none to pay with. -/
theorem length_scan_le (s : SourceText) :
    s.scan.tokens.length + s.scan.errors.length ≤ s.text.length + 1 := by
  have hle : s.front.length + s.scan.errors.length
      ≤ ((TreeScript.segments s.text.toList).flatMap Segment.text).length :=
    length_yields_le s.name .start (text_ne_nil_of_mem_segments _)
  rw [flatMap_text_segments, String.length_toList] at hle
  rw [s.tokens_eq, List.length_append, List.length_singleton]
  omega

/-- The end of the text is the last token. -/
theorem length_tokens_of_isEnd {s : SourceText} {m : Nat} {t : Token}
    (hm : s.scan.tokens[m]? = some t) (ht : t.isEnd = true) :
    s.scan.tokens.length = m + 1 := by
  rw [s.tokens_eq] at hm ⊢
  have hge : ¬ m < s.front.length := by
    intro hlt
    rw [List.getElem?_append_left hlt] at hm
    rw [s.isEnd_front t (List.mem_of_getElem? hm)] at ht
    cases ht
  have hlt := (List.getElem?_eq_some_iff.1 hm).1
  rw [List.length_append, List.length_singleton] at hlt ⊢
  omega

end SourceText

/-! ## Scanning by calls

From the lexer at the start of a text. -/

/-- **Scanning ends with exactly one end of file.** Calling a lexer until it gives
nothing collects the tokens and errors of the text. The tokens are given one by
one, call after call. The last of them is the end of the text, and no other one
is. Tokens and errors together are at most one more than the characters of the
text. Errors are recorded behind those of earlier calls, and every call behind the
one that gives the end of the text gives nothing and records nothing. -/
theorem calls_collect (s : SourceText) :
    let l := Lexer.ofSource s
    l.collectAll = s.scan
      ∧ (∀ n, (l.afterCalls n).next.1 = s.scan.tokens[n]?)
      ∧ (∃ front last, s.scan.tokens = front ++ [last] ∧ last.isEnd = true
          ∧ ∀ t ∈ front, t.isEnd = false)
      ∧ s.scan.tokens.length + s.scan.errors.length ≤ s.text.length + 1
      ∧ (∀ m n, m ≤ n → (l.afterCalls m).errors <+: (l.afterCalls n).errors)
      ∧ ∀ m t, (l.afterCalls m).next.1 = some t → t.isEnd = true →
          (l.afterCalls (m + 1)).errors = s.scan.errors
          ∧ ∀ n, m < n → (l.afterCalls n).next = (none, l.afterCalls n) := by
  intro l
  have hsound : l.Sound := Lexer.sound_ofSource s
  refine ⟨Lexer.collectAll_eq hsound, fun n => Lexer.answer_eq_getElem? hsound n,
    ⟨_, _, s.tokens_eq, rfl, s.isEnd_front⟩, s.length_scan_le,
    fun m n => Lexer.errors_prefix hsound, fun m t hm ht => ?_⟩
  rw [Lexer.answer_eq_getElem? hsound] at hm
  have hremaining : l.remaining.length = m + 1 :=
    SourceText.length_tokens_of_isEnd hm ht
  exact ⟨(Lexer.exhausted hsound (Nat.le_of_eq hremaining)).2,
    fun n hn => (Lexer.exhausted hsound (by omega)).1⟩

end TreeScript
