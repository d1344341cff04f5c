import TreeScript.Proofs.Exec.Layout
import TreeScript.Proofs.Session.Lines

/-!
# A session over a text agrees with a run of the text

The lines of a text may be entered into a session, one by one, or the text may be
run as a whole. If each line is free of errors when it is read alone, this makes
no difference (`session_agrees_run`).

* The tokens of the text are those of its lines, up to places, since no token
  goes on behind a line feed (`segments_flatten`).
* Sequences of declarations that follow the grammar may be put together. No
  declaration begins with `else`, so no line completes a branch of the line in
  front of it. The statements of the text are therefore those of its lines, up to
  places (`like_lines`).
* Statements are executed in order, whether from one text or from several
  (`Stmt.execAll_append`), and what is printed does not depend on what was
  printed before (`Stmt.Like.abreast`).

The first two are about reading and say nothing of execution, the third is about
execution only. Errors are what ties them: a line with an error would be run in
part by the session and not at all by the whole text, so that lines are assumed
to have none. A line that is stopped by an error of its own is no such line;
then both stop there, and nothing more is claimed.
-/

namespace TreeScript

open Grammar

/-! ## Reading lines

From the lines to the text: segments, tokens, the grammar, statements. -/

/-- Declarations in front of declarations are declarations. -/
theorem Grammar.Sequence.append {ts us : List Token} {ss vs : List Stmt}
    {i j : Nat} (h : Sequence ts ss i) (h' : Sequence us vs j) :
    Sequence (ts ++ us) (ss ++ vs) (max i j) := by
  induction ss generalizing ts i with
  | nil =>
    cases h
    rwa [List.nil_append, List.nil_append, Nat.zero_max]
  | cons s ss ih =>
    cases h with
    | cons hd hs =>
      rw [List.append_assoc, List.cons_append, Nat.max_assoc]
      exact .cons hd (ih hs)

/-- A line of a session as a source text. -/
def lineSource (l : List Char) : SourceText :=
  ⟨Session.lineName, String.ofList l⟩

/-- **A text is read without an error** if it has no faulty segments and follows
the grammar. In this form the condition can be taken apart into the lines of the
text. -/
theorem SourceText.errorCount_eq_zero_iff (source : SourceText) :
    source.read.errorCount = 0
      ↔ (∀ g ∈ TreeScript.segments source.text.toList, g.isFault = false)
        ∧ (parse source.scan.tokens).errors = [] := by
  rw [source.errorCount_read, source.errors_countP, Nat.add_eq_zero_iff,
    List.countP_eq_zero, List.length_eq_zero_iff]
  simp only [Bool.not_eq_true]

/-- The tokens of a text that follows the grammar are a sequence of
declarations. -/
theorem sequence_front {source : SourceText}
    (h : (parse source.scan.tokens).errors = []) :
    ∃ n, n ≤ nestingBudget
      ∧ Sequence source.front source.read.statements n := by
  have hparse : parse source.scan.tokens = ⟨source.read.statements, []⟩ := by
    rw [← h]
    rfl
  have hend : (Token.endOfFile (source.spanAt source.finish)).isEnd = true := rfl
  rw [parse_eq_iff, source.tokens_eq,
    ofTokens_append source.isEnd_front (List.cons_ne_nil _ []),
    ofTokens_end hend, List.append_nil] at hparse
  exact hparse

section Lines

variable {lines : List (List Char)}

/-- The induction puts one line in front of the others. A line has no `else` in
front, so the sequence is that of the whole. -/
theorem sequence_lines
    (h : ∀ l ∈ lines, (parse (lineSource l).scan.tokens).errors = []) :
    ∃ n, n ≤ nestingBudget
      ∧ Sequence (lines.flatMap fun l => (lineSource l).front)
          (lines.flatMap fun l => (lineSource l).read.statements) n := by
  induction lines with
  | nil => exact ⟨0, Nat.zero_le _, .nil⟩
  | cons l ls ih =>
    obtain ⟨hl, hls⟩ := List.forall_mem_cons.1 h
    obtain ⟨i, hi, hfirst⟩ := sequence_front hl
    obtain ⟨j, hj, hrest⟩ := ih hls
    exact ⟨max i j, Nat.max_le.2 ⟨hi, hj⟩, hfirst.append hrest⟩

/-- **The tokens of a text are those of its lines**, up to places. The lines are
scanned alone, so the places of their tokens are others. -/
theorem contents_lines {source : SourceText}
    (hsegments : segments source.text.toList = lines.flatMap segments) :
    source.front.map (fun t => (t.kind, t.lexeme))
      = (lines.flatMap fun l => (lineSource l).front).map
          fun t => (t.kind, t.lexeme) := by
  have hline (l : List Char) :
      (lineSource l).front.map (fun t => (t.kind, t.lexeme))
        = (segments l).filterMap Segment.content? := by
    rw [(lineSource l).contents_front]
    exact congrArg (List.filterMap _ <| segments ·) String.toList_ofList
  rw [source.contents_front, hsegments, List.filterMap_flatMap, List.map_flatMap]
  exact congrArg (lines.flatMap ·) (funext fun l => (hline l).symm)

/-- **The statements of a text are those of its lines**, up to places, and the
text has no errors if its lines have none. The declarations of the lines are put
one behind the other and read once more as one text. -/
theorem like_lines (hend : ∀ l ∈ lines.dropLast, EndsLine l)
    (hclean : ∀ l ∈ lines, (lineSource l).read.errorCount = 0)
    {source : SourceText} (htext : source.text.toList = lines.flatten) :
    source.read.errorCount = 0
      ∧ List.Forall₂ (Stmt.Like .sameText) source.read.statements
          (lines.flatMap fun l => (lineSource l).read.statements) := by
  have hfault : ∀ l ∈ lines, ∀ g ∈ segments l, g.isFault = false := by
    intro l hl
    have h := ((lineSource l).errorCount_eq_zero_iff.1 (hclean l hl)).1
    rwa [show (lineSource l).text.toList = l from String.toList_ofList] at h
  have hsegments : segments source.text.toList = lines.flatMap segments := by
    rw [htext]
    refine segments_flatten hend fun l hl us dangling hmem => ?_
    cases hfault l hl _ hmem
  obtain ⟨n, hn, hsequence⟩ := sequence_lines fun l hl =>
    ((lineSource l).errorCount_eq_zero_iff.1 (hclean l hl)).2
  -- The tokens of the lines, with an end behind them, are read into their
  -- statements, and the tokens of the text are the same up to places.
  have hfront : ∀ t ∈ lines.flatMap fun l => (lineSource l).front,
      t.isEnd = false := by
    intro t ht
    obtain ⟨l, -, ht⟩ := List.mem_flatMap.1 ht
    exact (lineSource l).isEnd_front t ht
  have hparse : parse ((lines.flatMap fun l => (lineSource l).front)
      ++ [.endOfFile .unknown])
        = ⟨lines.flatMap fun l => (lineSource l).read.statements, []⟩ := by
    rw [parse_eq_iff, ofTokens_append hfront (List.cons_ne_nil _ []),
      ofTokens_end rfl, List.append_nil]
    exact ⟨n, hn, hsequence⟩
  have halike : List.Forall₂ Likeness.sameText.rel source.scan.tokens
      ((lines.flatMap fun l => (lineSource l).front) ++ [.endOfFile .unknown]) :=
    List.rel_append (forall₂_sameText_iff.2 (contents_lines hsegments))
      (.cons ⟨rfl, rfl⟩ .nil)
  obtain ⟨hstatements, herrors⟩ := like_parse halike (exists_isEnd_scan source)
  rw [hparse] at hstatements herrors
  refine ⟨source.errorCount_eq_zero_iff.2 ⟨fun g hg => ?_, ?_⟩, hstatements⟩
  · rw [hsegments] at hg
    obtain ⟨l, hl, hg⟩ := List.mem_flatMap.1 hg
    exact hfault l hl g hg
  · exact List.forall₂_nil_right_iff.1 herrors

end Lines

/-! ## Executing lines

From the statements of lines to turns of a session. The events of a session have
parts that an execution has not, prompts and notes; they hold no lines and no
errors. -/

/-- Two lists of statements are executed one after the other. -/
theorem Stmt.execAll_append (rounds : Nat) (ss us : List Stmt) (m : Machine) :
    execAll rounds (ss ++ us) m
      = andThen (execAll rounds ss m) fun _ m => execAll rounds us m := by
  induction ss generalizing m with
  | nil =>
    rw [List.nil_append, execAll_nil]
    rfl
  | cons s ss ih =>
    rw [List.cons_append, execAll_cons, execAll_cons, andThen_assoc]
    exact congrArg (andThen _) (funext fun _ => funext fun m => ih m)

theorem like_self (source : SourceText) :
    List.Forall₂ (Stmt.Like .sameText) source.read.statements
      source.read.statements :=
  (like_parse (forall₂_sameText_iff.2 rfl) (exists_isEnd_scan source)).1

namespace Session

/-- **A session agrees with an execution**: it is held to the end without an error
exactly if the execution succeeds, and then it has printed the same lines and
leaves the same scopes. -/
structure Agrees (s : Session) (p : Except Halt Unit × Machine) : Prop where
  /-- Both succeed, or both do not. -/
  completes : p.1 = .ok () ↔
    s.finish = .endOfInput ∧ s.events.countP Event.isError = 0
  /-- The same lines are printed. -/
  lines : p.1 = .ok () → p.2.lines = s.events.filterMap Event.line?
  /-- The same scopes are left. -/
  env : p.1 = .ok () → p.2.env = s.env

/-- An execution that fails agrees with every session that fails. -/
theorem agrees_of_error {s : Session} {p : Except Halt Unit × Machine}
    (hp : p.1 ≠ .ok ())
    (hs : ¬ (s.finish = .endOfInput ∧ s.events.countP Event.isError = 0)) :
    s.Agrees p :=
  ⟨iff_of_false hp hs, fun h => absurd h hp, fun h => absurd h hp⟩

/-- Lines in front do not matter. -/
theorem Agrees.behind {s : Session} {p p' : Except Halt Unit × Machine}
    (h : s.Agrees p') {a : Array Event}
    (hp : Abreast Halt.fault? (Machine.Abreast a #[]) p p') {events : List Event}
    (herrors : events.countP Event.isError = 0)
    (hlines : events.filterMap Event.line? = a.toList.filterMap Event.line?) :
    (s.behind events).Agrees p := by
  have hok := hp.ok_iff ()
  refine ⟨?_, fun hpok => ?_, fun hpok => ?_⟩
  · rw [hok, h.completes]
    show _ ↔ s.finish = .endOfInput ∧ List.countP _ (events ++ s.events) = 0
    rw [List.countP_append, herrors, Nat.zero_add]
  · obtain ⟨new, hm, hm'⟩ := hp.2.lines
    have hnew : p'.2.lines = new := hm'
    show _ = List.filterMap _ (events ++ s.events)
    rw [hm, List.filterMap_append, hlines, ← hnew, h.lines (hok.1 hpok)]
  · rw [← hp.2.env]
    exact h.env (hok.1 hpok)

/-- Events in front of a session are put there all at once or in parts. -/
theorem behind_behind (s : Session) (first second : List Event) :
    (s.behind second).behind first = s.behind (first ++ second) :=
  congrArg (Session.mk s.finish s.env) (List.append_assoc ..).symm

section Turns

variable (rounds : Nat) (env : Env) (l : List Char)

/-- What the outside is let known in the turn of a line. -/
def turnEvents : List Event :=
  .prompted :: .opened (lineSource l)
    :: ((lineSource l).run rounds env).events.toList ++ [.settled]

/-- A turn reports the errors of its run, as prompts and notes are none. -/
theorem countP_turnEvents :
    (turnEvents rounds env l).countP Event.isError
      = ((lineSource l).run rounds env).events.toList.countP Event.isError := by
  simp [turnEvents, Event.isError]

theorem lines_turnEvents :
    (turnEvents rounds env l).filterMap Event.line?
      = ((lineSource l).run rounds env).lines := by
  unfold turnEvents
  rw [List.cons_append, List.cons_append, List.filterMap_cons_none rfl,
    List.filterMap_cons_none rfl, List.filterMap_append]
  exact List.append_nil _

/-- **A valid line is run**, and the session goes on behind it unless a loop was
cut off. What is put in front are the prompt, the line, the events of its run and
the end of the turn. -/
theorem ofLines_cons (ls : List Bytes) (k : Nat) :
    ofLines rounds (fun _ => .shown) (encode l :: ls) k env
      = if ((lineSource l).run rounds env).outcome.isNone then
          ⟨.tooManyRounds, ((lineSource l).run rounds env).env,
            turnEvents rounds env l⟩
        else
          (ofLines rounds (fun _ => .shown) ls (k + 1)
            ((lineSource l).run rounds env).env).behind
              (turnEvents rounds env l) := by
  have hturn : turn rounds env (some (encode l))
      = ⟨((lineSource l).run rounds env).env, (turnEvents rounds env l).tail,
          if ((lineSource l).run rounds env).outcome.isNone then
            some .tooManyRounds else none⟩ := by
    simp only [turn, text?_encode]
    show Turn.mk _ (Array.toList (#[_] ++ _ ++ #[_])) _ = _
    rw [Array.toList_append, Array.toList_append]
    rfl
  rw [ofLines, hturn]
  unfold afterPrompt afterTurn
  by_cases hcut : ((lineSource l).run rounds env).outcome.isNone = true
  · rw [if_pos hcut, if_pos hcut]
    rfl
  · rw [if_neg hcut, if_neg hcut]
    exact behind_behind _ [.prompted] _

variable {rounds env l} (hl : (lineSource l).read.errorCount = 0)

include hl

/-- A line without errors reports at most what has stopped it. -/
theorem countP_turnEvents_of_clean :
    (turnEvents rounds env l).countP Event.isError
      = (haltDiagnostics ((lineSource l).execute rounds env).1).length := by
  rw [countP_turnEvents, SourceText.countP_isError_run, hl, Nat.zero_add]

/-- A line without errors that runs to its end reports none, and the session goes
on. -/
theorem ofLines_cons_of_ok
    (hx : ((lineSource l).execute rounds env).1 = .ok ()) (ls : List Bytes)
    (k : Nat) :
    (turnEvents rounds env l).countP Event.isError = 0
      ∧ ofLines rounds (fun _ => .shown) (encode l :: ls) k env
        = (ofLines rounds (fun _ => .shown) ls (k + 1)
            ((lineSource l).run rounds env).env).behind
              (turnEvents rounds env l) := by
  have houtcome : ((lineSource l).run rounds env).outcome = some .completed := by
    rw [SourceText.run_outcome, hl, hx]
    rfl
  constructor
  · rw [countP_turnEvents_of_clean hl, hx]
    rfl
  · rw [ofLines_cons, houtcome]
    rfl

/-- A line that is stopped keeps the session from being held to the end without
an error. -/
theorem ofLines_cons_of_error {h : Halt}
    (hx : ((lineSource l).execute rounds env).1 = .error h) (ls : List Bytes)
    (k : Nat) :
    ¬ ((ofLines rounds (fun _ => .shown) (encode l :: ls) k env).finish
          = .endOfInput
        ∧ (ofLines rounds (fun _ => .shown) (encode l :: ls) k env).events.countP
            Event.isError = 0) := by
  have houtcome := (lineSource l).run_outcome rounds env
  rw [hl, hx] at houtcome
  rintro ⟨hfinish, hcount⟩
  cases h with
  | tooManyRounds =>
    rw [ofLines_cons, houtcome] at hfinish
    cases hfinish
  | error e =>
    have herrors := @countP_turnEvents_of_clean rounds env l hl
    rw [hx] at herrors
    rw [ofLines_cons, houtcome] at hcount
    have hcount : List.countP Event.isError (turnEvents rounds env l ++ _) = 0 :=
      hcount
    rw [List.countP_append, herrors] at hcount
    exact absurd (Nat.add_eq_zero_iff.1 hcount).1 nofun

end Turns

section OfLines

variable {rounds : Nat} {lines : List (List Char)}

/-- Executing a line in a session goes abreast of executing it alone. -/
theorem abreast_line (rounds : Nat) (env : Env) (l : List Char) :
    Abreast Halt.fault?
      (Machine.Abreast ((lineSource l).start env).events #[])
      ((lineSource l).execute rounds env)
      (Stmt.execAll rounds (lineSource l).read.statements ⟨env, #[]⟩) :=
  Stmt.abreast_execAll ((like_self _).imp fun _ _ h => h.abreast)
    ⟨rfl, #[], by simp, by simp⟩

theorem abreast_lines (a b : Array Event) :
    List.Forall₂ (Stmt.Abreast a b rounds)
      (lines.flatMap fun l => (lineSource l).read.statements)
      (lines.flatMap fun l => (lineSource l).read.statements) := by
  refine List.forall₂_same.2 fun s hs => ?_
  obtain ⟨l, -, hs⟩ := List.mem_flatMap.1 hs
  exact (List.forall₂_same.1 (like_self (lineSource l)) s hs).abreast

/-- **A session over lines agrees with the execution of their statements**, in
order. The induction is on the lines. A line that fails ends the agreement: the
execution stops there, and a session that goes on has reported an error. -/
theorem agrees_ofLines
    (hclean : ∀ l ∈ lines, (lineSource l).read.errorCount = 0) (k : Nat)
    (env : Env) :
    (ofLines rounds (fun _ => .shown) (lines.map encode) k env).Agrees
      (Stmt.execAll rounds
        (lines.flatMap fun l => (lineSource l).read.statements) ⟨env, #[]⟩) := by
  induction lines generalizing k env with
  | nil =>
    rw [List.flatMap_nil, Stmt.execAll_nil]
    exact ⟨iff_of_true rfl ⟨rfl, rfl⟩, fun _ => rfl, fun _ => rfl⟩
  | cons l ls ih =>
    obtain ⟨hl, hls⟩ := List.forall_mem_cons.1 hclean
    have hline := abreast_line rounds env l
    have hok := hline.ok_iff ()
    rw [List.flatMap_cons, Stmt.execAll_append, List.map_cons]
    generalize Stmt.execAll rounds (lineSource l).read.statements ⟨env, #[]⟩ = y
      at hline hok ⊢
    obtain ⟨r, m⟩ := y
    cases hx : ((lineSource l).execute rounds env).1 with
    | error h =>
      have hr : r ≠ .ok () := fun hr => by
        rw [hok.2 hr] at hx
        cases hx
      refine agrees_of_error ?_ (ofLines_cons_of_error hl hx _ k)
      cases r with
      | ok => exact absurd rfl hr
      | error => exact nofun
    | ok =>
      obtain rfl : r = .ok () := hok.1 hx
      obtain ⟨hcount, hsession⟩ := ofLines_cons_of_ok hl hx (ls.map encode) k
      rw [hsession]
      refine (ih hls (k + 1) _).behind (a := m.events) ?_ hcount ?_
      · exact Stmt.abreast_execAll (abreast_lines m.events #[])
          ⟨hline.2.env.symm, #[], by simp, by simp⟩
      · obtain ⟨new, hm, hm'⟩ := hline.2.lines
        have hstart := (lineSource l).lines_start env
        have hm' : m.lines = new := hm'
        rw [lines_turnEvents, SourceText.run_lines, hm]
        exact (congrArg (· ++ new) hstart).trans hm'.symm

end OfLines

end Session

/-! ## The whole text

The two halves meet at the statements. -/

/-- A text without errors is completed if its execution succeeds. -/
theorem Outcome.of_eq_completed_iff {r : Except Halt Unit} :
    Outcome.of 0 r = some .completed ↔ r = .ok () := by
  match r with
  | .ok () => exact iff_of_true rfl rfl
  | .error (.error e) => exact iff_of_false nofun nofun
  | .error .tooManyRounds => exact iff_of_false nofun nofun

/-- **A session agrees with a run of the same text.** Let an input be valid, and
let each of its lines be free of errors when it is read alone. Then the text as a
whole is read without an error, under whatever name. From every state, and under
every bound on the rounds of loops, running the text completes exactly if a
session over the input, all of whose prompts are shown, is held to its end without
reporting an error. If so, both print the same lines in the same order and leave
the same scopes. -/
theorem session_agrees_run {input : Bytes} {text : String}
    (hvalid : input.text? = some text)
    (hclean : ∀ l ∈ input.lines, ∀ line, Bytes.text? l = some line →
      (SourceText.mk Session.lineName line).read.errorCount = 0)
    (name : String) (rounds : Nat) (env : Env) :
    let source : SourceText := ⟨name, text⟩
    let run := source.run rounds env
    let session := Session.hold rounds (fun _ => .shown) input env
    source.read.errorCount = 0
    ∧ (run.outcome = some .completed ↔ session.finish = .endOfInput
        ∧ session.events.countP Event.isError = 0)
    ∧ (run.outcome = some .completed →
      run.lines = session.events.filterMap Event.line?
        ∧ run.env = session.env) := by
  intro source run session
  obtain rfl := eq_encode_of_text? hvalid
  have hclean : ∀ l ∈ textLines text.toList,
      (lineSource l).read.errorCount = 0 := by
    intro l hl
    refine hclean (encode l) ?_ _ (text?_encode l)
    rw [lines_encode]
    exact List.mem_map_of_mem hl
  obtain ⟨hread, hlike⟩ := @like_lines _ (endsLine_textLines _) hclean source
    (flatten_textLines _).symm
  have hsession : session.Agrees (Stmt.execAll rounds
      ((textLines text.toList).flatMap fun l => (lineSource l).read.statements)
      ⟨env, #[]⟩) := by
    have h := @Session.agrees_ofLines rounds _ hclean 0 env
    rwa [← lines_encode] at h
  have hrun : Abreast Halt.fault?
      (Machine.Abreast (source.start env).events #[])
      (source.execute rounds env) (Stmt.execAll rounds
        ((textLines text.toList).flatMap fun l => (lineSource l).read.statements)
        ⟨env, #[]⟩) :=
    Stmt.abreast_execAll (hlike.imp fun _ _ h => h.abreast)
      ⟨rfl, #[], by simp, by simp⟩
  have hagrees : session.Agrees (source.execute rounds env) :=
    Session.Agrees.behind hsession hrun List.countP_nil
      (source.lines_start env).symm
  have hcompletes : run.outcome = some .completed
      ↔ (source.execute rounds env).1 = .ok () := by
    rw [source.run_outcome, hread, Outcome.of_eq_completed_iff]
  refine ⟨hread, hcompletes.trans hagrees.completes, fun h => ?_⟩
  have hok := hcompletes.1 h
  exact ⟨(source.run_lines rounds env).trans (hagrees.lines hok),
    (source.run_env rounds env).trans (hagrees.env hok)⟩

/-- A text of two lines, with a character of two bytes and without a last line
feed. -/
def twoLines : SourceText := ⟨"script", "let a = \"é\";\nprint a;"⟩

/-- What the two lines are read into, with the places they have in the whole
text. -/
theorem statements_twoLines : (parse twoLines.scan.tokens).statements
    = [.define ⟨"script", 1, 1⟩ ⟨.identifier, "a", ⟨"script", 1, 5⟩⟩
          (some (.literal ⟨.string, "é", ⟨"script", 1, 9⟩⟩)),
        .print ⟨"script", 2, 1⟩
          (.reference ⟨.identifier, "a", ⟨"script", 2, 7⟩⟩)] := by
  cbv

/-- The two lines may as well be entered one by one. -/
theorem session_agrees_run_twoLines :
    let input := encode twoLines.text.toList
    let session := Session.hold 0 (fun _ => .shown) input {}
    input.text? = some twoLines.text
    ∧ (∀ l ∈ input.lines, ∀ line, Bytes.text? l = some line →
        (SourceText.mk Session.lineName line).read.errorCount = 0)
    ∧ (twoLines.run 0 {}).outcome = some .completed
    ∧ session.finish = .endOfInput
    ∧ (twoLines.run 0 {}).lines = session.events.filterMap Event.line? := by
  intro input session
  have hvalid : input.text? = some twoLines.text := by
    rw [text?_encode, String.ofList_toList]
  have hlines : textLines twoLines.text.toList
      = ["let a = \"é\";\n".toList, "print a;".toList] := by
    cbv
  have hclean : ∀ l ∈ input.lines, ∀ line, Bytes.text? l = some line →
      (SourceText.mk Session.lineName line).read.errorCount = 0 := by
    rw [lines_encode, hlines]
    simp only [List.map_cons, List.map_nil, List.forall_mem_cons, text?_encode]
    refine ⟨?_, ?_, List.forall_mem_nil _⟩
    · intro line hline
      rw [← Option.some.inj hline]
      cbv
    · intro line hline
      rw [← Option.some.inj hline]
      cbv
  obtain ⟨hread, hiff, hsame⟩ := session_agrees_run hvalid hclean "script" 0 {}
  have houtcome : (twoLines.run 0 {}).outcome = some .completed := by
    have hread : twoLines.read.errorCount = 0 := hread
    rw [twoLines.run_outcome, hread, Outcome.of_eq_completed_iff]
    unfold SourceText.execute
    rw [statements_twoLines]
    rfl
  exact ⟨hvalid, hclean, houtcome, (hiff.1 houtcome).1, (hsame houtcome).1⟩

end TreeScript
