import TreeScript.Console
import TreeScript.Proofs.Exec.Rounds
import TreeScript.Proofs.Session.Whole

/-!
# A session is the fold of its lines

A session can stop early for two reasons: a prompt that is not shown, and a line
that is no valid text. Nothing else stops it, in particular no error in a line. So
the lines that it runs are known beforehand: those in front of the first line that
is no valid text, but not more than there are prompts that are shown
(`Session.executed_eq`).

One turn runs one line and leaves its scopes to the next one
(`Session.ofLines_of_shown`), so by induction a session is the turns of these
lines and then a session that runs none (`Session.ofLines_eq_behind`). What is
printed, the scopes that are left and the way the session ends are read off
this.

A run is taken without a bound on the rounds of loops: it ends if from some bound
on it is always the same and is not cut off (`SourceText.Ends`).

Neither the prompts nor the input are assumed to be well-behaved. Prompts are
given as a function of their number, so that any of them may fail, and the input
is a list of bytes. The one assumption is that the lines which are run come to
an end: of a line that goes on forever no session can say more.
-/

namespace TreeScript

/-! ## Runs without a bound

That the lines run to their ends, one after another, is a relation between the
environments in between. -/

/-- **The text runs to its end** and gives this run, whatever the bound, if it
is great enough. The bound that is great enough is different for different
texts. -/
def SourceText.Ends (source : SourceText) (env : Env) (run : Run) : Prop :=
  run.outcome.isSome ∧
    ∃ enough, ∀ rounds, enough ≤ rounds → source.run rounds env = run

/-- **Texts run one after another**, each in the scopes that the one before it
leaves. Each of the runs has a bound of its own, so none is mentioned. -/
inductive RunInTurn : Env → List SourceText → List Run → Env → Prop
  | nil {env : Env} : RunInTurn env [] [] env
  | cons {env final : Env} {source : SourceText} {sources : List SourceText}
      {run : Run} {runs : List Run} (h : source.Ends env run)
      (hmore : RunInTurn run.env sources runs final) :
      RunInTurn env (source :: sources) (run :: runs) final

theorem RunInTurn.length_eq {env final : Env} {sources : List SourceText}
    {runs : List Run} (h : RunInTurn env sources runs final) :
    sources.length = runs.length := by
  induction h with
  | nil => rfl
  | cons _ _ ih => rw [List.length_cons, List.length_cons, ih]

/-- A run does what its execution does. -/
theorem SourceText.run_eq_of_execute {source : SourceText} {n k : Nat} {env : Env}
    (h : source.execute k env = source.execute n env) :
    source.run k env = source.run n env := by
  have hrun (rounds : Nat) : source.run rounds env
      = let ended := source.execute rounds env
        let outcome := Outcome.of source.read.errorCount ended.1
        ⟨outcome, ended.2.env, ended.2.events
          ++ (closingEvents source.name outcome ended.1).toArray⟩ :=
    rfl
  rw [hrun, hrun, h]

/-- **A run that is not cut off is the run under every greater bound.** Having
an outcome means not to be cut off, so such a bound is found by running. -/
theorem SourceText.ends_run {source : SourceText} {n : Nat} {env : Env}
    (h : (source.run n env).outcome.isSome) :
    source.Ends env (source.run n env) := by
  refine ⟨h, n, fun k hle => run_eq_of_execute ?_⟩
  have hcompletes : Completes (source.execute k env) (source.execute n env) :=
    Stmt.completes_execAll (fun s _ m => Stmt.completes_exec hle s m) _
  refine hcompletes fun hcut => ?_
  rw [source.run_outcome, hcut] at h
  cases h

namespace Session

/-! ## The lines that are run

These depend on prompts and lines alone, not on what the runs do. -/

/-- The line as a source, if it is valid text. -/
def source? (l : Bytes) : Option SourceText := l.text?.map (SourceText.mk lineName)

/-- **The lines that a session runs**, from prompt `k` on: it goes on as long as
prompts are shown and lines are valid. -/
def executed (prompt : Nat → PromptFate) : List Bytes → Nat → List SourceText
  | [], _ => []
  | l :: ls, k =>
    match prompt k, source? l with
    | .shown, some source => source :: executed prompt ls (k + 1)
    | _, _ => []

/-- What the outside is let known in the turn of a line. -/
def turnOf (source : SourceText) (run : Run) : List Event :=
  .prompted :: .opened source :: run.events.toList ++ [.settled]

section OfLines

variable {rounds : Nat} {prompt : Nat → PromptFate} {l : Bytes} {ls : List Bytes}
  {k : Nat} {env : Env} {source : SourceText} {run : Run}

theorem executed_of_shown (hprompt : prompt k = .shown)
    (hl : source? l = some source) :
    executed prompt (l :: ls) k = source :: executed prompt ls (k + 1) := by
  rw [executed, hprompt, hl]

/-- A session that runs the next line has shown the prompt, and the line is
valid. -/
theorem exists_source_of_executed (h : executed prompt (l :: ls) k ≠ []) :
    prompt k = .shown ∧ ∃ source, source? l = some source := by
  unfold executed at h
  split at h
  · rename_i source hprompt hl
    exact ⟨hprompt, source, hl⟩
  · exact absurd rfl h

/-- **One turn.** A valid line is run, and the session goes on in the scopes that
it leaves. -/
theorem ofLines_of_shown (hprompt : prompt k = .shown)
    (hl : source? l = some source) (hrun : source.run rounds env = run)
    (houtcome : run.outcome.isSome) :
    ofLines rounds prompt (l :: ls) k env
      = (ofLines rounds prompt ls (k + 1) run.env).behind (turnOf source run) := by
  obtain ⟨text, htext, rfl⟩ := Option.map_eq_some_iff.1 hl
  have hturn : turn rounds env (some l)
      = ⟨run.env, (turnOf ⟨lineName, text⟩ run).tail, none⟩ := by
    have hgoesOn : run.outcome.isNone = false := by
      rw [← Option.not_isSome, houtcome]
      rfl
    simp only [turn, htext, runLine, hrun, hgoesOn]
    show Turn.mk _ (Array.toList (#[_] ++ _ ++ #[_])) _ = _
    rw [Array.toList_append, Array.toList_append]
    rfl
  rw [ofLines, hprompt, hturn]
  exact behind_behind _ [.prompted] _

/-- **The end of a session** that runs no more lines: it leaves everything as it
is, and has no more input exactly if there are no lines and the prompt is
shown. -/
theorem ofLines_of_executed_eq_nil (h : executed prompt ls k = []) :
    ∃ finish, ∃ ending ∈ [[], [.prompted], [.prompted, .noted .inputEnded]],
      (∀ rounds env, ofLines rounds prompt ls k env = ⟨finish, env, ending⟩)
      ∧ finish ≠ .tooManyRounds
      ∧ (finish = .endOfInput ↔ ls = [] ∧ prompt k = .shown) := by
  cases hprompt : prompt k with
  | unwritten reason =>
    refine ⟨.failed (.promptUnwritten reason), [], by simp, fun rounds env => ?_,
      SessionEnd.noConfusion, by simp⟩
    cases ls <;> rw [ofLines, hprompt] <;> rfl
  | unflushed reason =>
    refine ⟨.failed (.promptUnflushed reason), [.prompted], by simp,
      fun rounds env => ?_, SessionEnd.noConfusion, by simp⟩
    cases ls <;> rw [ofLines, hprompt] <;> rfl
  | shown =>
    cases ls with
    | nil =>
      refine ⟨.endOfInput, [.prompted, .noted .inputEnded], by simp,
        fun rounds env => ?_, SessionEnd.noConfusion, by simp⟩
      rw [ofLines, hprompt]
      rfl
    | cons l ls =>
      have hl : source? l = none := by
        by_contra hsome
        obtain ⟨source, hsource⟩ := Option.ne_none_iff_exists'.1 hsome
        rw [executed_of_shown hprompt hsource] at h
        cases h
      have htext : l.text? = none := Option.map_eq_none_iff.1 hl
      refine ⟨.failed .invalidLine, [.prompted], by simp, fun rounds env => ?_,
        SessionEnd.noConfusion, by simp⟩
      rw [ofLines, hprompt, turn, htext]
      rfl

/-- **A session is the turns of the lines that it runs**, and then a session that
runs none. The induction is on the lines; each turn needs a bound of its own. -/
theorem ofLines_eq_behind {runs : List Run} {final : Env}
    (h : RunInTurn env (executed prompt ls k) runs final) :
    executed prompt (ls.drop runs.length) (k + runs.length) = []
    ∧ ∃ enough, ∀ rounds, enough ≤ rounds →
      ofLines rounds prompt ls k env
        = (ofLines rounds prompt (ls.drop runs.length) (k + runs.length)
            final).behind
          (List.zipWith turnOf (executed prompt ls k) runs).flatten := by
  induction ls generalizing k env runs with
  | nil =>
    cases h with
    | nil => exact ⟨rfl, 0, fun _ _ => rfl⟩
  | cons l ls ih =>
    by_cases hnone : executed prompt (l :: ls) k = []
    · rw [hnone] at h ⊢
      cases h with
      | nil => exact ⟨hnone, 0, fun _ _ => rfl⟩
    · obtain ⟨hprompt, source, hl⟩ := exists_source_of_executed hnone
      rw [executed_of_shown hprompt hl] at h ⊢
      cases h with
      | @cons _ _ _ _ run runs hends hmore =>
        obtain ⟨houtcome, enough, hrun⟩ := hends
        obtain ⟨hrest, enough', hsession⟩ := ih hmore
        rw [List.length_cons, List.drop_succ_cons,
          Nat.add_comm runs.length 1, ← Nat.add_assoc]
        refine ⟨hrest, max enough enough', fun rounds hle => ?_⟩
        obtain ⟨hle, hle'⟩ := Nat.max_le.1 hle
        rw [ofLines_of_shown hprompt hl (hrun rounds hle) houtcome,
          hsession rounds hle', behind_behind, List.zipWith_cons_cons,
          List.flatten_cons]

end OfLines

/-! ## How many lines are run

Counting them, by the prompts that are shown and the lines that are valid. -/

/-- **The lines that are run, by their number.** If the first `n` prompts are
shown and the next one is not, the first `n` lines are run, as long as they are
valid. The count goes on from any prompt, for the induction. -/
theorem executed_eq {prompt : Nat → PromptFate} {ls : List Bytes} {k n : Nat}
    (hn : n ≤ (ls.takeWhile fun l => (source? l).isSome).length)
    (hshown : ∀ i, i < n → prompt (k + i) = .shown)
    (hfails : n < (ls.takeWhile fun l => (source? l).isSome).length →
      prompt (k + n) ≠ .shown) :
    executed prompt ls k = (ls.take n).filterMap source? := by
  induction ls generalizing k n with
  | nil =>
    rw [List.take_nil]
    rfl
  | cons l ls ih =>
    cases hl : source? l with
    | none =>
      have hnone : executed prompt (l :: ls) k = [] := by
        by_contra hsome
        obtain ⟨-, source, hsource⟩ := exists_source_of_executed hsome
        cases hl.symm.trans hsource
      obtain rfl : n = 0 := by simpa [hl] using hn
      rw [hnone]
      rfl
    | some source =>
      have hlength : ((l :: ls).takeWhile fun l => (source? l).isSome).length
          = (ls.takeWhile fun l => (source? l).isSome).length + 1 := by
        simp [hl]
      rw [hlength] at hn hfails
      cases n with
      | zero =>
        by_contra hsome
        obtain ⟨hprompt, -⟩ := exists_source_of_executed hsome
        exact hfails (Nat.succ_pos _) hprompt
      | succ n =>
        have hmore : executed prompt ls (k + 1) = (ls.take n).filterMap source? := by
          refine ih (Nat.le_of_succ_le_succ hn) (fun i hi => ?_) fun hlt => ?_
          · rw [Nat.add_assoc, Nat.add_comm 1 i]
            exact hshown (i + 1) (Nat.succ_lt_succ hi)
          · rw [Nat.add_assoc, Nat.add_comm 1 n]
            exact hfails (Nat.succ_lt_succ hlt)
        have hprompt : prompt k = .shown := hshown 0 (Nat.succ_pos n)
        rw [executed_of_shown hprompt hl, hmore, List.take_succ_cons,
          List.filterMap_cons_some hl]

/-- **The least of three numbers**: how many lines there are, how many prompts
are shown, and how many lines stand in front of the first invalid one. One of
them is reached first, and which one it is decides how the session ends. -/
theorem least_spec {t v j : Nat} {m : ℕ∞} (hv : v ≤ t)
    (hj : (j : ℕ∞) = min (t : ℕ∞) (min m v)) :
    j ≤ v ∧ (∀ i, i < j → (i : ℕ∞) < m) ∧ (j < v → (j : ℕ∞) = m)
    ∧ (t ≤ j ∧ (j : ℕ∞) < m ↔ v = t ∧ (t : ℕ∞) < m) := by
  have hmin (a b : Nat) : ((min a b : Nat) : ℕ∞) = min (a : ℕ∞) b :=
    Nat.mono_cast.map_min
  induction m using ENat.recTopCoe with
  | top =>
    rw [min_eq_right (le_top : (v : ℕ∞) ≤ ⊤), ← hmin, Nat.cast_inj] at hj
    have htop (n : Nat) : (n : ℕ∞) < ⊤ := ENat.natCast_lt_top n
    refine ⟨by omega, fun i _ => htop i, by omega, ?_⟩
    rw [and_iff_left (htop j), and_iff_left (htop t)]
    omega
  | coe m =>
    rw [← hmin, ← hmin, Nat.cast_inj] at hj
    simp only [Nat.cast_lt, Nat.cast_inj]
    exact ⟨by omega, fun i hi => by omega, by omega, by omega⟩

/-! ## Whole sessions

What the turns print and count, and the session as a whole. -/

/-- What is printed in turns is what the runs print. -/
theorem lines_turns {sources : List SourceText} {runs : List Run}
    (h : sources.length = runs.length) :
    (List.zipWith turnOf sources runs).flatten.filterMap Event.line?
      = runs.flatMap Run.lines := by
  induction sources generalizing runs with
  | nil =>
    rw [List.length_eq_zero_iff.1 h.symm]
    rfl
  | cons source sources ih =>
    cases runs with
    | nil => cases h
    | cons run runs =>
      have hturn : (turnOf source run).filterMap Event.line? = run.lines := by
        unfold turnOf
        rw [List.cons_append, List.cons_append, List.filterMap_cons_none rfl,
          List.filterMap_cons_none rfl, List.filterMap_append]
        exact List.append_nil _
      rw [List.zipWith_cons_cons, List.flatten_cons, List.filterMap_append, hturn,
        ih (Nat.succ.inj h)]
      rfl

/-- **Behind each turn the counts are zero**, since a turn ends by forgetting
them. -/
theorem counts_turns {sources : List SourceText} {runs : List Run} {i : Nat}
    (hpos : 0 < i) (hle : i ≤ (List.zipWith turnOf sources runs).length)
    (c : Console) :
    let printer :=
      (c.handleAll ((List.zipWith turnOf sources runs).take i).flatten).printer
    printer.errors = 0 ∧ printer.warnings = 0 := by
  obtain ⟨front, hfront⟩ : ∃ front,
      ((List.zipWith turnOf sources runs).take i).flatten
        = front ++ [.settled] := by
    obtain ⟨n, rfl⟩ := Nat.exists_eq_succ_of_ne_zero (Nat.ne_of_gt hpos)
    rw [List.take_add_one, List.getElem?_eq_getElem hle, List.getElem_zipWith,
      Option.toList_some, List.flatten_append, List.flatten_singleton, turnOf,
      ← List.append_assoc]
    exact ⟨_, rfl⟩
  unfold Console.handleAll
  rw [hfront, List.foldl_append]
  exact ⟨rfl, rfl⟩

/-- The first lines are sources, as long as they are valid. -/
theorem map_source?_take {ls : List Bytes} {n : Nat}
    (hn : n ≤ (ls.takeWhile fun l => (source? l).isSome).length) :
    (ls.take n).map source? = ((ls.take n).filterMap source?).map some := by
  have hfront : ls.take n <+: ls.takeWhile fun l => (source? l).isSome :=
    List.prefix_of_prefix_length_le (List.take_prefix n ls)
      (List.takeWhile_prefix _) (Nat.le_trans (List.length_take_le n ls) hn)
  have hvalid : ∀ l ∈ ls.take n, (source? l).isSome = true :=
    fun l hl => List.mem_takeWhile_imp (p := fun l => (source? l).isSome)
      (hfront.subset hl)
  generalize ls.take n = front at hvalid
  induction front with
  | nil => rfl
  | cons l front ih =>
    obtain ⟨hl, hfront⟩ := List.forall_mem_cons.1 hvalid
    obtain ⟨source, hsource⟩ := Option.isSome_iff_exists.1 hl
    rw [List.map_cons, List.filterMap_cons_some hsource, List.map_cons, hsource,
      ih hfront]

/-- Every line is valid if none is the first invalid one. -/
theorem length_takeWhile_eq_iff {ls : List Bytes} :
    (ls.takeWhile fun l => (source? l).isSome).length = ls.length
      ↔ ∀ l ∈ ls, (source? l).isSome := by
  rw [← List.takeWhile_eq_self_iff]
  exact ⟨(List.takeWhile_prefix _).eq_of_length, congrArg List.length⟩

/-- The prompt behind the last one that counts is shown exactly if more are. -/
theorem prompt_eq_shown_iff {prompt : Nat → PromptFate} {m : ℕ∞}
    (hshown : ∀ k : Nat, (k : ℕ∞) < m → prompt k = .shown)
    (hfails : ∀ k : Nat, (k : ℕ∞) = m → prompt k ≠ .shown) {j : Nat}
    (hj : (j : ℕ∞) ≤ m) : prompt j = .shown ↔ (j : ℕ∞) < m := by
  refine ⟨fun h => ?_, hshown j⟩
  exact hj.lt_of_ne fun heq => hfails j heq h

/-- **What a session gives**, by the lines that it runs. The end of the session
is kept apart from its turns: it lets known a prompt at most, and a note. -/
theorem hold_eq {prompt : Nat → PromptFate} {input : Bytes} {env final : Env}
    {runs : List Run}
    (h : RunInTurn env (executed prompt input.lines 0) runs final) :
    ∃ finish, ∃ ending ∈ [[], [.prompted], [.prompted, .noted .inputEnded]],
      finish ≠ .tooManyRounds
      ∧ (finish = .endOfInput
        ↔ input.lines.length ≤ runs.length ∧ prompt runs.length = .shown)
      ∧ ∃ enough, ∀ rounds, enough ≤ rounds →
        hold rounds prompt input env = ⟨finish, final,
          (List.zipWith turnOf (executed prompt input.lines 0) runs).flatten
            ++ ending⟩ := by
  obtain ⟨hnone, enough, hsession⟩ := ofLines_eq_behind h
  obtain ⟨finish, ending, hending, hlast, hrounds, hfinish⟩ :=
    ofLines_of_executed_eq_nil hnone
  rw [List.drop_eq_nil_iff, Nat.zero_add] at hfinish
  refine ⟨finish, ending, hending, hrounds, hfinish, enough, fun rounds hle => ?_⟩
  rw [hold, hsession rounds hle, hlast]
  rfl

/-- **Which lines a session runs**: as many of the first lines as `j` says. -/
theorem executed_eq_take {prompt : Nat → PromptFate} {m : ℕ∞}
    (hshown : ∀ k : Nat, (k : ℕ∞) < m → prompt k = .shown)
    (hfails : ∀ k : Nat, (k : ℕ∞) = m → prompt k ≠ .shown) {ls : List Bytes}
    {j : Nat} (hj : (j : ℕ∞) = min (ls.length : ℕ∞)
      (min m (ls.takeWhile fun l => (source? l).isSome).length)) :
    executed prompt ls 0 = (ls.take j).filterMap source? := by
  obtain ⟨hle, hlt, hstop, -⟩ :=
    least_spec (List.takeWhile_prefix _).length_le hj
  refine executed_eq hle (fun i hi => ?_) fun h => ?_
  · rw [Nat.zero_add]
    exact hshown i (hlt i hi)
  · rw [Nat.zero_add]
    exact hfails j (hstop h)

/-- **A session is the fold of its lines**, whatever fails. Let `m` prompts be
shown, or all of them, and let `j` be the least of the number of lines, of `m`, and
of the number of lines in front of the first one that is no valid text. Let the
first `j` lines run to their end, one after another from the scopes of the session.
Then the session runs just these lines: in order, each behind a prompt of its own,
and then there is at most one more prompt and a note. It prints what the runs print
and leaves the scopes that the last one leaves. It has no more input exactly if
every line is valid and more prompts are shown than there are lines, and otherwise
it fails. Behind each line the counts of the printer are zero. -/
theorem hold_runs_lines_in_turn (prompt : Nat → PromptFate) (m : ℕ∞)
    (hshown : ∀ k : Nat, (k : ℕ∞) < m → prompt k = .shown)
    (hfails : ∀ k : Nat, (k : ℕ∞) = m → prompt k ≠ .shown)
    (input : Bytes) (env : Env) :
    let valid := input.lines.takeWhile fun l => (source? l).isSome
    ∃ j : Nat, (j : ℕ∞) = min (input.lines.length : ℕ∞) (min m valid.length)
    ∧ let sources := (input.lines.take j).filterMap source?
      (input.lines.take j).map source? = sources.map some
      ∧ ∀ (runs : List Run) (final : Env), RunInTurn env sources runs final →
        let turns := List.zipWith turnOf sources runs
        turns.length = j
        ∧ (∀ (c : Console) (i : Nat), 0 < i → i ≤ j →
            let printer := (c.handleAll (turns.take i).flatten).printer
            printer.errors = 0 ∧ printer.warnings = 0)
        ∧ ∃ enough, ∀ rounds, enough ≤ rounds →
          let session := hold rounds prompt input env
          (∃ ending ∈ [[], [.prompted], [.prompted, .noted .inputEnded]],
            session.events = turns.flatten ++ ending)
          ∧ session.events.filterMap Event.line? = runs.flatMap Run.lines
          ∧ session.env = final
          ∧ session.finish ≠ .tooManyRounds
          ∧ (session.finish = .endOfInput
            ↔ (∀ l ∈ input.lines, (source? l).isSome)
              ∧ (input.lines.length : ℕ∞) < m) := by
  intro valid
  have hv : valid.length ≤ input.lines.length :=
    (List.takeWhile_prefix _).length_le
  obtain ⟨j, hj⟩ := ENat.ne_top_iff_exists.1
    (ne_top_of_le_ne_top (ENat.natCast_ne_top input.lines.length)
      (min_le_left _ (min m valid.length)))
  obtain ⟨hle, -, -, hend⟩ := least_spec hv hj
  have hjm : (j : ℕ∞) ≤ m := hj ▸ (min_le_right _ _).trans (min_le_left _ _)
  have hmap := map_source?_take hle
  refine ⟨j, hj, hmap, fun runs final hruns => ?_⟩
  have hsources : ((input.lines.take j).filterMap source?).length = j := by
    have hlength := congrArg List.length hmap
    rw [List.length_map, List.length_map, List.length_take,
      Nat.min_eq_left (Nat.le_trans hle hv)] at hlength
    exact hlength.symm
  have hlength : runs.length = j := hruns.length_eq.symm.trans hsources
  have hturns : (List.zipWith turnOf ((input.lines.take j).filterMap source?)
      runs).length = j := by
    rw [List.length_zipWith, hsources, hlength, Nat.min_self]
  refine ⟨hturns, fun c i hpos hi => counts_turns hpos (hi.trans_eq hturns.symm) c,
    ?_⟩
  rw [← executed_eq_take hshown hfails hj] at hruns hsources ⊢
  obtain ⟨finish, ending, hending, hrounds, hfinish, enough, hhold⟩ := hold_eq hruns
  have hnoLines : ending.filterMap Event.line? = [] := by
    simp only [List.mem_cons, List.not_mem_nil, or_false] at hending
    rcases hending with rfl | rfl | rfl <;> rfl
  refine ⟨enough, fun rounds hle => ?_⟩
  rw [hhold rounds hle]
  refine ⟨⟨ending, hending, rfl⟩, ?_, rfl, hrounds, ?_⟩
  · rw [List.filterMap_append, lines_turns (hsources.trans hlength.symm), hnoLines,
      List.append_nil]
  · rw [hfinish, hlength, prompt_eq_shown_iff hshown hfails hjm, hend,
      ← length_takeWhile_eq_iff]

/-- A line with a runtime error. -/
def failingLine : SourceText := ⟨lineName, "b;\n"⟩

/-- A line that prints. -/
def printingLine : SourceText := ⟨lineName, "print nil;\n"⟩

/-- Both lines, and then one that is no valid text. -/
def brokenInput : Bytes := encode "b;\nprint nil;\n".toList ++ [255]

/-- The line prints nothing and stops at its name. -/
theorem execute_failingLine :
    (failingLine.execute 0 {}).1
        = .error (.error ⟨⟨lineName, 1, 1⟩, .undefinedVariable "b"⟩)
      ∧ (failingLine.execute 0 {}).2.env = {}
      ∧ (failingLine.execute 0 {}).2.lines = [] := by
  cbv

/-- The other line prints its value. -/
theorem execute_printingLine :
    (printingLine.execute 0 {}).1 = .ok ()
      ∧ (printingLine.execute 0 {}).2.lines = ["nil"] := by
  cbv

/-- The last line is a single byte, which is no text. -/
theorem lines_brokenInput :
    brokenInput.lines
      = [encode failingLine.text.toList, encode printingLine.text.toList, [255]] := by
  cbv

/-- The first two lines are run and the second one prints, then the session
fails. -/
theorem hold_runs_lines_in_turn_brokenInput :
    let prompt (k : Nat) : PromptFate :=
      if k < 5 then .shown else .unwritten "closed"
    ∃ enough, ∀ rounds, enough ≤ rounds →
      let session := hold rounds prompt brokenInput {}
      session.events.filterMap Event.line? = ["nil"]
      ∧ session.finish ≠ .endOfInput := by
  intro prompt
  have hshown : ∀ k : Nat, (k : ℕ∞) < 5 → prompt k = .shown :=
    fun k hk => if_pos (by exact_mod_cast hk)
  have hfails : ∀ k : Nat, (k : ℕ∞) = 5 → prompt k ≠ .shown := by
    intro k hk
    obtain rfl : k = 5 := by exact_mod_cast hk
    exact nofun
  have hsource (text : String) :
      source? (encode text.toList) = some ⟨lineName, text⟩ := by
    rw [source?, text?_encode, String.ofList_toList]
    rfl
  have hfailing : source? (encode failingLine.text.toList) = some failingLine :=
    hsource failingLine.text
  have hprinting : source? (encode printingLine.text.toList) = some printingLine :=
    hsource printingLine.text
  have hinvalid : source? [255] = none := by decide
  obtain ⟨j, hj, -, hall⟩ :=
    hold_runs_lines_in_turn prompt 5 hshown hfails brokenInput {}
  simp only [lines_brokenInput, List.takeWhile_cons, hfailing, hprinting, hinvalid,
    Option.isSome_some, Option.isSome_none, if_true, Bool.false_eq_true,
    if_false] at hj
  obtain rfl : j = 2 := by
    norm_num at hj
    exact_mod_cast hj
  have henv : (failingLine.run 0 {}).env = {} := execute_failingLine.2.1
  have hruns : RunInTurn {} ((brokenInput.lines.take 2).filterMap source?)
      [failingLine.run 0 {}, printingLine.run 0 {}] (printingLine.run 0 {}).env := by
    simp only [lines_brokenInput, List.take_succ_cons, List.take_zero,
      List.filterMap_cons, hfailing, hprinting, List.filterMap_nil]
    refine .cons (SourceText.ends_run ?_) ?_
    · rw [SourceText.run_outcome, execute_failingLine.1]
      rfl
    · rw [henv]
      refine .cons (SourceText.ends_run ?_) .nil
      rw [SourceText.run_outcome, execute_printingLine.1]
      rfl
  obtain ⟨-, -, enough, hsession⟩ := hall _ _ hruns
  refine ⟨enough, fun rounds hle => ?_⟩
  obtain ⟨-, hlines, -, -, hfinish⟩ := hsession rounds hle
  constructor
  · rw [hlines, List.flatMap_cons, List.flatMap_singleton, SourceText.run_lines,
      SourceText.run_lines, execute_failingLine.2.2, execute_printingLine.2]
    rfl
  · rw [Ne, hfinish, lines_brokenInput]
    rintro ⟨hvalid, -⟩
    have := hvalid [255] (by simp)
    rw [hinvalid] at this
    cases this

end Session

end TreeScript
