import Mathlib
import Lox.Proofs.Output.Program
import Lox.Proofs.Session.Joined

/-!
# Lines and programs

Lines that are accepted one by one may be entered in a session or run together as one program: what is
printed is the same, and so is the failure at which the run stops. Both runs are compared with one run of
the reference interpreter, of which a line of the session is a part.
-/

set_option autoImplicit false

namespace Lox

namespace Lexical

/-- Statements in a row run one list after the other. -/
theorem executeProgram_append (execute : Stmt → Eval Flow) (ss ts : List Stmt) :
    executeProgram execute (ss ++ ts) = (do executeProgram execute ss; executeProgram execute ts) := by
  induction ss with
  | nil => rfl
  | cons s rest ih =>
    rw [List.cons_append, executeProgram, executeProgram, ih]
    exact (bind_assoc ..).symm

/-- Flushing fails exactly if the sink fails to flush. -/
theorem flush_eq (n : Machine) :
    flush n = if n.output.failsToFlush then .error (.failed (.output .flushFailed)) n else .ok () n := by
  unfold flush Sink.flush
  split <;> simp_all

/-- The end of a program is the end of its statements, unless the output cannot be flushed. -/
theorem interpret_cases (depth : Nat) (program : List Stmt) (n : Machine) :
    interpret depth program n = executeProgram (execute depth []) program n ∨
      ∃ t, t.output.failsToFlush = true ∧
        interpret depth program n = .error (.failed (.output .flushFailed)) t := by
  unfold interpret
  cases hrun : executeProgram (execute depth []) program n with
  | ok _ t =>
    by_cases hflush : t.output.failsToFlush = true
    · exact .inr ⟨t, hflush, by simp [flush_eq, hflush]⟩
    · exact .inl (by simp [flush_eq, hflush])
  | error e t =>
    cases e with
    | exhausted => exact .inl rfl
    | failed failure =>
      by_cases hflush : t.output.failsToFlush = true
      · exact .inr ⟨t, hflush, by simp [flush_eq, hflush]⟩
      · exact .inl (by simp [flush_eq, hflush])

end Lexical

namespace Session

/-- What lines report, run in order up to and including the first that fails. There is no answer if a run
goes deeper than `depth`. -/
def runUntilFailure (depth : Nat) (s : Session) : List String → Option (List Outcome)
  | [] => some []
  | line :: rest => do
    let (outcome, s) ← s.run depth line
    match outcome.verdict.status with
    | .runtimeError => return [outcome]
    | _ => (s.runUntilFailure depth rest).map (outcome :: ·)

/-- What lines have printed, one after the other. -/
def printedBy (outcomes : List Outcome) : ByteArray :=
  outcomes.foldr (fun outcome printed => outcome.output ++ printed) .empty

section Lines

variable {depth : Nat} {s s' : Session} {line : String} {outcome : Outcome} {printed : ByteArray}
  {w : World} {n : Lexical.Machine}

/-- A line leaves the sink as it was, but for what it has printed. -/
theorem emptied_of_run (haccepted : Accepted line s.nextId)
    (hflush : s.interpreter.output.failsToFlush = false)
    (hrun : s.run depth line = some (outcome, s')) :
    s'.interpreter.output.emptied = s.interpreter.output.emptied := by
  have hgrows := interpret_grows (m := s.emptied.learn (resolve (parsed line s.nextId).statements).distances)
    depth (parsed line s.nextId).statements hflush
  rw [run_of_accepted haccepted] at hrun
  generalize interpret depth (parsed line s.nextId).statements _ = result at hrun hgrows
  rcases result with ⟨⟨⟩, m⟩ | ⟨_ | _, m⟩ <;> cases hrun <;> exact hgrows.emptied

/-- The statements of lines in a row, without their labels. -/
def bareStatements (lines : List String) : List Stmt :=
  lines.flatMap fun line => Stmt.relabelAll .bare (parsed line 0).statements

/-- A line runs like its part of the reference run. -/
theorem Mirrors.line_runs (h : s.Mirrors .bare printed w n)
    (hsink : s.interpreter.output.emptied = .unlimited) (haccepted : Accepted line 0) (depth : Nat) :
    RanAlike .bare n.output.written (w.plan ++ Stmt.sitesAll (parsed line s.nextId).statements [])
      (s.run depth line)
      (Lexical.executeProgram (Lexical.execute depth [])
        (Stmt.relabelAll .bare (parsed line 0).statements) n) := by
  have houtput : RelatesOutput n.output.written s.interpreter.output.emptied n.output := by
    refine ⟨?_, .inr (congrArg Sink.limit hsink)⟩
    rw [h.simulation.output.eq]
    simp [Sink.emptied]
  have haccepted' : Accepted line s.nextId := haccepted.renumber
  have hran := h.accepted depth houtput haccepted'
  rw [(Grammar.parse_alike (V := .bare) (fun _ _ => rfl) rfl 0 s.nextId).2] at hran
  rcases Lexical.interpret_cases depth (Stmt.relabelAll .bare (parsed line 0).statements) n with
    heq | ⟨t, hfails, heq⟩
  · rw [← heq]
    exact hran
  · -- the sink can be flushed, before the line as behind it
    rw [heq] at hran
    cases hrun : s.run depth line with
    | none =>
      rw [hrun] at hran
      exact hran.elim
    | some q =>
      rw [hrun] at hran
      obtain ⟨_, _, _, _, _, hmirrors⟩ := hran
      have hkept := emptied_of_run haccepted' (congrArg Sink.failsToFlush hsink :) hrun
      rw [hmirrors.simulation.output.eq] at hfails
      exact absurd ((congrArg Sink.failsToFlush (hkept.trans hsink)).symm.trans hfails) Bool.false_ne_true

/-- Lines of a session end as a run of the reference interpreter, which had printed something before. -/
def RunsLike (printed : ByteArray) (lines : List String) (answer : Option (List Outcome)) :
    EStateM.Result Halt Lexical.Machine Unit → Prop
  | .ok () n => ∃ outcomes, answer = some outcomes ∧ n.output.written = printed ++ printedBy outcomes ∧
      outcomes.length = lines.length ∧ ∀ o ∈ outcomes, o.verdict = .completed
  | .error (.failed failure') n => ∃ before last failure, answer = some (before ++ [last]) ∧
      n.output.written = printed ++ printedBy (before ++ [last]) ∧
      (∀ o ∈ before, o.verdict = .completed) ∧ last.verdict = .failed failure ∧
      failure' = failure.relabel .bare
  | .error .exhausted _ => True

/-- Behind a line that completes, further lines end as the rest of the reference run. -/
theorem RunsLike.cons {first : ByteArray} {rest : List String} {answer : Option (List Outcome)}
    {result : EStateM.Result Halt Lexical.Machine Unit}
    (h : RunsLike (printed ++ first) rest answer result) (line : String) :
    RunsLike printed (line :: rest) (answer.map (⟨.completed, first⟩ :: ·)) result := by
  rcases result with ⟨⟨⟩, n⟩ | ⟨failure | _, n⟩
  · obtain ⟨outcomes, rfl, hwritten, hlength, hcompleted⟩ := h
    refine ⟨_, rfl, ?_, by simp [hlength], List.forall_mem_cons.mpr ⟨rfl, hcompleted⟩⟩
    rw [hwritten, ByteArray.append_assoc]
    rfl
  · obtain ⟨before, last, failure, rfl, hwritten, hcompleted, hlast, hsame⟩ := h
    refine ⟨_ :: before, last, failure, rfl, ?_, List.forall_mem_cons.mpr ⟨rfl, hcompleted⟩, hlast, hsame⟩
    rw [hwritten, ByteArray.append_assoc]
    rfl
  · trivial

/-- Lines end as one run of the reference interpreter on all of them. -/
theorem Mirrors.runUntilFailure (h : s.Mirrors .bare printed w n)
    (hsink : s.interpreter.output.emptied = .unlimited) {lines : List String}
    (hlines : ∀ line ∈ lines, Accepted line 0) (depth : Nat) :
    RunsLike n.output.written lines (s.runUntilFailure depth lines)
      (Lexical.executeProgram (Lexical.execute depth []) (bareStatements lines) n) := by
  induction lines generalizing s printed w n with
  | nil => exact ⟨[], rfl, by simp [printedBy], rfl, List.forall_mem_nil _⟩
  | cons line rest ih =>
    obtain ⟨hline, hrest⟩ := List.forall_mem_cons.mp hlines
    have hfirst := h.line_runs hsink hline depth
    rw [bareStatements, List.flatMap_cons, Lexical.executeProgram_append, Session.runUntilFailure]
    simp only [bind, EStateM.bind]
    generalize Lexical.executeProgram (Lexical.execute depth [])
      (Stmt.relabelAll .bare (parsed line 0).statements) n = result at hfirst ⊢
    cases hrun : s.run depth line with
    | none =>
      rw [hrun] at hfirst
      rcases result with ⟨⟨⟩, n'⟩ | ⟨failure' | _, n'⟩
      · exact hfirst.elim
      · exact hfirst.elim
      · trivial
    | some q =>
      obtain ⟨outcome, s'⟩ := q
      have hkept := emptied_of_run hline.renumber (congrArg Sink.failsToFlush hsink :) hrun
      rw [hrun] at hfirst
      rcases result with ⟨⟨⟩, n'⟩ | ⟨failure' | _, n'⟩
      · obtain ⟨rfl, w', -, hmirrors⟩ := hfirst
        have hwritten := congrArg Sink.written hmirrors.simulation.output.eq
        have hbehind := ih hmirrors (hkept.trans hsink) hrest
        rw [hwritten] at hbehind
        exact hbehind.cons line
      · obtain ⟨failure, rfl, rfl, w', -, hmirrors⟩ := hfirst
        refine ⟨[], _, failure, rfl, ?_, List.forall_mem_nil _, rfl, rfl⟩
        rw [hmirrors.simulation.output.eq]
        simp [printedBy]
      · exact hfirst.elim

end Lines

end Session

/-- Lines that are accepted one by one are accepted when they are joined, and their statements stand in a
row. -/
theorem Accepted.joined {lines : List String} (hlines : ∀ line ∈ lines, Accepted line 0) :
    Accepted ("\n".intercalate lines) 0 ∧
      Stmt.relabelAll .bare (parsed ("\n".intercalate lines) 0).statements =
        Session.bareStatements lines := by
  induction lines with
  | nil => exact ⟨⟨by cbv, by cbv⟩, by cbv⟩
  | cons line rest ih =>
    obtain ⟨hline, hrest⟩ := List.forall_mem_cons.mp hlines
    obtain ⟨haccepted, hstatements⟩ := ih hrest
    cases rest with
    | nil =>
      rw [String.intercalate_singleton]
      exact ⟨hline, (List.append_nil _).symm⟩
    | cons next rest =>
      rw [String.intercalate_cons_cons]
      refine ⟨hline.join haccepted, ?_⟩
      rw [(parse_join hline haccepted).2, Stmt.relabelAll_append, hstatements]
      rfl

/-- Lines that are accepted one by one print in a session what they print joined to one program, and stop
where it stops: at its end, or with its failure, which may only have another line number. -/
theorem Session.runUntilFailure_eq_joined {depth : Nat} {clock : Nat → Float} {lines : List String}
    {outcome : Outcome} (hlines : ∀ line ∈ lines, Accepted line 0)
    (hrun : runProgram depth clock .unlimited ("\n".intercalate lines) = some outcome) :
    ∃ outcomes, (Session.fresh clock .unlimited).runUntilFailure depth lines = some outcomes ∧
      Session.printedBy outcomes = outcome.output ∧
      ((outcome.verdict = .completed ∧ outcomes.length = lines.length ∧
          ∀ o ∈ outcomes, o.verdict.status = .ok) ∨
        ∃ before last failure failure', outcomes = before ++ [last] ∧
          (∀ o ∈ before, o.verdict.status = .ok) ∧ last.verdict = .failed failure ∧
          outcome.verdict = .failed failure' ∧ failure'.relabel .bare = failure.relabel .bare) := by
  obtain ⟨haccepted, hstatements⟩ := Accepted.joined hlines
  have hfresh := Session.fresh_mirrors .bare clock .unlimited
  have hsession := hfresh.runUntilFailure rfl hlines depth
  have hbatch := hfresh.line_runs rfl haccepted depth
  obtain ⟨⟨outcome, s'⟩, hran, rfl⟩ := Option.map_eq_some_iff.mp hrun
  rw [hstatements, hran] at hbatch
  generalize Lexical.executeProgram (Lexical.execute depth []) (Session.bareStatements lines)
    (.fresh clock .unlimited) = result at hsession hbatch
  have hprinted {w : World} {n : Lexical.Machine} {outcomes : List Outcome}
      (hmirrors : s'.Mirrors .bare .empty w n)
      (hwritten : n.output.written = .empty ++ Session.printedBy outcomes) :
      Session.printedBy outcomes = s'.interpreter.output.written := by
    rw [ByteArray.empty_append] at hwritten
    rw [← hwritten, hmirrors.simulation.output.eq_of_empty]
  rcases result with ⟨⟨⟩, n⟩ | ⟨failure' | _, n⟩
  · obtain ⟨outcomes, hanswer, hwritten, hlength, hcompleted⟩ := hsession
    obtain ⟨rfl, w, -, hmirrors⟩ := hbatch
    exact ⟨outcomes, hanswer, hprinted hmirrors hwritten,
      .inl ⟨rfl, hlength, fun o ho => congrArg Verdict.status (hcompleted o ho)⟩⟩
  · obtain ⟨before, last, failure, hanswer, hwritten, hcompleted, hlast, rfl⟩ := hsession
    obtain ⟨failure', hsame, rfl, w, -, hmirrors⟩ := hbatch
    exact ⟨before ++ [last], hanswer, hprinted hmirrors hwritten,
      .inr ⟨before, last, failure, failure', rfl,
        fun o ho => congrArg Verdict.status (hcompleted o ho), hlast, rfl, hsame.symm⟩⟩
  · exact hbatch.elim

/-- The second line fails as the program of both lines does, which says so of line 2. -/
theorem Session.runUntilFailure_eq_joined_failing :
    ∃ outcome, runProgram 9 (fun _ => 0) .unlimited ("\n".intercalate ["print nil;", "nil();"]) =
        some outcome ∧
      outcome.output = "nil\n".toUTF8 ∧ outcome.verdict = .failed (.runtime ⟨2, .notCallable⟩) ∧
      ∃ outcomes, (Session.fresh (fun _ => 0) .unlimited).runUntilFailure 9 ["print nil;", "nil();"] =
          some outcomes ∧ Session.printedBy outcomes = outcome.output := by
  have hrun : (runProgram 9 (fun _ => 0) .unlimited ("\n".intercalate ["print nil;", "nil();"])).map
      (fun outcome => (outcome.output, outcome.verdict)) =
      some ("nil\n".toUTF8, .failed (.runtime ⟨2, .notCallable⟩)) := by cbv
  obtain ⟨outcome, hrun, heq⟩ := Option.map_eq_some_iff.mp hrun
  have hlines : ∀ line ∈ ["print nil;", "nil();"], Accepted line 0 := by
    simp only [List.forall_mem_cons]
    exact ⟨⟨by cbv, by cbv⟩, ⟨by cbv, by cbv⟩, List.forall_mem_nil _⟩
  obtain ⟨outcomes, hanswer, hprinted, -⟩ := Session.runUntilFailure_eq_joined hlines hrun
  exact ⟨outcome, hrun, congrArg Prod.fst heq, congrArg Prod.snd heq, outcomes, hanswer, hprinted⟩

end Lox
