import Mathlib
import Lox.Proofs.Session.Histories
import Lox.Proofs.Session.Renumbering

/-!
# Rejected lines leave no traces

A line that is rejected has used up occurrence numbers, and may have left distances under them. So a
session in which it was entered gives later lines other numbers, and finds variables in another table,
than one in which it was not. But both mirror the same machine of the reference interpreter, which knows
neither numbers nor distances, and they go on doing so.
-/

set_option autoImplicit false

namespace Lox

/-- A failure bears no numbers, so taking numbers away leaves it alone. -/
@[simp] theorem Failure.relabel_anonymous (failure : Failure) :
    failure.relabel .anonymous = failure := by
  cases failure <;> rfl

namespace Session

/-- Two sessions mirror the same machine, but for what the last line has printed. -/
structure Alike (s s' : Session) : Prop where
  output : s'.interpreter.output.emptied = s.interpreter.output.emptied
  mirrors : ∃ (w w' : World) (n : Lexical.Machine) (o : Sink),
    s.Mirrors .anonymous .empty w n ∧ s'.Mirrors .anonymous .empty w' { n with output := o }

variable {s s' : Session}

/-- Sessions that ran the same program on the same machine are alike, and so is what they report. -/
theorem Mirrors.RanAlike.alike {plan plan' : List Site} {r r' : Option (Outcome × Session)}
    {result : EStateM.Result Halt Lexical.Machine Unit}
    (h : RanAlike .anonymous .empty plan r result) (h' : RanAlike .anonymous .empty plan' r' result) :
    Option.Rel (fun q q' => q'.1 = q.1 ∧ q.2.Alike q'.2) r r' := by
  have hsame {w w' : World} {t t' : Session} {n : Lexical.Machine}
      (ht : t.Mirrors .anonymous .empty w n) (ht' : t'.Mirrors .anonymous .empty w' n) :
      t'.interpreter.output = t.interpreter.output ∧ t.Alike t' := by
    have houtput : t'.interpreter.output = t.interpreter.output :=
      ht'.simulation.output.eq_of_empty.symm.trans ht.simulation.output.eq_of_empty
    exact ⟨houtput, congrArg Sink.emptied houtput, w, w', n, n.output, ht, ht'⟩
  cases result with
  | ok a n =>
    cases r with
    | none => exact h.elim
    | some q =>
      cases r' with
      | none => exact h'.elim
      | some q' =>
        obtain ⟨houtcome, w, -, ht⟩ := h
        obtain ⟨houtcome', w', -, ht'⟩ := h'
        obtain ⟨houtput, halike⟩ := hsame ht ht'
        exact .some ⟨by rw [houtcome, houtcome', houtput], halike⟩
  | error e n =>
    cases e with
    | failed failure =>
      cases r with
      | none => exact h.elim
      | some q =>
        cases r' with
        | none => exact h'.elim
        | some q' =>
          obtain ⟨failure₁, hfailure₁, houtcome, w, -, ht⟩ := h
          obtain ⟨failure₂, hfailure₂, houtcome', w', -, ht'⟩ := h'
          obtain ⟨houtput, halike⟩ := hsame ht ht'
          rw [Failure.relabel_anonymous] at hfailure₁ hfailure₂
          exact .some ⟨by rw [houtcome, houtcome', houtput, ← hfailure₁, ← hfailure₂], halike⟩
    | exhausted =>
      cases r with
      | some q => exact h.elim
      | none =>
        cases r' with
        | some q' => exact h'.elim
        | none => exact .none

/-- Sessions that are alike report the same of a line, and are alike behind it. -/
theorem Alike.run (h : s.Alike s') (depth : Nat) (source : String) :
    Option.Rel (fun q q' => q'.1 = q.1 ∧ q.2.Alike q'.2) (s.run depth source)
      (s'.run depth source) := by
  obtain ⟨hemptied, w, w', n, o, hs, hs'⟩ := h
  have houtput := RelatesOutput.refl s.interpreter.output.emptied
  have houtput' : RelatesOutput .empty s'.interpreter.output.emptied s.interpreter.output.emptied :=
    hemptied ▸ RelatesOutput.refl _
  by_cases haccepted : Accepted source s.nextId
  · have hran := hs.accepted depth houtput haccepted
    have hran' := hs'.accepted depth houtput' haccepted.renumber
    rw [(Grammar.parse_renumber (Scan.tokens source) s.nextId s'.nextId).2] at hran'
    exact hran.alike hran'
  · obtain ⟨_, t, hrun, ht, hmirrors⟩ := hs.rejected depth houtput haccepted
    obtain ⟨_, t', hrun', ht', hmirrors'⟩ := hs'.rejected depth houtput' (mt Accepted.renumber haccepted)
    rw [hrun, hrun', rejection_renumber source s.nextId s'.nextId]
    refine .some ⟨rfl, ?_, _, _, _, _, hmirrors, hmirrors'⟩
    rw [ht, ht']
    exact congrArg Sink.emptied hemptied

/-- What lines are reported to do, one line at a time. -/
theorem outcomes_cons (depth : Nat) (s : Session) (source : String) (rest : List String) :
    (s.runAll depth (source :: rest)).map (·.1) =
      (s.run depth source).bind fun q => ((q.2.runAll depth rest).map (·.1)).map (q.1 :: ·) := by
  rw [Session.runAll]
  cases s.run depth source with
  | none => rfl
  | some q =>
    show Option.map _ ((q.2.runAll depth rest).bind _) = ((q.2.runAll depth rest).map _).map _
    cases q.2.runAll depth rest <;> rfl

/-- Sessions that are alike report the same of all further lines. -/
theorem Alike.runAll (h : s.Alike s') (depth : Nat) (lines : List String) :
    (s'.runAll depth lines).map (·.1) = (s.runAll depth lines).map (·.1) := by
  induction lines generalizing s s' with
  | nil => rfl
  | cons source rest ih =>
    have hrun := h.run depth source
    rw [outcomes_cons, outcomes_cons]
    generalize s.run depth source = r, s'.run depth source = r' at hrun ⊢
    cases hrun with
    | none => rfl
    | some hq => rw [Option.bind_some, Option.bind_some, hq.1, ih hq.2]

/-- A line is accepted if it is not rejected. -/
theorem not_accepted_of_compileError {depth : Nat} {source : String} {outcome : Outcome}
    (hrun : s.run depth source = some (outcome, s'))
    (hstatus : outcome.verdict.status = .compileError) : ¬Accepted source s.nextId := by
  intro haccepted
  rw [run_of_accepted haccepted] at hrun
  split at hrun
  · cases hrun
    cases hstatus
  · cases hrun
    cases hstatus
  · cases hrun

end Session

/-- A line that is rejected prints nothing and leaves the interpreter as it was, but for distances that no
other line finds. All that later lines report is as if it had never been entered. -/
theorem Session.rejected_leaves_no_trace {depth : Nat} {clock : Nat → Float} {output : Sink}
    {history : List String} {outcomes : List Outcome} {s s' : Session} {source : String}
    {outcome : Outcome}
    (hhistory : (Session.fresh clock output).runAll depth history = some (outcomes, s))
    (hrun : s.run depth source = some (outcome, s'))
    (hstatus : outcome.verdict.status = .compileError) :
    outcome.output = .empty ∧
      (∃ distances, s'.interpreter =
        { s.interpreter with distances, output := s.interpreter.output.emptied }) ∧
      ∀ depth' later, (s'.runAll depth' later).map (·.1) = (s.runAll depth' later).map (·.1) := by
  obtain ⟨w, n, hmirrors, -⟩ := (Session.fresh_mirrors .anonymous clock output).runAll hhistory
  obtain ⟨distances, t, hrun', ht, hmirrors'⟩ :=
    hmirrors.rejected depth (.refl s.interpreter.output.emptied)
      (Session.not_accepted_of_compileError hrun hstatus)
  rw [hrun] at hrun'
  cases hrun'
  refine ⟨rfl, ⟨distances, by rw [ht]; rfl⟩, ?_⟩
  exact Session.Alike.runAll ⟨by rw [ht]; rfl, w, _, n, _, hmirrors, hmirrors'⟩

/-- A line that may not return leaves a distance behind, but later lines do not notice. -/
theorem Session.rejected_leaves_no_trace_return :
    ∃ outcomes s outcome s',
      (Session.fresh (fun _ => 0) .unlimited).runAll 9 ["fun f(a) { return a; }"] =
        some (outcomes, s) ∧
      s.run 9 "{ var b; print b; return; }" = some (outcome, s') ∧
      outcome.verdict.status = .compileError ∧
      (s.interpreter.distances.get? 1, s'.interpreter.distances.get? 1) = (none, some 0) ∧
      (s'.runAll 9 ["print f(nil);"]).map (·.1) = (s.runAll 9 ["print f(nil);"]).map (·.1) := by
  have hruns :
      ((Session.fresh (fun _ => 0) .unlimited).runAll 9 ["fun f(a) { return a; }"]).bind
        (fun r => (r.2.run 9 "{ var b; print b; return; }").map fun q => (q.1.verdict.status,
          r.2.interpreter.distances.get? 1, q.2.interpreter.distances.get? 1)) =
      some (.compileError, none, some 0) := by cbv
  obtain ⟨⟨outcomes, s⟩, hhistory, hrun⟩ := Option.bind_eq_some_iff.mp hruns
  obtain ⟨⟨outcome, s'⟩, hrun, heq⟩ := Option.map_eq_some_iff.mp hrun
  have hstatus : outcome.verdict.status = .compileError := congrArg Prod.fst heq
  exact ⟨outcomes, s, outcome, s', hhistory, hrun, hstatus, congrArg Prod.snd heq,
    (Session.rejected_leaves_no_trace hhistory hrun hstatus).2.2 9 _⟩

end Lox
