import Mathlib
import Lox.Proofs.Chains.Reachable
import Lox.Proofs.Session.Methods

/-!
# The environment is restored

From every state that an interpreter reaches, whatever is run comes back to the environment in which it began, and
keeps all links. Every moment of a session is such a state, so this holds in the middle of a program as well: for
each of its statements and expressions, and for each call that it makes.
-/

set_option autoImplicit false

namespace Lox

/-- A moment is one of an interpreter in reach, which keeps what the moment is about. -/
def Moment.IsReachable (x : Moment) : Prop :=
  ∃ kept, x.state.Reachable kept ∧ ∀ v ∈ x.event.values, ∀ env, v.Captures env → kept env

/-- The failure with which a run has ended, if it has. -/
def failure? {α : Type} : EStateM.Result Halt Interpreter α → Option Failure
  | .error (.failed failure) _ => some failure
  | _ => none

/-- A function that leaves its loop, and the block in there, with a value or else with an error. -/
def leavingText : String := "fun f(a) { while (true) { if (a) return a; -a; } }"

namespace Interpreter.Reachable

variable {m : Interpreter} {kept : Environment → Prop}

/-- Whatever an interpreter runs, and however this ends, the environment is restored. It runs an expression, a
statement, a block in any environment in use, or a call of any value that captures no other environments, with any
number of such arguments. -/
theorem environment_restored (h : m.Reachable kept) {job : Job} (hjob : ∀ env, job.Brings env → m.InUse kept env)
    (depth : Nat) :
    m.Restored kept (endState (job.run depth m)) (m.Keeps kept (yielded (job.run depth m))) := by
  obtain ⟨links, hm, hkept⟩ := h.linked
  obtain ⟨hcurrent, htopLevel, links', hpath, hm', hmeets⟩ :=
    job.keeps (fun env h => (hjob env h).linkedIn hm hkept) depth _ m hm rfl
  have hgrows : links <+: links' := hpath.leads
  have hkept' := keeps_linkedIn hm hkept hgrows (linkedIn_yielded hmeets)
  refine ⟨hcurrent, htopLevel, fun env env' henv henv' hscope => ?_, fun env henv => (h.after hjob depth).ends henv⟩
  exact (henv'.linkedIn hm' hkept').eq_of_scope_eq ((henv.linkedIn hm hkept).mono hgrows) hscope

/-- The function with one parameter is called with two arguments. One call returns, and the other one fails. -/
theorem environment_restored_leaving :
    ∃ (m : Interpreter) (kept : Environment → Prop) (f : Value),
      m.Reachable kept ∧ (∀ env, f.Captures env → m.InUse kept env) ∧ f.arity? = some 1 ∧
      (yielded ((Job.call f [.bool true, .nil]).run 9 m)).map ValueOver.text = ["true"] ∧
      m.Restored kept (endState ((Job.call f [.bool true, .nil]).run 9 m))
        (m.Keeps kept (yielded ((Job.call f [.bool true, .nil]).run 9 m))) ∧
      failure? ((Job.call f [.nil, .nil]).run 9 m) = some (.runtime ⟨1, .operandNotNumber⟩) ∧
      m.Restored kept (endState ((Job.call f [.nil, .nil]).run 9 m))
        (m.Keeps kept (yielded ((Job.call f [.nil, .nil]).run 9 m))) := by
  let statements := (parsed leavingText 0).statements
  let start := (Interpreter.fresh (fun _ => 0) .unlimited).learn (resolve statements).distances
  let declares := Job.block start.current statements
  let m := endState (declares.run 9 start)
  let kept := start.Keeps (fun _ => False) (yielded (declares.run 9 start))
  let f := (m.topLevel.get? m.store "f").getD .nil
  have hstart : start.Reachable fun _ => False := .adapted (.fresh (fun _ => 0) .unlimited) rfl rfl rfl
  have hdeclares (env : Environment) (h : declares.Brings env) : start.InUse (fun _ => False) env := by
    obtain rfl := h
    exact .current
  have hm := hstart.after hdeclares 9
  have hf (env : Environment) (h : f.Captures env) : m.InUse kept env := .named h
  have hjob (argument : Value) (hargument : ∀ env, ¬ argument.Captures env) (env : Environment)
      (h : (Job.call f [argument, .nil]).Brings env) : m.InUse kept env := by
    obtain ⟨v, hv, h⟩ := h
    simp only [List.mem_cons, List.not_mem_nil, or_false] at hv
    obtain rfl | rfl | rfl := hv
    · exact hf env h
    · exact absurd h (hargument env)
    · cases h
  have herror : (failure? ((Job.call f [.nil, .nil]).run 9 m)).bind Failure.runtime? =
      some ⟨1, .operandNotNumber⟩ := by decide +kernel
  obtain ⟨failure, hfails, herror⟩ := Option.bind_eq_some_iff.mp herror
  obtain rfl := Failure.eq_of_runtime? herror
  exact ⟨m, kept, f, hm, hf, by decide +kernel, by decide +kernel,
    environment_restored hm (hjob (.bool true) fun _ => nofun) 9, hfails,
    environment_restored hm (hjob .nil fun _ => nofun) 9⟩

/-- Top-level statements run one after the other. The interpreter stays in reach. -/
theorem executeProgram (h : m.Reachable kept) (depth : Nat) (ss : List Stmt) :
    (∃ kept', (endState (executeProgram (execute depth) ss m)).Reachable kept') ∧
      ∀ x ∈ Trace.executeProgram depth ss m, x.IsReachable := by
  induction ss generalizing m kept with
  | nil => exact ⟨⟨kept, h⟩, nofun⟩
  | cons s rest ih =>
    have hbrings : ∀ env, (Job.statement s).Brings env → m.InUse kept env := nofun
    have hmoments : ∀ x ∈ Trace.execute depth s m, x.IsReachable := fun x hx =>
      ⟨_, h.during hbrings depth hx, fun v hv env henv => .inr ⟨v, hv, henv⟩⟩
    have hafter := h.after hbrings depth
    cases hrun : execute depth s m with
    | ok flow t =>
      have hjob : (Job.statement s).run depth m = .ok flow.value? t := Eval.bind_of_ok hrun _
      have htrace : Trace.executeProgram depth (s :: rest) m =
          Trace.execute depth s m ++ Trace.executeProgram depth rest t := by
        rw [Trace.executeProgram, hrun, Trace.behind]
      rw [hjob] at hafter
      obtain ⟨hends, hrest⟩ := ih hafter
      rw [Lox.executeProgram, Eval.bind_of_ok hrun, htrace]
      exact ⟨hends, List.forall_mem_append.mpr ⟨hmoments, hrest⟩⟩
    | error e t =>
      have hjob : (Job.statement s).run depth m = .error e t := Eval.bind_of_error hrun _
      have htrace : Trace.executeProgram depth (s :: rest) m = Trace.execute depth s m := by
        rw [Trace.executeProgram, hrun, Trace.behind, List.append_nil]
      rw [hjob] at hafter
      rw [Lox.executeProgram, Eval.bind_of_error hrun, htrace]
      exact ⟨⟨_, hafter⟩, hmoments⟩

/-- A program runs from the top level. -/
theorem interpret (h : m.Reachable kept) (depth : Nat) (program : List Stmt) :
    (∃ kept', (endState (interpret depth program m)).Reachable kept') ∧
      ∀ x ∈ Trace.interpret depth program m, x.IsReachable := by
  obtain ⟨⟨kept', hends⟩, hmoments⟩ := (h.entered .topLevel).executeProgram depth program
  have hended : ∃ kept', (endState (Lox.interpret depth program m)).Reachable kept' := by
    obtain ⟨_, env, rfl, henv, hend⟩ := endState_interpret depth program m
    rw [hend]
    obtain rfl | rfl := henv
    · exact ⟨_, hends.entered .current⟩
    · exact ⟨_, hends.entered .topLevel⟩
  refine ⟨hended, List.forall_mem_append.mpr ⟨hmoments, List.forall_mem_singleton.mpr ?_⟩⟩
  obtain ⟨kept'', hended⟩ := hended
  exact ⟨kept'', hended, nofun⟩

end Interpreter.Reachable

namespace Session

variable {s : Session} {kept : Environment → Prop}

/-- A line keeps the interpreter in reach, whether it is accepted or not. -/
theorem lineTrace_reachable (h : s.interpreter.Reachable kept) (depth : Nat) (source : String) :
    (∀ x ∈ s.lineTrace depth source, x.IsReachable) ∧
      ∀ outcome s', s.run depth source = some (outcome, s') → ∃ kept', s'.interpreter.Reachable kept' := by
  have hemptied : s.emptied.Reachable kept := h.adapted rfl rfl rfl
  have hlearned : (s.emptied.learn (resolve (parsed source s.nextId).statements).distances).Reachable kept :=
    hemptied.adapted rfl rfl rfl
  unfold lineTrace
  by_cases haccepted : Accepted source s.nextId
  · obtain ⟨hends, hmoments⟩ := hlearned.interpret depth (parsed source s.nextId).statements
    rw [if_pos haccepted]
    exact ⟨hmoments, fun outcome s' hrun => interpreter_of_run haccepted hrun ▸ hends⟩
  · rw [if_neg haccepted]
    refine ⟨nofun, fun outcome s' hrun => ?_⟩
    by_cases hfront : frontDiagnostics source (parsed source s.nextId) = []
    · rw [run_of_unresolved hfront fun hresolved => haccepted ⟨hfront, hresolved⟩] at hrun
      cases hrun
      exact ⟨kept, hlearned⟩
    · rw [run_of_front hfront] at hrun
      cases hrun
      exact ⟨kept, hemptied⟩

/-- Every moment of a session is one of an interpreter in reach. -/
theorem trace_reachable (h : s.interpreter.Reachable kept) (depth : Nat) (lines : List String) :
    ∀ x ∈ s.trace depth lines, x.IsReachable := by
  induction lines generalizing s kept with
  | nil => nofun
  | cons source rest ih =>
    obtain ⟨hline, hends⟩ := lineTrace_reachable h depth source
    refine List.forall_mem_append.mpr ⟨hline, ?_⟩
    cases hrun : s.run depth source with
    | none => nofun
    | some result =>
      obtain ⟨kept', hends⟩ := hends result.1 result.2 hrun
      exact ih hends

end Session

end Lox
