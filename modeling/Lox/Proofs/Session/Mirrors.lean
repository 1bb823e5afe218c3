import Lox.Proofs.Session.Accepted
import Lox.Proofs.Simulation.Program

/-!
# Sessions and the reference interpreter

A session mirrors a machine of the reference interpreter between its lines. A line that is rejected
leaves the machine alone, and a line that runs moves both in the same way.
-/

set_option autoImplicit false

namespace Lox

namespace Session

/-- The interpreter at the start of a line. -/
def emptied (s : Session) : Interpreter :=
  { s.interpreter with output := s.interpreter.output.emptied }

section Run

variable {depth : Nat} {s : Session} {source : String}

/-- A line that does not scan or parse is rejected. -/
theorem run_of_front (h : frontDiagnostics source (parsed source s.nextId) ≠ []) :
    s.run depth source =
      some (⟨.rejected (frontDiagnostics source (parsed source s.nextId)), .empty⟩,
        ⟨s.emptied, (parsed source s.nextId).nextId⟩) := by
  by_cases hparsed : (parsed source s.nextId).errors = []
  · have hlexical : Scan.errors source ≠ [] := fun hscanned => h (frontDiagnostics_eq_nil_iff.mpr ⟨hscanned, hparsed⟩)
    have hclean : ¬(!(parsed source s.nextId).errors.isEmpty) = true := by simp [hparsed]
    have hfound : (!((Scan.errors source).map (·.diagnostic)).isEmpty) = true := by simpa using hlexical
    rw [frontDiagnostics, hparsed, List.map_nil, List.append_nil]
    exact (if_neg hclean).trans (if_pos hfound)
  · exact if_pos (by simpa using hparsed)

/-- A line that does not resolve is rejected, but its distances are recorded. -/
theorem run_of_unresolved (hfront : frontDiagnostics source (parsed source s.nextId) = [])
    (h : (resolve (parsed source s.nextId).statements).errors ≠ []) :
    s.run depth source =
      some (⟨.rejected
          ((resolve (parsed source s.nextId).statements).errors.map (·.diagnostic)), .empty⟩,
        ⟨s.emptied.learn (resolve (parsed source s.nextId).statements).distances,
          (parsed source s.nextId).nextId⟩) := by
  obtain ⟨hlexical, hparsed⟩ := frontDiagnostics_eq_nil_iff.mp hfront
  have hclean : ¬(!(parsed source s.nextId).errors.isEmpty) = true := by simp [hparsed]
  have hclean' : ¬(!((Scan.errors source).map (·.diagnostic)).isEmpty) = true := by simp [hlexical]
  have hfound : (!(resolve (parsed source s.nextId).statements).errors.isEmpty) = true := by simpa using h
  refine (if_neg hclean).trans ((if_neg hclean').trans ((if_pos hfound).trans ?_))
  rw [hlexical]
  rfl

/-- An accepted line runs. -/
theorem run_of_accepted (h : Accepted source s.nextId) :
    s.run depth source =
      match interpret depth (parsed source s.nextId).statements
          (s.emptied.learn (resolve (parsed source s.nextId).statements).distances) with
      | .ok () m =>
        some (⟨.completed, m.output.written⟩, ⟨m, (parsed source s.nextId).nextId⟩)
      | .error (.failed failure) m =>
        some (⟨.failed failure, m.output.written⟩, ⟨m, (parsed source s.nextId).nextId⟩)
      | .error .exhausted _ => none := by
  obtain ⟨hlexical, hparsed⟩ := frontDiagnostics_eq_nil_iff.mp h.front
  have hclean : ¬(!(parsed source s.nextId).errors.isEmpty) = true := by simp [hparsed]
  have hclean' : ¬(!((Scan.errors source).map (·.diagnostic)).isEmpty) = true := by simp [hlexical]
  have hresolved : ¬(!(resolve (parsed source s.nextId).statements).errors.isEmpty) = true := by simp [h.resolved]
  refine (if_neg hclean).trans ((if_neg hclean').trans ((if_neg hresolved).trans ?_))
  rw [hlexical]
  rfl

end Run

/-- A session is in the same state as a machine of the reference interpreter. -/
structure Mirrors (R : Relabeling) (printed : ByteArray) (w : World) (s : Session)
    (n : Lexical.Machine) : Prop where
  simulation : Simulation R printed w s.interpreter n
  nextId : w.nextId = s.nextId

end Session

/-- The world in which nothing has run. -/
def World.initial : World := ⟨2, fun _ _ => none, fun _ _ => False, [], 0⟩

section Sessions

variable {R : Relabeling} {printed printed' : ByteArray} {w : World} {s : Session}
  {n : Lexical.Machine} {source : String} {o : Sink}

/-- A session and a machine that have run nothing are in the same state. -/
theorem Session.fresh_mirrors (R : Relabeling) (clock : Nat → Float) (output : Sink) :
    (Session.fresh clock output).Mirrors R .empty .initial (.fresh clock output) where
  simulation :=
    { size := rfl
      local_size := Nat.le_refl 2
      topLevel := rfl
      distances := fun _ h => by cases h
      settled := fun _ h => by cases h
      numbered := fun _ h => by cases h
      unrecorded := fun id _ => by
        simp [Session.fresh, Interpreter.fresh, Distances.get?, Distances.empty]
      natives := fun x => by
        show Option.Rel _ (Bindings.get? x [(Interpreter.clockName, ValueOver.clock)])
          (Bindings.get? x [(Interpreter.clockName, ValueOver.clock)])
        unfold Bindings.get?
        split
        · exact .some .clock
        · exact .none
      globals := fun _ => .none
      placed := fun _ _ _ h => by cases h
      distinct := fun _ _ _ _ _ h => by cases h
      cells := fun _ _ _ h => by cases h
      unplaced := fun scope x hscope _ => by
        obtain ⟨k, rfl⟩ := Nat.exists_eq_add_of_le' hscope
        rfl
      ready := fun _ _ h => h.elim
      instances := rfl
      fields := fun _ _ => .none
      created := rfl
      output := ⟨by simp [Interpreter.fresh, Session.fresh, Lexical.Machine.fresh], .inl rfl⟩
      clock := rfl
      ticks := rfl }
  nextId := rfl

namespace Session.Mirrors

/-- The output is replaced on both sides. -/
theorem simulation_emptied (h : s.Mirrors R printed w n)
    (houtput : RelatesOutput printed' s.interpreter.output.emptied o) :
    Simulation R printed' w s.emptied { n with output := o } :=
  { h.simulation with output := houtput }

/-- What is recorded for an accepted line stands beside what was recorded before. -/
theorem started (h : s.Mirrors R printed w n)
    (houtput : RelatesOutput printed' s.interpreter.output.emptied o)
    (haccepted : Accepted source s.nextId) :
    Simulation R printed'
      (w.planning (Stmt.sitesAll (parsed source s.nextId).statements [])
        (parsed source s.nextId).nextId)
      (s.emptied.learn (resolve (parsed source s.nextId).statements).distances)
      { n with output := o } := by
  rw [haccepted.distances]
  refine (h.simulation_emptied houtput).learn ?_ haccepted.yields.settled haccepted.sites_nodup ?_
  · rw [h.nextId]
    exact le_parse_nextId _ _
  · rw [h.nextId]
    exact fun site hsite => haccepted.site_id_bounds hsite

/-- What a rejected line leaves behind: distances under numbers that it was handed out. -/
theorem rejected (h : s.Mirrors R printed w n) (depth : Nat)
    (houtput : RelatesOutput printed' s.interpreter.output.emptied o)
    (hrejected : ¬Accepted source s.nextId) :
    ∃ distances s',
      s.run depth source = some (⟨.rejected (rejection source s.nextId), .empty⟩, s') ∧
      s' = ⟨{ s.emptied with distances }, (parsed source s.nextId).nextId⟩ ∧
      s'.Mirrors R printed' { w with nextId := (parsed source s.nextId).nextId }
        { n with output := o } := by
  have hle : w.nextId ≤ (parsed source s.nextId).nextId := h.nextId.symm ▸ le_parse_nextId _ _
  have hemptied := h.simulation_emptied houtput
  unfold rejection
  by_cases hfront : frontDiagnostics source (parsed source s.nextId) = []
  · have hresolved : (resolve (parsed source s.nextId).statements).errors ≠ [] :=
      fun hresolved => hrejected ⟨hfront, hresolved⟩
    have hextends := Stmt.resolveAll_extends .topLevel (parsed source s.nextId).statements .empty
    obtain ⟨found, hfound, hids⟩ := hextends.distances
    have hdistances : (resolve (parsed source s.nextId).statements).distances = found := hfound
    rw [hfront]
    refine ⟨_, _, run_of_unresolved hfront hresolved, rfl, ?_, rfl⟩
    rw [hdistances]
    exact hemptied.record hle fun entry hentry =>
      h.nextId.symm ▸ parsed_id_bounds hfront (hids entry hentry)
  · have hkept := hemptied.record hle fun entry (hentry : entry ∈ []) => by cases hentry
    rw [if_neg (by simpa using hfront)]
    exact ⟨_, _, run_of_front hfront, rfl, hkept, rfl⟩

/-- A line has run in the same way as the reference interpreter. -/
def RanAlike (R : Relabeling) (printed : ByteArray) (plan : List Site) :
    Option (Outcome × Session) → EStateM.Result Halt Lexical.Machine Unit → Prop
  | some (outcome, s), .ok () n =>
    outcome = ⟨.completed, s.interpreter.output.written⟩ ∧
      ∃ w : World, w.plan = plan ∧ s.Mirrors R printed w n
  | some (outcome, s), .error (.failed failure') n =>
    ∃ failure, failure' = failure.relabel R ∧
      outcome = ⟨.failed failure, s.interpreter.output.written⟩ ∧
      ∃ w : World, w.plan = plan ∧ s.Mirrors R printed w n
  | none, .error .exhausted _ => True
  | _, _ => False

/-- An accepted line runs alike. -/
theorem accepted (h : s.Mirrors R printed w n) (depth : Nat)
    (houtput : RelatesOutput printed' s.interpreter.output.emptied o)
    (haccepted : Accepted source s.nextId) :
    RanAlike R printed' (w.plan ++ Stmt.sitesAll (parsed source s.nextId).statements [])
      (s.run depth source)
      (Lexical.interpret depth (Stmt.relabelAll R (parsed source s.nextId).statements)
        { n with output := o }) := by
  have hstarted := h.started houtput haccepted
  have hrun := interpret_agrees hstarted depth (parsed source s.nextId).statements
    (haccepted.yields.resolved _ (List.subset_append_right _ _))
  rw [run_of_accepted haccepted]
  generalize interpret depth (parsed source s.nextId).statements
      (s.emptied.learn (resolve (parsed source s.nextId).statements).distances) = result,
    Lexical.interpret depth (Stmt.relabelAll R (parsed source s.nextId).statements)
      { n with output := o } = result' at hrun ⊢
  cases result with
  | ok a m =>
    cases result' with
    | error e' n' => exact hrun.elim
    | ok b n' =>
      obtain ⟨-, w', hw, hsim, -⟩ := hrun
      exact ⟨rfl, w', hw.plan_eq, hsim, hw.nextId_eq⟩
  | error e m =>
    cases result' with
    | ok b n' => exact hrun.elim
    | error e' n' =>
      obtain ⟨-, rfl, w', hw, hsim⟩ := hrun
      cases e with
      | failed failure => exact ⟨failure, rfl, rfl, w', hw.plan_eq, hsim, hw.nextId_eq⟩
      | exhausted => trivial

end Session.Mirrors

end Sessions

end Lox
