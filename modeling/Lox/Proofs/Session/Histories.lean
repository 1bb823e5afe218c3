import Lox.Proofs.Session.Mirrors

/-!
# Histories of sessions

After any lines, accepted or not, a session mirrors a machine of the reference interpreter. The sites
whose distances it has recorded are those of the lines that were accepted.
-/

set_option autoImplicit false

namespace Lox

instance (source : String) (firstId : Occurrence) : Decidable (Accepted source firstId) :=
  decidable_of_iff
    ((frontDiagnostics source (parsed source firstId)).isEmpty = true ∧
      (resolve (parsed source firstId).statements).errors.isEmpty = true)
    ⟨fun h => ⟨List.isEmpty_iff.mp h.1, List.isEmpty_iff.mp h.2⟩,
      fun h => ⟨List.isEmpty_iff.mpr h.front, List.isEmpty_iff.mpr h.resolved⟩⟩

namespace Session

/-- The sites of a line, if it is accepted. -/
def lineSites (s : Session) (source : String) : List Site :=
  if Accepted source s.nextId then Stmt.sitesAll (parsed source s.nextId).statements [] else []

/-- The sites of the accepted lines among lines that a session runs. -/
def sites (depth : Nat) (s : Session) : List String → List Site
  | [] => []
  | source :: rest =>
    s.lineSites source ++
      match s.run depth source with
      | some (_, s') => s'.sites depth rest
      | none => []

variable {R : Relabeling} {w : World} {s s' : Session} {n : Lexical.Machine} {depth : Nat}

/-- A line moves a session to a state that a machine of the reference interpreter mirrors, and the sites
of the line are planned if it was accepted. -/
theorem Mirrors.run (h : s.Mirrors R .empty w n) {source : String} {outcome : Outcome}
    (hrun : s.run depth source = some (outcome, s')) :
    ∃ (w' : World) (n' : Lexical.Machine),
      s'.Mirrors R .empty w' n' ∧ w'.plan = w.plan ++ s.lineSites source := by
  have houtput := RelatesOutput.refl s.interpreter.output.emptied
  unfold lineSites
  by_cases haccepted : Accepted source s.nextId
  · rw [if_pos haccepted]
    have hran := h.accepted depth houtput haccepted
    generalize Lexical.interpret depth (Stmt.relabelAll R (parsed source s.nextId).statements)
      { n with output := s.interpreter.output.emptied } = result at hran
    rw [hrun] at hran
    match result, hran with
    | .ok () n', ⟨_, w', hplan, hmirrors⟩ => exact ⟨w', n', hmirrors, hplan⟩
    | .error (.failed _) n', ⟨_, _, _, w', hplan, hmirrors⟩ => exact ⟨w', n', hmirrors, hplan⟩
  · rw [if_neg haccepted, List.append_nil]
    obtain ⟨_, s₁, hrun₁, -, hmirrors⟩ := h.rejected depth houtput haccepted
    rw [hrun] at hrun₁
    cases hrun₁
    exact ⟨_, _, hmirrors, rfl⟩

/-- Lines move a session to a state that a machine of the reference interpreter mirrors. -/
theorem Mirrors.runAll (h : s.Mirrors R .empty w n) {history : List String}
    {outcomes : List Outcome} (hrun : s.runAll depth history = some (outcomes, s')) :
    ∃ (w' : World) (n' : Lexical.Machine),
      s'.Mirrors R .empty w' n' ∧ w'.plan = w.plan ++ s.sites depth history := by
  induction history generalizing s w n outcomes with
  | nil =>
    cases hrun
    exact ⟨w, n, h, (List.append_nil _).symm⟩
  | cons source rest ih =>
    obtain ⟨⟨outcome, s₁⟩, hfirst, hrest⟩ := Option.bind_eq_some_iff.mp hrun
    obtain ⟨⟨outcomes', s₂⟩, hrest, hpair⟩ := Option.bind_eq_some_iff.mp hrest
    cases hpair
    obtain ⟨w₁, n₁, hmirrors, hplan⟩ := h.run hfirst
    obtain ⟨w₂, n₂, hmirrors', hplan'⟩ := ih hmirrors hrest
    refine ⟨w₂, n₂, hmirrors', ?_⟩
    rw [hplan', hplan, List.append_assoc, sites, hfirst]

/-- One more line adds its sites to those of the history. -/
theorem sites_append_singleton {history : List String} {outcomes : List Outcome}
    (hrun : s.runAll depth history = some (outcomes, s')) (source : String) :
    s.sites depth (history ++ [source]) = s.sites depth history ++ s'.lineSites source := by
  induction history generalizing s outcomes with
  | nil =>
    cases hrun
    simp only [List.nil_append, sites]
    split <;> simp
  | cons first rest ih =>
    obtain ⟨⟨outcome, s₁⟩, hfirst, hrest⟩ := Option.bind_eq_some_iff.mp hrun
    obtain ⟨⟨outcomes', s₂⟩, hrest, hpair⟩ := Option.bind_eq_some_iff.mp hrest
    cases hpair
    simp only [List.cons_append, sites, hfirst, ih hrest, List.append_assoc]

end Session

end Lox
