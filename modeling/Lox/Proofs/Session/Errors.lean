import Lox.Proofs.Errors.Evaluation
import Lox.Proofs.Session.Methods

/-!
# Runtime errors of sessions

A function may be called in a later line than the one that declares it, so the expressions to which a line comes
are parts of all lines that were accepted up to there. Each of these follows the grammar, and its tokens are
those of its own source. With what is known of the expressions that can fail, and of `this`, these are the only
runtime errors: those with a documented message, at a token of the source from which the expression comes.
-/

set_option autoImplicit false

namespace Lox

/-- A part is proper for every property that follows from the one for which it is. -/
theorem Part.IsProper.imp {p q : Token → Prop} (hpq : ∀ t, p t → q t) {part : Part} (h : part.IsProper p) :
    part.IsProper q := by
  cases part with
  | expression e => exact ⟨h.1, fun t ht => hpq t (h.2 t ht)⟩
  | function d => exact h

/-- The parts of an accepted source follow the grammar, and have its tokens. -/
theorem Accepted.parts_are {source : String} {firstId : Occurrence} (h : Accepted source firstId) :
    ∀ part ∈ Stmt.partsAll (parsed source firstId).statements, part.IsProper (· ∈ Scan.tokens source) := by
  intro part hpart
  have hclean : (parsed source firstId).errors = [] :=
    List.map_eq_nil_iff.mp (List.append_eq_nil_iff.mp h.front).2
  have hprogram := Grammar.program_of_parse hclean
  have htokens : Grammar.TokensAre (· ∈ Scan.tokens source)
      (Grammar.start (Scan.tokens source) firstId).rest :=
    fun t ht => (List.takeWhile_prefix _).subset ht
  have hparts := (hprogram.parts_are (Grammar.partRules_isProper _) htokens).2
  rw [Stmt.partsAll_relabel] at hparts
  exact part.isProper_anonymous.mp (hparts _ (List.mem_map_of_mem hpart))

/-- The parts of programs, each given by its source and its first number. -/
def partsOfPrograms (programs : List (String × Occurrence)) : List Part :=
  programs.flatMap fun program => Stmt.partsAll (parsed program.1 program.2).statements

/-- The parts of accepted programs are grammatical. -/
theorem partsOfPrograms_grammatical {programs : List (String × Occurrence)}
    (h : ∀ program ∈ programs, Accepted program.1 program.2) : Part.Grammatical (partsOfPrograms programs) where
  closed d hd := by
    obtain ⟨program, hprogram, hd⟩ := List.mem_flatMap.mp hd
    exact fun part hpart => List.mem_flatMap.mpr ⟨program, hprogram, Stmt.partsAll_closed _ d hd hpart⟩
  proper part hpart := by
    obtain ⟨program, hprogram, hpart⟩ := List.mem_flatMap.mp hpart
    exact ((h program hprogram).parts_are part hpart).imp fun _ _ => trivial

namespace Session

/-- A line with its first number, if it is accepted. -/
def lineAccepted (s : Session) (source : String) : List (String × Occurrence) :=
  if Accepted source s.nextId then [(source, s.nextId)] else []

/-- The accepted lines among lines that a session runs, each with its first number. -/
def accepted (depth : Nat) (s : Session) : List String → List (String × Occurrence)
  | [] => []
  | source :: rest =>
    s.lineAccepted source ++
      match s.run depth source with
      | some (_, s') => s'.accepted depth rest
      | none => []

variable {depth : Nat} {s : Session}

/-- The program of a line that is accepted is an accepted one. -/
theorem lineAccepted_accepted (s : Session) (source : String) :
    ∀ program ∈ s.lineAccepted source, Accepted program.1 program.2 := by
  unfold lineAccepted
  split
  · exact List.forall_mem_singleton.mpr ‹_›
  · nofun

/-- The programs of all lines that are accepted are accepted ones. -/
theorem accepted_accepted (depth : Nat) (s : Session) (lines : List String) :
    ∀ program ∈ s.accepted depth lines, Accepted program.1 program.2 := by
  induction lines generalizing s with
  | nil => nofun
  | cons source rest ih =>
    refine List.forall_mem_append.mpr ⟨s.lineAccepted_accepted source, ?_⟩
    split
    · exact ih _
    · nofun

variable {parts : List Part}

/-- A line that is rejected leaves the store as it was, and does not fail. -/
theorem store_of_rejected {source : String}
    (hrejected : ¬Accepted source s.nextId) {outcome : Outcome} {s' : Session}
    (hrun : s.run depth source = some (outcome, s')) :
    s'.interpreter.store = s.interpreter.store ∧ outcome.verdict.failure? = none := by
  by_cases hfront : frontDiagnostics source (parsed source s.nextId) = []
  · rw [run_of_unresolved hfront fun hresolved => hrejected ⟨hfront, hresolved⟩] at hrun
    cases hrun
    exact ⟨rfl, rfl⟩
  · rw [run_of_front hfront] at hrun
    cases hrun
    exact ⟨rfl, rfl⟩

/-- A line stays within the parts, and fails only with errors of its moments. -/
theorem lineTrace_stays (hparts : Part.Grammatical parts) (hs : s.interpreter.store.All (ValueOver.IsFrom parts))
    (depth : Nat) {source : String} (hline : partsOfPrograms (s.lineAccepted source) ⊆ parts) :
    (∀ x ∈ s.lineTrace depth source, x.Within parts) ∧
      ∀ outcome s', s.run depth source = some (outcome, s') →
        s'.interpreter.store.All (ValueOver.IsFrom parts) ∧
        ∀ error, outcome.verdict.failure? = some (.runtime error) →
          ∃ x ∈ s.lineTrace depth source, x.Raises error := by
  unfold lineTrace
  by_cases haccepted : Accepted source s.nextId
  · rw [if_pos haccepted]
    rw [lineAccepted, if_pos haccepted, partsOfPrograms, List.flatMap_singleton] at hline
    have hstart : (partsKept hparts).Possible []
        (s.emptied.learn (resolve (parsed source s.nextId).statements).distances) := ⟨trivial, hs⟩
    obtain ⟨past, hpath, hend, hmeets⟩ := interpret_keeps hstart depth fun statement hmem =>
      List.Subset.trans (Stmt.parts_subset hmem) hline
    refine ⟨hpath.within, fun outcome s' hrun => ⟨?_, fun error hfailed => ?_⟩⟩
    · rw [interpreter_of_run haccepted hrun]
      exact hend.good
    rw [run_of_accepted haccepted] at hrun
    split at hrun
    · cases hrun
      cases hfailed
    · rename_i failure m hrun'
      cases hrun
      cases hfailed
      rw [hrun'] at hmeets
      obtain rfl : past = _ := hpath.leads
      exact hmeets error rfl
    · cases hrun
  · rw [if_neg haccepted]
    refine ⟨nofun, fun outcome s' hrun => ?_⟩
    obtain ⟨hstore, hnone⟩ := store_of_rejected haccepted hrun
    refine ⟨hstore ▸ hs, fun error hfailed => ?_⟩
    rw [hnone] at hfailed
    cases hfailed

/-- A session stays within the parts, and its lines fail only with errors of its moments. -/
theorem trace_stays (hparts : Part.Grammatical parts) (hs : s.interpreter.store.All (ValueOver.IsFrom parts))
    (depth : Nat) {lines : List String} (hlines : partsOfPrograms (s.accepted depth lines) ⊆ parts) :
    (∀ x ∈ s.trace depth lines, x.Within parts) ∧
      ∀ outcomes s', s.runAll depth lines = some (outcomes, s') → ∀ outcome ∈ outcomes, ∀ error,
        outcome.verdict.failure? = some (.runtime error) → ∃ x ∈ s.trace depth lines, x.Raises error := by
  induction lines generalizing s with
  | nil =>
    refine ⟨nofun, fun outcomes s' hrun => ?_⟩
    cases hrun
    exact List.forall_mem_nil _
  | cons source rest ih =>
    rw [accepted, partsOfPrograms, List.flatMap_append] at hlines
    obtain ⟨hline, hrest⟩ := List.append_subset.mp hlines
    obtain ⟨hwithin, hnext⟩ := lineTrace_stays hparts hs depth hline
    rw [trace]
    cases hfirst : s.run depth source with
    | none =>
      refine ⟨List.forall_mem_append.mpr ⟨hwithin, nofun⟩, fun outcomes s' hrun => ?_⟩
      obtain ⟨result, hfirst', -⟩ := Option.bind_eq_some_iff.mp hrun
      rw [hfirst] at hfirst'
      cases hfirst'
    | some result =>
      obtain ⟨outcome₁, s₁⟩ := result
      obtain ⟨hs₁, herror⟩ := hnext outcome₁ s₁ hfirst
      rw [hfirst] at hrest
      obtain ⟨hwithin', herrors⟩ := ih hs₁ hrest
      refine ⟨List.forall_mem_append.mpr ⟨hwithin, hwithin'⟩, fun outcomes s' hrun => ?_⟩
      obtain ⟨result, hfirst', hbehind⟩ := Option.bind_eq_some_iff.mp hrun
      obtain rfl := Option.some.inj (hfirst.symm.trans hfirst')
      obtain ⟨⟨outcomes₂, s₂⟩, hsecond, hpair⟩ := Option.bind_eq_some_iff.mp hbehind
      cases hpair
      refine List.forall_mem_cons.mpr ⟨fun error hfailed => ?_, fun outcome houtcome error hfailed => ?_⟩
      · obtain ⟨x, hx, hraises⟩ := herror error hfailed
        exact ⟨x, List.mem_append_left _ hx, hraises⟩
      · obtain ⟨x, hx, hraises⟩ := herrors outcomes₂ _ hsecond outcome houtcome error hfailed
        exact ⟨x, List.mem_append_right _ hx, hraises⟩

end Session

/-- The documented messages of a runtime error at a token. -/
inductive Token.Reports (t : Token) : String → Prop
  | operand : t.Reports "Operand must be a number."
  | operands : t.Reports "Operands must be numbers."
  | addends : t.Reports "Operands must be two numbers or two strings."
  | callee : t.Reports "Can only call functions and classes."
  | arguments {expected got : Nat} (hexpected : expected ≤ 8) (hgot : got ≤ 8) (hne : expected ≠ got) :
    t.Reports s!"Expected {expected} arguments but got {got}."
  | noProperties : t.Reports "Only instances have properties."
  | noFields : t.Reports "Only instances have fields."
  | undefinedProperty : t.Reports s!"Undefined property '{t.lexeme}'."
  | undefinedVariable (hname : t.isIdentifier = true) (hthis : t.lexeme ≠ thisName) :
    t.Reports s!"Undefined variable '{t.lexeme}'."

/-- What a proper expression fails with is documented, if it is not `this`. -/
theorem Expr.FailsWith.reports {e : Expr} {cause : RuntimeCause} (h : e.FailsWith cause) (hproper : e.IsProper)
    (hthis : ∀ id keyword, e ≠ .this id keyword) {t : Token} (ht : e.token? = some t) (hspelled : t.Spelled) :
    t.Reports cause.message := by
  cases e with
  | unary operator right =>
    obtain ⟨-, rfl⟩ := h
    exact .operand
  | binary left operator right =>
    rcases h with ⟨-, rfl⟩ | ⟨-, rfl⟩
    · exact .addends
    · exact .operands
  | «variable» id name =>
    obtain rfl := Option.some.inj ht
    rw [show cause = .undefinedVariable name.lexeme from h]
    exact .undefinedVariable hproper (hspelled.identifier hproper)
  | assign id name value =>
    obtain rfl := Option.some.inj ht
    rw [show cause = .undefinedVariable name.lexeme from h]
    exact .undefinedVariable hproper (hspelled.identifier hproper)
  | call callee paren arguments =>
    rcases h with rfl | ⟨expected, hexpected, hne, rfl⟩
    · exact .callee
    · exact .arguments hexpected hproper hne
  | get object name =>
    obtain rfl := Option.some.inj ht
    rcases h with rfl | rfl
    · exact .noProperties
    · exact .undefinedProperty
  | set object name value =>
    rw [show cause = .noFields from h]
    exact .noFields
  | this id keyword => exact absurd rfl (hthis id keyword)
  | literal _ => exact h.elim
  | grouping _ => exact h.elim
  | logical _ _ _ => exact h.elim

/-- An expression is from one of the programs. It follows the grammar then, and its token is one of the source. -/
def Expr.IsOf (programs : List (String × Occurrence)) (e : Expr) : Prop :=
  ∃ program ∈ programs, .expression e ∈ Stmt.partsAll (parsed program.1 program.2).statements ∧
    e.IsProper ∧ ∀ t ∈ e.token?, t ∈ Scan.tokens program.1

/-- An error has arisen at a moment as it is documented. The evaluation of an expression of one of the programs begins
there and fails with the error, at a token of the source, on the line of this token. -/
def Moment.Documents (programs : List (String × Occurrence)) (x : Moment) (error : RuntimeError) : Prop :=
  ∃ depth e m, x.event = .expression depth e ∧
    evaluate depth e x.state = .error (.failed (.runtime error)) m ∧ e.FailsWith error.cause ∧
    ∃ program ∈ programs, .expression e ∈ Stmt.partsAll (parsed program.1 program.2).statements ∧
      ∃ t ∈ Scan.tokens program.1, e.token? = some t ∧ error.line = t.line ∧ t.Reports error.cause.message

/-- An expression among the parts of accepted programs is from one of them. -/
theorem Expr.isOf_of_mem {programs : List (String × Occurrence)}
    (hprograms : ∀ program ∈ programs, Accepted program.1 program.2) {e : Expr}
    (he : .expression e ∈ partsOfPrograms programs) : e.IsOf programs := by
  obtain ⟨program, hprogram, he⟩ := List.mem_flatMap.mp he
  exact ⟨program, hprogram, he, (hprograms program hprogram).parts_are _ he⟩

/-- An error that has arisen at a moment is documented, if the expression is not `this`. -/
theorem Moment.Raises.documents {x : Moment} {error : RuntimeError} (h : x.Raises error)
    {programs : List (String × Occurrence)} (hof : ∀ depth e, x.event = .expression depth e → e.IsOf programs)
    (hthis : ∀ depth id keyword m, x.event = .expression depth (.this id keyword) →
      evaluate depth (.this id keyword) x.state ≠ .error (.failed (.runtime error)) m) :
    x.Documents programs error := by
  obtain ⟨depth, e, m, hevent, hrun, hfails, t, ht, hline⟩ := h
  obtain ⟨program, hprogram, he, hproper, htokens⟩ := hof depth e hevent
  have hother (id : Occurrence) (keyword : Token) : e ≠ .this id keyword := by
    rintro rfl
    exact hthis depth id keyword m hevent hrun
  exact ⟨depth, e, m, hevent, hrun, hfails, program, hprogram, he, t, htokens t ht, ht, hline,
    hfails.reports hproper hother ht (Scan.spelled_of_mem_tokens (htokens t ht))⟩

/-- Every expression that is evaluated in a session is one of an accepted line, and follows the grammar: its
operator is one of those for which evaluation has a case. Every runtime error with which a line ends has arisen
where such an expression was evaluated, has a documented message, and the line of a token of the source from
which the expression comes. -/
theorem Session.runtime_errors_documented (clock : Nat → Float) (output : Sink) (depth : Nat)
    (lines : List String) :
    (∀ x ∈ (Session.fresh clock output).trace depth lines, ∀ d e, x.event = .expression d e →
      e.IsOf ((Session.fresh clock output).accepted depth lines)) ∧
    ∀ outcomes s, (Session.fresh clock output).runAll depth lines = some (outcomes, s) →
      ∀ outcome ∈ outcomes, ∀ error, outcome.verdict.failure? = some (.runtime error) →
        ∃ x ∈ (Session.fresh clock output).trace depth lines,
          x.Documents ((Session.fresh clock output).accepted depth lines) error := by
  have haccepted := Session.accepted_accepted depth (.fresh clock output) lines
  obtain ⟨hwithin, herrors⟩ := Session.trace_stays (partsOfPrograms_grammatical haccepted)
    (Interpreter.fresh_good trivial) depth (List.Subset.refl _)
  have hof : ∀ x ∈ (Session.fresh clock output).trace depth lines, ∀ d e, x.event = .expression d e →
      e.IsOf ((Session.fresh clock output).accepted depth lines) :=
    fun x hx d e hevent => Expr.isOf_of_mem haccepted (hwithin x hx d e hevent)
  refine ⟨hof, fun outcomes s hrun outcome houtcome error hfailed => ?_⟩
  obtain ⟨x, hx, hraises⟩ := herrors outcomes s hrun outcome houtcome error hfailed
  refine ⟨x, hx, hraises.documents (hof x hx) fun d id keyword m hevent hends => ?_⟩
  -- a use of `this` always has a value
  obtain ⟨before, after, htrace⟩ := List.append_of_mem hx
  obtain ⟨i, -, -, -, -, -, -, -, hvalue⟩ := (Session.trace_faithful htrace).this d id keyword hevent
  rw [hvalue] at hends
  cases hends

/-- Lines of which the first one declares a method, and the third one calls it with a value that it cannot
negate. -/
def negatingLines : List String :=
  ["\nclass A { negate(x) { return -x; } }", "var f = A().negate;", "\n\n\nf(nil);"]

/-- The error has the line that the operator has in the first of these lines, and has arisen where the operand
is negated. -/
theorem Session.runtime_errors_documented_negating :
    ∃ outcomes s outcome,
      (Session.fresh (fun _ => 0) .unlimited).runAll 20 negatingLines = some (outcomes, s) ∧
      outcome ∈ outcomes ∧ outcome.verdict.failure? = some (.runtime ⟨2, .operandNotNumber⟩) ∧
      ∃ x ∈ (Session.fresh (fun _ => 0) .unlimited).trace 20 negatingLines,
        x.Documents ((Session.fresh (fun _ => 0) .unlimited).accepted 20 negatingLines)
          ⟨2, .operandNotNumber⟩ := by
  have herrors : ((Session.fresh (fun _ => 0) .unlimited).runAll 20 negatingLines).map
      (fun r => r.1.map (·.verdict.failure?.bind Failure.runtime?)) =
        some [none, none, some ⟨2, .operandNotNumber⟩] := by decide +kernel
  obtain ⟨⟨outcomes, s⟩, hrun, herrors⟩ := Option.map_eq_some_iff.mp herrors
  have hmem : some ⟨2, .operandNotNumber⟩ ∈ outcomes.map (·.verdict.failure?.bind Failure.runtime?) := by
    rw [herrors]
    decide
  obtain ⟨outcome, houtcome, herror⟩ := List.mem_map.mp hmem
  obtain ⟨failure, hfailed, herror⟩ := Option.bind_eq_some_iff.mp herror
  obtain rfl := Failure.eq_of_runtime? herror
  exact ⟨outcomes, s, outcome, hrun, houtcome, hfailed,
    (Session.runtime_errors_documented _ _ 20 negatingLines).2 outcomes s hrun outcome houtcome _ hfailed⟩

end Lox
