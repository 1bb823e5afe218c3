import Mathlib
import Lox.Proofs.Grammar.Language
import Lox.Proofs.Grammar.Names
import Lox.Proofs.Output.Program
import Lox.Proofs.Renaming.Distances
import Lox.Proofs.Renaming.Evaluation
import Lox.Proofs.Renaming.Sources

/-!
# Renaming a local variable changes nothing

One local variable of an accepted program is renamed, to a name that the program does not use. Then there is a
source of the renamed program, with the new name in the place of the old one and else the same text. Any such source
is accepted, with the same distances, and it does the same: it prints the same bytes and ends in the same way, with
the same error in the same line if it fails.
-/

set_option autoImplicit false

namespace Lox

open Grammar

section Start

variable {r : Renaming}

/-- The scopes at the start hold at most the clock, which is not renamed. -/
theorem Renaming.relatesTable_of_clock {w : ScopeMarks} {marked : Bool} {b : Bindings Value}
    (hb : b = [] ∨ marked = false ∧ b = [(Interpreter.clockName, .clock)]) :
    r.RelatesTable w marked b b := by
  rcases hb with rfl | ⟨rfl, rfl⟩
  · exact relatesTable_nil marked
  · exact (relatesTable_nil false).put .clock Interpreter.clockName

/-- A program is started in related states, if its distances are the same. -/
theorem Renaming.relatesState_started (clock : Nat → Float) (output : Sink) (source : String)
    (h : r.distances = .insertAll .empty (resolve (parsed source 0).statements).distances) :
    r.RelatesState [false, false] (started clock output source) (started clock output source) where
  rest := rfl
  distances := h.symm
  topLevel
    | 0 => rfl
    | 1 => rfl
    | _ + 2 => rfl
  store :=
    { size := rfl
      size' := rfl
      scopes := fun scope marked hscope => by
        match scope, hscope with
        | 0, hscope => exact relatesTable_of_clock (.inr ⟨(Option.some.inj hscope).symm, rfl⟩)
        | 1, _ => exact relatesTable_of_clock (.inl rfl)
      instances := rfl
      fields := fun _ => relatesTable_nil false
      created := rfl }

end Start

/-- The renaming of a variable of a program to another name. -/
def Renaming.inSource (source old new : String) :
    Renaming :=
  ⟨.insertAll .empty (resolve (parsed source 0).statements).distances, old, new⟩

/-- The sites of an accepted program have the distances by which variables are renamed. -/
theorem Accepted.knows {source : String} (h : Accepted source 0) (old new : String) :
    (Renaming.inSource source old new).Knows (Stmt.sitesAll (parsed source 0).statements []) := by
  intro site hsite
  rw [Renaming.inSource, h.distances]
  exact Distances.get?_insertAll_sites _ _ h.sites_nodup (fun _ _ => rfl) hsite

/-- A run that ends in the same way has the same outcome. -/
theorem Renaming.Agrees.outcomeOf_eq {r : Renaming} {w : ScopeMarks} {env : Environment}
    {post : ScopeMarks → Unit → Unit → Prop} {result result' : EStateM.Result Halt Interpreter Unit}
    (h : Agrees r w env post result result') : outcomeOf result' = outcomeOf result := by
  rcases result with ⟨⟨⟩, m⟩ | ⟨e, m⟩ <;> rcases result' with ⟨⟨⟩, m'⟩ | ⟨e', m'⟩
  · obtain ⟨-, _, -, hstate, -⟩ := h
    obtain ⟨s', rfl⟩ := hstate.eq_store
    rfl
  · exact h.elim
  · exact h.elim
  · obtain ⟨-, rfl, _, -, hstate⟩ := h
    obtain ⟨s', rfl⟩ := hstate.eq_store
    cases e' <;> rfl

section Program

variable {source old new : String} {tree' : List Stmt}

/-- The renamed variable has a name. -/
theorem Accepted.isName_old (haccepted : Accepted source 0)
    (hrenames : Stmt.AllRenames (.inSource source old new) (parsed source 0).statements tree') : IsName old := by
  obtain ⟨t, ht, hold⟩ := hrenames.old_mem
  have hname : IsName t.lexeme := names_of_parsed haccepted.front (fun _ => isName_of_mem_tokens) t ht
  have hlexeme : t.lexeme = old := hold
  exact hlexeme ▸ hname

/-- The tree of an accepted program is like its tree with the variable renamed. -/
theorem Accepted.alike (haccepted : Accepted source 0) (hnew : ∀ t ∈ Scan.tokens source, t.lexeme ≠ new)
    (hrenames : Stmt.AllRenames (.inSource source old new) (parsed source 0).statements tree') :
    Stmt.AllAlike (.inSource source old new) .none (parsed source 0).statements tree' :=
  hrenames.alike (parsed_numbered haccepted.front).wellFormed
    (names_of_parsed haccepted.front (p := fun t => t.lexeme ≠ new) fun t ht _ => hnew t ht)
    (haccepted.yields.resolved _ (List.Subset.refl _))

/-- A source whose tree is like that of an accepted program is accepted, has the same distances, and does the
same. -/
theorem Accepted.runs_alike {source' : String} (haccepted : Accepted source 0)
    (hthis : (Renaming.inSource source old new).SparesThis)
    (halike : Stmt.AllAlike (.inSource source old new) .none (parsed source 0).statements
      (parsed source' 0).statements)
    (hfront : frontDiagnostics source' (parsed source' 0) = []) :
    Accepted source' 0 ∧
      (resolve (parsed source' 0).statements).distances = (resolve (parsed source 0).statements).distances ∧
      ∀ depth clock output, runProgram depth clock output source' = runProgram depth clock output source := by
  have hwf := (parsed_numbered haccepted.front).wellFormed
  obtain ⟨hclean, hdistances⟩ := resolve_renamed hthis halike hwf haccepted.resolved
    (haccepted.knows old new)
  have haccepted' : Accepted source' 0 := ⟨hfront, hclean⟩
  refine ⟨haccepted', hdistances, fun depth clock output => ?_⟩
  have hstarted : started clock output source' = started clock output source := by
    rw [started, hdistances, started]
  obtain ⟨env, hagrees⟩ := Renaming.interpret_agrees hthis depth halike
    (Renaming.relatesState_started clock output source rfl)
  rw [runProgram_eq_outcomeOf depth clock output haccepted',
    runProgram_eq_outcomeOf depth clock output haccepted, hstarted]
  exact hagrees.outcomeOf_eq

/-- Where a local variable of an accepted program is renamed, to a name that no token has, the renamed program has a
source, which is the first one with the new name in some places. Every such source is accepted, has the same
distances, and does the same. -/
theorem runProgram_renamed (haccepted : Accepted source 0) (hname : IsName new)
    (hnew : ∀ t ∈ Scan.tokens source, t.lexeme ≠ new)
    (hrenames : Stmt.AllRenames (.inSource source old new) (parsed source 0).statements tree') :
    (∃ source', Scan.Respelled old new source source' ∧ (parsed source' 0).statements = tree') ∧
    ∀ source', Scan.Respelled old new source source' → (parsed source' 0).statements = tree' →
      Accepted source' 0 ∧
      (resolve (parsed source' 0).statements).distances = (resolve (parsed source 0).statements).distances ∧
      ∀ depth clock output, runProgram depth clock output source' = runProgram depth clock output source := by
  have hold := haccepted.isName_old hrenames
  have halike := haccepted.alike hnew hrenames
  refine ⟨exists_source_renamed hold hname haccepted.front halike.respelled, fun source' hsource htree => ?_⟩
  subst htree
  exact haccepted.runs_alike ⟨hold.ne_this, hname.ne_this⟩ halike (hsource.front hold hname haccepted.front)

end Program

/-- A function that shadows its parameter, and then returns it. -/
def shadowing : String := "fun f(x)\x7b\x7bvar x;x=nil;\x7dreturn x;\x7d"

/-- The function with its parameter renamed. -/
def shadowingRenamed : String := "fun f(y)\x7b\x7bvar x;x=nil;\x7dreturn y;\x7d"

/-- The tree of the function, with a parameter of this name. -/
def shadowedTree (x : String) : List Stmt :=
  [.function ⟨⟨.identifier, "f", 1⟩, [⟨.identifier, x, 1⟩],
    [.block [.variable ⟨.identifier, "x", 1⟩ none,
        .expression (.assign 0 ⟨.identifier, "x", 1⟩ (.literal .nil))],
      .return ⟨.keyword .return, "return", 1⟩ (some (.variable 1 ⟨.identifier, x, 1⟩))]⟩]

/-- The pieces of the function, with a parameter of this name. -/
def shadowedPieces (x : String) : List Piece :=
  [⟨.token (.keyword .fun), ['f', 'u', 'n']⟩, ⟨.blank, [' ']⟩, ⟨.token .identifier, ['f']⟩,
    ⟨.token (.symbol .leftParen), ['(']⟩] ++ ⟨.token .identifier, x.toList⟩ ::
  ([⟨.token (.symbol .rightParen), [')']⟩, ⟨.token (.symbol .leftBrace), ['\x7b']⟩,
    ⟨.token (.symbol .leftBrace), ['\x7b']⟩, ⟨.token (.keyword .var), ['v', 'a', 'r']⟩, ⟨.blank, [' ']⟩,
    ⟨.token .identifier, ['x']⟩, ⟨.token (.symbol .semicolon), [';']⟩, ⟨.token .identifier, ['x']⟩,
    ⟨.token (.symbol .equal), ['=']⟩, ⟨.token (.keyword .nil), ['n', 'i', 'l']⟩,
    ⟨.token (.symbol .semicolon), [';']⟩, ⟨.token (.symbol .rightBrace), ['\x7d']⟩,
    ⟨.token (.keyword .return), ['r', 'e', 't', 'u', 'r', 'n']⟩, ⟨.blank, [' ']⟩] ++
  ⟨.token .identifier, x.toList⟩ ::
  [⟨.token (.symbol .semicolon), [';']⟩, ⟨.token (.symbol .rightBrace), ['\x7d']⟩])

set_option maxRecDepth 1024 in
/-- The parameter may be renamed. The variable that shadows it stays as it is. -/
theorem runProgram_renamed_parameter :
    Accepted shadowing 0 ∧ IsName "y" ∧ (∀ t ∈ Scan.tokens shadowing, t.lexeme ≠ "y") ∧
      Stmt.AllRenames (.inSource shadowing "x" "y") (parsed shadowing 0).statements (shadowedTree "y") ∧
      Scan.Respelled "x" "y" shadowing shadowingRenamed ∧
      (parsed shadowingRenamed 0).statements = shadowedTree "y" ∧
      Accepted shadowingRenamed 0 ∧
      (resolve (parsed shadowingRenamed 0).statements).distances =
        (resolve (parsed shadowing 0).statements).distances ∧
      ∀ depth clock output,
        runProgram depth clock output shadowingRenamed = runProgram depth clock output shadowing := by
  have hclean : frontDiagnostics shadowing (parsed shadowing 0) = [] := by cbv
  have haccepted : Accepted shadowing 0 := ⟨hclean, by cbv⟩
  have hname : IsName "y" := ⟨by decide, by cbv, by decide⟩
  have hnew : ∀ t ∈ Scan.tokens shadowing, t.lexeme ≠ "y" := by
    have htokens : (Scan.tokens shadowing).all (·.lexeme != "y") = true := by cbv
    simpa using htokens
  have hbefore : (parsed shadowing 0).statements = shadowedTree "x" := by cbv
  have hafter : (parsed shadowingRenamed 0).statements = shadowedTree "y" := by cbv
  have hrenames : Stmt.AllRenames (.inSource shadowing "x" "y") (parsed shadowing 0).statements
      (shadowedTree "y") := by
    have hdistances : (resolve (shadowedTree "x")).distances = [(0, 0), (1, 0)] := by cbv
    rw [Renaming.inSource, hbefore, hdistances]
    exact .head (.function (.here (.inl ⟨_, List.mem_singleton_self _, rfl⟩)))
  have hrespelled : Scan.Respelled "x" "y" shadowing shadowingRenamed := by
    have hpieces : Scan.pieces shadowing.toList = shadowedPieces "x" := by cbv
    have hsame (ps : List Piece) : List.Forall₂ (Piece.Renamed "x" "y") ps ps :=
      List.forall₂_same.mpr fun _ _ => .inl rfl
    refine ⟨shadowedPieces "y", ?_, by cbv⟩
    rw [hpieces]
    exact List.rel_append (hsame _) (.cons (.inr ⟨rfl, rfl⟩)
      (List.rel_append (hsame _) (.cons (.inr ⟨rfl, rfl⟩) (hsame _))))
  exact ⟨haccepted, hname, hnew, hrenames, hrespelled, hafter,
    (runProgram_renamed haccepted hname hnew hrenames).2 _ hrespelled hafter⟩

end Lox
