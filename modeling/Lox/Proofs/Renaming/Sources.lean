import Mathlib
import Lox.Proofs.Renaming.Alike
import Lox.Proofs.Session.Accepted
import Lox.Proofs.Token.Respelled

/-!
# The source of a renamed program

Trees that are alike differ in the names at which the variable is declared or used. So the tree of a program with a
variable renamed is that of a source, which is the first one with the new name in these places; and such a source is
scanned and parsed without errors, as the first one is.
-/

set_option autoImplicit false

namespace Lox

section Trees

variable (r : Renaming)

/-- A token in whose place there is the new name was spelled with the old one. -/
theorem Renaming.token_renamed (marked : Bool) (name : Token) :
    Token.Renamed r.old r.new name (r.token marked name) := by
  unfold token
  split
  · rename_i hmarked
    exact .inr ⟨beq_iff_eq.mp (Bool.and_eq_true_iff.mp hmarked).2, rfl⟩
  · exact .inl rfl

mutual

/-- Renaming changes nothing but names. -/
theorem Expr.rename_respelled (marks : Marks) : (e : Expr) →
    e.Respelled (Token.Renamed r.old r.new) (e.rename r marks)
  | .literal _ => .literal
  | .grouping inner => .grouping (inner.rename_respelled marks)
  | .unary _ right => .unary (right.rename_respelled marks)
  | .binary left _ right => .binary (left.rename_respelled marks) (right.rename_respelled marks)
  | .logical left _ right => .logical (left.rename_respelled marks) (right.rename_respelled marks)
  | .variable _ name => .variable (r.token_renamed _ name)
  | .assign _ name value => .assign (r.token_renamed _ name) (value.rename_respelled marks)
  | .call callee _ arguments => .call (callee.rename_respelled marks) (Expr.renameAll_respelled marks arguments)
  | .get object _ => .get (object.rename_respelled marks)
  | .set object _ value => .set (object.rename_respelled marks) (value.rename_respelled marks)
  | .this _ _ => .this

/-- Renamed expressions are respelled. -/
theorem Expr.renameAll_respelled (marks : Marks) : (es : List Expr) →
    Expr.AllRespelled (Token.Renamed r.old r.new) es (Expr.renameAll r marks es)
  | [] => .nil
  | e :: rest => .cons (e.rename_respelled marks) (Expr.renameAll_respelled marks rest)

end

/-- A renamed optional expression is respelled. -/
theorem Expr.rename_option_respelled (marks : Marks) (e : Option Expr) :
    Option.Rel (Expr.Respelled (Token.Renamed r.old r.new)) e (e.map (·.rename r marks)) := by
  cases e with
  | none => exact .none
  | some e => exact .some (e.rename_respelled r marks)

variable {r}

mutual

/-- Statements that are alike differ in nothing but names. -/
theorem Stmt.Alike.respelled {marks : Marks} {s s' : Stmt} :
    Stmt.Alike r marks s s' → s.Respelled (Token.Renamed r.old r.new) s'
  | .expression _ => .expression (Expr.rename_respelled r marks _)
  | .print _ => .print (Expr.rename_respelled r marks _)
  | .variable _ _ => .variable (r.token_renamed _ _) (Expr.rename_option_respelled r marks _)
  | .block h => .block h.respelled
  | .conditional _ hthen => .conditional (Expr.rename_respelled r marks _) hthen.respelled
  | .conditionalElse _ hthen helse =>
    .conditionalElse (Expr.rename_respelled r marks _) hthen.respelled helse.respelled
  | .loop _ hbody => .loop (Expr.rename_respelled r marks _) hbody.respelled
  | .function _ h => .function h.respelled
  | .return _ => .return (Expr.rename_option_respelled r marks _)
  | .class _ h => .class h.respelled

/-- Statements that are alike are respelled. -/
theorem Stmt.AllAlike.respelled {marks : Marks} {ss ss' : List Stmt} :
    Stmt.AllAlike r marks ss ss' → Stmt.AllRespelled (Token.Renamed r.old r.new) ss ss'
  | .nil => .nil
  | .cons h hs => .cons h.respelled hs.respelled

/-- Functions that are alike are respelled. -/
theorem FunctionDecl.Alike.respelled {marks : Marks} {d d' : FunctionDecl} :
    FunctionDecl.Alike r marks d d' → d.Respelled (Token.Renamed r.old r.new) d'
  | .mk _ h => .mk (List.forall₂_map_right_iff.mpr (List.forall₂_same.mpr fun p _ => r.token_renamed _ p)) h.respelled

/-- Lists of functions that are alike are respelled. -/
theorem FunctionDecl.AllAlike.respelled {marks : Marks} {ds ds' : List FunctionDecl} :
    FunctionDecl.AllAlike r marks ds ds' → FunctionDecl.AllRespelled (Token.Renamed r.old r.new) ds ds'
  | .nil => .nil
  | .cons h hs => .cons h.respelled hs.respelled

end

end Trees

section Sources

open Grammar

variable {old new source : String} {firstId : Occurrence}

/-- A source with another name in some places is scanned and parsed without errors if the first one is. -/
theorem Scan.Respelled.front {source' : String} (hold : IsName old) (hnew : IsName new)
    (h : Scan.Respelled old new source source') (hfront : frontDiagnostics source (parsed source firstId) = []) :
    frontDiagnostics source' (parsed source' firstId) = [] := by
  obtain ⟨herrors, htokens⟩ := h.tokens hold hnew
  obtain ⟨hscanned, hclean⟩ := List.append_eq_nil_iff.mp hfront
  have hclean' := parse_respelled_errors (Token.renamed_spellingOnly old new) htokens (List.map_eq_nil_iff.mp hclean)
  rw [frontDiagnostics, herrors, hscanned, parsed, hclean']
  rfl

/-- The tree of a program with another name in some places is that of a source with this name. -/
theorem exists_source_renamed {tree' : List Stmt} (hold : IsName old) (hnew : IsName new)
    (hfront : frontDiagnostics source (parsed source firstId) = [])
    (htree : Stmt.AllRespelled (Token.Renamed old new) (parsed source firstId).statements tree') :
    ∃ source', Scan.Respelled old new source source' ∧ (parsed source' firstId).statements = tree' := by
  have hclean := List.map_eq_nil_iff.mp (List.append_eq_nil_iff.mp hfront).2
  rw [parsed, Scan.tokens_eq] at hclean htree
  obtain ⟨tokens', htokens, hstatements⟩ := exists_parse_respelled (Token.renamed_spellingOnly old new)
    (fun _ => Scan.isEof_of_mem_tokensBefore) rfl hclean htree
  obtain ⟨source', hsource, htokens'⟩ := Scan.exists_respelled hold hnew htokens
  exact ⟨source', hsource, by rw [parsed, htokens', hstatements]⟩

end Sources

end Lox
