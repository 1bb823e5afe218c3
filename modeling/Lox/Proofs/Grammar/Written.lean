import Mathlib
import Lox.Proofs.Grammar.ForLoops
import Lox.Proofs.Grammar.Language

/-!
# What is written back is read back

The parser makes only trees that can be written without further parentheses and braces: operands bind at
least as strong as their operators ask for, only names and properties are assigned to, and no branch before
an `else` ends in an `if` without one, not even in a loop. So the tokens of a tree are parsed to the same
tree. Where no loop begins with `for` they are the tokens that were parsed.
-/

set_option autoImplicit false

namespace Lox.Grammar

open Lox.Parser

/-- The token of a constant is read as this constant. -/
theorem constant?_token (value : Literal) : constant? value.token = some value := by
  cases value <;> rfl

/-- An infix expression is written as its operator between its operands. -/
theorem Level.tokens_build (l : Level) (left : Expr) (operator : Token) (right : Expr) :
    (l.build left operator right).tokens = left.tokens ++ operator :: right.tokens := by
  cases l <;> rfl

/-- The first argument is followed by a comma if there are others. -/
theorem argumentTokens_cons (e : Expr) {es : List Expr} (h : es ≠ []) :
    Expr.argumentTokens (e :: es) = e.tokens ++ Symbol.comma.token :: Expr.argumentTokens es := by
  cases es with
  | nil => exact absurd rfl h
  | cons => rfl

/-- There is at least one argument. -/
theorem Arguments.ne_nil {tokens es rest} (h : Arguments tokens es rest) : es ≠ [] := by
  cases h <;> exact List.cons_ne_nil _ _

mutual

/-- The tokens of an expression are read as the expression. -/
theorem Phrase.written {r tokens e rest} :
    Phrase r tokens e rest → ∀ behind, Phrase r (e.tokens ++ behind) e behind
  | .disjunction h, behind => .disjunction (h.written behind)
  | .assign hname _ hvalue, behind => .assign hname rfl (hvalue.written behind)
  | .set hobject hdot hname _ hvalue, behind => by
    simpa [Expr.tokens] using .set (hobject.written _) rfl hname rfl (hvalue.written behind)
  | .operand h, behind => .operand (h.written behind)
  | @Phrase.operation l _ _ _ _ _ _ hleft hoperator hright, behind => by
    simpa [l.tokens_build] using .operation (hleft.written _) hoperator (hright.written behind)
  | .unary hoperator h, behind => .unary hoperator (h.written behind)
  | .called h, behind => .called (h.written behind)
  | .callEmpty h _ hclosing, behind => by
    simpa [Expr.tokens, Expr.argumentTokens] using .callEmpty (h.written _) rfl hclosing
  | @Phrase.call _ _ _ _ _ closing _ h _ harguments hcount hclosing, behind => by
    simpa [Expr.tokens] using
      .call (h.written _) rfl (harguments.written (closing :: behind)) hcount hclosing
  | .property h _ hname, behind => by simpa [Expr.tokens] using .property (h.written _) rfl hname
  | .primary h, behind => .primary (h.written behind)
  | @Phrase.constant _ value _ _, _ => .constant (constant?_token value)
  | .this hthis, _ => .this hthis
  | .name hname, _ => .name hname
  | .grouping _ h _, behind => by
    simpa [Expr.tokens] using .grouping rfl (h.written (Symbol.rightParen.token :: behind)) rfl

/-- Arguments are read from the tokens that they are written as. -/
theorem Arguments.written {tokens es rest} :
    Arguments tokens es rest → ∀ behind, Arguments (Expr.argumentTokens es ++ behind) es behind
  | .last h, behind => .last (h.written behind)
  | @Arguments.more _ e _ _ _ _ h _ harguments, behind => by
    rw [argumentTokens_cons e harguments.ne_nil, List.append_assoc]
    exact .more (h.written _) rfl (harguments.written behind)

end

/-- An optional expression is read from the tokens that it is written as. -/
theorem OptionalExpression.written {tokens e rest} (h : OptionalExpression tokens e rest)
    (behind : List Token) : OptionalExpression (Expr.optionTokens e ++ behind) e behind := by
  cases h with
  | none => exact .none
  | some h => exact .some (h.written behind)

/-- Commas stand between parameters. -/
theorem Parameters.written {tokens params rest} (h : Parameters tokens params rest) (behind : List Token) :
    Parameters (params.intersperse Symbol.comma.token ++ behind) params behind := by
  induction h with
  | last hname => exact .last hname
  | more hname _ hmore ih =>
    cases hmore with
    | last hname' => exact .more hname rfl (.last hname')
    | more => exact .more hname rfl ih

/-- Optional parameters are read from their names with commas between them. -/
theorem OptionalParameters.written {tokens params rest} (h : OptionalParameters tokens params rest)
    (behind : List Token) :
    OptionalParameters (params.intersperse Symbol.comma.token ++ behind) params behind := by
  cases h with
  | none => exact .none
  | some h hcount => exact .some (h.written behind) hcount

/-- The declaration of a variable is read from the tokens that it is written as. -/
theorem Variable.written {tokens s rest} (h : Variable tokens s rest) (behind : List Token) :
    Declaration (s.tokens ++ behind) s behind := by
  cases h with
  | plain hname _ => exact .variable rfl (.plain hname rfl)
  | initialized hname _ h _ =>
    have hvalue := h.written (Symbol.semicolon.token :: behind)
    simpa [Stmt.tokens] using Declaration.variable rfl (.initialized hname rfl hvalue rfl)

/-- The initial clause of a loop is written as a declaration of its own. -/
theorem InitialClause.written {tokens s? rest} (h : InitialClause tokens s? rest) :
    Option.Rel (fun a s => ∀ behind, Declaration (a ++ behind) s behind) (s?.map Stmt.tokens) s? := by
  cases h with
  | none _ => exact .none
  | «variable» _ h => exact .some h.written
  | expression h _ =>
    exact .some fun behind => by
      simpa [Stmt.tokens] using
        Declaration.statement (.expression (h.written (Symbol.semicolon.token :: behind)) rfl)

mutual

/-- The tokens of a statement are read as the statement. -/
theorem Statement.written {d tokens s rest} : Statement d tokens s rest → StandsFor d s.tokens s
  | .expression h _ => ⟨false, by simp, fun behind => by
    simpa [Stmt.tokens] using Statement.expression (h.written (Symbol.semicolon.token :: behind)) rfl⟩
  | .print _ h _ => ⟨false, by simp, fun behind => by
    simpa [Stmt.tokens] using Statement.print rfl (h.written (Symbol.semicolon.token :: behind)) rfl⟩
  | .return hkeyword h _ => ⟨false, by simp, fun behind => by
    simpa [Stmt.tokens] using
      Statement.return hkeyword (h.written (Symbol.semicolon.token :: behind)) rfl⟩
  | .block _ h _ => ⟨false, by simp, fun behind => by
    simpa [Stmt.tokens] using Statement.block rfl (h.written (Symbol.rightBrace.token :: behind)) rfl⟩
  | .if _ _ h _ hthen => .conditional rfl h.written rfl rfl hthen.written
  | .ifElse _ _ h _ hthen _ helse => by
    simpa [Stmt.tokens] using .conditionalElse rfl h.written rfl rfl hthen.written rfl helse.written
  | .while _ _ h _ hbody => .loop rfl h.written rfl rfl hbody.written
  | @Statement.for _ _ _ initial _ condition _ _ increment _ _ d body _ _ _ hinitial hcondition _
      hincrement _ hbody => by
    have hincrement' : Option.Rel (fun a e => ∀ behind, Phrase .expression (a ++ behind) e behind)
        (increment.map Expr.tokens) increment := by
      cases hincrement with
      | none => exact .none
      | some h => exact .some h.written
    have hcondition' : ∀ behind, Phrase .expression
        ((condition.getD (.literal .true)).tokens ++ behind) (condition.getD (.literal .true)) behind := by
      cases hcondition with
      | none => exact fun behind => .of_primary (.constant rfl)
      | some h => exact h.written
    rw [forLoop_tokens]
    exact .whileTokens hinitial.written hcondition' hincrement' hbody.written

/-- A declaration is read from the tokens that it is written as. -/
theorem Declaration.written {tokens s rest} :
    Declaration tokens s rest → ∀ behind, Declaration (s.tokens ++ behind) s behind
  | .class _ hname _ h _, behind => by
    simpa [Stmt.tokens] using
      Declaration.class rfl hname rfl (h.written (Symbol.rightBrace.token :: behind)) rfl
  | .function _ h, behind => .function rfl (h.written behind)
  | .variable _ h, behind => h.written behind
  | .statement h, behind =>
    have ⟨_, _, hs⟩ := h.written
    .statement (hs behind)

/-- Declarations are read from the tokens that they are written as. -/
theorem Declarations.written {tokens ss rest} :
    Declarations tokens ss rest → ∀ behind, Declarations (Stmt.tokensAll ss ++ behind) ss behind
  | .none, _ => .none
  | .more h hmore, behind => by
    simpa [Stmt.tokensAll] using Declarations.more (h.written _) (hmore.written behind)

/-- A function is read from the tokens that it is written as. -/
theorem NamedFunction.written {tokens f rest} :
    NamedFunction tokens f rest → ∀ behind, NamedFunction (f.tokens ++ behind) f behind
  | .mk hname _ hparams _ _ h _, behind => by
    simpa [FunctionDecl.tokens] using
      NamedFunction.mk hname rfl (hparams.written _) rfl rfl (h.written (Symbol.rightBrace.token :: behind))
        rfl

/-- Methods are read from the tokens that they are written as. -/
theorem Methods.written {tokens fs rest} :
    Methods tokens fs rest → ∀ behind, Methods (FunctionDecl.tokensAll fs ++ behind) fs behind
  | .none, _ => .none
  | .more h hmore, behind => by
    simpa [FunctionDecl.tokensAll] using Methods.more (h.written _) (hmore.written behind)

end

section Faces

variable {t : Token}

/-- Every token of a symbol has the same face. -/
theorem face_of_isSymbol {k : Symbol} (h : t.isSymbol k = true) : t.face = k.token.face := by
  simp [Token.face, Token.isIdentifier, Symbol.token, Token.isSymbol_iff.mp h]

/-- Every token of a reserved word has the same face. -/
theorem face_of_isKeyword {k : Keyword} (h : t.isKeyword k = true) : t.face = k.token.face := by
  simp [Token.face, Token.isIdentifier, Keyword.token, Token.isKeyword_iff.mp h]

/-- Every token of a constant has the same face. -/
theorem face_of_constant? {value : Literal} (h : constant? t = some value) : t.face = value.token.face := by
  unfold constant? at h
  split at h <;> cases h <;> simp_all [Token.face, Token.isIdentifier, Literal.token, Keyword.token]

mutual

/-- The tokens of an expression say what the tokens that were read say. -/
theorem Phrase.faces {r tokens e rest} :
    Phrase r tokens e rest → tokens.map Token.face = e.tokens.map Token.face ++ rest.map Token.face
  | .disjunction h => h.faces
  | .assign _ hequals h => by simp [Expr.tokens, h.faces, face_of_isSymbol hequals]
  | .set hobject hdot _ hequals h => by
    simp [Expr.tokens, hobject.faces, h.faces, face_of_isSymbol hdot, face_of_isSymbol hequals]
  | .operand h => h.faces
  | @Phrase.operation l _ _ _ _ _ _ hleft _ hright => by simp [l.tokens_build, hleft.faces, hright.faces]
  | .unary _ h => by simp [Expr.tokens, h.faces]
  | .called h => h.faces
  | .callEmpty h hopening _ => by
    simp [Expr.tokens, Expr.argumentTokens, h.faces, face_of_isSymbol hopening]
  | .call h hopening harguments _ _ => by
    simp [Expr.tokens, h.faces, harguments.faces, face_of_isSymbol hopening]
  | .property h hdot _ => by simp [Expr.tokens, h.faces, face_of_isSymbol hdot]
  | .primary h => h.faces
  | .constant hvalue => by simp [Expr.tokens, face_of_constant? hvalue]
  | .this _ => rfl
  | .name _ => rfl
  | .grouping hopening h hclosing => by
    simp [Expr.tokens, h.faces, face_of_isSymbol hopening, face_of_isSymbol hclosing]

/-- Arguments are written with the faces of the tokens that they were read from. -/
theorem Arguments.faces {tokens es rest} : Arguments tokens es rest →
    tokens.map Token.face = (Expr.argumentTokens es).map Token.face ++ rest.map Token.face
  | .last h => h.faces
  | @Arguments.more _ e _ _ _ _ h hcomma harguments => by
    simp [argumentTokens_cons e harguments.ne_nil, h.faces, harguments.faces, face_of_isSymbol hcomma]

end

/-- An optional expression is written with the faces of the tokens that it was read from. -/
theorem OptionalExpression.faces {tokens e rest} (h : OptionalExpression tokens e rest) :
    tokens.map Token.face = (Expr.optionTokens e).map Token.face ++ rest.map Token.face := by
  cases h with
  | none => rfl
  | some h => exact h.faces

/-- Parameters are written with the faces of the tokens that they were read from. -/
theorem Parameters.faces {tokens params rest} (h : Parameters tokens params rest) :
    tokens.map Token.face =
      (params.intersperse Symbol.comma.token).map Token.face ++ rest.map Token.face := by
  induction h with
  | last _ => rfl
  | more _ hcomma hmore ih =>
    cases hmore with
    | last _ => simp [face_of_isSymbol hcomma]
    | more => simp_all [face_of_isSymbol hcomma]

/-- Optional parameters are written with the faces of the tokens that they were read from. -/
theorem OptionalParameters.faces {tokens params rest} (h : OptionalParameters tokens params rest) :
    tokens.map Token.face =
      (params.intersperse Symbol.comma.token).map Token.face ++ rest.map Token.face := by
  cases h with
  | none => rfl
  | some h _ => exact h.faces

/-- The declaration of a variable is written with the faces of the tokens that it was read from. -/
theorem Variable.faces {keyword : Token} {tokens s rest} (h : Variable tokens s rest)
    (hkeyword : keyword.isKeyword .var = true) :
    (keyword :: tokens).map Token.face = s.tokens.map Token.face ++ rest.map Token.face := by
  cases h with
  | plain _ hsemicolon =>
    simp [Stmt.tokens, face_of_isKeyword hkeyword, face_of_isSymbol hsemicolon]
  | initialized _ hequals h hsemicolon =>
    simp [Stmt.tokens, h.faces, face_of_isKeyword hkeyword, face_of_isSymbol hequals,
      face_of_isSymbol hsemicolon]

/-- None of the loops among tokens begins with `for`. -/
def WithoutFor (tokens : List Token) : Prop := ∀ t ∈ tokens, t.isKeyword .for = false

/-- Whether loops begin with `for` is seen from what tokens say. -/
theorem WithoutFor.of_faces {tokens written rest : List Token} (h : WithoutFor tokens)
    (hfaces : tokens.map Token.face = written.map Token.face ++ rest.map Token.face) :
    WithoutFor rest := by
  intro t ht
  have hmem : t.face ∈ tokens.map Token.face :=
    hfaces ▸ List.mem_append_right _ (List.mem_map_of_mem ht)
  obtain ⟨u, hu, hface⟩ := List.mem_map.mp hmem
  have hkind : u.kind = t.kind := congrArg Prod.fst hface
  have hnone := h u hu
  unfold Token.isKeyword at hnone ⊢
  rwa [← hkind]

/-- Behind the first token, none of the loops begins with `for` either. -/
theorem WithoutFor.tail {tokens : List Token} (h : WithoutFor (t :: tokens)) : WithoutFor tokens :=
  (List.forall_mem_cons.mp h).2

mutual

/-- The tokens of a statement say what the tokens that were read say, if no loop begins with `for`. -/
theorem Statement.faces {d tokens s rest} : Statement d tokens s rest → WithoutFor tokens →
    tokens.map Token.face = s.tokens.map Token.face ++ rest.map Token.face
  | .expression h hsemicolon, _ => by simp [Stmt.tokens, h.faces, face_of_isSymbol hsemicolon]
  | .print hkeyword h hsemicolon, _ => by
    simp [Stmt.tokens, h.faces, face_of_isKeyword hkeyword, face_of_isSymbol hsemicolon]
  | .return _ h hsemicolon, _ => by simp [Stmt.tokens, h.faces, face_of_isSymbol hsemicolon]
  | .block hopening h hclosing, hfor => by
    simp [Stmt.tokens, h.faces hfor.tail, face_of_isSymbol hopening, face_of_isSymbol hclosing]
  | .if hkeyword hopening h hclosing hthen, hfor => by
    have hfor' := (hfor.tail.tail.of_faces h.faces).tail
    simp [Stmt.tokens, h.faces, hthen.faces hfor', face_of_isKeyword hkeyword, face_of_isSymbol hopening,
      face_of_isSymbol hclosing]
  | .ifElse hkeyword hopening h hclosing hthen ht helse, hfor => by
    have hfor' := (hfor.tail.tail.of_faces h.faces).tail
    have hfor'' := (hfor'.of_faces (hthen.faces hfor')).tail
    simp [Stmt.tokens, h.faces, hthen.faces hfor', helse.faces hfor'', face_of_isKeyword hkeyword,
      face_of_isSymbol hopening, face_of_isSymbol hclosing, face_of_isKeyword ht]
  | .while hkeyword hopening h hclosing hbody, hfor => by
    have hfor' := (hfor.tail.tail.of_faces h.faces).tail
    simp [Stmt.tokens, h.faces, hbody.faces hfor', face_of_isKeyword hkeyword, face_of_isSymbol hopening,
      face_of_isSymbol hclosing]
  | .for hkeyword .., hfor => by
    have hnone := hfor _ List.mem_cons_self
    rw [hkeyword] at hnone
    cases hnone

/-- Without `for`, a declaration is written with the faces of the tokens that it was read from. -/
theorem Declaration.faces {tokens s rest} : Declaration tokens s rest → WithoutFor tokens →
    tokens.map Token.face = s.tokens.map Token.face ++ rest.map Token.face
  | .class hkeyword _ hopening h hclosing, hfor => by
    simp [Stmt.tokens, h.faces hfor.tail.tail.tail, face_of_isKeyword hkeyword, face_of_isSymbol hopening,
      face_of_isSymbol hclosing]
  | .function hkeyword h, hfor => by
    simp [Stmt.tokens, h.faces hfor.tail, face_of_isKeyword hkeyword]
  | .variable hkeyword h, _ => h.faces hkeyword
  | .statement h, hfor => h.faces hfor

/-- Without `for`, declarations are written with the faces of the tokens that they were read from. -/
theorem Declarations.faces {tokens ss rest} : Declarations tokens ss rest → WithoutFor tokens →
    tokens.map Token.face = (Stmt.tokensAll ss).map Token.face ++ rest.map Token.face
  | .none, _ => rfl
  | .more h hmore, hfor => by
    simp [Stmt.tokensAll, h.faces hfor, hmore.faces (hfor.of_faces (h.faces hfor))]

/-- Without `for`, a function is written with the faces of the tokens that it was read from. -/
theorem NamedFunction.faces {tokens f rest} : NamedFunction tokens f rest → WithoutFor tokens →
    tokens.map Token.face = f.tokens.map Token.face ++ rest.map Token.face
  | .mk _ hopening hparams hclosing hbrace h ht, hfor => by
    have hfor' := (hfor.tail.tail.of_faces hparams.faces).tail.tail
    simp [FunctionDecl.tokens, hparams.faces, h.faces hfor', face_of_isSymbol hopening,
      face_of_isSymbol hclosing, face_of_isSymbol hbrace, face_of_isSymbol ht]

/-- Without `for`, methods are written with the faces of the tokens that they were read from. -/
theorem Methods.faces {tokens fs rest} : Methods tokens fs rest → WithoutFor tokens →
    tokens.map Token.face = (FunctionDecl.tokensAll fs).map Token.face ++ rest.map Token.face
  | .none, _ => rfl
  | .more h hmore, hfor => by
    simp [FunctionDecl.tokensAll, h.faces hfor, hmore.faces (hfor.of_faces (h.faces hfor))]

end

end Faces

/-- The tokens of the statements that were accepted are accepted, with the same tree apart from the numbers
of occurrences. They say what the accepted tokens say, if no loop begins with `for`. -/
theorem parse_tokensAll {tokens : List Token} {last : Token} {i : Occurrence} {program : List Stmt}
    (h : (parse tokens i).result = .ok program) (hlast : last.isEof = true) :
    (∀ j, ∃ statements, (parse (Stmt.tokensAll program ++ [last]) j).result = .ok statements ∧
      Stmt.relabelAll .anonymous statements = Stmt.relabelAll .anonymous program) ∧
    ((∀ t ∈ tokens.takeWhile (!·.isEof), t.isKeyword .for = false) →
      (Stmt.tokensAll program).map Token.face = (tokens.takeWhile (!·.isEof)).map Token.face) := by
  obtain ⟨hclean, rfl⟩ := Parsed.result_eq_ok_iff.mp h
  have hread := program_of_parse hclean
  have hwritten := hread.written []
  rw [List.append_nil, Stmt.tokensAll_anonymous] at hwritten
  refine ⟨fun j => ?_, fun hfor => ?_⟩
  · obtain ⟨read, hread, heditable⟩ := hwritten.editable
    have hinner : ∀ t ∈ Stmt.tokensAll (parse tokens i).statements, t.isEof = false := by
      rw [hread, List.append_nil]
      exact heditable.inner
    have hstart := start_append j hinner hlast
    obtain ⟨hclean', htree⟩ := parse_of_program (hstart.symm ▸ hwritten)
    exact ⟨_, Parsed.result_eq_ok_iff.mpr ⟨hclean', rfl⟩, htree⟩
  · have hfaces := hread.faces hfor
    rw [Stmt.tokensAll_anonymous, List.map_nil, List.append_nil] at hfaces
    exact hfaces.symm

/-- The tokens of `if (a) for (;;) f(b); else -b.c;`. -/
def loopBranchTokens : List Token :=
  [⟨.keyword .if, "if", 1⟩, ⟨.symbol .leftParen, "(", 1⟩, ⟨.identifier, "a", 1⟩,
    ⟨.symbol .rightParen, ")", 1⟩, ⟨.keyword .for, "for", 1⟩, ⟨.symbol .leftParen, "(", 1⟩,
    ⟨.symbol .semicolon, ";", 1⟩, ⟨.symbol .semicolon, ";", 1⟩, ⟨.symbol .rightParen, ")", 1⟩,
    ⟨.identifier, "f", 1⟩, ⟨.symbol .leftParen, "(", 1⟩, ⟨.identifier, "b", 1⟩,
    ⟨.symbol .rightParen, ")", 1⟩, ⟨.symbol .semicolon, ";", 1⟩, ⟨.keyword .else, "else", 1⟩,
    ⟨.symbol .minus, "-", 1⟩, ⟨.identifier, "b", 1⟩, ⟨.symbol .dot, ".", 1⟩, ⟨.identifier, "c", 1⟩,
    ⟨.symbol .semicolon, ";", 1⟩, .eofAt 1]

/-- The tokens of `print (a);`. -/
def groupingTokens : List Token :=
  [⟨.keyword .print, "print", 1⟩, ⟨.symbol .leftParen, "(", 1⟩, ⟨.identifier, "a", 1⟩,
    ⟨.symbol .rightParen, ")", 1⟩, ⟨.symbol .semicolon, ";", 1⟩, .eofAt 1]

/-- A loop before `else` is written back with `while`, and a grouping as it was. -/
theorem parse_tokensAll_loopBranch :
    (∃ program, (parse loopBranchTokens 0).result = .ok program ∧
      (Stmt.tokensAll program).map (·.lexeme) =
        ["if", "(", "a", ")", "while", "(", "true", ")", "f", "(", "b", ")", ";", "else", "-", "b", ".",
          "c", ";"] ∧
      ∃ statements, (parse (Stmt.tokensAll program ++ [.eofAt 1]) 7).result = .ok statements ∧
        Stmt.relabelAll .anonymous statements = Stmt.relabelAll .anonymous program) ∧
    ∃ program, (parse groupingTokens 0).result = .ok program ∧
      (Stmt.tokensAll program).map Token.face = groupingTokens.dropLast.map Token.face := by
  have hloop : (parse loopBranchTokens 0).result =
      .ok [.conditional (.variable 0 ⟨.identifier, "a", 1⟩)
        (.loop (.literal .true) (.expression (.call (.variable 1 ⟨.identifier, "f", 1⟩)
          ⟨.symbol .rightParen, ")", 1⟩ [.variable 2 ⟨.identifier, "b", 1⟩])))
        (some (.expression (.unary ⟨.symbol .minus, "-", 1⟩
          (.get (.variable 3 ⟨.identifier, "b", 1⟩) ⟨.identifier, "c", 1⟩))))] := by cbv
  have hgrouping : (parse groupingTokens 0).result =
      .ok [.print (.grouping (.variable 0 ⟨.identifier, "a", 1⟩))] := by cbv
  exact ⟨⟨_, hloop, rfl, (parse_tokensAll hloop (rfl : (Token.eofAt 1).isEof = true)).1 7⟩, _, hgrouping,
    (parse_tokensAll hgrouping (rfl : (Token.eofAt 1).isEof = true)).2 (by decide)⟩

end Lox.Grammar
