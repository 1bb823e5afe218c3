import Mathlib.Data.List.Forall2
import Lox.Proofs.Tree.Respell

/-!
# Trees with related names

Two trees may be the same but for the names of their variables and parameters, where each name in the one is related
to the name in its place in the other. Such trees differ in how they are spelled, and in nothing else. The converse
asks for more: a tree is told from its occurrence numbers, which a tree with other spellings has as well, and from
its tokens, which a tree with other numbers has as well.
-/

set_option autoImplicit false

namespace Lox

section Relation

variable (R : Token → Token → Prop)

mutual

/-- Two expressions are the same, but for names that are related. -/
inductive Expr.Respelled : Expr → Expr → Prop where
  | literal {value} : Expr.Respelled (.literal value) (.literal value)
  | grouping {e e'} : Expr.Respelled e e' → Expr.Respelled (.grouping e) (.grouping e')
  | unary {operator e e'} : Expr.Respelled e e' → Expr.Respelled (.unary operator e) (.unary operator e')
  | binary {left left' operator right right'} : Expr.Respelled left left' → Expr.Respelled right right' →
    Expr.Respelled (.binary left operator right) (.binary left' operator right')
  | logical {left left' operator right right'} : Expr.Respelled left left' → Expr.Respelled right right' →
    Expr.Respelled (.logical left operator right) (.logical left' operator right')
  | variable {id name name'} : R name name' → Expr.Respelled (.variable id name) (.variable id name')
  | assign {id name name' value value'} : R name name' → Expr.Respelled value value' →
    Expr.Respelled (.assign id name value) (.assign id name' value')
  | call {callee callee' paren arguments arguments'} : Expr.Respelled callee callee' →
    Expr.AllRespelled arguments arguments' →
    Expr.Respelled (.call callee paren arguments) (.call callee' paren arguments')
  | get {object object' name} : Expr.Respelled object object' →
    Expr.Respelled (.get object name) (.get object' name)
  | set {object object' name value value'} : Expr.Respelled object object' → Expr.Respelled value value' →
    Expr.Respelled (.set object name value) (.set object' name value')
  | this {id keyword} : Expr.Respelled (.this id keyword) (.this id keyword)

/-- The expressions of two lists are the same, one by one, but for names that are related. -/
inductive Expr.AllRespelled : List Expr → List Expr → Prop where
  | nil : Expr.AllRespelled [] []
  | cons {e e' es es'} : Expr.Respelled e e' → Expr.AllRespelled es es' →
    Expr.AllRespelled (e :: es) (e' :: es')

end

mutual

/-- Two statements are the same, but for names that are related. -/
inductive Stmt.Respelled : Stmt → Stmt → Prop where
  | expression {e e'} : e.Respelled R e' → Stmt.Respelled (.expression e) (.expression e')
  | print {e e'} : e.Respelled R e' → Stmt.Respelled (.print e) (.print e')
  | variable {name name' initial initial'} : R name name' →
    Option.Rel (Expr.Respelled R) initial initial' →
    Stmt.Respelled (.variable name initial) (.variable name' initial')
  | block {body body'} : Stmt.AllRespelled body body' → Stmt.Respelled (.block body) (.block body')
  | conditional {e e' thenBranch thenBranch'} : e.Respelled R e' → Stmt.Respelled thenBranch thenBranch' →
    Stmt.Respelled (.conditional e thenBranch none) (.conditional e' thenBranch' none)
  | conditionalElse {e e' thenBranch thenBranch' elseBranch elseBranch'} : e.Respelled R e' →
    Stmt.Respelled thenBranch thenBranch' → Stmt.Respelled elseBranch elseBranch' →
    Stmt.Respelled (.conditional e thenBranch (some elseBranch))
      (.conditional e' thenBranch' (some elseBranch'))
  | loop {e e' body body'} : e.Respelled R e' → Stmt.Respelled body body' →
    Stmt.Respelled (.loop e body) (.loop e' body')
  | function {d d'} : FunctionDecl.Respelled d d' → Stmt.Respelled (.function d) (.function d')
  | return {keyword value value'} : Option.Rel (Expr.Respelled R) value value' →
    Stmt.Respelled (.return keyword value) (.return keyword value')
  | class {name methods methods'} : FunctionDecl.AllRespelled methods methods' →
    Stmt.Respelled (.class name methods) (.class name methods')

/-- The statements of two lists are the same, one by one, but for names that are related. -/
inductive Stmt.AllRespelled : List Stmt → List Stmt → Prop where
  | nil : Stmt.AllRespelled [] []
  | cons {s s' ss ss'} : Stmt.Respelled s s' → Stmt.AllRespelled ss ss' →
    Stmt.AllRespelled (s :: ss) (s' :: ss')

/-- Two functions are the same, but for names that are related. -/
inductive FunctionDecl.Respelled : FunctionDecl → FunctionDecl → Prop where
  | mk {name params params' body body'} : List.Forall₂ R params params' → Stmt.AllRespelled body body' →
    FunctionDecl.Respelled ⟨name, params, body⟩ ⟨name, params', body'⟩

/-- The functions of two lists are the same, one by one, but for names that are related. -/
inductive FunctionDecl.AllRespelled : List FunctionDecl → List FunctionDecl → Prop where
  | nil : FunctionDecl.AllRespelled [] []
  | cons {d d' ds ds'} : FunctionDecl.Respelled d d' → FunctionDecl.AllRespelled ds ds' →
    FunctionDecl.AllRespelled (d :: ds) (d' :: ds')

end

end Relation

section Unspelled

/-- Related tokens are the same, but for how they are spelled. -/
def Token.SpellingOnly (R : Token → Token → Prop) : Prop :=
  ∀ ⦃t t'⦄, R t t' → t'.respell .unspelled = t.respell .unspelled

variable {R : Token → Token → Prop}

/-- What is related to a name is a name. -/
theorem Token.SpellingOnly.isIdentifier (hR : Token.SpellingOnly R) {t t' : Token} (h : R t t')
    (ht : t.isIdentifier = true) : t'.isIdentifier = true := by
  have hkind : t'.kind = t.kind := (congrArg Token.kind (hR h) :)
  rwa [Token.isIdentifier_iff, hkind, ← Token.isIdentifier_iff]

/-- Related tokens are the same without their spellings, one by one. -/
theorem Token.SpellingOnly.map_eq (hR : Token.SpellingOnly R) {ts ts' : List Token} (h : List.Forall₂ R ts ts') :
    ts'.map (·.respell .unspelled) = ts.map (·.respell .unspelled) := by
  induction h with
  | nil => rfl
  | cons h _ ih => rw [List.map_cons, List.map_cons, hR h, ih]

mutual

/-- Without spellings, expressions with related names are the same. -/
theorem Expr.Respelled.unspelled (hR : Token.SpellingOnly R) {e e' : Expr} :
    e.Respelled R e' → e'.respell .unspelled = e.respell .unspelled
  | .literal => rfl
  | .grouping h => by rw [Expr.respell, Expr.respell, h.unspelled hR]
  | .unary h => by rw [Expr.respell, Expr.respell, h.unspelled hR]
  | .binary hleft hright => by
    rw [Expr.respell, Expr.respell, hleft.unspelled hR, hright.unspelled hR]
  | .logical hleft hright => by
    rw [Expr.respell, Expr.respell, hleft.unspelled hR, hright.unspelled hR]
  | .variable hname => by rw [Expr.respell, Expr.respell, hR hname]
  | .assign hname h => by rw [Expr.respell, Expr.respell, hR hname, h.unspelled hR]
  | .call h harguments => by rw [Expr.respell, Expr.respell, h.unspelled hR, harguments.unspelled hR]
  | .get h => by rw [Expr.respell, Expr.respell, h.unspelled hR]
  | .set h hvalue => by rw [Expr.respell, Expr.respell, h.unspelled hR, hvalue.unspelled hR]
  | .this => rfl

/-- Respelled expressions are the same without their spellings. -/
theorem Expr.AllRespelled.unspelled (hR : Token.SpellingOnly R) {es es' : List Expr} :
    Expr.AllRespelled R es es' → Expr.respellAll .unspelled es' = Expr.respellAll .unspelled es
  | .nil => rfl
  | .cons h hs => by rw [Expr.respellAll, Expr.respellAll, h.unspelled hR, hs.unspelled hR]

end

/-- A respelled optional expression is the same without its spellings. -/
theorem Expr.unspelled_option (hR : Token.SpellingOnly R) {e e' : Option Expr}
    (h : Option.Rel (Expr.Respelled R) e e') :
    e'.map (·.respell .unspelled) = e.map (·.respell .unspelled) := by
  cases h with
  | none => rfl
  | some h => exact congrArg some (h.unspelled hR)

mutual

/-- Without spellings, statements with related names are the same. -/
theorem Stmt.Respelled.unspelled (hR : Token.SpellingOnly R) {s s' : Stmt} :
    s.Respelled R s' → s'.respell .unspelled = s.respell .unspelled
  | .expression h => by rw [Stmt.respell, Stmt.respell, h.unspelled hR]
  | .print h => by rw [Stmt.respell, Stmt.respell, h.unspelled hR]
  | .variable hname h => by rw [Stmt.respell, Stmt.respell, hR hname, Expr.unspelled_option hR h]
  | .block h => by rw [Stmt.respell, Stmt.respell, h.unspelled hR]
  | .conditional h hthen => by rw [Stmt.respell, Stmt.respell, h.unspelled hR, hthen.unspelled hR]
  | .conditionalElse h hthen helse => by
    rw [Stmt.respell, Stmt.respell, h.unspelled hR, hthen.unspelled hR, helse.unspelled hR]
  | .loop h hbody => by rw [Stmt.respell, Stmt.respell, h.unspelled hR, hbody.unspelled hR]
  | .function h => by rw [Stmt.respell, Stmt.respell, h.unspelled hR]
  | .return h => by rw [Stmt.respell, Stmt.respell, Expr.unspelled_option hR h]
  | .class h => by rw [Stmt.respell, Stmt.respell, h.unspelled hR]

/-- Respelled statements are the same without their spellings. -/
theorem Stmt.AllRespelled.unspelled (hR : Token.SpellingOnly R) {ss ss' : List Stmt} :
    Stmt.AllRespelled R ss ss' → Stmt.respellAll .unspelled ss' = Stmt.respellAll .unspelled ss
  | .nil => rfl
  | .cons h hs => by rw [Stmt.respellAll, Stmt.respellAll, h.unspelled hR, hs.unspelled hR]

/-- A respelled function is the same without its spellings. -/
theorem FunctionDecl.Respelled.unspelled (hR : Token.SpellingOnly R) {d d' : FunctionDecl} :
    d.Respelled R d' → d'.respell .unspelled = d.respell .unspelled
  | .mk hparams h => by
    rw [FunctionDecl.respell, FunctionDecl.respell, hR.map_eq hparams, h.unspelled hR]

/-- Respelled functions are the same without their spellings. -/
theorem FunctionDecl.AllRespelled.unspelled (hR : Token.SpellingOnly R) {ds ds' : List FunctionDecl} :
    FunctionDecl.AllRespelled R ds ds' →
      FunctionDecl.respellAll .unspelled ds' = FunctionDecl.respellAll .unspelled ds
  | .nil => rfl
  | .cons h hs => by
    rw [FunctionDecl.respellAll, FunctionDecl.respellAll, h.unspelled hR, hs.unspelled hR]

end

end Unspelled

section Anonymous

variable {R : Token → Token → Prop}

mutual

/-- Related names stay related where numbers are taken away. -/
theorem Expr.Respelled.anonymous {e e' : Expr} :
    e.Respelled R e' → (e.relabel .anonymous).Respelled R (e'.relabel .anonymous)
  | .literal => .literal
  | .grouping h => .grouping h.anonymous
  | .unary h => .unary h.anonymous
  | .binary hleft hright => .binary hleft.anonymous hright.anonymous
  | .logical hleft hright => .logical hleft.anonymous hright.anonymous
  | .variable hname => .variable hname
  | .assign hname h => .assign hname h.anonymous
  | .call h harguments => .call h.anonymous harguments.anonymous
  | .get h => .get h.anonymous
  | .set h hvalue => .set h.anonymous hvalue.anonymous
  | .this => .this

/-- Respelled expressions remain so without their numbers. -/
theorem Expr.AllRespelled.anonymous {es es' : List Expr} : Expr.AllRespelled R es es' →
    Expr.AllRespelled R (Expr.relabelAll .anonymous es) (Expr.relabelAll .anonymous es')
  | .nil => .nil
  | .cons h hs => .cons h.anonymous hs.anonymous

end

/-- A respelled optional expression remains so without its numbers. -/
theorem Expr.respelled_option_anonymous {e e' : Option Expr} (h : Option.Rel (Expr.Respelled R) e e') :
    Option.Rel (Expr.Respelled R) (e.map (·.relabel .anonymous)) (e'.map (·.relabel .anonymous)) := by
  cases h with
  | none => exact .none
  | some h => exact .some h.anonymous

mutual

/-- A respelled statement remains so without its numbers. -/
theorem Stmt.Respelled.anonymous {s s' : Stmt} :
    s.Respelled R s' → (s.relabel .anonymous).Respelled R (s'.relabel .anonymous)
  | .expression h => .expression h.anonymous
  | .print h => .print h.anonymous
  | .variable hname h => .variable hname (Expr.respelled_option_anonymous h)
  | .block h => .block h.anonymous
  | .conditional h hthen => .conditional h.anonymous hthen.anonymous
  | .conditionalElse h hthen helse => .conditionalElse h.anonymous hthen.anonymous helse.anonymous
  | .loop h hbody => .loop h.anonymous hbody.anonymous
  | .function h => .function h.anonymous
  | .return h => .return (Expr.respelled_option_anonymous h)
  | .class h => .class h.anonymous

/-- Respelled statements remain so without their numbers. -/
theorem Stmt.AllRespelled.anonymous {ss ss' : List Stmt} : Stmt.AllRespelled R ss ss' →
    Stmt.AllRespelled R (Stmt.relabelAll .anonymous ss) (Stmt.relabelAll .anonymous ss')
  | .nil => .nil
  | .cons h hs => .cons h.anonymous hs.anonymous

/-- A respelled function remains so without its numbers. -/
theorem FunctionDecl.Respelled.anonymous {d d' : FunctionDecl} :
    d.Respelled R d' → (d.relabel .anonymous).Respelled R (d'.relabel .anonymous)
  | @FunctionDecl.Respelled.mk _ _ params params' _ _ hparams h => by
    have hsame : params.map (·.relabel .anonymous) = params := List.map_id' params
    have hsame' : params'.map (·.relabel .anonymous) = params' := List.map_id' params'
    rw [FunctionDecl.relabel, FunctionDecl.relabel, hsame, hsame']
    exact .mk hparams h.anonymous

/-- Respelled functions remain so without their numbers. -/
theorem FunctionDecl.AllRespelled.anonymous {ds ds' : List FunctionDecl} : FunctionDecl.AllRespelled R ds ds' →
    FunctionDecl.AllRespelled R (FunctionDecl.relabelAll .anonymous ds) (FunctionDecl.relabelAll .anonymous ds')
  | .nil => .nil
  | .cons h hs => .cons h.anonymous hs.anonymous

end

end Anonymous

section Numbers

mutual

/-- The expression with the numbers of another one that is the same without them. -/
def Expr.numberedAs : Expr → Expr → Expr
  | .grouping inner, .grouping inner' => .grouping (inner.numberedAs inner')
  | .unary operator right, .unary _ right' => .unary operator (right.numberedAs right')
  | .binary left operator right, .binary left' _ right' =>
    .binary (left.numberedAs left') operator (right.numberedAs right')
  | .logical left operator right, .logical left' _ right' =>
    .logical (left.numberedAs left') operator (right.numberedAs right')
  | .variable _ name, .variable id _ => .variable id name
  | .assign _ name value, .assign id _ value' => .assign id name (value.numberedAs value')
  | .call callee paren arguments, .call callee' _ arguments' =>
    .call (callee.numberedAs callee') paren (Expr.allNumberedAs arguments arguments')
  | .get object name, .get object' _ => .get (object.numberedAs object') name
  | .set object name value, .set object' _ value' =>
    .set (object.numberedAs object') name (value.numberedAs value')
  | .this _ keyword, .this id _ => .this id keyword
  | e, _ => e

/-- The expressions with the numbers of others that are the same without them. -/
def Expr.allNumberedAs : List Expr → List Expr → List Expr
  | e :: rest, e' :: rest' => e.numberedAs e' :: Expr.allNumberedAs rest rest'
  | es, _ => es

end

/-- The expression, if there is one, with the numbers of another. -/
def Expr.optionNumberedAs : Option Expr → Option Expr → Option Expr
  | some e, some e' => some (e.numberedAs e')
  | e, _ => e

mutual

/-- The statement with the numbers of another one that is the same without them. -/
def Stmt.numberedAs : Stmt → Stmt → Stmt
  | .expression expr, .expression expr' => .expression (expr.numberedAs expr')
  | .print expr, .print expr' => .print (expr.numberedAs expr')
  | .variable name initial, .variable _ initial' =>
    .variable name (Expr.optionNumberedAs initial initial')
  | .block body, .block body' => .block (Stmt.allNumberedAs body body')
  | .conditional condition thenBranch none, .conditional condition' thenBranch' _ =>
    .conditional (condition.numberedAs condition') (thenBranch.numberedAs thenBranch') none
  | .conditional condition thenBranch (some elseBranch),
      .conditional condition' thenBranch' (some elseBranch') =>
    .conditional (condition.numberedAs condition') (thenBranch.numberedAs thenBranch')
      (some (elseBranch.numberedAs elseBranch'))
  | .loop condition body, .loop condition' body' =>
    .loop (condition.numberedAs condition') (body.numberedAs body')
  | .function declaration, .function declaration' => .function (declaration.numberedAs declaration')
  | .return keyword value, .return _ value' => .return keyword (Expr.optionNumberedAs value value')
  | .class name methods, .class _ methods' => .class name (FunctionDecl.allNumberedAs methods methods')
  | s, _ => s
termination_by structural s => s

/-- The statements with the numbers of others that are the same without them. -/
def Stmt.allNumberedAs : List Stmt → List Stmt → List Stmt
  | s :: rest, s' :: rest' => s.numberedAs s' :: Stmt.allNumberedAs rest rest'
  | ss, _ => ss
termination_by structural ss => ss

/-- The function with the numbers of another one that is the same without them. -/
def FunctionDecl.numberedAs : FunctionDecl → FunctionDecl → FunctionDecl
  | ⟨name, params, body⟩, ⟨_, _, body'⟩ => ⟨name, params, Stmt.allNumberedAs body body'⟩
termination_by structural d => d

/-- The functions with the numbers of others that are the same without them. -/
def FunctionDecl.allNumberedAs : List FunctionDecl → List FunctionDecl → List FunctionDecl
  | d :: rest, d' :: rest' => d.numberedAs d' :: FunctionDecl.allNumberedAs rest rest'
  | ds, _ => ds
termination_by structural ds => ds

end

mutual

/-- An expression has its own numbers, with which it is put together again. -/
theorem Expr.numberedAs_self : (e : Expr) →
    (e.relabel .anonymous).numberedAs (e.respell .unspelled) = e
  | .literal _ => rfl
  | .grouping inner => congrArg Expr.grouping inner.numberedAs_self
  | .unary operator right => congrArg (Expr.unary operator) right.numberedAs_self
  | .binary left operator right => by
    rw [Expr.relabel, Expr.respell, Expr.numberedAs, left.numberedAs_self, right.numberedAs_self]
    rfl
  | .logical left operator right => by
    rw [Expr.relabel, Expr.respell, Expr.numberedAs, left.numberedAs_self, right.numberedAs_self]
    rfl
  | .variable _ _ => rfl
  | .assign id name value => congrArg (Expr.assign id name) value.numberedAs_self
  | .call callee paren arguments => by
    rw [Expr.relabel, Expr.respell, Expr.numberedAs, callee.numberedAs_self,
      Expr.allNumberedAs_self arguments]
    rfl
  | .get object name => congrArg (Expr.get · name) object.numberedAs_self
  | .set object name value => by
    rw [Expr.relabel, Expr.respell, Expr.numberedAs, object.numberedAs_self, value.numberedAs_self]
    rfl
  | .this _ _ => rfl

/-- Expressions are put together from their spellings and their numbers. -/
theorem Expr.allNumberedAs_self : (es : List Expr) →
    Expr.allNumberedAs (Expr.relabelAll .anonymous es) (Expr.respellAll .unspelled es) = es
  | [] => rfl
  | e :: rest => by
    rw [Expr.relabelAll, Expr.respellAll, Expr.allNumberedAs, e.numberedAs_self,
      Expr.allNumberedAs_self rest]

end

/-- An optional expression is put together from its spellings and its numbers. -/
theorem Expr.optionNumberedAs_self (e : Option Expr) :
    Expr.optionNumberedAs (e.map (·.relabel .anonymous)) (e.map (·.respell .unspelled)) = e := by
  cases e with
  | none => rfl
  | some e => exact congrArg some e.numberedAs_self

mutual

/-- A statement has its own numbers, with which it is put together again. -/
theorem Stmt.numberedAs_self : (s : Stmt) →
    (s.relabel .anonymous).numberedAs (s.respell .unspelled) = s
  | .expression expr => congrArg Stmt.expression expr.numberedAs_self
  | .print expr => congrArg Stmt.print expr.numberedAs_self
  | .variable name initial => congrArg (Stmt.variable name) (Expr.optionNumberedAs_self initial)
  | .block body => congrArg Stmt.block (Stmt.allNumberedAs_self body)
  | .conditional condition thenBranch none => by
    rw [Stmt.relabel, Stmt.respell, Stmt.numberedAs, condition.numberedAs_self, thenBranch.numberedAs_self]
  | .conditional condition thenBranch (some elseBranch) => by
    rw [Stmt.relabel, Stmt.respell, Stmt.numberedAs, condition.numberedAs_self, thenBranch.numberedAs_self,
      elseBranch.numberedAs_self]
  | .loop condition body => by
    rw [Stmt.relabel, Stmt.respell, Stmt.numberedAs, condition.numberedAs_self, body.numberedAs_self]
  | .function declaration => congrArg Stmt.function declaration.numberedAs_self
  | .return keyword value => congrArg (Stmt.return keyword) (Expr.optionNumberedAs_self value)
  | .class name methods => congrArg (Stmt.class name) (FunctionDecl.allNumberedAs_self methods)

/-- Statements are put together from their spellings and their numbers. -/
theorem Stmt.allNumberedAs_self : (ss : List Stmt) →
    Stmt.allNumberedAs (Stmt.relabelAll .anonymous ss) (Stmt.respellAll .unspelled ss) = ss
  | [] => rfl
  | s :: rest => by
    rw [Stmt.relabelAll, Stmt.respellAll, Stmt.allNumberedAs, s.numberedAs_self,
      Stmt.allNumberedAs_self rest]

/-- A function is put together from its spellings and its numbers. -/
theorem FunctionDecl.numberedAs_self : (d : FunctionDecl) →
    (d.relabel .anonymous).numberedAs (d.respell .unspelled) = d
  | ⟨name, params, body⟩ => by
    have hparams : params.map (·.relabel .anonymous) = params := List.map_id' params
    rw [FunctionDecl.relabel, FunctionDecl.respell, FunctionDecl.numberedAs, hparams,
      Stmt.allNumberedAs_self body]
    rfl

/-- Functions are put together from their spellings and their numbers. -/
theorem FunctionDecl.allNumberedAs_self : (ds : List FunctionDecl) →
    FunctionDecl.allNumberedAs (FunctionDecl.relabelAll .anonymous ds)
      (FunctionDecl.respellAll .unspelled ds) = ds
  | [] => rfl
  | d :: rest => by
    rw [FunctionDecl.relabelAll, FunctionDecl.respellAll, FunctionDecl.allNumberedAs, d.numberedAs_self,
      FunctionDecl.allNumberedAs_self rest]

end

/-- Statements are told from what they are without spellings and what they are without numbers. -/
theorem Stmt.eq_of_unspelled_of_anonymous {ss ss' : List Stmt}
    (h : Stmt.respellAll .unspelled ss = Stmt.respellAll .unspelled ss')
    (h' : Stmt.relabelAll .anonymous ss = Stmt.relabelAll .anonymous ss') : ss = ss' := by
  rw [← Stmt.allNumberedAs_self ss, h, h', Stmt.allNumberedAs_self]

end Numbers

end Lox
