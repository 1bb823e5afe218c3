import Lox.Proofs.Grammar.Parts
import Lox.Proofs.Number.Written
import Lox.Proofs.Token.Longest
import Lox.Proofs.Tree.BuiltAlike
import Lox.Proofs.Tree.Forms
import Lox.Proofs.Tree.Names

/-!
# The prefix form of a tree

The text of a tree is a form, and where names are words that are not reserved, operators are spelled as such and
constants are written as one word, the form tells the tree. Heads alone do not: `-` stands for one operand or two,
`=` for a variable or a property, and an operator for the operation of either kind. The number of the parts
behind the head decides, or whether the first of them is a word.
-/

set_option autoImplicit false

namespace Lox

section Forms

/-- A form with a head and the forms behind it. -/
def Form.headed (head : String) (parts : List Form) : Form := .group (.word head :: parts)

mutual

/-- The form that the text of an expression is. -/
def Expr.form : Expr → Form
  | .literal value => .word value.text
  | .grouping inner => .headed "group" [inner.form]
  | .unary operator right => .headed operator.lexeme [right.form]
  | .binary left operator right => .headed operator.lexeme [left.form, right.form]
  | .logical left operator right => .headed operator.lexeme [left.form, right.form]
  | .variable _ name => .word name.lexeme
  | .assign _ name value => .headed "=" [.word name.lexeme, value.form]
  | .call callee _ arguments => .headed "call" (callee.form :: Expr.forms arguments)
  | .get object name => .headed "." [object.form, .word name.lexeme]
  | .set object name value => .headed "=" [.headed "." [object.form, .word name.lexeme], value.form]
  | .this _ _ => .word "this"

/-- The forms of expressions. -/
def Expr.forms : List Expr → List Form
  | [] => []
  | e :: rest => e.form :: Expr.forms rest

end

/-- The form of the parameters of a function. -/
def Token.paramsForm (params : List Token) : Form := .group (params.map fun t => .word t.lexeme)

mutual

/-- The form that the text of a statement is. -/
def Stmt.form : Stmt → Form
  | .expression expr => .headed ";" [expr.form]
  | .print expr => .headed "print" [expr.form]
  | .variable name none => .headed "var" [.word name.lexeme]
  | .variable name (some initial) => .headed "var" [.word name.lexeme, initial.form]
  | .block body => .headed "block" (Stmt.forms body)
  | .conditional condition thenBranch none => .headed "if" [condition.form, thenBranch.form]
  | .conditional condition thenBranch (some elseBranch) =>
    .headed "if" [condition.form, thenBranch.form, elseBranch.form]
  | .loop condition body => .headed "while" [condition.form, body.form]
  | .function declaration => declaration.form
  | .return _ none => .headed "return" []
  | .return _ (some value) => .headed "return" [value.form]
  | .class name methods => .headed "class" (.word name.lexeme :: FunctionDecl.forms methods)

/-- The form that the text of a function is. -/
def FunctionDecl.form : FunctionDecl → Form
  | ⟨name, params, body⟩ => .headed "fun" (.word name.lexeme :: Token.paramsForm params :: Stmt.forms body)

/-- The forms of statements. -/
def Stmt.forms : List Stmt → List Form
  | [] => []
  | s :: rest => s.form :: Stmt.forms rest

/-- The forms of functions. -/
def FunctionDecl.forms : List FunctionDecl → List Form
  | [] => []
  | d :: rest => d.form :: FunctionDecl.forms rest

end

/-- Forms between parentheses have the characters of their texts between parentheses. -/
theorem Form.chars_group {parts : List Form} {texts : List String}
    (h : parts.map Form.chars = texts.map String.toList) :
    (Form.group parts).chars = ("(" ++ " ".intercalate texts ++ ")").toList := by
  rw [Form.chars, Form.charsAll_eq_intercalate, h, String.toList_append, String.toList_append,
    String.toList_intercalate]
  rfl

/-- A form with a head is written as the text of this head and of its parts. -/
theorem Form.chars_headed {head : String} {parts : List Form} {texts : List String}
    (h : parts.map Form.chars = texts.map String.toList) :
    (Form.headed head parts).chars = (Lox.form head texts).toList :=
  Form.chars_group (List.map_cons.trans (congrArg (head.toList :: ·) h))

mutual

/-- The form of an expression is written as its text. -/
theorem Expr.chars_form : (e : Expr) → e.form.chars = e.text.toList
  | .literal _ => rfl
  | .grouping inner => Form.chars_headed (by simp [inner.chars_form])
  | .unary _ right => Form.chars_headed (by simp [right.chars_form])
  | .binary left _ right => Form.chars_headed (by simp [left.chars_form, right.chars_form])
  | .logical left _ right => Form.chars_headed (by simp [left.chars_form, right.chars_form])
  | .variable _ _ => rfl
  | .assign _ _ value => Form.chars_headed (by simp [Form.chars, value.chars_form])
  | .call callee _ arguments => Form.chars_headed (by simp [callee.chars_form, Expr.chars_forms arguments])
  | .get object _ => Form.chars_headed (by simp [Form.chars, object.chars_form])
  | .set object name value => by
    have hget : (Form.headed "." [object.form, .word name.lexeme]).chars =
        (Lox.form "." [object.text, name.lexeme]).toList :=
      Form.chars_headed (by simp [Form.chars, object.chars_form])
    exact Form.chars_headed (by simp [hget, value.chars_form])
  | .this _ _ => rfl

/-- The forms of expressions are written as their texts. -/
theorem Expr.chars_forms : (es : List Expr) → (Expr.forms es).map Form.chars = (Expr.texts es).map String.toList
  | [] => rfl
  | e :: rest => by
    rw [Expr.forms, Expr.texts, List.map_cons, List.map_cons, e.chars_form, Expr.chars_forms rest]

end

/-- The form of parameters is written as their names between parentheses. -/
theorem Token.chars_paramsForm (params : List Token) :
    (Token.paramsForm params).chars = ("(" ++ " ".intercalate (params.map (·.lexeme)) ++ ")").toList :=
  Form.chars_group (by simp [Function.comp_def, Form.chars])

mutual

/-- The form of a statement is written as its text. -/
theorem Stmt.chars_form : (s : Stmt) → s.form.chars = s.text.toList
  | .expression expr => Form.chars_headed (by simp [expr.chars_form])
  | .print expr => Form.chars_headed (by simp [expr.chars_form])
  | .variable _ none => Form.chars_headed (by simp [Form.chars])
  | .variable _ (some initial) => Form.chars_headed (by simp [Form.chars, initial.chars_form])
  | .block body => Form.chars_headed (Stmt.chars_forms body)
  | .conditional condition thenBranch none =>
    Form.chars_headed (by simp [condition.chars_form, thenBranch.chars_form])
  | .conditional condition thenBranch (some elseBranch) =>
    Form.chars_headed (by simp [condition.chars_form, thenBranch.chars_form, elseBranch.chars_form])
  | .loop condition body => Form.chars_headed (by simp [condition.chars_form, body.chars_form])
  | .function declaration => declaration.chars_form
  | .return _ none => Form.chars_headed rfl
  | .return _ (some value) => Form.chars_headed (by simp [value.chars_form])
  | .class _ methods => Form.chars_headed (by simp [Form.chars, FunctionDecl.chars_forms methods])

/-- The form of a function is written as its text. -/
theorem FunctionDecl.chars_form : (d : FunctionDecl) → d.form.chars = d.text.toList
  | ⟨_, params, body⟩ =>
    Form.chars_headed (by simp [Form.chars, Token.chars_paramsForm params, Stmt.chars_forms body])

/-- The forms of statements are written as their texts. -/
theorem Stmt.chars_forms : (ss : List Stmt) → (Stmt.forms ss).map Form.chars = (Stmt.texts ss).map String.toList
  | [] => rfl
  | s :: rest => by
    rw [Stmt.forms, Stmt.texts, List.map_cons, List.map_cons, s.chars_form, Stmt.chars_forms rest]

/-- The forms of functions are written as their texts. -/
theorem FunctionDecl.chars_forms : (ds : List FunctionDecl) →
    (FunctionDecl.forms ds).map Form.chars = (FunctionDecl.texts ds).map String.toList
  | [] => rfl
  | d :: rest => by
    rw [FunctionDecl.forms, FunctionDecl.texts, List.map_cons, List.map_cons, d.chars_form,
      FunctionDecl.chars_forms rest]

end

end Forms

section Legible

/-- A token is written as the lexical grammar asks for. -/
def Token.IsWritten (t : Token) : Prop := Lexeme t.lexeme.toList t.kind

/-- A token is a name, and written as one. -/
def Token.IsName (t : Token) : Prop := t.IsWritten ∧ t.kind = .identifier

/-- A constant is written as one word that is no name. -/
def Literal.IsLegible : Literal → Prop
  | .number value => Number.IsDecimal (Number.treeText value).toList
  | .string _ => False
  | _ => True

/-- The operator, the name or the constant of an expression is written as such, apart from the expressions in it. -/
def Expr.IsLegible : Expr → Prop
  | .literal value => value.IsLegible
  | .unary operator _ => operator.IsWritten ∧ ∃ s ∈ [Symbol.minus, .bang], operator.kind = .symbol s
  | .binary _ operator _ =>
    operator.IsWritten ∧ ∃ s ∈ .plus :: (numericOperators ++ equalityOperators), operator.kind = .symbol s
  | .logical _ operator _ => operator.IsWritten ∧ ∃ k ∈ [Keyword.or, .and], operator.kind = .keyword k
  | .variable _ name => name.IsName
  | .assign _ name _ => name.IsName
  | .get _ name => name.IsName
  | .set _ name _ => name.IsName
  | _ => True

/-- An expression in a tree is written in a legible way. -/
def Part.IsLegible : Part → Prop
  | .expression e => e.IsLegible
  | .function _ => True

/-- The expressions and names of a tree are written in a legible way. -/
structure Legible (parts : List Part) (names : List Token) : Prop where
  parts : ∀ part ∈ parts, part.IsLegible
  names : ∀ t ∈ names, t.IsName

/-- Two trees are legible if both together are. -/
theorem Legible.split {parts parts' : List Part} {names names' : List Token}
    (h : Legible (parts ++ parts') (names ++ names')) : Legible parts names ∧ Legible parts' names' :=
  have ⟨hparts, hparts'⟩ := List.forall_mem_append.mp h.parts
  have ⟨hnames, hnames'⟩ := List.forall_mem_append.mp h.names
  ⟨⟨hparts, hnames⟩, ⟨hparts', hnames'⟩⟩

variable {t t' : Token}

/-- The first of some legible names is a name, and the others are legible. -/
theorem Legible.name {parts : List Part} {names : List Token} (h : Legible parts (t :: names)) :
    t.IsName ∧ Legible parts names :=
  have ⟨ht, hnames⟩ := List.forall_mem_cons.mp h.names
  ⟨ht, ⟨h.parts, hnames⟩⟩

/-- Tokens that are written as the lexical grammar asks for agree if they are spelled the same. -/
theorem Token.IsWritten.agrees (h : t.IsWritten) (h' : t'.IsWritten) (hlexeme : t.lexeme = t'.lexeme) :
    t.Agrees t' := by
  refine ⟨?_, hlexeme⟩
  rw [IsWritten, hlexeme] at h
  exact Scan.lexeme_kind_unique h h'

/-- The lexeme of a symbol is its spelling. -/
theorem Lexeme.eq_of_symbol {text : List Char} {kind : Kind} {s : Symbol} (h : Lexeme text kind)
    (hkind : kind = .symbol s) : text = s.spelling.toList := by
  cases h <;> cases hkind
  rfl

/-- The lexeme of a reserved word is its spelling. -/
theorem Lexeme.eq_of_keyword {text : List Char} {kind : Kind} {k : Keyword} (h : Lexeme text kind)
    (hkind : kind = .keyword k) : text = k.spelling.toList := by
  cases h <;> cases hkind
  rfl

/-- A token of a symbol is spelled as this symbol. -/
theorem Token.IsWritten.lexeme_of_symbol (h : t.IsWritten) {s : Symbol} (hkind : t.kind = .symbol s) :
    t.lexeme = s.spelling := String.toList_injective (Lexeme.eq_of_symbol h hkind)

/-- A token of a reserved word is spelled as this word. -/
theorem Token.IsWritten.lexeme_of_keyword (h : t.IsWritten) {k : Keyword} (hkind : t.kind = .keyword k) :
    t.lexeme = k.spelling := String.toList_injective (Lexeme.eq_of_keyword h hkind)

/-- A lexeme that is a number is read from a decimal. -/
theorem Lexeme.of_number {text : List Char} {kind : Kind} {x : Float} (h : Lexeme text kind)
    (hkind : kind = .number x) : ∃ d : Number.Decimal, x = d.toFloat := by
  cases h <;> cases hkind <;> exact ⟨_, rfl⟩

/-- A lexeme that is a name has letters only, at least one, and is no reserved word. -/
theorem Lexeme.of_identifier {text : List Char} {kind : Kind} (h : Lexeme text kind) (hkind : kind = .identifier) :
    text ≠ [] ∧ (∀ c ∈ text, c.isAlpha = true) ∧ ∀ k : Keyword, text ≠ k.spelling.toList := by
  cases h <;> cases hkind
  exact ⟨‹_›, ‹_›, ‹_›⟩

section Kinds

/-- The kinds of expressions. -/
inductive ExprKind where
  | literal | grouping | unary | binary | logical | variable | assign | call | get | set | this
  deriving DecidableEq

/-- The kind of an expression. -/
def Expr.kind : Expr → ExprKind
  | .literal _ => .literal
  | .grouping _ => .grouping
  | .unary _ _ => .unary
  | .binary _ _ _ => .binary
  | .logical _ _ _ => .logical
  | .variable _ _ => .variable
  | .assign _ _ _ => .assign
  | .call _ _ _ => .call
  | .get _ _ => .get
  | .set _ _ _ => .set
  | .this _ _ => .this

/-- The kind of an expression that is written as one word. -/
def kindOfWord (text : String) : ExprKind :=
  if text = "this" then .this
  else if text ∈ ["true", "false", "nil"] ∨ text.toList.head?.any Char.isDigit then .literal
  else .variable

/-- The kind of an expression with a head, which the forms behind the head may have to decide. -/
def kindOfHead (head : String) (parts : List Form) : ExprKind :=
  if head = "group" then .grouping
  else if head = "call" then .call
  else if head = "." then .get
  else if head = "=" then
    match parts with
    | .word _ :: _ => .assign
    | _ => .set
  else if head ∈ ["or", "and"] then .logical
  else if parts.length = 1 then .unary
  else .binary

/-- The kind of expression that a form can be. -/
def Form.exprKind : Form → ExprKind
  | .word text => kindOfWord text
  | .group (.word head :: parts) => kindOfHead head parts
  | .group _ => .grouping

/-- A name alone is taken for a variable. -/
theorem kindOfWord_name (h : t.IsName) : kindOfWord t.lexeme = .variable := by
  obtain ⟨hne, hletters, hkeyword⟩ := Lexeme.of_identifier h.1 h.2
  have hreserved (k : Keyword) : t.lexeme ≠ k.spelling := fun h => hkeyword k (by rw [h])
  obtain ⟨c, rest, htext⟩ := List.exists_cons_of_ne_nil hne
  have hdigit : c.isDigit = false := not_isDigit_of_isAlpha (hletters c (htext ▸ List.mem_cons_self ..))
  have hthis : t.lexeme ≠ "this" := hreserved .this
  have htrue : t.lexeme ≠ "true" := hreserved .true
  have hfalse : t.lexeme ≠ "false" := hreserved .false
  have hnil : t.lexeme ≠ "nil" := hreserved .nil
  simp [kindOfWord, hthis, htrue, hfalse, hnil, htext, hdigit]

/-- A legible constant alone is taken for a constant. -/
theorem kindOfWord_literal {value : Literal} (h : value.IsLegible) : kindOfWord value.text = .literal := by
  cases value with
  | number x =>
    obtain ⟨⟨d, rest, htext, hd⟩, -⟩ := h
    have hthis : Number.treeText x ≠ "this" := by
      intro hthis
      rw [hthis] at htext
      obtain ⟨rfl, -⟩ := List.cons.inj htext
      exact absurd hd (by decide)
    simp [kindOfWord, Literal.text, hthis, htext, hd]
  | string text => exact h.elim
  | true => rfl
  | false => rfl
  | nil => rfl

/-- An operator other than the heads of its own kind is told by the number of its operands. -/
theorem kindOfHead_symbol {s : Symbol} (h : s ∉ [Symbol.dot, .equal]) (parts : List Form) :
    kindOfHead s.spelling parts = if parts.length = 1 then .unary else .binary := by
  cases s <;> first | exact absurd h (by decide) | rfl

/-- The kind of a legible expression is read off its form. -/
theorem Expr.exprKind_form {e : Expr} (h : e.IsLegible) : e.form.exprKind = e.kind := by
  cases e with
  | literal value => exact kindOfWord_literal h
  | grouping inner => rfl
  | unary operator right =>
    obtain ⟨hwritten, s, hs, hkind⟩ := h
    have hother : ∀ s ∈ [Symbol.minus, .bang], s ∉ [Symbol.dot, .equal] := by decide
    show kindOfHead operator.lexeme _ = _
    rw [hwritten.lexeme_of_symbol hkind, kindOfHead_symbol (hother s hs)]
    rfl
  | binary left operator right =>
    obtain ⟨hwritten, s, hs, hkind⟩ := h
    have hother : ∀ s ∈ Symbol.plus :: (numericOperators ++ equalityOperators), s ∉ [Symbol.dot, .equal] := by
      decide
    show kindOfHead operator.lexeme _ = _
    rw [hwritten.lexeme_of_symbol hkind, kindOfHead_symbol (hother s hs)]
    rfl
  | logical left operator right =>
    obtain ⟨hwritten, k, hk, hkind⟩ := h
    show kindOfHead operator.lexeme _ = _
    rw [hwritten.lexeme_of_keyword hkind]
    rcases List.mem_pair.mp hk with rfl | rfl <;> rfl
  | «variable» id name => exact kindOfWord_name h
  | assign id name value => rfl
  | call callee paren arguments => rfl
  | get object name => rfl
  | set object name value => rfl
  | this id keyword => rfl

end Kinds

section Plain

/-- A letter is neither a blank nor a parenthesis. -/
theorem isPlain_of_isAlpha {c : Char} (h : c.isAlpha = true) : Form.isPlain c = true := by
  simp only [Form.isPlain, Bool.and_eq_true, bne_iff_ne]
  refine ⟨⟨?_, ?_⟩, ?_⟩ <;> rintro rfl <;> exact absurd h (by decide)

/-- A digit is neither a blank nor a parenthesis. -/
theorem isPlain_of_isDigit {c : Char} (h : c.isDigit = true) : Form.isPlain c = true := by
  simp only [Form.isPlain, Bool.and_eq_true, bne_iff_ne]
  refine ⟨⟨?_, ?_⟩, ?_⟩ <;> rintro rfl <;> exact absurd h (by decide)

/-- A name is a plain word. -/
theorem Token.IsName.plain (h : t.IsName) : (Form.word t.lexeme).Plain := by
  obtain ⟨hne, hletters, -⟩ := Lexeme.of_identifier h.1 h.2
  exact ⟨fun hempty => hne (by rw [hempty]; rfl), fun c hc => isPlain_of_isAlpha (hletters c hc)⟩

/-- A reserved word is a plain word. -/
theorem Token.IsWritten.plain_keyword {k : Keyword} (h : t.IsWritten) (hkind : t.kind = .keyword k) :
    (Form.word t.lexeme).Plain := by
  rw [h.lexeme_of_keyword hkind]
  refine Form.plain_word ?_
  cases k <;> rfl

/-- All symbols but parentheses are plain. -/
theorem Token.IsWritten.plain_symbol {s : Symbol} (h : t.IsWritten) (hkind : t.kind = .symbol s)
    (hs : s ∉ [Symbol.leftParen, .rightParen]) : (Form.word t.lexeme).Plain := by
  rw [h.lexeme_of_symbol hkind]
  refine Form.plain_word ?_
  cases s <;> first | exact absurd hs (by decide) | rfl

/-- A legible constant is a plain word. -/
theorem Literal.IsLegible.plain {value : Literal} (h : value.IsLegible) : (Form.word value.text).Plain := by
  cases value with
  | number x =>
    obtain ⟨⟨d, rest, htext, -⟩, hchars⟩ := h
    refine ⟨fun hempty => ?_, fun c hc => ?_⟩
    · rw [show Number.treeText x = "" from hempty] at htext
      cases htext
    · rcases hchars c hc with hdigit | rfl
      · exact isPlain_of_isDigit hdigit
      · rfl
  | string text => exact h.elim
  | true => exact Form.plain_word rfl
  | false => exact Form.plain_word rfl
  | nil => exact Form.plain_word rfl

/-- The operator of an expression is plain. -/
theorem plain_operator {symbols : List Symbol} (hsymbols : ∀ s ∈ symbols, s ∉ [Symbol.leftParen, .rightParen])
    (h : t.IsWritten ∧ ∃ s ∈ symbols, t.kind = .symbol s) : (Form.word t.lexeme).Plain := by
  obtain ⟨hwritten, s, hs, hkind⟩ := h
  exact hwritten.plain_symbol hkind (hsymbols s hs)

mutual

/-- No word in the form of a legible expression has blanks or parentheses. -/
theorem Expr.plain_form : (e : Expr) → (∀ part ∈ e.parts, part.IsLegible) → e.form.Plain
  | .literal _, h => (List.forall_mem_singleton.mp h).plain
  | .grouping inner, h => ⟨Form.plain_word rfl, inner.plain_form (List.forall_mem_cons.mp h).2, trivial⟩
  | .unary _ right, h =>
    have ⟨hlegible, hright⟩ := List.forall_mem_cons.mp h
    ⟨plain_operator (by decide) hlegible, right.plain_form hright, trivial⟩
  | .binary left _ right, h =>
    have ⟨hlegible, hparts⟩ := List.forall_mem_cons.mp h
    have ⟨hleft, hright⟩ := List.forall_mem_append.mp hparts
    ⟨plain_operator (by decide) hlegible, left.plain_form hleft, right.plain_form hright, trivial⟩
  | .logical left _ right, h =>
    have ⟨⟨hwritten, _, _, hkind⟩, hparts⟩ := List.forall_mem_cons.mp h
    have ⟨hleft, hright⟩ := List.forall_mem_append.mp hparts
    ⟨hwritten.plain_keyword hkind, left.plain_form hleft, right.plain_form hright, trivial⟩
  | .variable _ _, h => (List.forall_mem_singleton.mp h).plain
  | .assign _ _ value, h =>
    have ⟨hname, hvalue⟩ := List.forall_mem_cons.mp h
    ⟨Form.plain_word rfl, hname.plain, value.plain_form hvalue, trivial⟩
  | .call callee _ arguments, h =>
    have ⟨hcallee, harguments⟩ := List.forall_mem_append.mp (List.forall_mem_cons.mp h).2
    ⟨Form.plain_word rfl, callee.plain_form hcallee, Expr.plain_forms arguments harguments⟩
  | .get object _, h =>
    have ⟨hname, hobject⟩ := List.forall_mem_cons.mp h
    ⟨Form.plain_word rfl, object.plain_form hobject, hname.plain, trivial⟩
  | .set object _ value, h =>
    have ⟨hname, hparts⟩ := List.forall_mem_cons.mp h
    have ⟨hobject, hvalue⟩ := List.forall_mem_append.mp hparts
    ⟨Form.plain_word rfl, ⟨Form.plain_word rfl, object.plain_form hobject, hname.plain, trivial⟩,
      value.plain_form hvalue, trivial⟩
  | .this _ _, _ => Form.plain_word rfl

/-- The forms of legible expressions are plain. -/
theorem Expr.plain_forms : (es : List Expr) → (∀ part ∈ Expr.partsAll es, part.IsLegible) →
    Form.PlainAll (Expr.forms es)
  | [], _ => trivial
  | e :: rest, h =>
    have ⟨he, hrest⟩ := List.forall_mem_append.mp h
    ⟨e.plain_form he, Expr.plain_forms rest hrest⟩

end

/-- The form of parameters is plain, if they are names. -/
theorem Token.plain_paramsForm {params : List Token} (h : ∀ t ∈ params, t.IsName) : (paramsForm params).Plain := by
  show Form.PlainAll (params.map _)
  induction params with
  | nil => trivial
  | cons t rest ih =>
    obtain ⟨ht, hrest⟩ := List.forall_mem_cons.mp h
    exact ⟨ht.plain, ih hrest⟩

mutual

/-- No word in the form of a legible statement has blanks or parentheses. -/
theorem Stmt.plain_form : (s : Stmt) → Legible s.parts s.names → s.form.Plain
  | .expression expr, h => ⟨Form.plain_word rfl, expr.plain_form h.parts, trivial⟩
  | .print expr, h => ⟨Form.plain_word rfl, expr.plain_form h.parts, trivial⟩
  | .variable _ none, h => ⟨Form.plain_word rfl, h.name.1.plain, trivial⟩
  | .variable _ (some initial), h =>
    ⟨Form.plain_word rfl, h.name.1.plain, initial.plain_form h.parts, trivial⟩
  | .block body, h => ⟨Form.plain_word rfl, Stmt.plain_forms body h⟩
  | .conditional condition thenBranch none, h =>
    have ⟨hcondition, hthen⟩ := h.split
    ⟨Form.plain_word rfl, condition.plain_form hcondition.parts, thenBranch.plain_form hthen, trivial⟩
  | .conditional condition thenBranch (some elseBranch), h =>
    have ⟨hcommon, helse⟩ := h.split
    have ⟨hcondition, hthen⟩ := hcommon.split
    ⟨Form.plain_word rfl, condition.plain_form hcondition.parts, thenBranch.plain_form hthen,
      elseBranch.plain_form helse, trivial⟩
  | .loop condition body, h =>
    have ⟨hcondition, hbody⟩ := h.split
    ⟨Form.plain_word rfl, condition.plain_form hcondition.parts, body.plain_form hbody, trivial⟩
  | .function declaration, h => declaration.plain_form h
  | .return _ none, _ => ⟨Form.plain_word rfl, trivial⟩
  | .return _ (some value), h => ⟨Form.plain_word rfl, value.plain_form h.parts, trivial⟩
  | .class _ methods, h =>
    have ⟨hname, hmethods⟩ := h.name
    ⟨Form.plain_word rfl, hname.plain, FunctionDecl.plain_forms methods hmethods⟩

/-- The form of a legible function is plain. -/
theorem FunctionDecl.plain_form : (d : FunctionDecl) → Legible d.parts d.names → d.form.Plain
  | ⟨_, _, body⟩, h =>
    have ⟨hname, hrest⟩ := h.name
    have ⟨hparams, hbody⟩ := List.forall_mem_append.mp hrest.names
    ⟨Form.plain_word rfl, hname.plain, Token.plain_paramsForm hparams,
      Stmt.plain_forms body ⟨(List.forall_mem_cons.mp hrest.parts).2, hbody⟩⟩

/-- The forms of legible statements are plain. -/
theorem Stmt.plain_forms : (ss : List Stmt) → Legible (Stmt.partsAll ss) (Stmt.namesAll ss) →
    Form.PlainAll (Stmt.forms ss)
  | [], _ => trivial
  | s :: rest, h =>
    have ⟨hs, hrest⟩ := h.split
    ⟨s.plain_form hs, Stmt.plain_forms rest hrest⟩

/-- The forms of legible functions are plain. -/
theorem FunctionDecl.plain_forms : (ds : List FunctionDecl) →
    Legible (FunctionDecl.partsAll ds) (FunctionDecl.namesAll ds) → Form.PlainAll (FunctionDecl.forms ds)
  | [], _ => trivial
  | d :: rest, h =>
    have ⟨hd, hrest⟩ := h.split
    ⟨d.plain_form hd, FunctionDecl.plain_forms rest hrest⟩

end

end Plain

section Reading

/-- Two forms with heads are the same exactly if their heads and their parts are. -/
theorem Form.headed_inj {head head' : String} {parts parts' : List Form} :
    Form.headed head parts = Form.headed head' parts' ↔ head = head' ∧ parts = parts' := by
  simp [Form.headed]

/-- Constants are told by their text. -/
theorem Literal.IsLegible.agrees {value value' : Literal} (h : value.IsLegible) (h' : value'.IsLegible)
    (htext : value.text = value'.text) : value.Agrees value' := by
  -- a word of letters is not the text of a number
  have hnumber {x : Float} {word : String} (hx : Literal.IsLegible (.number x))
      (hword : word.toList.head?.any Char.isDigit = Bool.false) : Number.treeText x ≠ word := by
    rintro rfl
    obtain ⟨⟨d, rest, htext, hd⟩, -⟩ := hx
    simp [htext, hd] at hword
  cases value <;> cases value' <;> try exact .same _
  case number.number => exact .number htext
  case number.true => exact absurd htext (hnumber h rfl)
  case number.false => exact absurd htext (hnumber h rfl)
  case number.nil => exact absurd htext (hnumber h rfl)
  case true.number => exact absurd htext.symm (hnumber h' rfl)
  case false.number => exact absurd htext.symm (hnumber h' rfl)
  case nil.number => exact absurd htext.symm (hnumber h' rfl)
  all_goals first | exact h.elim | exact h'.elim | exact absurd htext (by decide)

mutual

/-- Legible expressions with the same form are built alike. -/
theorem Expr.builtAlike_of_form (e e' : Expr) (h : ∀ part ∈ e.parts, part.IsLegible)
    (h' : ∀ part ∈ e'.parts, part.IsLegible) (hform : e.form = e'.form) : e.BuiltAlike e' := by
  have hkind : e.kind = e'.kind := by
    rw [← Expr.exprKind_form (h _ e.mem_parts), ← Expr.exprKind_form (h' _ e'.mem_parts), hform]
  cases e <;> cases e' <;> try (simp [Expr.kind] at hkind; done)
  case literal.literal value value' =>
    exact .literal ((h _ (Expr.mem_parts _)).agrees (h' _ (Expr.mem_parts _)) (Form.word.inj hform))
  case grouping.grouping inner inner' =>
    simp only [Expr.form, Form.headed_inj, List.cons.injEq, and_true, true_and] at hform
    exact .grouping (inner.builtAlike_of_form inner' (List.forall_mem_cons.mp h).2
      (List.forall_mem_cons.mp h').2 hform)
  case unary.unary operator right operator' right' =>
    obtain ⟨⟨hoperator, -⟩, hright⟩ := List.forall_mem_cons.mp h
    obtain ⟨⟨hoperator', -⟩, hright'⟩ := List.forall_mem_cons.mp h'
    simp only [Expr.form, Form.headed_inj, List.cons.injEq, and_true] at hform
    exact .unary (hoperator.agrees hoperator' hform.1)
      (right.builtAlike_of_form right' hright hright' hform.2)
  case binary.binary left operator right left' operator' right' =>
    obtain ⟨⟨hoperator, -⟩, hparts⟩ := List.forall_mem_cons.mp h
    obtain ⟨⟨hoperator', -⟩, hparts'⟩ := List.forall_mem_cons.mp h'
    obtain ⟨hleft, hright⟩ := List.forall_mem_append.mp hparts
    obtain ⟨hleft', hright'⟩ := List.forall_mem_append.mp hparts'
    simp only [Expr.form, Form.headed_inj, List.cons.injEq, and_true] at hform
    exact .binary (left.builtAlike_of_form left' hleft hleft' hform.2.1)
      (hoperator.agrees hoperator' hform.1) (right.builtAlike_of_form right' hright hright' hform.2.2)
  case logical.logical left operator right left' operator' right' =>
    obtain ⟨⟨hoperator, -⟩, hparts⟩ := List.forall_mem_cons.mp h
    obtain ⟨⟨hoperator', -⟩, hparts'⟩ := List.forall_mem_cons.mp h'
    obtain ⟨hleft, hright⟩ := List.forall_mem_append.mp hparts
    obtain ⟨hleft', hright'⟩ := List.forall_mem_append.mp hparts'
    simp only [Expr.form, Form.headed_inj, List.cons.injEq, and_true] at hform
    exact .logical (left.builtAlike_of_form left' hleft hleft' hform.2.1)
      (hoperator.agrees hoperator' hform.1) (right.builtAlike_of_form right' hright hright' hform.2.2)
  case variable.variable =>
    exact .variable ((h _ (Expr.mem_parts _)).1.agrees (h' _ (Expr.mem_parts _)).1 (Form.word.inj hform))
  case assign.assign id name value id' name' value' =>
    obtain ⟨hname, hvalue⟩ := List.forall_mem_cons.mp h
    obtain ⟨hname', hvalue'⟩ := List.forall_mem_cons.mp h'
    simp only [Expr.form, Form.headed_inj, List.cons.injEq, Form.word.injEq, and_true, true_and] at hform
    exact .assign (hname.1.agrees hname'.1 hform.1) (value.builtAlike_of_form value' hvalue hvalue' hform.2)
  case call.call callee paren arguments callee' paren' arguments' =>
    obtain ⟨hcallee, harguments⟩ := List.forall_mem_append.mp (List.forall_mem_cons.mp h).2
    obtain ⟨hcallee', harguments'⟩ := List.forall_mem_append.mp (List.forall_mem_cons.mp h').2
    simp only [Expr.form, Form.headed_inj, List.cons.injEq, true_and] at hform
    exact .call (callee.builtAlike_of_form callee' hcallee hcallee' hform.1)
      (Expr.allBuiltAlike_of_forms arguments arguments' harguments harguments' hform.2)
  case get.get object name object' name' =>
    obtain ⟨hname, hobject⟩ := List.forall_mem_cons.mp h
    obtain ⟨hname', hobject'⟩ := List.forall_mem_cons.mp h'
    simp only [Expr.form, Form.headed_inj, List.cons.injEq, Form.word.injEq, and_true, true_and] at hform
    exact .get (object.builtAlike_of_form object' hobject hobject' hform.1) (hname.1.agrees hname'.1 hform.2)
  case set.set object name value object' name' value' =>
    obtain ⟨hname, hparts⟩ := List.forall_mem_cons.mp h
    obtain ⟨hname', hparts'⟩ := List.forall_mem_cons.mp h'
    obtain ⟨hobject, hvalue⟩ := List.forall_mem_append.mp hparts
    obtain ⟨hobject', hvalue'⟩ := List.forall_mem_append.mp hparts'
    simp only [Expr.form, Form.headed_inj, List.cons.injEq, Form.word.injEq, and_true, true_and] at hform
    exact .set (object.builtAlike_of_form object' hobject hobject' hform.1.1)
      (hname.1.agrees hname'.1 hform.1.2) (value.builtAlike_of_form value' hvalue hvalue' hform.2)
  case this.this => exact .this
  termination_by structural e

/-- Legible expressions with the same forms are built alike. -/
theorem Expr.allBuiltAlike_of_forms (es es' : List Expr) (h : ∀ part ∈ Expr.partsAll es, part.IsLegible)
    (h' : ∀ part ∈ Expr.partsAll es', part.IsLegible) (hforms : Expr.forms es = Expr.forms es') :
    Expr.AllBuiltAlike es es' := by
  cases es with
  | nil =>
    cases es' with
    | nil => exact .nil
    | cons e' rest' => cases hforms
  | cons e rest =>
    cases es' with
    | nil => cases hforms
    | cons e' rest' =>
      obtain ⟨he, hrest⟩ := List.forall_mem_append.mp h
      obtain ⟨he', hrest'⟩ := List.forall_mem_append.mp h'
      obtain ⟨hform, hforms⟩ := List.cons.inj hforms
      exact .cons (e.builtAlike_of_form e' he he' hform)
        (Expr.allBuiltAlike_of_forms rest rest' hrest hrest' hforms)
  termination_by structural es

end

/-- Parameters are told by their names. -/
theorem Token.agrees_of_paramsForm {params params' : List Token} (h : ∀ t ∈ params, t.IsName)
    (h' : ∀ t ∈ params', t.IsName) (hform : paramsForm params = paramsForm params') :
    List.Forall₂ Token.Agrees params params' := by
  rw [paramsForm, paramsForm, Form.group.injEq] at hform
  induction params generalizing params' with
  | nil =>
    cases params' with
    | nil => exact .nil
    | cons => cases hform
  | cons t rest ih =>
    cases params' with
    | nil => cases hform
    | cons t' rest' =>
      obtain ⟨ht, hrest⟩ := List.forall_mem_cons.mp h
      obtain ⟨ht', hrest'⟩ := List.forall_mem_cons.mp h'
      obtain ⟨hword, hwords⟩ := List.cons.inj hform
      exact .cons (ht.1.agrees ht'.1 (Form.word.inj hword)) (ih hrest hrest' hwords)

/-- The head of the form of a statement. -/
def Stmt.head : Stmt → String
  | .expression _ => ";"
  | .print _ => "print"
  | .variable _ _ => "var"
  | .block _ => "block"
  | .conditional _ _ _ => "if"
  | .loop _ _ => "while"
  | .function _ => "fun"
  | .return _ _ => "return"
  | .class _ _ => "class"

/-- The form of a statement has the head of the statement. -/
theorem Stmt.form_eq_headed (s : Stmt) : ∃ parts, s.form = .headed s.head parts := by
  cases s with
  | «variable» name initial => cases initial <;> exact ⟨_, rfl⟩
  | conditional condition thenBranch elseBranch => cases elseBranch <;> exact ⟨_, rfl⟩
  | function declaration => cases declaration; exact ⟨_, rfl⟩
  | «return» keyword value => cases value <;> exact ⟨_, rfl⟩
  | _ => exact ⟨_, rfl⟩

mutual

/-- Legible statements with the same form are built alike. -/
theorem Stmt.builtAlike_of_form (s s' : Stmt) (h : Legible s.parts s.names) (h' : Legible s'.parts s'.names)
    (hform : s.form = s'.form) : s.BuiltAlike s' := by
  have hhead : s.head = s'.head := by
    obtain ⟨parts, hs⟩ := s.form_eq_headed
    obtain ⟨parts', hs'⟩ := s'.form_eq_headed
    rw [hs, hs', Form.headed_inj] at hform
    exact hform.1
  cases s <;> cases s' <;> try (simp [Stmt.head] at hhead; done)
  case expression.expression e e' =>
    simp only [Stmt.form, Form.headed_inj, List.cons.injEq, and_true, true_and] at hform
    exact .expression (e.builtAlike_of_form e' h.parts h'.parts hform)
  case print.print e e' =>
    simp only [Stmt.form, Form.headed_inj, List.cons.injEq, and_true, true_and] at hform
    exact .print (e.builtAlike_of_form e' h.parts h'.parts hform)
  case variable.variable name initial name' initial' =>
    obtain ⟨hname, hinitial⟩ := h.name
    obtain ⟨hname', hinitial'⟩ := h'.name
    cases initial <;> cases initial' <;>
      simp only [Stmt.form, Form.headed_inj, List.cons.injEq, Form.word.injEq, and_true, true_and,
        reduceCtorEq, and_false] at hform
    case none.none => exact .declared (hname.1.agrees hname'.1 hform)
    case some.some e e' =>
      exact .initialized (hname.1.agrees hname'.1 hform.1)
        (e.builtAlike_of_form e' hinitial.parts hinitial'.parts hform.2)
  case block.block body body' =>
    exact .block (Stmt.allBuiltAlike_of_forms body body' h h' (Form.headed_inj.mp hform).2)
  case conditional.conditional e thenBranch elseBranch e' thenBranch' elseBranch' =>
    cases elseBranch <;> cases elseBranch' <;>
      simp only [Stmt.form, Form.headed_inj, List.cons.injEq, and_true, true_and, reduceCtorEq,
        and_false] at hform
    case none.none =>
      obtain ⟨he, hthen⟩ := h.split
      obtain ⟨he', hthen'⟩ := h'.split
      exact .if (e.builtAlike_of_form e' he.parts he'.parts hform.1)
        (thenBranch.builtAlike_of_form thenBranch' hthen hthen' hform.2)
    case some.some elseBranch elseBranch' =>
      obtain ⟨hcommon, helse⟩ := h.split
      obtain ⟨hcommon', helse'⟩ := h'.split
      obtain ⟨he, hthen⟩ := hcommon.split
      obtain ⟨he', hthen'⟩ := hcommon'.split
      exact .ifElse (e.builtAlike_of_form e' he.parts he'.parts hform.1)
        (thenBranch.builtAlike_of_form thenBranch' hthen hthen' hform.2.1)
        (elseBranch.builtAlike_of_form elseBranch' helse helse' hform.2.2)
  case loop.loop e body e' body' =>
    obtain ⟨he, hbody⟩ := h.split
    obtain ⟨he', hbody'⟩ := h'.split
    simp only [Stmt.form, Form.headed_inj, List.cons.injEq, and_true, true_and] at hform
    exact .loop (e.builtAlike_of_form e' he.parts he'.parts hform.1)
      (body.builtAlike_of_form body' hbody hbody' hform.2)
  case function.function d d' => exact .function (d.builtAlike_of_form d' h h' hform)
  case return.return keyword value keyword' value' =>
    cases value <;> cases value' <;>
      simp only [Stmt.form, Form.headed_inj, List.cons.injEq, and_true, true_and, reduceCtorEq,
        and_false] at hform
    case none.none => exact .returned
    case some.some e e' => exact .returnedValue (e.builtAlike_of_form e' h.parts h'.parts hform)
  case class.class name methods name' methods' =>
    obtain ⟨hname, hmethods⟩ := h.name
    obtain ⟨hname', hmethods'⟩ := h'.name
    simp only [Stmt.form, Form.headed_inj, List.cons.injEq, Form.word.injEq, true_and] at hform
    exact .class (hname.1.agrees hname'.1 hform.1)
      (FunctionDecl.allBuiltAlike_of_forms methods methods' hmethods hmethods' hform.2)
  termination_by structural s

/-- Legible functions with the same form are built alike. -/
theorem FunctionDecl.builtAlike_of_form (d d' : FunctionDecl) (h : Legible d.parts d.names)
    (h' : Legible d'.parts d'.names) (hform : d.form = d'.form) : d.BuiltAlike d' := by
  cases d with | mk name params body =>
  cases d' with | mk name' params' body' =>
  obtain ⟨hname, hrest⟩ := h.name
  obtain ⟨hname', hrest'⟩ := h'.name
  obtain ⟨hparams, hbody⟩ := List.forall_mem_append.mp hrest.names
  obtain ⟨hparams', hbody'⟩ := List.forall_mem_append.mp hrest'.names
  simp only [FunctionDecl.form, Form.headed_inj, List.cons.injEq, Form.word.injEq, true_and] at hform
  exact .mk (hname.1.agrees hname'.1 hform.1) (Token.agrees_of_paramsForm hparams hparams' hform.2.1)
    (Stmt.allBuiltAlike_of_forms body body' ⟨(List.forall_mem_cons.mp hrest.parts).2, hbody⟩
      ⟨(List.forall_mem_cons.mp hrest'.parts).2, hbody'⟩ hform.2.2)
  termination_by structural d

/-- Legible statements with the same forms are built alike. -/
theorem Stmt.allBuiltAlike_of_forms (ss ss' : List Stmt) (h : Legible (Stmt.partsAll ss) (Stmt.namesAll ss))
    (h' : Legible (Stmt.partsAll ss') (Stmt.namesAll ss')) (hforms : Stmt.forms ss = Stmt.forms ss') :
    Stmt.AllBuiltAlike ss ss' := by
  cases ss with
  | nil =>
    cases ss' with
    | nil => exact .nil
    | cons s' rest' => cases hforms
  | cons s rest =>
    cases ss' with
    | nil => cases hforms
    | cons s' rest' =>
      obtain ⟨hs, hrest⟩ := h.split
      obtain ⟨hs', hrest'⟩ := h'.split
      obtain ⟨hform, hforms⟩ := List.cons.inj hforms
      exact .cons (s.builtAlike_of_form s' hs hs' hform)
        (Stmt.allBuiltAlike_of_forms rest rest' hrest hrest' hforms)
  termination_by structural ss

/-- Lists of legible functions with the same forms are built alike. -/
theorem FunctionDecl.allBuiltAlike_of_forms (ds ds' : List FunctionDecl)
    (h : Legible (FunctionDecl.partsAll ds) (FunctionDecl.namesAll ds))
    (h' : Legible (FunctionDecl.partsAll ds') (FunctionDecl.namesAll ds'))
    (hforms : FunctionDecl.forms ds = FunctionDecl.forms ds') : FunctionDecl.AllBuiltAlike ds ds' := by
  cases ds with
  | nil =>
    cases ds' with
    | nil => exact .nil
    | cons d' rest' => cases hforms
  | cons d rest =>
    cases ds' with
    | nil => cases hforms
    | cons d' rest' =>
      obtain ⟨hd, hrest⟩ := h.split
      obtain ⟨hd', hrest'⟩ := h'.split
      obtain ⟨hform, hforms⟩ := List.cons.inj hforms
      exact .cons (d.builtAlike_of_form d' hd hd' hform)
        (FunctionDecl.allBuiltAlike_of_forms rest rest' hrest hrest' hforms)
  termination_by structural ds

end

/-- Legible statements are built alike exactly if they have the same text. -/
theorem Legible.text_eq_iff {s s' : Stmt} (h : Legible s.parts s.names) (h' : Legible s'.parts s'.names) :
    s.text = s'.text ↔ s.BuiltAlike s' := by
  refine ⟨fun htext => s.builtAlike_of_form s' h h' ?_, Stmt.BuiltAlike.text_eq⟩
  refine Form.chars_inj (s.plain_form h) (s'.plain_form h') ?_
  rw [s.chars_form, s'.chars_form, htext]

end Reading

end Legible

end Lox
