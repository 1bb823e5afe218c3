import Lox.Proofs.Session.Accepted
import Lox.Proofs.Tree.PrefixForm

/-!
# The prefix form is unambiguous

The tokens of a source are written as the lexical grammar asks for, and the numbers among them are neither negative
nor undefined. So what is parsed from a source is legible, apart from its strings and the numbers that are too large:
its text in prefix form tells how it is built, whatever source it was parsed from.
-/

set_option autoImplicit false

namespace Lox

/-- A constant is neither a string nor a number that became infinite. -/
def Literal.IsOrdinary : Literal → Prop
  | .number value => ∀ negative, Number.read value ≠ .infinite negative
  | .string _ => False
  | _ => True

instance : DecidablePred Literal.IsOrdinary := fun value =>
  match value with
  | .number x => inferInstanceAs (Decidable (∀ negative, Number.read x ≠ .infinite negative))
  | .string _ => inferInstanceAs (Decidable False)
  | .true => inferInstanceAs (Decidable True)
  | .false => inferInstanceAs (Decidable True)
  | .nil => inferInstanceAs (Decidable True)

/-- The constant that a part of a tree is. -/
def Part.literal? : Part → Option Literal
  | .expression (.literal value) => some value
  | _ => none

/-- A part of a tree is no constant, or an ordinary one. -/
def Part.IsOrdinary (part : Part) : Prop := ∀ value ∈ part.literal?, value.IsOrdinary

instance : DecidablePred Part.IsOrdinary := fun part =>
  inferInstanceAs (Decidable (∀ value ∈ part.literal?, value.IsOrdinary))

section Tokens

variable {source : String} {t : Token}

/-- The tokens of a source, but for the one at its end, are written as the lexical grammar asks for. -/
theorem isWritten_of_mem_tokens (ht : t ∈ Scan.tokens source) (heof : t.isEof = false) : t.IsWritten := by
  rw [Scan.tokens_eq] at ht
  rcases List.mem_append.mp ht with ht | ht
  · exact Scan.alone_iff_lexeme.mp (Scan.alone_of_mem_tokensBefore ht)
  · rw [List.mem_singleton.mp ht] at heof
    cases heof

/-- A constant that is ordinary and comes from a written token is legible. -/
theorem Token.IsWritten.constant_legible {value : Literal} (h : t.IsWritten)
    (hvalue : Grammar.constant? t = some value) (hordinary : value.IsOrdinary) : value.IsLegible := by
  cases value with
  | number x =>
    have hkind : t.kind = .number x := by
      unfold Grammar.constant? at hvalue
      split at hvalue <;> cases hvalue
      assumption
    obtain ⟨d, rfl⟩ := Lexeme.of_number h hkind
    exact (Number.isDecimal_or_infinite d).resolve_right (hordinary _)
  | string text => exact hordinary
  | true => trivial
  | false => trivial
  | nil => trivial

end Tokens

namespace Grammar

/-- An infix expression of the grammar is legible if its operator is written as such. -/
theorem Level.build_legible (l : Level) {operator : Token} (h : l.isOperator operator = true)
    (hwritten : operator.IsWritten) (left right : Expr) : (l.build left operator right).IsLegible := by
  have hproper := (l.build_proper h left right).1
  cases l with
  | disjunction => exact ⟨hwritten, .or, by decide, Token.isKeyword_iff.mp h⟩
  | conjunction => exact ⟨hwritten, .and, by decide, Token.isKeyword_iff.mp h⟩
  | equality => exact ⟨hwritten, hproper⟩
  | comparison => exact ⟨hwritten, hproper⟩
  | term => exact ⟨hwritten, hproper⟩
  | factor => exact ⟨hwritten, hproper⟩

/-- What the rules yield from written tokens is legible, if it is ordinary. -/
theorem partRules_isLegible : PartRules Token.IsWritten (fun part => part.IsOrdinary → part.IsLegible) where
  constant ht hvalue hordinary := ht.constant_legible hvalue (hordinary _ rfl)
  always _ := trivial
  grouping _ := trivial
  unary ht hoperator _ := by
    refine ⟨ht, ?_⟩
    rcases isProper_unary hoperator (.literal .nil) with hkind | hkind
    · exact ⟨.minus, by decide, hkind⟩
    · exact ⟨.bang, by decide, hkind⟩
  operation l _ _ _ ht hoperator _ := l.build_legible hoperator ht _ _
  name ht hname _ := ⟨ht, Token.isIdentifier_iff.mp hname⟩
  this _ _ _ := trivial
  assign ht hname _ := ⟨ht, Token.isIdentifier_iff.mp hname⟩
  property ht hname _ := ⟨ht, Token.isIdentifier_iff.mp hname⟩
  set ht hname _ := ⟨ht, Token.isIdentifier_iff.mp hname⟩
  call _ _ _ := trivial
  function _ _ := trivial

end Grammar

/-- Occurrence numbers change nothing of what is ordinary and legible. -/
theorem Part.isLegible_anonymous (part : Part) :
    ((part.relabel .anonymous).IsOrdinary → (part.relabel .anonymous).IsLegible) ↔
      (part.IsOrdinary → part.IsLegible) := by
  cases part with
  | expression e => cases e <;> rfl
  | function d => rfl

/-- The names in one of the statements are among those of all. -/
theorem Stmt.names_subset {s : Stmt} {statements : List Stmt} (hs : s ∈ statements) :
    s.names ⊆ Stmt.namesAll statements := by
  induction statements with
  | nil => cases hs
  | cons s' rest ih =>
    rcases List.mem_cons.mp hs with rfl | hs
    · exact List.subset_append_left ..
    · exact List.subset_append_of_subset_right _ (ih hs)

/-- An ordinary statement that is parsed from a source is legible. -/
theorem legible_of_parsed {source : String} {firstId : Occurrence} {statements : List Stmt}
    (h : (parsed source firstId).result = .ok statements) {s : Stmt} (hs : s ∈ statements)
    (hordinary : ∀ part ∈ s.parts, part.IsOrdinary) : Legible s.parts s.names := by
  obtain ⟨hclean, rfl⟩ := Grammar.Parsed.result_eq_ok_iff.mp h
  refine ⟨fun part hpart => ?_, fun t ht => ?_⟩
  · have hwritten : Grammar.TokensAre Token.IsWritten (Grammar.start (Scan.tokens source) firstId).rest :=
      fun t ht => isWritten_of_mem_tokens ((List.takeWhile_prefix _).subset ht)
        (by simpa using List.mem_takeWhile_imp ht)
    have hparts := ((Grammar.program_of_parse hclean).parts_are Grammar.partRules_isLegible hwritten).2
    rw [Stmt.partsAll_relabel] at hparts
    exact part.isLegible_anonymous.mp (hparts _ (List.mem_map_of_mem (Stmt.parts_subset hs hpart)))
      (hordinary part hpart)
  · refine names_of_parse hclean (fun t ht hname => ?_) t (Stmt.names_subset hs ht)
    have hkind := Token.isIdentifier_iff.mp hname
    exact ⟨isWritten_of_mem_tokens ht (by simp [Token.isEof, Kind.isEof, hkind]), hkind⟩

/-- The prefix form is unambiguous: two statements, parsed from whatever sources, that have no strings and no
infinite numbers have the same text exactly if they are built alike. -/
theorem parsed_text_eq_iff {source source' : String} {firstId firstId' : Occurrence}
    {statements statements' : List Stmt} (h : (parsed source firstId).result = .ok statements)
    (h' : (parsed source' firstId').result = .ok statements') {s s' : Stmt} (hs : s ∈ statements)
    (hs' : s' ∈ statements') (hordinary : ∀ part ∈ s.parts, part.IsOrdinary)
    (hordinary' : ∀ part ∈ s'.parts, part.IsOrdinary) : s.text = s'.text ↔ s.BuiltAlike s' :=
  (legible_of_parsed h hs hordinary).text_eq_iff (legible_of_parsed h' hs' hordinary')

/-- A loop written with `for`. -/
def forText : String := "for(;a.b<2;)f(-a);"

/-- The same loop written with `while`, on two lines and with another spelling of the number. -/
def whileText : String := "while\n(a.b<2.0) f(-a);"

/-- The two loops have the same text, and so they are built alike. -/
theorem text_eq_iff_forText_whileText :
    ∃ statements statements', (parsed forText 0).result = .ok statements ∧
      (parsed whileText 7).result = .ok statements' ∧ ∃ s ∈ statements, ∃ s' ∈ statements',
        (∀ part ∈ s.parts, part.IsOrdinary) ∧ (∀ part ∈ s'.parts, part.IsOrdinary) ∧
          s.text = s'.text ∧ s.BuiltAlike s' := by
  have hresult : (parsed forText 0).result = .ok (parsed forText 0).statements :=
    Grammar.Parsed.result_eq_ok_iff.mpr ⟨List.eq_nil_of_length_eq_zero (by decide +kernel), rfl⟩
  have hresult' : (parsed whileText 7).result = .ok (parsed whileText 7).statements :=
    Grammar.Parsed.result_eq_ok_iff.mpr ⟨List.eq_nil_of_length_eq_zero (by decide +kernel), rfl⟩
  obtain ⟨s, hs⟩ := List.length_eq_one_iff.mp (by decide +kernel : (parsed forText 0).statements.length = 1)
  obtain ⟨s', hs'⟩ := List.length_eq_one_iff.mp (by decide +kernel : (parsed whileText 7).statements.length = 1)
  have hordinary : ∀ s ∈ (parsed forText 0).statements, ∀ part ∈ s.parts, part.IsOrdinary := by decide +kernel
  have hordinary' : ∀ s ∈ (parsed whileText 7).statements, ∀ part ∈ s.parts, part.IsOrdinary := by
    decide +kernel
  have htext : (parsed forText 0).statements.map (·.text) = (parsed whileText 7).statements.map (·.text) := by
    decide +kernel
  have hmem : s ∈ (parsed forText 0).statements := hs ▸ List.mem_singleton_self s
  have hmem' : s' ∈ (parsed whileText 7).statements := hs' ▸ List.mem_singleton_self s'
  have heq : s.text = s'.text := by
    rw [hs, hs'] at htext
    exact List.singleton_inj.mp htext
  exact ⟨_, _, hresult, hresult', s, hmem, s', hmem', hordinary s hmem, hordinary' s' hmem', heq,
    (parsed_text_eq_iff hresult hresult' hmem hmem' (hordinary s hmem) (hordinary' s' hmem')).mp heq⟩

/-- A string is written as a name is. -/
example : (parsed "\"a\";" 0).statements.map (·.text) = (parsed "a;" 0).statements.map (·.text) := by
  decide +kernel

end Lox
