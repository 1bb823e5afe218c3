import Mathlib.Logic.ExistsUnique
import Lox.Proofs.Grammar.ForLoops
import Lox.Proofs.Grammar.StatementAccepts

/-!
# The loop at a `for`

Tokens are read in one way. So every `for` among the tokens of a program begins exactly one loop, the one
that the parser reads there; and the program in which it is written with `while` has the same tree.
-/

set_option autoImplicit false

namespace Lox.Parser

/-- A parser reads tokens up to one place. -/
theorem Accepts.unique {α β : Type} {view : α → β} {p : Parser α} {tokens rest rest' : List Token}
    {b b' : β} (h : Accepts view p tokens b rest) (h' : Accepts view p tokens b' rest') :
    rest = rest' := by
  obtain ⟨a, s, hrun, -, hs, -⟩ := h ⟨tokens, .eofAt 1, 0, []⟩ rfl
  obtain ⟨a', s', hrun', -, hs', -⟩ := h' ⟨tokens, .eofAt 1, 0, []⟩ rfl
  rw [hrun] at hrun'
  cases hrun'
  exact hs.symm.trans hs'

end Lox.Parser

namespace Lox.Grammar

open Lox.Parser

section Unique

variable {tokens rest rest' : List Token}

/-- The first clause of a loop is followed by one rest only. -/
theorem InitialClause.unique {s? s?' : Option Stmt} (h : InitialClause tokens s? rest)
    (h' : InitialClause tokens s?' rest') : rest = rest' :=
  (initialClause_accepts h (Nat.le_refl _)).unique (initialClause_accepts h' (Nat.le_refl _))

/-- An expression that may be missing is told by the symbol behind it. -/
theorem OptionalExpression.unique {e? e?' : Option Expr} {t t' : Token} {k : Symbol}
    (hk : strength (.symbol k) = 0 ∧ k ≠ .bang) (h : OptionalExpression tokens e? (t :: rest))
    (ht : t.isSymbol k = true) (h' : OptionalExpression tokens e?' (t' :: rest'))
    (ht' : t'.isSymbol k = true) : t :: rest = t' :: rest' := by
  rcases optionalExpression_cases h ht hk (Nat.le_refl _) with ⟨hhead, hrest, -⟩ | ⟨hhead, e, -, he⟩
  · rcases optionalExpression_cases h' ht' hk (Nat.le_refl _) with ⟨-, hrest', -⟩ | ⟨hhead', -⟩
    · exact hrest.trans hrest'.symm
    · rw [hhead] at hhead'
      cases hhead'
  · rcases optionalExpression_cases h' ht' hk (Nat.le_refl _) with ⟨hhead', -⟩ | ⟨-, e', -, he'⟩
    · rw [hhead] at hhead'
      cases hhead'
    · exact he.unique he'

/-- A statement that is not followed by an `else` of its own ends in one place. -/
theorem Statement.unique {d d' : Bool} {s s' : Stmt} (h : Statement d tokens s rest)
    (hd : d = true → rest.head?.any (·.isKeyword .else) = false) (h' : Statement d' tokens s' rest')
    (hd' : d' = true → rest'.head?.any (·.isKeyword .else) = false) : rest = rest' :=
  ((statement_and_declaration_accept _).1 _ _ _ _ (Nat.le_refl _) h hd).unique
    ((statement_and_declaration_accept _).1 _ _ _ _ (Nat.le_refl _) h' hd')

end Unique

/-- A statement with nothing behind it stands for its tree. -/
theorem Statement.stands {d : Bool} {a : List Token} {s : Stmt} (h : Statement d a s []) :
    StandsFor d a s := by
  obtain ⟨read, ha, hread⟩ := h.editable
  rw [ha, List.append_nil]
  exact hread.whole

namespace ForLoop

/-- A loop stands behind `before` and in front of `after`. An `else` behind it is not its own. -/
def At (l : ForLoop) (before after tokens : List Token) : Prop :=
  tokens = before ++ (l.tokens ++ after) ∧
    ∃ dangling, l.WellFormed dangling ∧
      (dangling = true → after.head?.any (·.isKeyword .else) = false)

/-- The tokens of a loop and those behind it stand clause by clause. -/
theorem tokens_append (l : ForLoop) (after : List Token) :
    l.tokens ++ after = l.keyword :: l.opening :: (l.initial ++ (l.condition ++ l.semicolon ::
      (l.increment ++ l.closing :: (l.body ++ after)))) := by
  simp [tokens, head]

/-- Loops at the same place are the same. -/
theorem At.unique {l l' : ForLoop} {before after after' tokens : List Token} (h : l.At before after tokens)
    (h' : l'.At before after' tokens) : l' = l ∧ after' = after := by
  obtain ⟨htokens, d, hwf, hd⟩ := h
  obtain ⟨htokens', d', hwf', hd'⟩ := h'
  have hsame := List.append_cancel_left (htokens.symm.trans htokens')
  rw [tokens_append, tokens_append] at hsame
  obtain ⟨hkeyword, hsame⟩ := List.cons.inj hsame
  obtain ⟨hopening, hsame⟩ := List.cons.inj hsame
  -- each part is read in one way, and so what stands behind it is the same
  obtain ⟨_, hinitial⟩ := hwf.initial
  obtain ⟨_, hinitial'⟩ := hwf'.initial
  have hbehind := (hinitial.whole.whole.stands _).unique (hsame ▸ hinitial'.whole.whole.stands _)
  have hinitials := List.append_cancel_right (hbehind ▸ hsame)
  obtain ⟨_, hcondition⟩ := hwf.condition
  obtain ⟨_, hcondition'⟩ := hwf'.condition
  have hbehind' := OptionalExpression.unique (by decide) (hcondition.whole.whole.stands _) hwf.semicolon
    (hbehind ▸ hcondition'.whole.whole.stands _) hwf'.semicolon
  have hconditions := List.append_cancel_right (hbehind' ▸ hbehind)
  obtain ⟨hsemicolon, hbehind'⟩ := List.cons.inj hbehind'
  obtain ⟨_, hincrement⟩ := hwf.increment
  obtain ⟨_, hincrement'⟩ := hwf'.increment
  have hbehind'' := OptionalExpression.unique (by decide) (hincrement.whole.whole.stands _) hwf.closing
    (hbehind' ▸ hincrement'.whole.whole.stands _) hwf'.closing
  have hincrements := List.append_cancel_right (hbehind'' ▸ hbehind')
  obtain ⟨hclosing, hbodies⟩ := List.cons.inj hbehind''
  obtain ⟨_, hbody⟩ := hwf.body
  obtain ⟨_, hbody'⟩ := hwf'.body
  obtain ⟨ends, hends, hstands⟩ := hbody.stands
  obtain ⟨ends', hends', hstands'⟩ := hbody'.stands
  have hafter := (hstands after).unique (fun h => hd (hends h)) (hbodies ▸ hstands' after')
    (fun h => hd' (hends' h))
  have hbodies := List.append_cancel_right (hafter ▸ hbodies)
  refine ⟨?_, hafter.symm⟩
  cases l
  cases l'
  simp_all

end ForLoop

section Programs

variable {tokens : List Token} {tree : List Stmt} (h : Program tokens tree)
include h

/-- The tokens of a program are editable. -/
theorem Program.editable :
    Editable true (fun read => ∀ rest, Declarations (read ++ rest) tree rest) tokens := by
  obtain ⟨read, hread, heditable⟩ := Declarations.editable h
  rw [hread, List.append_nil]
  exact heditable

/-- A loop begins at each `for`, and only one. -/
theorem Program.existsUnique_loop {before : List Token} {keyword : Token} {tail : List Token}
    (htokens : tokens = before ++ keyword :: tail) (hfor : keyword.isKeyword .for = true) :
    ∃! found : ForLoop × List Token, found.1.At before found.2 tokens := by
  obtain ⟨l, ends, after, hl, hwf, hends, -⟩ := (Program.editable h).edit before keyword tail htokens hfor
  have hat : l.At before after tokens := ⟨hl ▸ htokens, ends, hwf, fun he => (hends he).1⟩
  exact ⟨(l, after), hat, fun found hfound => Prod.ext_iff.mpr (hat.unique hfound)⟩

/-- Written with `while`, a loop leaves the tree of the program as it is. -/
theorem Program.asWhile {l : ForLoop} {before after : List Token} (hat : l.At before after tokens) :
    Program (before ++ l.asWhile ++ after) tree := by
  have htokens : tokens = before ++ l.keyword :: (l.head ++ l.body ++ after) := hat.1
  obtain ⟨_, hwf, -⟩ := hat.2
  obtain ⟨l', ends, after', hl, hwf', hends, hedit⟩ :=
    (Program.editable h).edit before l.keyword _ htokens hwf.keyword
  have hat' : l'.At before after' tokens := ⟨hl ▸ htokens, ends, hwf', fun he => (hends he).1⟩
  obtain ⟨rfl, rfl⟩ := hat.unique hat'
  have hread := hedit []
  rwa [List.append_nil, ← List.append_assoc] at hread

end Programs

end Lox.Grammar
