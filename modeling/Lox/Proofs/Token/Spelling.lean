import Lox.Token.Scan
import Lox.Proofs.Grammar.Yields

/-!
# How tokens are spelled

The tokens of a source are written as their kinds ask for: a run of letters is the reserved word `this`
exactly if it is spelled so, and only runs of letters are names or reserved words.
-/

set_option autoImplicit false

namespace Lox.Scan

/-- A piece that is a token is spelled as its kind asks for. -/
def SpelledPiece (p : Piece) : Prop :=
  ∀ kind line, p.shape = .token kind → Token.Spelled ⟨kind, String.ofList p.text, line⟩

/-- Tokens that are neither names nor reserved words have no spelling to keep to. -/
theorem spelledPiece_of_other {p : Piece}
    (h : ∀ kind, p.shape = .token kind → kind ≠ .identifier ∧ kind ≠ .keyword .this) :
    SpelledPiece p := by
  intro kind line hshape
  obtain ⟨hidentifier, hkeyword⟩ := h kind hshape
  refine ⟨fun hkind => ?_, fun hkind => ?_⟩
  · cases kind <;> simp_all [Token.isIdentifier]
  · cases kind <;> simp_all [Token.isKeyword]

/-- A run of letters is `this` exactly if it is spelled so. -/
theorem spelledPiece_word (word : List Char) : SpelledPiece ⟨.token (wordKind word), word⟩ := by
  intro kind line hshape
  obtain rfl : wordKind word = kind := Shape.token.inj hshape
  unfold wordKind
  cases hfound : Keyword.ofSpelling? (String.ofList word) with
  | none =>
    refine ⟨fun _ hthis => ?_, fun hkind => by cases hkind⟩
    rw [show String.ofList word = Keyword.this.spelling from hthis,
      Keyword.ofSpelling?_spelling] at hfound
    cases hfound
  | some k =>
    refine ⟨(fun hkind => by cases hkind), fun hkind => ?_⟩
    have hspelling := List.find?_some hfound
    obtain rfl : k = .this := by simpa [Token.isKeyword] using hkind
    exact (beq_iff_eq.mp hspelling).symm

/-- The first piece of a text is spelled as its kind asks for. -/
theorem spelledPiece_firstPiece (c : Char) (rest : List Char) :
    SpelledPiece (firstPiece c rest).1 := by
  unfold firstPiece
  split
  · exact spelledPiece_of_other (by simp)
  split
  · unfold stringPiece
    split <;> exact spelledPiece_of_other (by simp)
  split
  · unfold numberPiece
    dsimp only
    split <;> exact spelledPiece_of_other (by simp)
  split
  · exact spelledPiece_word _
  split
  · split <;> exact spelledPiece_of_other (by simp)
  split
  · exact spelledPiece_of_other (by simp)
  · split <;> exact spelledPiece_of_other (by simp)
  · exact spelledPiece_of_other (by simp)

/-- All pieces of a text are spelled as their kinds ask for. -/
theorem spelledPiece_of_mem {text : List Char} {p : Piece} (hp : p ∈ pieces text) :
    SpelledPiece p := by
  induction text using pieces.induct with
  | case1 =>
    rw [pieces] at hp
    cases hp
  | case2 c rest ih =>
    rw [pieces] at hp
    rcases List.mem_cons.mp hp with rfl | hp
    · exact spelledPiece_firstPiece c rest
    · exact ih hp

/-- A piece reports at most one item, in front of those of the pieces behind it. -/
theorem itemsFrom_cons (line : Nat) (p : Piece) (rest : List Piece) :
    itemsFrom line (p :: rest) =
      (item? (endLine line p) p).toList ++ itemsFrom (endLine line p) rest := by
  rw [itemsFrom]
  cases item? (endLine line p) p <;> rfl

/-- Tokens of pieces that are spelled as their kinds ask for are so as well. -/
theorem spelled_of_mem_itemsFrom {line : Nat} {ps : List Piece} (hps : ∀ p ∈ ps, SpelledPiece p)
    {t : Token} (ht : .token t ∈ itemsFrom line ps) : t.Spelled := by
  induction ps generalizing line with
  | nil =>
    obtain rfl : t = .eofAt line := by simpa [itemsFrom] using ht
    exact ⟨(fun hkind => by cases hkind), (fun hkind => by cases hkind)⟩
  | cons p rest ih =>
    obtain ⟨hp, hrest⟩ := List.forall_mem_cons.mp hps
    rw [itemsFrom_cons] at ht
    rcases List.mem_append.mp ht with ht | ht
    · cases hshape : p.shape with
      | token kind =>
        simp only [item?, hshape, Option.toList_some, List.mem_singleton, Item.token.injEq] at ht
        subst ht
        exact hp kind _ hshape
      | _ => simp [item?, hshape] at ht
    · exact ih hrest ht

/-- The tokens of a source are spelled as their kinds ask for. -/
theorem spelled_of_mem_tokens {source : String} {t : Token} (ht : t ∈ tokens source) :
    t.Spelled := by
  obtain ⟨item, hitem, htoken⟩ := List.mem_filterMap.mp ht
  cases item with
  | error e => cases htoken
  | token t' =>
    obtain rfl : t' = t := Option.some.inj htoken
    exact spelled_of_mem_itemsFrom (fun p hp => spelledPiece_of_mem hp) hitem

end Lox.Scan
