import Mathlib
import Lox.Proofs.Token.Rescanned

/-!
# Scanning by longest match

The lexical grammar says which texts are tokens and of which kind, by a rule for each form and without a
word on how a text is read. From any position on, the scanner skips a blank or a comment, or else it cuts off
the longest lexeme that begins there; where none begins it reports an error and goes on behind it. These
rules leave it no choice, so they determine everything that it reports.
-/

set_option autoImplicit false

namespace Lox

/-- The lexical grammar: the texts that are tokens, and their kinds. -/
inductive Lexeme : List Char → Kind → Prop where
  | symbol (s : Symbol) : Lexeme s.spelling.toList (.symbol s)
  | keyword (k : Keyword) : Lexeme k.spelling.toList (.keyword k)
  | identifier {word : List Char} (hne : word ≠ []) (hletters : ∀ c ∈ word, c.isAlpha = true)
      (hkeyword : ∀ k : Keyword, word ≠ k.spelling.toList) : Lexeme word .identifier
  | whole {digits : List Char} (hne : digits ≠ []) (hdigits : ∀ d ∈ digits, d.isDigit = true) :
      Lexeme digits (.number (Number.Decimal.ofDigits digits []).toFloat)
  | fraction {digits behind : List Char} (hne : digits ≠ []) (hdigits : ∀ d ∈ digits, d.isDigit = true)
      (hne' : behind ≠ []) (hbehind : ∀ d ∈ behind, d.isDigit = true) :
      Lexeme (digits ++ '.' :: behind) (.number (Number.Decimal.ofDigits digits behind).toFloat)
  | string {body : List Char} (hbody : '"' ∉ body) :
      Lexeme ('"' :: body ++ ['"']) (.string (String.ofList body))

namespace Scan

/-- A lexeme is the longest one that begins a text. -/
structure Longest (text lexeme : List Char) (kind : Kind) : Prop where
  begins : lexeme <+: text
  isLexeme : Lexeme lexeme kind
  longest : ∀ other kind', other <+: text → Lexeme other kind' → other.length ≤ lexeme.length

/-- A text begins with a blank or a comment. -/
def BeginsSkipped (text : List Char) : Prop :=
  (∃ c ∈ [' ', '\t', '\r', '\n'], [c] <+: text) ∨ ['/', '/'] <+: text

/-- A text begins with a string that is never closed. -/
def BeginsOpen (text : List Char) : Prop := ∃ body, text = '"' :: body ∧ '"' ∉ body

/-- What is cut off a text, and what is left: the rule of longest match. -/
inductive Cuts : (text : List Char) → Piece → (after : List Char) → Prop where
  | blank {c : Char} {after : List Char} (hblank : c ∈ [' ', '\t', '\r', '\n']) :
      Cuts (c :: after) ⟨.blank, [c]⟩ after
  | comment {body after : List Char} (hbody : '\n' ∉ body) (hafter : after = [] ∨ after.head? = some '\n') :
      Cuts ('/' :: '/' :: body ++ after) ⟨.comment, '/' :: '/' :: body⟩ after
  | token {lexeme after : List Char} {kind : Kind} (hskipped : ¬BeginsSkipped (lexeme ++ after))
      (hlongest : Longest (lexeme ++ after) lexeme kind) :
      Cuts (lexeme ++ after) ⟨.token kind, lexeme⟩ after
  | unterminated {body : List Char} (hbody : '"' ∉ body) :
      Cuts ('"' :: body) ⟨.unterminated, '"' :: body⟩ []
  | unexpected {c : Char} {after : List Char} (hskipped : ¬BeginsSkipped (c :: after))
      (hopen : ¬BeginsOpen (c :: after))
      (hnone : ∀ lexeme kind, lexeme <+: c :: after → ¬Lexeme lexeme kind) :
      Cuts (c :: after) ⟨.unexpected, [c]⟩ after

/-- What is reported of a text that begins on a line, by cutting off one piece after the other. -/
inductive Reports : (line : Nat) → (text : List Char) → List Item → Prop where
  | nothing (line : Nat) : Reports line [] [.token (.eofAt line)]
  | cut {line : Nat} {text after : List Char} {p : Piece} {its : List Item} (hcut : Cuts text p after)
      (hrest : Reports (endLine line p) after its) :
      Reports line text ((item? (endLine line p) p).toList ++ its)

end Scan

section Lexemes

variable {c : Char} {rest : List Char} {kind kind' : Kind}

/-- Reserved words are spelled with letters. -/
theorem isAlpha_spelling (k : Keyword) : ∀ c ∈ k.spelling.toList, c.isAlpha = true := by
  have hall : k.spelling.toList.all Char.isAlpha = true := by cases k <;> rfl
  exact List.all_eq_true.mp hall

/-- A symbol begins neither with a quote nor with a letter nor with a digit. -/
theorem Symbol.first (s : Symbol) : ∃ c rest, s.spelling.toList = c :: rest ∧ c ≠ '"' ∧
    c.isDigit = false ∧ c.isAlpha = false := by
  cases s <;> exact ⟨_, _, rfl, by decide, by decide, by decide⟩

/-- Only strings begin with a quote. -/
theorem Lexeme.of_quote (h : Lexeme ('"' :: rest) kind) :
    ∃ body, '"' ∉ body ∧ rest = body ++ ['"'] ∧ kind = .string (String.ofList body) := by
  generalize htext : '"' :: rest = text at h
  have hfirst : '"' ∈ text := htext ▸ List.mem_cons_self ..
  cases h with
  | symbol s =>
    obtain ⟨c, others, hspelling, hquote, -⟩ := s.first
    rw [hspelling] at htext
    exact absurd (List.cons.inj htext).1.symm hquote
  | keyword k => exact absurd (isAlpha_spelling k '"' hfirst) (by decide)
  | identifier _ hletters _ => exact absurd (hletters '"' hfirst) (by decide)
  | whole _ hdigits => exact absurd (hdigits '"' hfirst) (by decide)
  | fraction hne hdigits _ _ =>
    obtain ⟨d, digits, rfl⟩ := List.exists_cons_of_ne_nil hne
    cases htext
    exact absurd (hdigits '"' (List.mem_cons_self ..)) (by decide)
  | string hbody => exact ⟨_, hbody, (List.cons.inj htext).2, rfl⟩

/-- Only numbers begin with a digit. -/
theorem Lexeme.of_digit (hc : c.isDigit = true) (h : Lexeme (c :: rest) kind) :
    ∃ digits behind, (∀ d ∈ digits, d.isDigit = true) ∧ (∀ d ∈ behind, d.isDigit = true) ∧
      kind = .number (Number.Decimal.ofDigits (c :: digits) behind).toFloat ∧
      (behind = [] ∧ rest = digits ∨ behind ≠ [] ∧ rest = digits ++ '.' :: behind) := by
  generalize htext : c :: rest = text at h
  have hfirst : c ∈ text := htext ▸ List.mem_cons_self ..
  have hletter (hletters : ∀ d ∈ text, d.isAlpha = true) : False := by
    have := not_isDigit_of_isAlpha (hletters c hfirst)
    simp [hc] at this
  cases h with
  | symbol s =>
    obtain ⟨d, others, hspelling, -, hdigit, -⟩ := s.first
    rw [hspelling] at htext
    cases htext
    simp [hc] at hdigit
  | keyword k => exact (hletter (isAlpha_spelling k)).elim
  | identifier _ hletters _ => exact (hletter hletters).elim
  | whole _ hdigits =>
    subst htext
    exact ⟨rest, [], fun d hd => hdigits d (List.mem_cons_of_mem _ hd), nofun, rfl, .inl ⟨rfl, rfl⟩⟩
  | @fraction digits behind hne hdigits hne' hbehind =>
    obtain ⟨d, digits, rfl⟩ := List.exists_cons_of_ne_nil hne
    cases htext
    exact ⟨digits, behind, fun d hd => hdigits d (List.mem_cons_of_mem _ hd), hbehind, rfl,
      .inr ⟨hne', rfl⟩⟩
  | string hbody =>
    cases htext
    exact absurd hc (by decide)

/-- Only words begin with a letter, and they have no other characters. -/
theorem Lexeme.of_letter (hc : c.isAlpha = true) (h : Lexeme (c :: rest) kind) :
    ∀ d ∈ c :: rest, d.isAlpha = true := by
  generalize htext : c :: rest = text at h
  have hfirst : c ∈ text := htext ▸ List.mem_cons_self ..
  have hdigit : c.isDigit = false := not_isDigit_of_isAlpha hc
  cases h with
  | symbol s =>
    obtain ⟨d, others, hspelling, -, -, hletter⟩ := s.first
    rw [hspelling] at htext
    cases htext
    simp [hc] at hletter
  | keyword k => exact isAlpha_spelling k
  | identifier _ hletters _ => exact hletters
  | whole _ hdigits => simp [hdigits c hfirst] at hdigit
  | fraction hne hdigits _ _ =>
    obtain ⟨d, digits, rfl⟩ := List.exists_cons_of_ne_nil hne
    cases htext
    simp [hdigits c (List.mem_cons_self ..)] at hdigit
  | string hbody =>
    cases htext
    exact absurd hc (by decide)

/-- What begins otherwise is a symbol. -/
theorem Lexeme.of_other (hquote : c ≠ '"') (hdigit : c.isDigit = false) (hletter : c.isAlpha = false)
    (h : Lexeme (c :: rest) kind) : ∃ s : Symbol, s.spelling.toList = c :: rest ∧ kind = .symbol s := by
  generalize htext : c :: rest = text at h
  have hfirst : c ∈ text := htext ▸ List.mem_cons_self ..
  cases h with
  | symbol s => exact ⟨s, rfl, rfl⟩
  | keyword k => simp [isAlpha_spelling k c hfirst] at hletter
  | identifier _ hletters _ => simp [hletters c hfirst] at hletter
  | whole _ hdigits => simp [hdigits c hfirst] at hdigit
  | fraction hne hdigits _ _ =>
    obtain ⟨d, digits, rfl⟩ := List.exists_cons_of_ne_nil hne
    cases htext
    simp [hdigits c (List.mem_cons_self ..)] at hdigit
  | string hbody =>
    cases htext
    exact absurd rfl hquote

/-- No lexeme is empty. -/
theorem Lexeme.ne_nil {text : List Char} (h : Lexeme text kind) : text ≠ [] := by
  rintro rfl
  generalize htext : ([] : List Char) = text at h
  cases h with
  | symbol s =>
    obtain ⟨c, others, hspelling, -⟩ := s.first
    rw [hspelling] at htext
    cases htext
  | keyword k => cases k <;> cases htext
  | identifier hne => exact hne htext.symm
  | whole hne => exact hne htext.symm
  | fraction => simp at htext
  | string => cases htext

/-- A lexeme that begins a text begins with its first character. -/
theorem Lexeme.begins {other : List Char} (h : Lexeme other kind) (hbegins : other <+: c :: rest) :
    ∃ others, other = c :: others ∧ others <+: rest ∧ Lexeme (c :: others) kind := by
  obtain ⟨d, others, rfl⟩ := List.exists_cons_of_ne_nil h.ne_nil
  obtain ⟨rfl, hothers⟩ := List.cons_prefix_cons.mp hbegins
  exact ⟨others, rfl, hothers, h⟩

end Lexemes

namespace Scan

section Classes

variable {c : Char} {rest : List Char}

/-- A character with a property that no blank has is no blank. -/
theorem isBlank_eq_false {p : Char → Bool} (hp : [' ', '\t', '\r', '\n'].any p = false)
    (hc : p c = true) : isBlank c = false := by
  refine Bool.eq_false_iff.mpr fun hblank => ?_
  exact absurd (List.any_eq_true.mpr ⟨c, (isBlank_iff c).mp hblank, hc⟩) (Bool.eq_false_iff.mp hp)

/-- What begins with a digit is a number. -/
theorem firstPiece_digit (hc : c.isDigit = true) (rest : List Char) :
    firstPiece c rest = numberPiece c rest := by
  have hquote : c ≠ '"' := by
    rintro rfl
    exact absurd hc (by decide)
  have hblank := isBlank_eq_false (p := Char.isDigit) rfl hc
  simp [firstPiece, hblank, hquote, hc]

/-- What begins with a letter is a word, of all letters that come next. -/
theorem firstPiece_letter (hc : c.isAlpha = true) (rest : List Char) : firstPiece c rest =
    (⟨.token (wordKind (c :: rest.takeWhile Char.isAlpha)), c :: rest.takeWhile Char.isAlpha⟩,
      rest.dropWhile Char.isAlpha) := by
  have hquote : c ≠ '"' := by
    rintro rfl
    exact absurd hc (by decide)
  have hblank := isBlank_eq_false (p := Char.isAlpha) rfl hc
  simp [firstPiece, hblank, hquote, not_isDigit_of_isAlpha hc, hc]

/-- A lexeme alone is one piece, of its kind. -/
theorem pieces_of_lexeme {text : List Char} {kind : Kind} (h : Lexeme text kind) :
    pieces text = [⟨.token kind, text⟩] := by
  have halone {c : Char} {rest : List Char} {kind : Kind}
      (hfirst : firstPiece c rest = (⟨.token kind, c :: rest⟩, [])) :
      pieces (c :: rest) = [⟨.token kind, c :: rest⟩] := by
    rw [pieces, hfirst, pieces]
  cases h with
  | symbol s => exact alone_symbol s
  | keyword k => exact alone_keyword k
  | identifier hne hletters hkeyword =>
    obtain ⟨c, rest, rfl⟩ := List.exists_cons_of_ne_nil hne
    obtain ⟨hc, hrest⟩ := List.forall_mem_cons.mp hletters
    refine halone ?_
    have hkind : wordKind (c :: rest) = .identifier := by
      have hnone : Keyword.ofSpelling? (String.ofList (c :: rest)) = none := by
        refine List.find?_eq_none.mpr fun k _ hspelling => hkeyword k ?_
        rw [beq_iff_eq.mp hspelling, String.toList_ofList]
      rw [wordKind, hnone]
    rw [firstPiece_letter hc, List.takeWhile_eq_self_iff.mpr hrest, List.dropWhile_eq_nil_iff.mpr hrest,
      hkind]
  | whole hne hdigits =>
    obtain ⟨c, rest, rfl⟩ := List.exists_cons_of_ne_nil hne
    obtain ⟨hc, hrest⟩ := List.forall_mem_cons.mp hdigits
    have hnumber := numberPiece_whole c hrest (rfl : [].head?.any Char.isDigit = false) rfl
    rw [List.append_nil] at hnumber
    exact halone ((firstPiece_digit hc rest).trans hnumber)
  | fraction hne hdigits hne' hbehind =>
    obtain ⟨c, rest, rfl⟩ := List.exists_cons_of_ne_nil hne
    obtain ⟨hc, hrest⟩ := List.forall_mem_cons.mp hdigits
    have hnumber := numberPiece_fraction c hrest hbehind hne' (rfl : [].head?.any Char.isDigit = false)
    rw [List.append_nil] at hnumber
    exact halone ((firstPiece_digit hc _).trans hnumber)
  | string hbody =>
    have hquotes : ∀ c ∈ _, (c != '"') = true := fun c hc => by
      simpa using fun heq : c = '"' => hbody (heq ▸ hc)
    exact halone (stringPiece_quoted hquotes [])

/-- A text has one kind as a lexeme. -/
theorem lexeme_kind_unique {text : List Char} {kind kind' : Kind} (h : Lexeme text kind)
    (h' : Lexeme text kind') : kind = kind' := by
  have heq := (pieces_of_lexeme h).symm.trans (pieces_of_lexeme h')
  simpa using heq

end Classes

section Cutting

variable {c : Char} {rest : List Char}

/-- A run of characters that begins a text is no longer than the longest such run. -/
theorem length_le_takeWhile {p : Char → Bool} {run text : List Char} (hbegins : run <+: text)
    (h : ∀ d ∈ run, p d = true) : run.length ≤ (text.takeWhile p).length := by
  obtain ⟨behind, rfl⟩ := hbegins
  rw [List.takeWhile_append_of_pos h, List.length_append]
  exact Nat.le_add_right _ _

/-- A symbol of one character is spelled with it. -/
theorem punctuation?_spelling {s : Symbol} (h : punctuation? c = some s) : s.spelling.toList = [c] := by
  unfold punctuation? at h
  split at h <;> cases h <;> rfl

/-- A symbol that `=` may follow is spelled with its character, and the double one with `=` behind it. -/
theorem comparison?_spelling {single double : Symbol} (h : comparison? c = some (single, double)) :
    single.spelling.toList = [c] ∧ double.spelling.toList = [c, '='] := by
  unfold comparison? at h
  split at h <;> cases h <;> exact ⟨rfl, rfl⟩

/-- A symbol is one character, or one that an equals sign may follow and this. -/
theorem symbol_spelled (s : Symbol) : ∃ c,
    (s.spelling.toList = [c] ∧ (c = '/' ∨ (punctuation? c).isSome ∨ (comparison? c).isSome)) ∨
    (s.spelling.toList = [c, '='] ∧ (comparison? c).isSome ∧ punctuation? c = none ∧ c ≠ '/') := by
  cases s <;> first | exact ⟨_, .inl ⟨rfl, by decide⟩⟩ | exact ⟨_, .inr ⟨rfl, by decide⟩⟩

/-- A word is a lexeme of the kind that it is given. -/
theorem lexeme_word {word : List Char} (hne : word ≠ []) (hletters : ∀ c ∈ word, c.isAlpha = true) :
    Lexeme word (wordKind word) := by
  unfold wordKind
  cases hfound : Keyword.ofSpelling? (String.ofList word) with
  | some k =>
    have hspelling : k.spelling = String.ofList word := beq_iff_eq.mp (List.find?_some hfound :)
    have hword : word = k.spelling.toList := by rw [hspelling, String.toList_ofList]
    rw [hword]
    exact .keyword k
  | none =>
    refine .identifier hne hletters fun k hword => ?_
    rw [hword, String.ofList_toList, Keyword.ofSpelling?_spelling] at hfound
    cases hfound

/-- A string is the longest lexeme that begins with its quote. -/
theorem longest_string {body after : List Char} (hbody : '"' ∉ body) :
    Longest ('"' :: body ++ ['"'] ++ after) ('"' :: body ++ ['"']) (.string (String.ofList body)) := by
  refine ⟨List.prefix_append _ _, .string hbody, fun other kind hbegins hother => ?_⟩
  rw [List.cons_append, List.cons_append] at hbegins
  obtain ⟨others, rfl, hothers, hlexeme⟩ := hother.begins hbegins
  obtain ⟨body', hbody', rfl, -⟩ := hlexeme.of_quote
  have hrun : ∀ d ∈ body', (d != '"') = true := fun d hd => by
    simpa using fun heq : d = '"' => hbody' (heq ▸ hd)
  have hrun' : ∀ d ∈ body, (d != '"') = true := fun d hd => by
    simpa using fun heq : d = '"' => hbody (heq ▸ hd)
  have hle := length_le_takeWhile ((List.prefix_append _ _).trans hothers) hrun
  rw [List.append_assoc, List.singleton_append, takeWhile_run_stop hrun' rfl] at hle
  simpa using hle

/-- A number is the longest lexeme that begins with its digit. -/
theorem longest_number (hc : c.isDigit = true) (rest : List Char) : ∃ kind,
    (numberPiece c rest).1.shape = .token kind ∧ Longest (c :: rest) (numberPiece c rest).1.text kind := by
  have hdigits : ∀ d ∈ c :: rest.takeWhile Char.isDigit, d.isDigit = true :=
    List.forall_mem_cons.mpr ⟨hc, fun _ => List.mem_takeWhile_imp⟩
  have hbegins : (numberPiece c rest).1.text <+: c :: rest := ⟨_, numberPiece_append_rest c rest⟩
  -- any other number has no more digits in front of a point, and no more behind one
  have hlongest (other : List Char) (kind : Kind) (hother : other <+: c :: rest)
      (h : Lexeme other kind) : other.length ≤ (numberPiece c rest).1.text.length := by
    obtain ⟨others, rfl, hothers, hlexeme⟩ := h.begins hother
    obtain ⟨digits, behind, hrun, hrun', -, ⟨-, rfl⟩ | ⟨hne, rfl⟩⟩ := hlexeme.of_digit hc
    · have hle := length_le_takeWhile hothers hrun
      unfold numberPiece
      dsimp only
      split
      · simpa using hle
      · simp only [List.length_append, List.length_cons]
        omega
    · obtain ⟨behind', rfl⟩ := hothers
      have hstop : Char.isDigit '.' = false := rfl
      have hle := length_le_takeWhile (List.prefix_append behind behind') hrun'
      have hfraction : behind.length ≤ (fractionDigits ('.' :: (behind ++ behind'))).length := hle
      have hpos : 0 < behind.length := List.length_pos_iff.mpr hne
      unfold numberPiece
      simp only [List.append_assoc, List.cons_append, takeWhile_run_stop hrun hstop,
        dropWhile_run_stop hrun hstop]
      rw [if_neg (by rw [List.isEmpty_iff]; rintro hnil; rw [hnil, List.length_nil] at hfraction; omega)]
      simp only [List.length_append, List.length_cons]
      omega
  by_cases hfraction : fractionDigits (rest.dropWhile Char.isDigit) = []
  · have hpiece : (numberPiece c rest).1 = ⟨.token (.number (Number.Decimal.ofDigits
        (c :: rest.takeWhile Char.isDigit) []).toFloat), c :: rest.takeWhile Char.isDigit⟩ := by
      simp [numberPiece, hfraction]
    rw [hpiece] at hbegins hlongest ⊢
    exact ⟨_, rfl, hbegins, .whole (List.cons_ne_nil _ _) hdigits, hlongest⟩
  · have hpiece : (numberPiece c rest).1 = ⟨.token (.number (Number.Decimal.ofDigits
        (c :: rest.takeWhile Char.isDigit) (fractionDigits (rest.dropWhile Char.isDigit))).toFloat),
        c :: rest.takeWhile Char.isDigit ++ '.' :: fractionDigits (rest.dropWhile Char.isDigit)⟩ := by
      simp [numberPiece, hfraction]
    rw [hpiece] at hbegins hlongest ⊢
    exact ⟨_, rfl, hbegins, .fraction (List.cons_ne_nil _ _) hdigits hfraction
      isDigit_of_mem_fractionDigits, hlongest⟩

/-- A word is the longest lexeme that begins with its letter. -/
theorem longest_word (hc : c.isAlpha = true) (rest : List Char) :
    Longest (c :: rest) (c :: rest.takeWhile Char.isAlpha)
      (wordKind (c :: rest.takeWhile Char.isAlpha)) := by
  refine ⟨List.cons_prefix_cons.mpr ⟨rfl, List.takeWhile_prefix _⟩, lexeme_word (List.cons_ne_nil _ _)
    (List.forall_mem_cons.mpr ⟨hc, fun _ => List.mem_takeWhile_imp⟩), fun other kind hother h => ?_⟩
  obtain ⟨others, rfl, hothers, hlexeme⟩ := h.begins hother
  have hletters := List.forall_mem_cons.mp (hlexeme.of_letter hc)
  exact Nat.succ_le_succ (length_le_takeWhile hothers hletters.2)

/-- A symbol that begins a text is one character, or two where an equals sign comes second. -/
theorem length_symbol {s : Symbol} (h : s.spelling.toList <+: c :: rest) :
    s.spelling.toList.length = 1 ∨ s.spelling.toList.length = 2 ∧ rest.head? = some '=' ∧
      (comparison? c).isSome ∧ punctuation? c = none ∧ c ≠ '/' := by
  obtain ⟨d, ⟨hspelling, -⟩ | ⟨hspelling, hcomparison⟩⟩ := symbol_spelled s
  · exact .inl (by rw [hspelling]; rfl)
  · rw [hspelling] at h ⊢
    obtain ⟨rfl, hequal⟩ := List.cons_prefix_cons.mp h
    obtain ⟨others, rfl⟩ := hequal
    exact .inr ⟨rfl, rfl, hcomparison⟩

/-- A symbol is the longest lexeme where it has two characters or cannot have two. -/
theorem longest_symbol {s : Symbol} (hbegins : s.spelling.toList <+: c :: rest) (hquote : c ≠ '"')
    (hdigit : c.isDigit = false) (hletter : c.isAlpha = false)
    (hlength : s.spelling.toList.length = 2 ∨ rest.head? ≠ some '=' ∨ (punctuation? c).isSome ∨ c = '/') :
    Longest (c :: rest) s.spelling.toList (.symbol s) := by
  refine ⟨hbegins, .symbol s, fun other kind hother h => ?_⟩
  obtain ⟨others, rfl, hothers, hlexeme⟩ := h.begins hother
  obtain ⟨s', hspelling, -⟩ := hlexeme.of_other hquote hdigit hletter
  rw [← hspelling] at hother ⊢
  rcases length_symbol hbegins with hone | ⟨htwo, -⟩
  · rcases length_symbol hother with hone' | ⟨-, hequal, -, hpunctuation, hslash⟩
    · omega
    · simp [hone, hequal, hpunctuation, hslash] at hlength
  · rcases length_symbol hother with hone' | ⟨htwo', -⟩ <;> omega

/-- The longest lexeme that begins a text is cut off it, if there is nothing to skip. -/
theorem Cuts.of_longest {text lexeme after : List Char} {kind : Kind} (htext : lexeme ++ after = text)
    (hskipped : ¬BeginsSkipped text) (hlongest : Longest text lexeme kind) :
    Cuts text ⟨.token kind, lexeme⟩ after := by
  subst htext
  exact .token hskipped hlongest

/-- A text begins with nothing to skip if its first character is no blank and begins no comment. -/
theorem not_beginsSkipped (hblank : isBlank c = false) (hcomment : c = '/' → rest.head? ≠ some '/') :
    ¬BeginsSkipped (c :: rest) := by
  rintro (⟨d, hd, hbegins⟩ | hbegins)
  · obtain rfl : d = c := (List.cons_prefix_cons.mp hbegins).1
    rw [(isBlank_iff d).mpr hd] at hblank
    cases hblank
  · obtain ⟨rfl, hslash⟩ := List.cons_prefix_cons.mp hbegins
    obtain ⟨others, rfl⟩ := hslash
    exact hcomment rfl rfl

/-- A string is cut off a text up to the quote that closes it, and what is never closed is cut off as a whole. -/
theorem cuts_quote (rest : List Char) : Cuts ('"' :: rest) (firstPiece '"' rest).1 (firstPiece '"' rest).2 := by
  obtain ⟨body, after, hrun, rfl⟩ | hopen := quoted_or_open rest
  · have hfirst : firstPiece '"' (body ++ '"' :: after) =
        (⟨.token (.string (String.ofList body)), '"' :: body ++ ['"']⟩, after) :=
      stringPiece_quoted hrun after
    have htext := firstPiece_append_rest '"' (body ++ '"' :: after)
    rw [hfirst] at htext ⊢
    refine .of_longest htext (not_beginsSkipped rfl fun h => absurd h (by decide)) ?_
    rw [← htext]
    exact longest_string fun hmem => by simpa using hrun _ hmem
  · have hfirst : firstPiece '"' rest = (⟨.unterminated, '"' :: rest⟩, []) := stringPiece_open hopen
    rw [hfirst]
    exact .unterminated fun hmem => by simpa using hopen _ hmem

/-- The longest number is cut off a text that begins with a digit. -/
theorem cuts_digit (hblank : isBlank c = false) (hdigit : c.isDigit = true) (rest : List Char) :
    Cuts (c :: rest) (firstPiece c rest).1 (firstPiece c rest).2 := by
  have htext := firstPiece_append_rest c rest
  obtain ⟨kind, hshape, hlongest⟩ := longest_number hdigit rest
  have hslash : c = '/' → rest.head? ≠ some '/' := by
    rintro rfl
    exact absurd hdigit (by decide)
  rw [firstPiece_digit hdigit] at htext ⊢
  generalize numberPiece c rest = result at htext hshape hlongest ⊢
  obtain ⟨⟨shape, text⟩, after⟩ := result
  cases hshape
  exact .of_longest htext (not_beginsSkipped hblank hslash) hlongest

/-- The longest word is cut off a text that begins with a letter. -/
theorem cuts_letter (hblank : isBlank c = false) (hletter : c.isAlpha = true) (rest : List Char) :
    Cuts (c :: rest) (firstPiece c rest).1 (firstPiece c rest).2 := by
  have htext := firstPiece_append_rest c rest
  have hslash : c = '/' → rest.head? ≠ some '/' := by
    rintro rfl
    exact absurd hletter (by decide)
  rw [firstPiece_letter hletter] at htext ⊢
  exact .of_longest htext (not_beginsSkipped hblank hslash) (longest_word hletter rest)

/-- A comment is cut off a text up to the end of its line. -/
theorem cuts_comment (others : List Char) :
    Cuts ('/' :: '/' :: others) (firstPiece '/' ('/' :: others)).1 (firstPiece '/' ('/' :: others)).2 := by
  have hline := List.takeWhile_append_dropWhile (p := (· != '\n')) (l := others)
  have hfirst : firstPiece '/' ('/' :: others) =
      (⟨.comment, '/' :: '/' :: others.takeWhile (· != '\n')⟩, others.dropWhile (· != '\n')) := rfl
  rw [hfirst]
  have hcut := Cuts.comment (not_mem_takeWhile_ne '\n' others) (head?_dropWhile_ne '\n' others)
  rw [List.cons_append, List.cons_append, hline] at hcut
  exact hcut

section Others

variable (hquote : c ≠ '"') (hdigit : c.isDigit = false) (hletter : c.isAlpha = false)
  (hskipped : ¬BeginsSkipped (c :: rest))
include hquote hdigit hletter hskipped

/-- A symbol is cut off a text if it is the first piece and no longer symbol begins there. -/
theorem cuts_symbol {s : Symbol} {after : List Char}
    (hfirst : firstPiece c rest = (⟨.token (.symbol s), s.spelling.toList⟩, after))
    (hlength : s.spelling.toList.length = 2 ∨ rest.head? ≠ some '=' ∨ (punctuation? c).isSome ∨ c = '/') :
    Cuts (c :: rest) (firstPiece c rest).1 (firstPiece c rest).2 := by
  have htext := firstPiece_append_rest c rest
  rw [hfirst] at htext ⊢
  exact .of_longest htext hskipped (longest_symbol ⟨after, htext⟩ hquote hdigit hletter hlength)

/-- A character that begins nothing is cut off alone. -/
theorem cuts_unexpected (hslash : c ≠ '/') (hpunctuation : punctuation? c = none)
    (hcomparison : comparison? c = none) : Cuts (c :: rest) ⟨.unexpected, [c]⟩ rest := by
  have hopen : ¬BeginsOpen (c :: rest) := by
    rintro ⟨body, hbody, -⟩
    exact hquote (List.cons.inj hbody).1
  refine .unexpected hskipped hopen fun lexeme kind hbegins h => ?_
  obtain ⟨others, rfl, hothers, hlexeme⟩ := h.begins hbegins
  obtain ⟨s, hspelling, -⟩ := hlexeme.of_other hquote hdigit hletter
  obtain ⟨d, ⟨hspelled, hknown⟩ | ⟨hspelled, hknown, -⟩⟩ := symbol_spelled s
  · rw [hspelled] at hspelling
    obtain rfl : d = c := (List.cons.inj hspelling).1
    simp [hslash, hpunctuation, hcomparison] at hknown
  · rw [hspelled] at hspelling
    obtain rfl : d = c := (List.cons.inj hspelling).1
    simp [hcomparison] at hknown

omit hskipped in
/-- A symbol, or else a single character, is cut off a text that begins with none of the longer lexemes. -/
theorem cuts_other (hblank : isBlank c = false) (hcomment : c = '/' → rest.head? ≠ some '/') :
    Cuts (c :: rest) (firstPiece c rest).1 (firstPiece c rest).2 := by
  have hskipped : ¬BeginsSkipped (c :: rest) := not_beginsSkipped hblank hcomment
  by_cases hslash : c = '/'
  · subst hslash
    have hfirst : firstPiece '/' rest = (⟨.token (.symbol .slash), Symbol.slash.spelling.toList⟩, rest) := by
      simp [firstPiece, isBlank, hcomment rfl]
      rfl
    exact cuts_symbol hquote hdigit hletter hskipped hfirst (.inr (.inr (.inr rfl)))
  cases hpunctuation : punctuation? c with
  | some s =>
    have hfirst : firstPiece c rest = (⟨.token (.symbol s), s.spelling.toList⟩, rest) := by
      simp [firstPiece, hblank, hquote, hdigit, hletter, hslash, hpunctuation,
        punctuation?_spelling hpunctuation]
    exact cuts_symbol hquote hdigit hletter hskipped hfirst (.inr (.inr (.inl (by simp [hpunctuation]))))
  | none =>
    cases hcomparison : comparison? c with
    | some symbols =>
      obtain ⟨single, double⟩ := symbols
      obtain ⟨hsingle, hdouble⟩ := comparison?_spelling hcomparison
      by_cases hequal : rest.head? = some '='
      · have hfirst : firstPiece c rest = (⟨.token (.symbol double), double.spelling.toList⟩, rest.tail) := by
          simp [firstPiece, hblank, hquote, hdigit, hletter, hslash, hpunctuation, hcomparison, hequal, hdouble]
        exact cuts_symbol hquote hdigit hletter hskipped hfirst (.inl (by rw [hdouble]; rfl))
      · have hfirst : firstPiece c rest = (⟨.token (.symbol single), single.spelling.toList⟩, rest) := by
          simp [firstPiece, hblank, hquote, hdigit, hletter, hslash, hpunctuation, hcomparison, hequal, hsingle]
        exact cuts_symbol hquote hdigit hletter hskipped hfirst (.inr (.inl hequal))
    | none =>
      have hfirst : firstPiece c rest = (⟨.unexpected, [c]⟩, rest) := by
        simp [firstPiece, hblank, hquote, hdigit, hletter, hslash, hpunctuation, hcomparison]
      rw [hfirst]
      exact cuts_unexpected hquote hdigit hletter hskipped hslash hpunctuation hcomparison

end Others

/-- The first piece of a text is what longest match cuts off. -/
theorem firstPiece_cuts (c : Char) (rest : List Char) :
    Cuts (c :: rest) (firstPiece c rest).1 (firstPiece c rest).2 := by
  by_cases hblank : isBlank c = true
  · have hfirst : firstPiece c rest = (⟨.blank, [c]⟩, rest) := by simp [firstPiece, hblank]
    rw [hfirst]
    exact .blank ((isBlank_iff c).mp hblank)
  rw [Bool.not_eq_true] at hblank
  by_cases hquote : c = '"'
  · subst hquote
    exact cuts_quote rest
  by_cases hdigit : c.isDigit = true
  · exact cuts_digit hblank hdigit rest
  rw [Bool.not_eq_true] at hdigit
  by_cases hletter : c.isAlpha = true
  · exact cuts_letter hblank hletter rest
  rw [Bool.not_eq_true] at hletter
  by_cases hcomment : c = '/' ∧ rest.head? = some '/'
  · obtain ⟨rfl, hhead⟩ := hcomment
    obtain ⟨others, rfl⟩ := List.head?_eq_some_iff.mp hhead
    exact cuts_comment others
  exact cuts_other hquote hdigit hletter hblank (not_and.mp hcomment)

/-- No lexeme begins where a string is never closed. -/
theorem BeginsOpen.not_lexeme {text lexeme : List Char} {kind : Kind} (hopen : BeginsOpen text)
    (hbegins : lexeme <+: text) : ¬Lexeme lexeme kind := by
  intro h
  obtain ⟨body, rfl, hbody⟩ := hopen
  obtain ⟨others, rfl, ⟨behind, rfl⟩, hlexeme⟩ := h.begins hbegins
  obtain ⟨quoted, -, rfl, -⟩ := hlexeme.of_quote
  simp at hbody

/-- A text that begins with an open string begins with nothing to skip. -/
theorem BeginsOpen.not_beginsSkipped {text : List Char} (hopen : BeginsOpen text) : ¬BeginsSkipped text := by
  obtain ⟨body, rfl, -⟩ := hopen
  exact Scan.not_beginsSkipped rfl fun h => absurd h (by decide)

/-- What is known of a text from the piece that is cut off it. -/
def Shown (text : List Char) (p : Piece) : Prop :=
  match p.shape with
  | .blank => ∃ c ∈ [' ', '\t', '\r', '\n'], p.text = [c]
  | .comment => ['/', '/'] <+: text ∧ p.text = text.takeWhile (· != '\n')
  | .token kind => ¬BeginsSkipped text ∧ Longest text p.text kind
  | .unterminated => BeginsOpen text ∧ p.text = text
  | .unexpected => ¬BeginsSkipped text ∧ ¬BeginsOpen text ∧ p.text.length = 1 ∧
      ∀ lexeme kind, lexeme <+: text → ¬Lexeme lexeme kind

/-- What is cut off a text is in front of the rest, and shown to be what it says. -/
theorem Cuts.shown {text after : List Char} {p : Piece} (h : Cuts text p after) :
    p.text ++ after = text ∧ Shown text p := by
  cases h with
  | @blank c after hblank => exact ⟨rfl, c, hblank, rfl⟩
  | @comment body after hbody hafter =>
    have hrun : ∀ d ∈ '/' :: '/' :: body, (d != '\n') = true := by
      have hne : ∀ d ∈ body, d ≠ '\n' := fun d hd heq => hbody (heq ▸ hd)
      simpa using hne
    have hstop : after.takeWhile (· != '\n') = [] := by
      rcases hafter with rfl | hnewline
      · rfl
      · obtain ⟨others, rfl⟩ := List.head?_eq_some_iff.mp hnewline
        rfl
    refine ⟨rfl, ⟨body ++ after, rfl⟩, ?_⟩
    rw [List.takeWhile_append_of_pos hrun, hstop, List.append_nil]
  | token hskipped hlongest => exact ⟨rfl, hskipped, hlongest⟩
  | unterminated hbody => exact ⟨List.append_nil _, ⟨_, rfl, hbody⟩, rfl⟩
  | unexpected hskipped hopen hnone => exact ⟨rfl, hskipped, hopen, rfl, hnone⟩

end Cutting

section Unique

variable {text after after' : List Char} {p p' : Piece}

/-- Blanks and comments are cut off exactly where one begins. -/
theorem Cuts.skipped_iff (h : Cuts text p after) :
    p.shape = .blank ∨ p.shape = .comment ↔ BeginsSkipped text := by
  cases h with
  | blank hblank => exact iff_of_true (.inl rfl) (.inl ⟨_, hblank, _, rfl⟩)
  | comment => exact iff_of_true (.inr rfl) (.inr ⟨_, rfl⟩)
  | token hskipped => exact iff_of_false (by simp) hskipped
  | unterminated hbody => exact iff_of_false (by simp) (BeginsOpen.not_beginsSkipped ⟨_, rfl, hbody⟩)
  | unexpected hskipped => exact iff_of_false (by simp) hskipped

/-- An unterminated string is cut off exactly where one begins. -/
theorem Cuts.unterminated_iff (h : Cuts text p after) : p.shape = .unterminated ↔ BeginsOpen text := by
  cases h with
  | blank hblank =>
    exact iff_of_false (by simp) fun hopen => hopen.not_beginsSkipped (.inl ⟨_, hblank, _, rfl⟩)
  | comment => exact iff_of_false (by simp) fun hopen => hopen.not_beginsSkipped (.inr ⟨_, rfl⟩)
  | token _ hlongest =>
    exact iff_of_false (by simp) fun hopen => hopen.not_lexeme hlongest.begins hlongest.isLexeme
  | unterminated hbody => exact iff_of_true rfl ⟨_, rfl, hbody⟩
  | unexpected _ hopen => exact iff_of_false (by simp) hopen

/-- An unexpected character is cut off exactly where nothing else begins. -/
theorem Cuts.unexpected_iff (h : Cuts text p after) : p.shape = .unexpected ↔
    ¬BeginsSkipped text ∧ ¬BeginsOpen text ∧ ∀ lexeme kind, lexeme <+: text → ¬Lexeme lexeme kind := by
  cases h with
  | blank hblank => exact iff_of_false (by simp) fun hnone => hnone.1 (.inl ⟨_, hblank, _, rfl⟩)
  | comment => exact iff_of_false (by simp) fun hnone => hnone.1 (.inr ⟨_, rfl⟩)
  | token _ hlongest =>
    exact iff_of_false (by simp) fun hnone => hnone.2.2 _ _ hlongest.begins hlongest.isLexeme
  | unterminated hbody => exact iff_of_false (by simp) fun hnone => hnone.2.1 ⟨_, rfl, hbody⟩
  | unexpected hskipped hopen hnone => exact iff_of_true rfl ⟨hskipped, hopen, hnone⟩

/-- There is only one longest lexeme, of one kind. -/
theorem Longest.unique {lexeme lexeme' : List Char} {kind kind' : Kind} (h : Longest text lexeme kind)
    (h' : Longest text lexeme' kind') : lexeme = lexeme' ∧ kind = kind' := by
  have hlength := Nat.le_antisymm (h'.longest _ _ h.begins h.isLexeme) (h.longest _ _ h'.begins h'.isLexeme)
  obtain rfl := (List.prefix_of_prefix_length_le h.begins h'.begins hlength.le).eq_of_length hlength
  exact ⟨rfl, lexeme_kind_unique h.isLexeme h'.isLexeme⟩

/-- A blank does not begin as a comment does. -/
theorem not_comment_of_blank {c : Char} (hblank : c ∈ [' ', '\t', '\r', '\n']) (hbegins : [c] <+: text) :
    ¬['/', '/'] <+: text := by
  rintro ⟨behind, rfl⟩
  obtain rfl : c = '/' := (List.cons_prefix_cons.mp hbegins).1
  simp at hblank

/-- The rules of longest match leave no choice. -/
theorem Cuts.unique (h : Cuts text p after) (h' : Cuts text p' after') : p = p' ∧ after = after' := by
  suffices hpiece : p = p' by
    subst hpiece
    exact ⟨rfl, List.append_cancel_left (h.shown.1.trans h'.shown.1.symm)⟩
  obtain ⟨htext, hshown⟩ := h.shown
  obtain ⟨htext', hshown'⟩ := h'.shown
  have hskipped := h.skipped_iff.trans h'.skipped_iff.symm
  have hopen := h.unterminated_iff.trans h'.unterminated_iff.symm
  have hunexpected := h.unexpected_iff.trans h'.unexpected_iff.symm
  obtain ⟨shape, cut⟩ := p
  obtain ⟨shape', cut'⟩ := p'
  cases shape <;> cases shape' <;> try (simp at hskipped hopen hunexpected; done)
  all_goals simp only [Shown] at hshown hshown'
  case blank.blank =>
    obtain ⟨c, -, rfl⟩ := hshown
    obtain ⟨c', -, rfl⟩ := hshown'
    obtain rfl : c = c' := (List.cons.inj (htext.trans htext'.symm)).1
    rfl
  case blank.comment =>
    obtain ⟨c, hblank, rfl⟩ := hshown
    exact absurd hshown'.1 (not_comment_of_blank hblank ⟨_, htext⟩)
  case comment.blank =>
    obtain ⟨c, hblank, rfl⟩ := hshown'
    exact absurd hshown.1 (not_comment_of_blank hblank ⟨_, htext'⟩)
  case comment.comment => rw [hshown.2, hshown'.2]
  case token.token =>
    obtain ⟨rfl, rfl⟩ := hshown.2.unique hshown'.2
    rfl
  case unterminated.unterminated => rw [hshown.2, hshown'.2]
  case unexpected.unexpected =>
    have hlength := hshown.2.2.1.trans hshown'.2.2.1.symm
    have hcut : cut <+: cut' := List.prefix_of_prefix_length_le ⟨_, htext⟩ ⟨_, htext'⟩ hlength.le
    rw [hcut.eq_of_length hlength]

/-- Longest match cuts the first piece off a text, and nothing else. -/
theorem firstPiece_eq_iff {c : Char} {rest : List Char} :
    firstPiece c rest = (p, after) ↔ Cuts (c :: rest) p after := by
  constructor
  · intro h
    have hcuts := firstPiece_cuts c rest
    rwa [h] at hcuts
  · intro h
    obtain ⟨hpiece, hafter⟩ := (firstPiece_cuts c rest).unique h
    exact Prod.ext hpiece hafter

/-- A cut begins at some character. -/
theorem Cuts.ne_nil (h : Cuts text p after) : text ≠ [] := by
  cases h with
  | token _ hlongest => simp [hlongest.isLexeme.ne_nil]
  | _ => simp

/-- The items of the pieces of a text are those that longest match reports. -/
theorem reports_pieces (line : Nat) (text : List Char) : Reports line text (itemsFrom line (pieces text)) := by
  induction text using pieces.induct generalizing line with
  | case1 =>
    rw [pieces]
    exact .nothing line
  | case2 c rest ih =>
    rw [pieces, itemsFrom_cons]
    exact .cut (firstPiece_cuts c rest) (ih _)

/-- What may be reported of a text are just the items of its pieces. -/
theorem Reports.eq_items {line : Nat} {its : List Item} (h : Reports line text its) :
    itemsFrom line (pieces text) = its := by
  induction h with
  | nothing line => rw [pieces, itemsFrom]
  | @cut line text after p its hcut hrest ih =>
    obtain ⟨c, rest, rfl⟩ := List.exists_cons_of_ne_nil hcut.ne_nil
    rw [pieces, itemsFrom_cons, firstPiece_eq_iff.mpr hcut, ih]

/-- The tokens that are scanned alone are the lexemes. -/
theorem alone_iff_lexeme {t : Token} : Alone t ↔ Lexeme t.lexeme.toList t.kind := by
  refine ⟨fun halone => ?_, pieces_of_lexeme⟩
  have hcuts {text after : List Char} {kind : Kind} {p : Piece} (h : Cuts text p after)
      (hp : p = ⟨.token kind, t.lexeme.toList⟩) : Lexeme t.lexeme.toList kind := by
    cases h <;> cases hp
    exact Longest.isLexeme ‹_›
  unfold Alone at halone
  cases htext : t.lexeme.toList with
  | nil =>
    rw [htext, pieces] at halone
    cases halone
  | cons c rest =>
    rw [← htext]
    refine hcuts (firstPiece_cuts c rest) ?_
    rw [htext, pieces] at halone
    rw [htext]
    exact (List.cons.inj halone).1

/-- Scanning is longest match. Wherever a piece of a source begins, it is what longest match cuts off there; an
unterminated string is found exactly where a quote is the last one, and an unexpected character exactly where
neither a blank nor a comment nor a string nor any lexeme begins. A whole source is reported as longest match,
repeated behind each piece, reports it. -/
theorem items_longest_match :
    (∀ c rest p after, firstPiece c rest = (p, after) ↔ Cuts (c :: rest) p after) ∧
    (∀ c rest, (firstPiece c rest).1.shape = .unterminated ↔ BeginsOpen (c :: rest)) ∧
    (∀ c rest, (firstPiece c rest).1.shape = .unexpected ↔
      ¬BeginsSkipped (c :: rest) ∧ ¬BeginsOpen (c :: rest) ∧
        ∀ lexeme kind, lexeme <+: c :: rest → ¬Lexeme lexeme kind) ∧
    (∀ source its, items source = its ↔ Reports 1 source.toList its) := by
  refine ⟨fun _ _ _ _ => firstPiece_eq_iff, fun c rest => (firstPiece_cuts c rest).unterminated_iff,
    fun c rest => (firstPiece_cuts c rest).unexpected_iff, fun source its => ⟨?_, Reports.eq_items⟩⟩
  rintro rfl
  exact reports_pieces 1 source.toList

end Unique

end Scan

end Lox
