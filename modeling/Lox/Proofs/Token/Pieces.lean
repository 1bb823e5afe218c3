import Mathlib.Data.List.TakeWhile
import Lox.Token.Scan

/-!
# Pieces and what stands behind them

A piece and what follows it are the text that it is cut from. And a piece is cut in the same way in front of any
characters that do not go on it. Which characters go on a piece is decided by the first of them alone, but for a
point, which belongs to a number only with digits behind it, and for strings that are open.
-/

set_option autoImplicit false

namespace Lox

/-- A letter is not a digit. -/
theorem not_isDigit_of_isAlpha {c : Char} (h : c.isAlpha = true) : c.isDigit = false := by
  refine Bool.eq_false_iff.mpr fun hdigit => ?_
  have hle : c.val ≤ '9'.val := of_decide_eq_true (Bool.and_eq_true_iff.mp hdigit).2
  rcases Bool.or_eq_true_iff.mp h with hupper | hlower
  · have hge : 'A'.val ≤ c.val := (of_decide_eq_true hupper).1
    exact absurd (UInt32.le_trans hge hle) (by decide)
  · have hge : 'a'.val ≤ c.val := of_decide_eq_true (Bool.and_eq_true_iff.mp hlower).1
    exact absurd (UInt32.le_trans hge hle) (by decide)

namespace Scan

section Runs

variable {p : Char → Bool}

/-- A character without the property stops the run in front of it, whatever comes behind. -/
theorem takeWhile_append_stop {stop : Char} (hstop : p stop = false) (s t : List Char) :
    (s ++ stop :: t).takeWhile p = s.takeWhile p := by
  induction s with
  | nil => simp [hstop]
  | cons c rest ih => simp only [List.cons_append, List.takeWhile_cons, ih]

/-- A run is empty exactly if the first character does not have the property. -/
theorem takeWhile_eq_nil_iff {text : List Char} : text.takeWhile p = [] ↔ text.head?.any p = false := by
  cases text with
  | nil => simp
  | cons c rest => simp [List.takeWhile_cons]

/-- What stops a run does not go on it. -/
theorem head?_dropWhile_any (p : Char → Bool) (text : List Char) : (text.dropWhile p).head?.any p = false := by
  induction text with
  | nil => rfl
  | cons c rest ih =>
    rw [List.dropWhile_cons]
    split
    · exact ih
    · exact Bool.eq_false_iff.mpr ‹_›

/-- What stops a run of other characters is the character itself. -/
theorem head?_dropWhile_ne (c : Char) (text : List Char) :
    text.dropWhile (· != c) = [] ∨ (text.dropWhile (· != c)).head? = some c := by
  have hstop := head?_dropWhile_any (· != c) text
  cases hrest : text.dropWhile (· != c) with
  | nil => exact .inl rfl
  | cons d rest =>
    rw [hrest] at hstop
    exact .inr (congrArg some (by simpa using hstop))

variable {run behind : List Char}

/-- The run is taken in front of what its head stops. -/
theorem takeWhile_run (h : ∀ c ∈ run, p c = true) (hbehind : behind.head?.any p = false) :
    (run ++ behind).takeWhile p = run := by
  rw [List.takeWhile_append_of_pos h, takeWhile_eq_nil_iff.mpr hbehind, List.append_nil]

/-- What comes behind the run is left when this is dropped. -/
theorem dropWhile_run (h : ∀ c ∈ run, p c = true) (hbehind : behind.head?.any p = false) :
    (run ++ behind).dropWhile p = behind := by
  rw [List.dropWhile_append_of_pos h]
  cases behind with
  | nil => rfl
  | cons stop behind => exact List.dropWhile_cons_of_neg (Bool.eq_false_iff.mp hbehind)

/-- A run in front of a character without the property is taken as a whole. -/
theorem takeWhile_run_stop (h : ∀ c ∈ run, p c = true) {stop : Char} (hstop : p stop = false)
    (behind : List Char) : (run ++ stop :: behind).takeWhile p = run := takeWhile_run h hstop

/-- What is left behind a run begins with the character that stops it. -/
theorem dropWhile_run_stop (h : ∀ c ∈ run, p c = true) {stop : Char} (hstop : p stop = false)
    (behind : List Char) : (run ++ stop :: behind).dropWhile p = stop :: behind := dropWhile_run h hstop

/-- A text is a run and what stops it. -/
theorem exists_run (p : Char → Bool) (text : List Char) : ∃ run behind, (∀ c ∈ run, p c = true) ∧
    behind.head?.any p = false ∧ text = run ++ behind :=
  ⟨_, _, fun _ => List.mem_takeWhile_imp, head?_dropWhile_any p text, List.takeWhile_append_dropWhile.symm⟩

end Runs

section Strings

/-- Characters between quotes are a string. -/
theorem stringPiece_quoted {body : List Char} (h : ∀ c ∈ body, (c != '"') = true) (after : List Char) :
    stringPiece (body ++ '"' :: after) =
      (⟨.token (.string (String.ofList body)), '"' :: body ++ ['"']⟩, after) := by
  rw [stringPiece, takeWhile_run h rfl, dropWhile_run h rfl]

/-- Without another quote a string is open. -/
theorem stringPiece_open {rest : List Char} (h : ∀ c ∈ rest, (c != '"') = true) :
    stringPiece rest = (⟨.unterminated, '"' :: rest⟩, []) := by
  rw [stringPiece, List.dropWhile_eq_nil_iff.mpr h]

/-- What stands behind a quote has another quote in it, or none. -/
theorem quoted_or_open (rest : List Char) :
    (∃ body after, (∀ c ∈ body, (c != '"') = true) ∧ rest = body ++ '"' :: after) ∨
      ∀ c ∈ rest, (c != '"') = true := by
  obtain ⟨body, behind, hbody, hstop, rfl⟩ := exists_run (· != '"') rest
  cases behind with
  | nil => exact .inr (by simpa using hbody)
  | cons quote after =>
    obtain rfl : quote = '"' := by simpa using hstop
    exact .inl ⟨body, after, hbody, rfl⟩

end Strings

section Numbers

variable {digits fraction behind : List Char}

/-- Only behind a point there are the digits of a fraction. -/
theorem fractionDigits_of_ne {c : Char} (h : c ≠ '.') (rest : List Char) : fractionDigits (c :: rest) = [] := by
  unfold fractionDigits
  split
  · exact absurd (List.cons.inj ‹_›).1 h
  · rfl

/-- The digits behind a point are digits. -/
theorem isDigit_of_mem_fractionDigits {rest : List Char} : ∀ d ∈ fractionDigits rest, d.isDigit = true := by
  unfold fractionDigits
  split
  · exact fun _ => List.mem_takeWhile_imp
  · exact nofun

/-- Digits are a number. -/
theorem numberPiece_whole (c : Char) (h : ∀ d ∈ digits, d.isDigit = true)
    (hbehind : behind.head?.any Char.isDigit = false) (hnone : fractionDigits behind = []) :
    numberPiece c (digits ++ behind) =
      (⟨.token (.number (Number.Decimal.ofDigits (c :: digits) []).toFloat), c :: digits⟩, behind) := by
  simp [numberPiece, takeWhile_run h hbehind, dropWhile_run h hbehind, hnone]

/-- Digits with a point among them are a number. -/
theorem numberPiece_fraction (c : Char) (h : ∀ d ∈ digits, d.isDigit = true)
    (hfraction : ∀ d ∈ fraction, d.isDigit = true) (hne : fraction ≠ [])
    (hbehind : behind.head?.any Char.isDigit = false) :
    numberPiece c (digits ++ '.' :: fraction ++ behind) =
      (⟨.token (.number (Number.Decimal.ofDigits (c :: digits) fraction).toFloat),
        c :: digits ++ '.' :: fraction⟩, behind) := by
  have hpoint : ('.' :: (fraction ++ behind)).head?.any Char.isDigit = false := rfl
  simp [numberPiece, takeWhile_run h hpoint, dropWhile_run h hpoint, fractionDigits,
    takeWhile_run hfraction hbehind, hne]

/-- What stands behind a digit are more digits, perhaps with a point among them, and what does not go on them. -/
theorem whole_or_fraction (rest : List Char) :
    ∃ digits behind, (∀ d ∈ digits, d.isDigit = true) ∧ behind.head?.any Char.isDigit = false ∧
      ((rest = digits ++ behind ∧ fractionDigits behind = []) ∨
        ∃ fraction, (∀ d ∈ fraction, d.isDigit = true) ∧ fraction ≠ [] ∧
          rest = digits ++ '.' :: fraction ++ behind) := by
  obtain ⟨digits, behind, hdigits, hstop, rfl⟩ := exists_run Char.isDigit rest
  by_cases hnone : fractionDigits behind = []
  · exact ⟨digits, behind, hdigits, hstop, .inl ⟨rfl, hnone⟩⟩
  · cases behind with
    | nil => exact absurd rfl hnone
    | cons c behind =>
      by_cases hpoint : c = '.'
      · subst hpoint
        exact ⟨digits, behind.dropWhile Char.isDigit, hdigits, head?_dropWhile_any _ _,
          .inr ⟨behind.takeWhile Char.isDigit, fun _ => List.mem_takeWhile_imp, hnone, by simp⟩⟩
      · exact absurd (fractionDigits_of_ne hpoint behind) hnone

/-- A number and what follows it are the text. -/
theorem numberPiece_append_rest (c : Char) (rest : List Char) :
    (numberPiece c rest).1.text ++ (numberPiece c rest).2 = c :: rest := by
  obtain ⟨digits, behind, hdigits, hstop, ⟨rfl, hnone⟩ | ⟨fraction, hfraction, hne, rfl⟩⟩ := whole_or_fraction rest
  · rw [numberPiece_whole c hdigits hstop hnone, List.cons_append]
  · rw [numberPiece_fraction c hdigits hfraction hne hstop, List.cons_append, List.cons_append]

end Numbers

section Pieces

/-- The first piece of a text and what follows it are the text. -/
theorem firstPiece_append_rest (c : Char) (rest : List Char) :
    (firstPiece c rest).1.text ++ (firstPiece c rest).2 = c :: rest := by
  unfold firstPiece
  split
  · rfl
  split
  · rename_i hquote
    obtain rfl : c = '"' := by simpa using hquote
    obtain ⟨body, after, hbody, rfl⟩ | hopen := quoted_or_open rest
    · rw [stringPiece_quoted hbody]
      simp
    · rw [stringPiece_open hopen, List.append_nil]
  split
  · exact numberPiece_append_rest c rest
  split
  · exact congrArg (c :: ·) List.takeWhile_append_dropWhile
  split
  · split
    · exact congrArg (c :: ·) List.takeWhile_append_dropWhile
    · rfl
  split
  · rfl
  · split
    · rename_i hequal
      cases rest with
      | nil => cases hequal
      | cons d rest => simp_all
    · rfl
  · rfl

/-- A piece is not empty. -/
theorem firstPiece_text_ne_nil (c : Char) (rest : List Char) : (firstPiece c rest).1.text ≠ [] := by
  intro htext
  have hlength := congrArg List.length (firstPiece_append_rest c rest)
  have hle := length_firstPiece_le c rest
  rw [htext, List.nil_append, List.length_cons] at hlength
  omega

/-- A piece begins with the first character of its text. -/
theorem firstPiece_text (c : Char) (rest : List Char) :
    (firstPiece c rest).1.text = c :: (firstPiece c rest).1.text.tail := by
  have happend := firstPiece_append_rest c rest
  cases hpiece : (firstPiece c rest).1.text with
  | nil => exact absurd hpiece (firstPiece_text_ne_nil c rest)
  | cons d text =>
    rw [hpiece] at happend
    obtain ⟨rfl, -⟩ := List.cons.inj happend
    rfl

/-- A piece without its first character, and what is left behind it, are what follows this character. -/
theorem firstPiece_tail_append_rest (c : Char) (rest : List Char) :
    (firstPiece c rest).1.text.tail ++ (firstPiece c rest).2 = rest := by
  have happend := firstPiece_append_rest c rest
  rw [firstPiece_text] at happend
  exact (List.cons.inj happend).2

end Pieces

section Behind

/-- What is asked of the first character behind a piece, to see if it goes on the piece. -/
def continuations : List (Char → Bool) := [Char.isDigit, Char.isAlpha, (· == '='), (· == '/')]

/-- The characters `behind` go on a piece only where those in `after` do so as well. -/
structure EndsAlike (piece : Piece) (after behind : List Char) : Prop where
  head : ∀ p ∈ continuations, after.head?.any p = false → behind.head?.any p = false
  fraction : fractionDigits after = [] → fractionDigits behind = []
  comment : piece.shape = .comment →
    after.head?.any (· != '\n') = false → behind.head?.any (· != '\n') = false
  closed : piece.shape = .unterminated → after = [] → behind = []

variable {piece : Piece} {after behind : List Char}

/-- No characters go on nothing. -/
theorem EndsAlike.nil (piece : Piece) (after : List Char) : EndsAlike piece after [] :=
  ⟨fun _ _ _ => rfl, fun _ => rfl, fun _ _ => rfl, fun _ _ => rfl⟩

/-- Digits do not go on a piece unless they did so before. -/
theorem EndsAlike.head_isDigit (h : EndsAlike piece after behind) :
    after.head?.any Char.isDigit = false → behind.head?.any Char.isDigit = false :=
  h.head _ (by simp [continuations])

/-- Letters do not go on a piece unless they did so before. -/
theorem EndsAlike.head_isAlpha (h : EndsAlike piece after behind) :
    after.head?.any Char.isAlpha = false → behind.head?.any Char.isAlpha = false :=
  h.head _ (by simp [continuations])

/-- One of the characters that may go on a piece does not do so unless it did before. -/
theorem EndsAlike.head_beq (h : EndsAlike piece after behind) {d : Char} (hd : (· == d) ∈ continuations)
    (hafter : (after.head? == some d) = false) : (behind.head? == some d) = false := by
  have hany (text : List Char) : (text.head? == some d) = text.head?.any (· == d) := by cases text <;> rfl
  rw [hany] at hafter ⊢
  exact h.head _ hd hafter

/-- A string is the same in front of other characters, unless it is open. -/
theorem stringPiece_behind {rest : List Char} (h : EndsAlike (stringPiece rest).1 (stringPiece rest).2 behind) :
    stringPiece ((stringPiece rest).1.text.tail ++ behind) = ((stringPiece rest).1, behind) := by
  obtain ⟨body, after, hbody, rfl⟩ | hopen := quoted_or_open rest
  · rw [stringPiece_quoted hbody]
    simpa using stringPiece_quoted hbody behind
  · rw [stringPiece_open hopen] at h ⊢
    rw [h.closed rfl rfl]
    simpa using stringPiece_open hopen

/-- A number is the same in front of other characters. -/
theorem numberPiece_behind (c : Char) (rest : List Char) (h : EndsAlike piece (numberPiece c rest).2 behind) :
    numberPiece c ((numberPiece c rest).1.text.tail ++ behind) = ((numberPiece c rest).1, behind) := by
  obtain ⟨digits, after, hdigits, hstop, ⟨rfl, hnone⟩ | ⟨fraction, hfraction, hne, rfl⟩⟩ := whole_or_fraction rest
  · rw [numberPiece_whole c hdigits hstop hnone] at h ⊢
    exact numberPiece_whole c hdigits (h.head_isDigit hstop) (h.fraction hnone)
  · rw [numberPiece_fraction c hdigits hfraction hne hstop] at h ⊢
    exact numberPiece_fraction c hdigits hfraction hne (h.head_isDigit hstop)

/-- A piece is the same in front of other characters that do not go on it. -/
theorem firstPiece_behind (c : Char) (rest : List Char)
    (h : EndsAlike (firstPiece c rest).1 (firstPiece c rest).2 behind) :
    firstPiece c ((firstPiece c rest).1.text.tail ++ behind) = ((firstPiece c rest).1, behind) := by
  unfold firstPiece at h ⊢
  by_cases hblank : isBlank c = true
  · simp [hblank]
  by_cases hquote : (c == '"') = true
  · simp only [hblank, hquote, if_true, if_false, Bool.false_eq_true] at h ⊢
    exact stringPiece_behind h
  by_cases hdigit : c.isDigit = true
  · simp only [hblank, hquote, hdigit, if_true, if_false, Bool.false_eq_true] at h ⊢
    exact numberPiece_behind c rest h
  by_cases hletter : c.isAlpha = true
  · simp only [hblank, hquote, hdigit, hletter, if_true, if_false, Bool.false_eq_true] at h ⊢
    have hletters : ∀ d ∈ rest.takeWhile Char.isAlpha, d.isAlpha = true := fun _ => List.mem_takeWhile_imp
    have hstop := h.head_isAlpha (head?_dropWhile_any Char.isAlpha rest)
    rw [List.tail_cons, takeWhile_run hletters hstop, dropWhile_run hletters hstop]
  by_cases hslash : (c == '/') = true
  · simp only [hblank, hquote, hdigit, hletter, hslash, if_true, if_false, Bool.false_eq_true] at h ⊢
    by_cases hcomment : (rest.head? == some '/') = true
    · obtain ⟨others, rfl⟩ := List.head?_eq_some_iff.mp (beq_iff_eq.mp hcomment)
      simp only [hcomment, if_true] at h ⊢
      have hline : ∀ d ∈ ('/' :: others).takeWhile (· != '\n'), (d != '\n') = true :=
        fun _ => List.mem_takeWhile_imp
      have hstop := h.comment rfl (head?_dropWhile_any _ _)
      have hbegins : (('/' :: others).takeWhile (· != '\n') ++ behind).head? = some '/' := rfl
      rw [List.tail_cons, hbegins, takeWhile_run hline hstop, dropWhile_run hline hstop]
      rfl
    · rw [if_neg hcomment] at h ⊢
      have hbehind := h.head_beq (d := '/') (by simp [continuations]) (Bool.eq_false_iff.mpr hcomment)
      simp [hbehind]
  simp only [hblank, hquote, hdigit, hletter, hslash, if_false, Bool.false_eq_true] at h ⊢
  cases hsymbol : punctuation? c with
  | some s => simp
  | none =>
    cases hcomparison : comparison? c with
    | none => simp
    | some symbols =>
      simp only [hsymbol, hcomparison] at h ⊢
      by_cases hequal : (rest.head? == some '=') = true
      · simp [hequal]
      · rw [if_neg hequal] at h ⊢
        have hbehind := h.head_beq (d := '=') (by simp [continuations]) (Bool.eq_false_iff.mpr hequal)
        simp [hbehind]

end Behind

section Words

variable {piece : Piece} {after behind : List Char}

/-- A letter is no newline. -/
theorem bne_newline_of_isAlpha {c : Char} (h : c.isAlpha = true) : (c != '\n') = true := by
  refine bne_iff_ne.mpr ?_
  rintro rfl
  cases h

/-- No letter is told from another where a piece goes on. -/
theorem eq_of_mem_continuations {p : Char → Bool} (hp : p ∈ continuations) {c d : Char} (hc : c.isAlpha = true)
    (hd : d.isAlpha = true) : p c = p d := by
  have hne {x : Char} (hx : x.isAlpha = false) {e : Char} (he : e.isAlpha = true) : (e == x) = false := by
    refine beq_eq_false_iff_ne.mpr ?_
    rintro rfl
    exact absurd he (Bool.eq_false_iff.mp hx)
  simp only [continuations, List.mem_cons, List.not_mem_nil, or_false] at hp
  rcases hp with rfl | rfl | rfl | rfl
  · rw [not_isDigit_of_isAlpha hc, not_isDigit_of_isAlpha hd]
  · rw [hc, hd]
  · exact (hne rfl hc).trans (hne rfl hd).symm
  · exact (hne rfl hc).trans (hne rfl hd).symm

/-- Characters that begin as those in `after` do, or with a letter as these do, go on no piece that ends in front of
`after`, if they have no digits behind a point where these have none. -/
theorem EndsAlike.of_head
    (hhead : ∀ c ∈ behind.head?, c ∈ after.head? ∨ c.isAlpha = true ∧ after.head?.any Char.isAlpha = true)
    (hfraction : fractionDigits after = [] → fractionDigits behind = []) : EndsAlike piece after behind := by
  have hany {p : Char → Bool} (hp : ∀ {c d : Char}, c.isAlpha = true → d.isAlpha = true → p c = p d)
      (hafter : after.head?.any p = false) : behind.head?.any p = false := by
    cases behind with
    | nil => rfl
    | cons c behind =>
      cases after with
      | nil => exact (hhead c rfl).elim nofun fun hletter => by cases hletter.2
      | cons d after =>
        rcases hhead c rfl with hsame | ⟨hc, hd⟩
        · obtain rfl := Option.some.inj hsame
          exact hafter
        · exact (hp hc hd).trans hafter
  refine ⟨fun p hp => hany (eq_of_mem_continuations hp), hfraction, fun _ => hany fun hc hd => ?_, ?_⟩
  · rw [bne_newline_of_isAlpha hc, bne_newline_of_isAlpha hd]
  · rintro - rfl
    cases behind with
    | nil => rfl
    | cons c behind => exact (hhead c rfl).elim nofun fun hletter => by cases hletter.2

end Words

end Scan

end Lox
