import Lox.Tree.Text

/-!
# Forms

A form is a word, or forms between parentheses with a blank between any two. Where words have neither blanks
nor parentheses in them, a form can be told from its characters, and so can the place at which it ends: the same
characters are never read as two forms, whatever stands behind them.
-/

set_option autoImplicit false

namespace Lox

/-- A word, or forms between parentheses. -/
inductive Form where
  | word (text : String)
  | group (parts : List Form)

namespace Form

mutual

/-- The characters of a form. -/
def chars : Form → List Char
  | word text => text.toList
  | group parts => '(' :: (charsAll parts ++ [')'])

/-- The characters of forms with blanks between them. -/
def charsAll : List Form → List Char
  | [] => []
  | f :: rest => f.chars ++ charsBehind rest

/-- The characters of forms with a blank in front of each. -/
def charsBehind : List Form → List Char
  | [] => []
  | f :: rest => ' ' :: (f.chars ++ charsBehind rest)

end

/-- Whether a character is neither a blank nor a parenthesis. -/
def isPlain (c : Char) : Bool := c != ' ' && c != '(' && c != ')'

mutual

/-- Every word of a form is at least one character long, without blanks and parentheses. -/
def Plain : Form → Prop
  | word text => text ≠ "" ∧ ∀ c ∈ text.toList, isPlain c = true
  | group parts => PlainAll parts

/-- Every word of forms is at least one character long, without blanks and parentheses. -/
def PlainAll : List Form → Prop
  | [] => True
  | f :: rest => f.Plain ∧ PlainAll rest

end

/-- Whether a given word is plain can be read off its characters. -/
theorem plain_word {text : String} (h : (!text.toList.isEmpty && text.toList.all isPlain) = true) :
    (word text).Plain := by
  obtain ⟨hne, hall⟩ := Bool.and_eq_true_iff.mp h
  refine ⟨?_, List.all_eq_true.mp hall⟩
  rintro rfl
  exact absurd hne (by decide)

/-- Behind the first part of a form, each one stands behind a blank. -/
theorem charsBehind_eq (parts : List Form) : charsBehind parts = parts.flatMap fun f => ' ' :: f.chars := by
  induction parts with
  | nil => rfl
  | cons f rest ih => rw [charsBehind, ih, List.flatMap_cons, List.cons_append]

/-- The forms between parentheses are written with blanks between them. -/
theorem charsAll_eq_intercalate (parts : List Form) : charsAll parts = [' '].intercalate (parts.map chars) := by
  cases parts with
  | nil => rfl
  | cons f rest =>
    rw [charsAll, charsBehind_eq]
    induction rest generalizing f with
    | nil => simp
    | cons g rest ih =>
      rw [List.map_cons, List.map_cons, List.intercalate_cons_cons, ← List.map_cons, ← ih g]
      simp

section Reading

variable {f g : Form} {fs gs : List Form} {s t : List Char}

/-- A text begins with nothing that could be more of a word. -/
def Ends (text : List Char) : Prop := ∀ c ∈ text.head?, isPlain c = false

/-- What stands behind a word in a form is a blank or a closing parenthesis, which ends it. -/
theorem ends_charsBehind (fs : List Form) (s : List Char) : Ends (charsBehind fs ++ ')' :: s) := by
  cases fs <;> rintro c ⟨⟩ <;> rfl

/-- A word begins with a plain character. -/
theorem Plain.word_first {text : String} (h : (word text).Plain) :
    ∃ c rest, text.toList = c :: rest ∧ isPlain c = true := by
  obtain ⟨c, rest, htext⟩ := List.exists_cons_of_ne_nil (mt String.toList_eq_nil_iff.mp h.1)
  exact ⟨c, rest, htext, h.2 c (htext ▸ List.mem_cons_self ..)⟩

/-- A form begins with neither a blank nor a closing parenthesis. -/
theorem Plain.first (hf : f.Plain) : ∃ c rest, f.chars = c :: rest ∧ c ≠ ' ' ∧ c ≠ ')' := by
  cases f with
  | word text =>
    obtain ⟨c, rest, htext, hc⟩ := hf.word_first
    refine ⟨c, rest, htext, ?_, ?_⟩ <;> rintro rfl <;> exact absurd hc (by decide)
  | group parts => exact ⟨_, _, rfl, by decide, by decide⟩

/-- A word goes as far as there are plain characters. -/
theorem takeWhile_word {text : String} (h : (word text).Plain) (hs : Ends s) :
    (text.toList ++ s).takeWhile isPlain = text.toList := by
  rw [List.takeWhile_append_of_pos h.2]
  cases s with
  | nil => simp
  | cons c s => rw [List.takeWhile_cons_of_neg (Bool.eq_false_iff.mp (hs c rfl)), List.append_nil]

/-- A word is not read as a group. -/
theorem word_ne_group {text : String} (h : (word text).Plain) (s t : List Char) :
    text.toList ++ s ≠ '(' :: t := by
  obtain ⟨c, rest, htext, hc⟩ := h.word_first
  rw [htext]
  intro heq
  rw [(List.cons.inj heq).1] at hc
  exact absurd hc (by decide)

mutual

/-- The characters of a form with others behind them, which do not go on with a word, are read in one way. -/
theorem chars_append_inj : (f g : Form) → {s t : List Char} → f.Plain → g.Plain → Ends s → Ends t →
    f.chars ++ s = g.chars ++ t → f = g ∧ s = t
  | .word text, .word text', s, t, hf, hg, hs, ht, h => by
    have htext := congrArg (List.takeWhile isPlain) h
    rw [chars, chars, takeWhile_word hf hs, takeWhile_word hg ht, String.toList_inj] at htext
    subst htext
    exact ⟨rfl, List.append_cancel_left h⟩
  | .word text, .group parts, s, t, hf, _, _, _, h => absurd h (word_ne_group hf _ _)
  | .group parts, .word text, s, t, _, hg, _, _, h => absurd h.symm (word_ne_group hg _ _)
  | .group parts, .group parts', s, t, hf, hg, _, _, h => by
    have hparts : charsAll parts ++ ')' :: s = charsAll parts' ++ ')' :: t := by
      simpa [chars] using h
    obtain ⟨rfl, rfl⟩ := charsAll_append_inj parts parts' hf hg hparts
    exact ⟨rfl, rfl⟩

/-- Forms with blanks between them, up to a closing parenthesis, are told by the text. -/
theorem charsAll_append_inj : (fs gs : List Form) → {s t : List Char} → PlainAll fs → PlainAll gs →
    charsAll fs ++ ')' :: s = charsAll gs ++ ')' :: t → fs = gs ∧ s = t
  | [], [], _, _, _, _, h => ⟨rfl, (List.cons.inj h).2⟩
  | [], g :: gs, _, _, _, hgs, h => by
    obtain ⟨c, rest, hchars, -, hc⟩ := hgs.1.first
    rw [charsAll, charsAll, hchars] at h
    exact absurd (List.cons.inj h).1.symm hc
  | f :: fs, [], _, _, hfs, _, h => by
    obtain ⟨c, rest, hchars, -, hc⟩ := hfs.1.first
    rw [charsAll, charsAll, hchars] at h
    exact absurd (List.cons.inj h).1 hc
  | f :: fs, g :: gs, s, t, hfs, hgs, h => by
    rw [charsAll, charsAll, List.append_assoc, List.append_assoc] at h
    obtain ⟨rfl, hbehind⟩ :=
      chars_append_inj f g hfs.1 hgs.1 (ends_charsBehind fs s) (ends_charsBehind gs t) h
    obtain ⟨rfl, rfl⟩ := charsBehind_append_inj fs gs hfs.2 hgs.2 hbehind
    exact ⟨rfl, rfl⟩

/-- Forms with blanks in front of them, up to a closing parenthesis, are told by the text. -/
theorem charsBehind_append_inj : (fs gs : List Form) → {s t : List Char} → PlainAll fs → PlainAll gs →
    charsBehind fs ++ ')' :: s = charsBehind gs ++ ')' :: t → fs = gs ∧ s = t
  | [], [], _, _, _, _, h => ⟨rfl, (List.cons.inj h).2⟩
  | [], g :: gs, _, _, _, _, h => absurd (List.cons.inj h).1 (by decide)
  | f :: fs, [], _, _, _, _, h => absurd (List.cons.inj h).1 (by decide)
  | f :: fs, g :: gs, s, t, hfs, hgs, h => by
    rw [charsBehind, charsBehind, List.cons_append, List.cons_append, List.append_assoc,
      List.append_assoc] at h
    have hrest := (List.cons.inj h).2
    obtain ⟨rfl, hbehind⟩ :=
      chars_append_inj f g hfs.1 hgs.1 (ends_charsBehind fs s) (ends_charsBehind gs t) hrest
    obtain ⟨rfl, rfl⟩ := charsBehind_append_inj fs gs hfs.2 hgs.2 hbehind
    exact ⟨rfl, rfl⟩

end

/-- A form is determined by its characters. -/
theorem chars_inj (hf : f.Plain) (hg : g.Plain) (h : f.chars = g.chars) : f = g := by
  refine (chars_append_inj f g (s := []) (t := []) hf hg nofun nofun ?_).1
  rw [h]

end Reading

end Form

end Lox
