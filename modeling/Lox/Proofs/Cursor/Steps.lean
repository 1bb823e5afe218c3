import Mathlib
import Lox.Proofs.Cursor.Rules

/-!
# Steps at a position

A cursor shows a state of the parser that runs, if the tokens from its position on are those that the state
has left. The first token that ends the input stands behind them, so a step that looks at the position finds
a token there, and one that goes on stays in front of that end. What the record of a run says is an
invariant of these steps: the position is never moved but to the next one, and operands are numbered in the
order of their positions.
-/

set_option autoImplicit false

namespace Lox

/-- A token of another kind is not this reserved word. -/
theorem Token.not_isKeyword {k : Keyword} {t : Token} (h : t.kind ≠ .keyword k) : t.isKeyword k = false :=
  Bool.eq_false_iff.mpr (mt isKeyword_iff.mp h)

/-- A token of another kind is not this symbol. -/
theorem Token.not_isSymbol {k : Symbol} {t : Token} (h : t.kind ≠ .symbol k) : t.isSymbol k = false :=
  Bool.eq_false_iff.mpr (mt isSymbol_iff.mp h)

/-- A token of another kind is not a name. -/
theorem Token.not_isIdentifier {t : Token} (h : t.kind ≠ .identifier) : t.isIdentifier = false :=
  Bool.eq_false_iff.mpr (mt isIdentifier_iff.mp h)

/-- What follows a step over the next token goes on behind it. -/
theorem Parser.advance_bind {α : Type} {p : Parser α} {s : ParserState} {t : Token} {rest : List Token}
    (hs : s.rest = t :: rest) : (advance >>= fun _ => p) s = p { s with rest } := by
  show p { s with rest := s.rest.tail } = _
  rw [hs, List.tail_cons]

/-- A step that goes on is followed by the next one. -/
theorem Reading.bind_ok {α β : Type} {q : Reading α} {r : α → Reading β} {a : α} {c c' : Cursor}
    (h : q c = .ok a c') : (q >>= r) c = r a c' := by
  show EStateM.bind q r c = _
  rw [EStateM.bind, h]

/-- Steps that come to a result come to one after the other. -/
theorem Reading.of_bind_ok {α β : Type} {q : Reading α} {r : α → Reading β} {b : β} {c c'' : Cursor}
    (h : (q >>= r) c = .ok b c'') : ∃ a c', q c = .ok a c' ∧ r a c' = .ok b c'' := by
  change EStateM.bind q r c = _ at h
  rw [EStateM.bind] at h
  cases hq : q c with
  | ok a c' =>
    rw [hq] at h
    exact ⟨a, c', rfl, h⟩
  | error stop c' =>
    rw [hq] at h
    cases h

/-- Tokens with a first one that ends the input. -/
structure Input where
  front : List Token
  last : Token
  behind : List Token
  inside : ∀ t ∈ front, t.isEof = false
  ends : last.isEof = true

/-- All tokens of an input. -/
def Input.tokens (input : Input) : List Token := input.front ++ input.last :: input.behind

/-- The number of an operand, and its token. -/
def Operand.use (o : Operand) : Occurrence × Token := (o.id, o.token)

/-- Operands are names and `this` at increasing positions from `first` to before `stop`, numbered in their order from
`id` on. -/
structure Operand.InOrder (tokens : List Token) (id : Occurrence) (first stop : Nat)
    (operands : List Operand) : Prop where
  ids : operands.map (·.id) = List.range' id operands.length
  positions : operands.Pairwise (·.position < ·.position)
  within : ∀ o ∈ operands, first ≤ o.position ∧ o.position < stop
  tokens : ∀ o ∈ operands, tokens[o.position]? = some o.token
  names : ∀ o ∈ operands, o.token.isIdentifier = true ∨ o.token.isKeyword .this = true

namespace Cursor

variable {c₀ c c' c'' : Cursor}

/-- The operands that are recorded, as numbered tokens. -/
def noted (c : Cursor) : Multiset (Occurrence × Token) := (c.operands.map Operand.use : List _)

/-- What the record says of a run from one cursor to another. -/
structure Since (c₀ c : Cursor) : Prop where
  tokens : c.tokens = c₀.tokens
  current : c₀.current ≤ c.current
  path : c.path = c₀.path ++ List.range' (c₀.current + 1) (c.current - c₀.current)
  operands : ∃ new, c.operands = c₀.operands ++ new ∧ c.nextId = c₀.nextId + new.length ∧
    Operand.InOrder c.tokens c₀.nextId c₀.current c.current new
  declared : ∃ new, c.declared = c₀.declared ++ new ∧ ∀ d ∈ new, d.1 < d.2

namespace Since

/-- A run that has not gone on has come from where it is. -/
protected theorem refl (c : Cursor) : Since c c where
  tokens := rfl
  current := Nat.le_refl _
  path := by simp
  operands := ⟨[], by simp, rfl, rfl, .nil, nofun, nofun, nofun⟩
  declared := ⟨[], by simp, nofun⟩

/-- A run that goes on by one token has come from where it did before. -/
theorem step (h : Since c₀ c) : Since c₀ c.step where
  tokens := h.tokens
  current := Nat.le_succ_of_le h.current
  path := by
    have hlength : c.current + 1 - c₀.current = c.current - c₀.current + 1 := Nat.sub_add_comm h.current
    have hlast : c₀.current + 1 + (c.current - c₀.current) = c.current + 1 := by
      have := h.current
      omega
    rw [Cursor.step, h.path, List.append_assoc, hlength, List.range'_1_concat, hlast]
  operands := by
    obtain ⟨new, hnew, hid, horder⟩ := h.operands
    refine ⟨new, hnew, hid, horder.ids, horder.positions, fun o ho => ?_, horder.tokens, horder.names⟩
    exact ⟨(horder.within o ho).1, Nat.lt_succ_of_lt (horder.within o ho).2⟩
  declared := h.declared

/-- The token behind which the cursor stands may be an operand. -/
theorem numbered (h : Since c₀ c) {t : Token} (ht : c.tokens[c.current]? = some t)
    (hname : t.isIdentifier = true ∨ t.isKeyword .this = true) : Since c₀ (c.step.numbered t) where
  tokens := h.tokens
  current := h.step.current
  path := h.step.path
  operands := by
    obtain ⟨new, hnew, hid, horder⟩ := h.operands
    refine ⟨new ++ [⟨c.current, t, c.nextId⟩], ?_, ?_, ?_, ?_, ?_, ?_, ?_⟩
    · show c.operands ++ _ = _
      rw [hnew, List.append_assoc]
      rfl
    · show c.nextId + 1 = _
      rw [hid, List.length_append]
      rfl
    · rw [List.map_append, List.length_append, List.length_singleton, List.range'_1_concat, horder.ids, ← hid]
      rfl
    · exact List.pairwise_append.mpr ⟨horder.positions, List.pairwise_singleton _ _, fun o ho o' ho' => by
        rw [List.mem_singleton.mp ho']
        exact (horder.within o ho).2⟩
    · refine List.forall_mem_append.mpr ⟨h.step.operands.elim fun _ _ => ?_, ?_⟩
      · exact fun o ho => ⟨(horder.within o ho).1, Nat.lt_succ_of_lt (horder.within o ho).2⟩
      · exact List.forall_mem_singleton.mpr ⟨h.current, Nat.lt_succ_self _⟩
    · exact List.forall_mem_append.mpr ⟨horder.tokens, List.forall_mem_singleton.mpr ht⟩
    · exact List.forall_mem_append.mpr ⟨horder.names, List.forall_mem_singleton.mpr hname⟩
  declared := h.declared

/-- A run that records an error has come from where it did before. -/
theorem recorded (h : Since c₀ c) (e : SyntaxError) : Since c₀ (c.recorded e) :=
  ⟨h.tokens, h.current, h.path, h.operands, h.declared⟩

/-- A declaration that has read a token may be recorded. -/
theorem declaring (h : Since c₀ c) {first : Nat} (hfirst : first < c.current) : Since c₀ (c.declaring first) where
  tokens := h.tokens
  current := h.current
  path := h.path
  operands := h.operands
  declared := by
    obtain ⟨new, hnew, hall⟩ := h.declared
    refine ⟨new ++ [(first, c.current)], ?_, List.forall_mem_append.mpr ⟨hall, List.forall_mem_singleton.mpr hfirst⟩⟩
    show c.declared ++ _ = _
    rw [hnew, List.append_assoc]

end Since

/-- A run has gone on from one cursor to another, by at least `k` tokens. -/
structure Later (k : Nat) (c c' : Cursor) : Prop where
  current : c.current + k ≤ c'.current
  errors : c.errors <+: c'.errors

namespace Later

variable {j k : Nat}

/-- Nothing is read by a run that has not gone on. -/
protected theorem refl (c : Cursor) : Later 0 c c := ⟨Nat.le_refl _, List.prefix_refl _⟩

/-- Two runs in a row read as many tokens as both together. -/
theorem trans (h : Later j c c') (h' : Later k c' c'') : Later (j + k) c c'' :=
  ⟨by have := h.current; have := h'.current; omega, h.errors.trans h'.errors⟩

/-- A run that reads so many tokens also reads fewer at least. -/
theorem weaken (h : Later j c c') (hk : k ≤ j) : Later k c c' :=
  ⟨Nat.le_trans (Nat.add_le_add_left hk _) h.current, h.errors⟩

/-- What was not reported in two steps was not reported in the first. -/
theorem errors_eq (h : Later j c c') (h' : Later k c' c'') (hclean : c''.errors = c.errors) :
    c'.errors = c.errors := by
  refine (h.errors.eq_of_length ?_).symm
  have hle := h'.errors.length_le
  rw [hclean] at hle
  exact Nat.le_antisymm h.errors.length_le hle

end Later

/-- A cursor shows a state of the parser, whose numbers it sees through `f`, after a run from `c₀`. -/
structure Shows (input : Input) (f : Occurrence → Occurrence) (c₀ c : Cursor) (s : ParserState) : Prop where
  since : Since c₀ c
  tokens : c.tokens = input.tokens
  within : c.current ≤ input.front.length
  rest : s.rest = input.front.drop c.current
  last : s.last = input.last
  errors : c.errors = s.errors
  numbers : ∀ k, c.nextId + k = f (s.nextId + k)

namespace Shows

open Reading

variable {input : Input} {f : Occurrence → Occurrence} {s : ParserState} {t : Token} {rest : List Token}

/-- What is left is counted by the position. -/
theorem length (h : Shows input f c₀ c s) : c.current + s.rest.length = input.front.length := by
  rw [h.rest, List.length_drop, Nat.add_sub_cancel' h.within]

/-- The token at the position is the next one. -/
theorem next (h : Shows input f c₀ c s) : c.tokens[c.current]? = some (s.rest.headD s.last) := by
  have hlength := h.length
  rw [h.tokens, Input.tokens, h.last]
  cases hs : s.rest with
  | nil =>
    rw [hs, List.length_nil, Nat.add_zero] at hlength
    rw [hlength, List.getElem?_append_right (Nat.le_refl _), Nat.sub_self]
    rfl
  | cons t rest =>
    rw [hs, List.length_cons] at hlength
    have hfront : input.front[c.current]? = some t := by
      rw [← List.head?_drop, ← h.rest, hs]
      rfl
    rw [List.getElem?_append_left (by omega), hfront]
    rfl

/-- The first token that the parser has left stands at the position of the cursor. -/
theorem next_cons (h : Shows input f c₀ c s) (hs : s.rest = t :: rest) : c.tokens[c.current]? = some t := by
  rw [h.next, hs]
  rfl

/-- The tokens that are left do not end the input. -/
theorem isEof_cons (h : Shows input f c₀ c s) (hs : s.rest = t :: rest) : t.isEof = false := by
  have hmem : t ∈ input.front.drop c.current := by
    rw [← h.rest, hs]
    exact List.mem_cons_self ..
  exact input.inside t ((List.drop_sublist _ _).subset hmem)

/-- The last token of the parser ends the input. -/
theorem isEof_last (h : Shows input f c₀ c s) : s.last.isEof = true := by
  rw [h.last]
  exact input.ends

/-- The last token of the parser is of the kind that ends the input. -/
theorem last_kind (h : Shows input f c₀ c s) : s.last.kind = .eof := by
  have heof := h.isEof_last
  cases hkind : s.last.kind <;> simp [Token.isEof, hkind, Kind.isEof] at heof ⊢

/-- A cursor that goes on by one token shows the parser behind this token. -/
theorem step (h : Shows input f c₀ c s) (hs : s.rest = t :: rest) : Shows input f c₀ c.step { s with rest } where
  since := h.since.step
  tokens := h.tokens
  within := by
    have hlength := h.length
    rw [hs, List.length_cons] at hlength
    show c.current + 1 ≤ _
    omega
  rest := by
    show rest = input.front.drop (c.current + 1)
    rw [← List.drop_drop, ← h.rest, hs]
    rfl
  last := h.last
  errors := h.errors
  numbers := h.numbers

/-- A cursor that records an error shows the parser with this error. -/
theorem recorded (h : Shows input f c₀ c s) (e : SyntaxError) :
    Shows input f c₀ (c.recorded e) { s with errors := s.errors ++ [e] } :=
  ⟨h.since.recorded e, h.tokens, h.within, h.rest, h.last, congrArg (· ++ [e]) h.errors, h.numbers⟩

section Look

variable (h : Shows input f c₀ c s)
include h

/-- The cursor sees the next token of the parser, or the one that ends the input. -/
theorem peek_eq : peek c = .ok (s.rest.headD s.last) c := by
  unfold peek tokenAt
  rw [h.next]

/-- The cursor is at the end where the parser has no tokens left. -/
theorem atEnd_eq : atEnd c = .ok s.rest.isEmpty c := by
  have heof : (s.rest.headD s.last).isEof = s.rest.isEmpty := by
    cases hs : s.rest with
    | nil => exact h.isEof_last
    | cons t rest => exact h.isEof_cons hs
  rw [← heof]
  exact bind_ok h.peek_eq

/-- The cursor sees a token with the property where the parser does. -/
theorem check_eq (p : Token → Bool) : check p c = .ok (s.rest.head?.any p) c := by
  refine (bind_ok h.atEnd_eq).trans ?_
  cases hs : s.rest with
  | nil => rfl
  | cons t rest =>
    refine (bind_ok h.peek_eq).trans ?_
    rw [hs]
    rfl

/-- The token that was just read is the one before the position. -/
theorem previous_eq (hs : s.rest = t :: rest) : previous c.step = .ok t c.step := by
  show tokenAt c.current c.step = _
  unfold tokenAt
  rw [show c.step.tokens[c.current]? = some t from h.next_cons hs]

/-- Where a token is left, the cursor yields it and goes on by one token. -/
theorem advance_eq (hs : s.rest = t :: rest) : advance c = .ok t c.step := by
  refine (bind_ok h.atEnd_eq).trans ?_
  rw [hs]
  exact h.previous_eq hs

/-- At the end, the token before is looked at again. -/
theorem advance_end (hs : s.rest = []) : advance c = previous c := by
  refine (bind_ok h.atEnd_eq).trans ?_
  rw [hs]
  rfl

/-- A failing rule blames the next token, or the one that ends the input. -/
theorem fail_eq {α : Type} (cause : SyntaxCause) :
    (fail cause : Reading α) c = .error (.fault ⟨s.rest.headD s.last, cause⟩) c :=
  bind_ok h.peek_eq

/-- A token with the property is passed, and any other one is left. -/
theorem accepts_eq (p : Token → Bool) :
    accepts p c = if s.rest.head?.any p then .ok true c.step else .ok false c := by
  refine (bind_ok (h.check_eq p)).trans ?_
  cases hs : s.rest with
  | nil => rfl
  | cons t rest =>
    rw [List.head?_cons, Option.any_some]
    cases p t with
    | false => rfl
    | true => exact bind_ok (h.advance_eq hs)

/-- What a rule does that reads the next token if it has a property. -/
theorem accepts_bind {α : Type} (p : Token → Bool) (r : Bool → Reading α) :
    (accepts p >>= r) c = if s.rest.head?.any p then r true c.step else r false c := by
  have haccepts := h.accepts_eq p
  cases hany : s.rest.head?.any p with
  | false =>
    rw [hany] at haccepts
    exact bind_ok haccepts
  | true =>
    rw [hany] at haccepts
    exact bind_ok haccepts

/-- What follows an optional token is told whether it was there. -/
theorem accept?_bind {α : Type} (p : Token → Bool) (r : Option Token → Reading α) :
    (accept? p >>= r) c = match s.rest with
      | [] => r none c
      | t :: _ => if p t then r (some t) c.step else r none c := by
  rw [accept?, bind_assoc, h.accepts_bind]
  cases hs : s.rest with
  | nil => rfl
  | cons t rest =>
    show _ = if p t then r (some t) c.step else r none c
    rw [List.head?_cons, Option.any_some]
    cases p t with
    | false => rfl
    | true =>
      show ((previous >>= fun t => pure (some t)) >>= r) c.step = r (some t) c.step
      rw [bind_assoc]
      exact bind_ok (h.previous_eq hs)

/-- A token that is expected is read, or else it is blamed. -/
theorem expect_eq (p : Token → Bool) (cause : SyntaxCause) :
    expect p cause c = match s.rest with
      | [] => .error (.fault ⟨s.last, cause⟩) c
      | t :: _ => if p t then .ok t c.step else .error (.fault ⟨t, cause⟩) c := by
  refine (bind_ok (h.check_eq p)).trans ?_
  cases hs : s.rest with
  | nil => exact (h.fail_eq cause).trans (by rw [hs]; rfl)
  | cons t rest =>
    show _ = if p t then .ok t c.step else EStateM.Result.error (Stop.fault ⟨t, cause⟩) c
    rw [List.head?_cons, Option.any_some]
    cases p t with
    | false => exact (h.fail_eq cause).trans (by rw [hs]; rfl)
    | true => exact h.advance_eq hs

/-- The token that was just read gets the next number. -/
theorem operand_eq (hs : s.rest = t :: rest) (build : Occurrence → Token → Expr) :
    operand build c.step = .ok (build c.nextId t) (c.step.numbered t) :=
  bind_ok (h.previous_eq hs)

end Look

end Shows

end Cursor

end Lox
