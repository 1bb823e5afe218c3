import Lox.Session

/-!
# Limited output

A run prints the same whatever its sink has room for, up to the first byte that the sink refuses: there
the run stops with the failure of the sink. So a program whose output goes to a limited sink leaves a
prefix of what it prints to an unlimited one. Two runs are compared from states that differ only in the
limit of their sinks. In other ways no step fails for the output.
-/

set_option autoImplicit false

namespace Lox

/-- Bytes that are no more than allowed are taken as a whole. -/
theorem extract_all {bytes : ByteArray} {n : Nat} (h : bytes.size ≤ n) : bytes.extract 0 n = bytes := by
  rw [← Nat.max_eq_left h, ByteArray.extract_zero_max_size]

/-- A sink has taken more, and is the same otherwise. -/
structure Sink.Grows (o o' : Sink) : Prop where
  emptied : o'.emptied = o.emptied
  written : ∃ more, o'.written = o.written ++ more

namespace Sink.Grows

variable {o o₁ o₂ : Sink}

/-- A sink that takes nothing is the same. -/
protected theorem refl (o : Sink) : o.Grows o := ⟨rfl, .empty, by simp⟩

/-- A sink that takes more twice has taken more. -/
theorem trans (h : o.Grows o₁) (h' : o₁.Grows o₂) : o.Grows o₂ := by
  obtain ⟨more, hmore⟩ := h.written
  obtain ⟨more', hmore'⟩ := h'.written
  exact ⟨h'.emptied.trans h.emptied, more ++ more', by rw [hmore', hmore, ByteArray.append_assoc]⟩

/-- A sink keeps its limit when it takes more. -/
theorem limit (h : o.Grows o₁) : o₁.limit = o.limit :=
  (congrArg Sink.limit h.emptied :)

/-- A sink that takes more fails to flush as it did before. -/
theorem failsToFlush (h : o.Grows o₁) : o₁.failsToFlush = o.failsToFlush :=
  (congrArg Sink.failsToFlush h.emptied :)

/-- A sink that takes more has taken at least as many bytes. -/
theorem size_le (h : o.Grows o₁) : o.written.size ≤ o₁.written.size := by
  obtain ⟨more, hmore⟩ := h.written
  rw [hmore, ByteArray.size_append]
  omega

/-- What a sink has taken first stays in front. -/
theorem extract (h : o.Grows o₁) {n : Nat} (hn : n ≤ o.written.size) :
    o₁.written.extract 0 n = o.written.extract 0 n := by
  obtain ⟨more, hmore⟩ := h.written
  rw [hmore, ByteArray.extract_append, Nat.zero_sub, Nat.sub_eq_zero_of_le hn, ByteArray.extract_same,
    ByteArray.append_empty]

end Sink.Grows

/-- Writing makes a sink take more, also where it stops. -/
theorem Sink.write_grows (o : Sink) (text : String) : o.Grows (o.write text).1 := by
  unfold Sink.write
  dsimp only
  split
  · exact ⟨rfl, _, rfl⟩
  · split
    · exact ⟨rfl, _, rfl⟩
    · exact ⟨rfl, _, rfl⟩

/-- Only a limited sink refuses what is written, and only for want of room. -/
theorem Sink.write_refused {o o' : Sink} {text : String} {e : SinkError}
    (h : o.write text = (o', some e)) : e = .full ∧ o.limit ≠ none := by
  unfold Sink.write at h
  dsimp only at h
  split at h
  · cases h
  · rename_i limit hlimit
    split at h
    · cases h
    · cases h
      exact ⟨rfl, by simp [hlimit]⟩

/-- The same sink with room for only so many bytes. -/
def Sink.limited (o : Sink) (n : Nat) : Sink := { o with limit := some n }

namespace Sink

variable {o : Sink} {text : String} {n : Nat}

/-- A sink without a limit takes every text as a whole. -/
theorem write_unlimited (h : o.limit = none) (text : String) :
    o.write text = ({ o with written := o.written ++ text.toUTF8 }, none) := by
  rw [write, h]

/-- A limited sink with room for a text takes it as a whole. -/
theorem write_limited_room (h : text.toUTF8.size ≤ n - o.written.size) :
    (o.limited n).write text =
      (({ o with written := o.written ++ text.toUTF8 } : Sink).limited n, none) :=
  if_pos h

/-- A limited sink without room for a text takes what it has room for, and is full. -/
theorem write_limited_full (h : ¬text.toUTF8.size ≤ n - o.written.size) :
    (o.limited n).write text =
      ({ o.limited n with written := o.written ++ text.toUTF8.extract 0 (n - o.written.size) },
        some .full) :=
  if_neg h

end Sink

/-- The same state with a limit to its output. -/
def Interpreter.limited (m : Interpreter) (n : Nat) : Interpreter :=
  { m with output := m.output.limited n }

section Steps

variable {α β : Type}

/-- The state in which a step ends. -/
def endState : EStateM.Result Halt Interpreter α → Interpreter
  | .ok _ m => m
  | .error _ m => m

/-- The same end in a state with a limit to its output. -/
def limitedResult (n : Nat) :
    EStateM.Result Halt Interpreter α → EStateM.Result Halt Interpreter α
  | .ok a m => .ok a (m.limited n)
  | .error e m => .error e (m.limited n)

/-- A run stopped at a full sink, which has taken the beginning of what was printed in the end. -/
def Overflows (n : Nat) (result : EStateM.Result Halt Interpreter α) (o : Sink) : Prop :=
  ∃ m, result = .error (.failed (.output .full)) m ∧ n < o.written.size ∧
    m.output = { o.limited n with written := o.written.extract 0 n }

/-- A step only adds to the output, and it fails only for an operation that cannot be carried out or at a full
sink. With a limited sink it does the same, but that it stops at the first byte for which there is no room. -/
structure Limits (n : Nat) (p : Eval α) : Prop where
  grows : ∀ m : Interpreter, m.output.Grows (endState (p m)).output
  failure : ∀ (m t : Interpreter) (failure : Failure), p m = .error (.failed failure) t →
    (∃ error, failure = .runtime error) ∨ failure = .output .full ∧ m.output.limit ≠ none
  limited : ∀ m : Interpreter, m.output.limit = none → m.output.written.size ≤ n →
    (p (m.limited n) = limitedResult n (p m) ∧ (endState (p m)).output.written.size ≤ n) ∨
      Overflows n (p (m.limited n)) (endState (p m)).output

variable {n : Nat} {p : Eval α} {f : α → Eval β}

/-- A run that has stopped at a full sink has taken the beginning of whatever is printed later. -/
theorem Overflows.grow {result : EStateM.Result Halt Interpreter α} {o o' : Sink}
    (h : Overflows n result o) (hgrows : o.Grows o') : Overflows n result o' := by
  obtain ⟨m, hresult, hsize, houtput⟩ := h
  refine ⟨m, hresult, Nat.lt_of_lt_of_le hsize hgrows.size_le, ?_⟩
  rw [houtput, hgrows.extract (Nat.le_of_lt hsize), Sink.limited, Sink.limited, hgrows.failsToFlush]

namespace Limits

/-- A step that does not look at the output and leaves it alone. -/
theorem of_quiet (houtput : ∀ m, (endState (p m)).output = m.output)
    (hfailure : ∀ m t failure, p m = .error (.failed failure) t → ∃ error, failure = .runtime error)
    (hlimited : ∀ m : Interpreter, p (m.limited n) = limitedResult n (p m)) : Limits n p where
  grows m := houtput m ▸ .refl m.output
  failure m t e h := .inl (hfailure m t e h)
  limited m _ hsize := .inl ⟨hlimited m, by rwa [houtput m]⟩

/-- A step that always succeeds, and neither looks at the output nor changes it. -/
theorem of_ok {result : Interpreter → α} {change : Interpreter → Interpreter}
    (hp : ∀ m, p m = .ok (result m) (change m)) (houtput : ∀ m, (change m).output = m.output)
    (hresult : ∀ m : Interpreter, result (m.limited n) = result m)
    (hchange : ∀ m : Interpreter, change (m.limited n) = (change m).limited n) : Limits n p := by
  refine of_quiet (fun m => ?_) (fun m t e h => ?_) fun m => ?_
  · rw [hp m]
    exact houtput m
  · rw [hp m] at h
    cases h
  · rw [hp, hp, hresult, hchange]
    rfl

/-- A value at hand keeps to the limit. -/
theorem pure (a : α) : Limits n (Pure.pure a : Eval α) :=
  of_ok (fun _ => rfl) (fun _ => rfl) (fun _ => rfl) fun _ => rfl

/-- A runtime error keeps to the limit. -/
theorem fail (token : Token) (cause : RuntimeCause) : Limits n (Eval.fail token cause : Eval α) := by
  refine of_quiet (fun _ => rfl) (fun m t failure h => ?_) fun _ => rfl
  cases h
  exact ⟨_, rfl⟩

/-- A run that goes deeper than allotted keeps to the limit. -/
theorem exhausted : Limits n (Eval.exhausted : Eval α) :=
  of_quiet (fun _ => rfl) (fun _ _ _ h => by cases h) fun _ => rfl

/-- Two steps in a row keep to the limit if each does. -/
theorem bind (h : Limits n p) (hf : ∀ a, Limits n (f a)) : Limits n (p >>= f) := by
  constructor
  · intro m
    have hfirst := h.grows m
    show m.output.Grows (endState (EStateM.bind p f m)).output
    unfold EStateM.bind
    cases hp : p m with
    | ok a t =>
      rw [hp] at hfirst
      exact hfirst.trans ((hf a).grows t)
    | error e t =>
      rw [hp] at hfirst
      exact hfirst
  · intro m t e hresult
    replace hresult : EStateM.bind p f m = _ := hresult
    unfold EStateM.bind at hresult
    cases hp : p m with
    | ok a t' =>
      rw [hp] at hresult
      have hgrows := h.grows m
      rw [hp] at hgrows
      exact hgrows.limit ▸ (hf a).failure t' t e hresult
    | error e' t' =>
      rw [hp] at hresult
      cases hresult
      exact h.failure m _ _ hp
  · intro m hlimit hsize
    have hgrows := h.grows m
    show (EStateM.bind p f (m.limited n) = limitedResult n (EStateM.bind p f m) ∧
        (endState (EStateM.bind p f m)).output.written.size ≤ n) ∨
      Overflows n (EStateM.bind p f (m.limited n)) (endState (EStateM.bind p f m)).output
    unfold EStateM.bind
    rcases h.limited m hlimit hsize with ⟨hsame, hroom⟩ | ⟨t', hfull, hover⟩
    · rw [hsame]
      cases hp : p m with
      | ok a t =>
        rw [hp] at hgrows hroom
        exact (hf a).limited t (hgrows.limit.trans hlimit) hroom
      | error e t =>
        rw [hp] at hroom
        exact .inl ⟨rfl, hroom⟩
    · rw [hfull]
      cases hp : p m with
      | ok a t =>
        rw [hp] at hover
        exact .inr (Overflows.grow ⟨t', rfl, hover⟩ ((hf a).grows t))
      | error e t =>
        rw [hp] at hover
        exact .inr ⟨t', rfl, hover⟩

/-- A step that looks at its own state first, but not at the output. -/
theorem get {next : Interpreter → Eval α} (h : ∀ m, Limits n (next m))
    (hnext : ∀ m : Interpreter, next (m.limited n) = next m) :
    Limits n (MonadState.get >>= next) where
  grows m := (h m).grows m
  failure m := (h m).failure m
  limited m hlimit hsize := by
    show (next (m.limited n) (m.limited n) = limitedResult n (next m m) ∧
        (endState (next m m)).output.written.size ≤ n) ∨
      Overflows n (next (m.limited n) (m.limited n)) (endState (next m m)).output
    rw [hnext m]
    exact (h m).limited m hlimit hsize

/-- A step that changes the state, but not the output, keeps to the limit. -/
theorem modify {change : Interpreter → Interpreter} (houtput : ∀ m, (change m).output = m.output)
    (hchange : ∀ m : Interpreter, change (m.limited n) = (change m).limited n) :
    Limits n (modify change : Eval Unit) :=
  of_ok (fun _ => rfl) houtput (fun _ => rfl) hchange

/-- A step keeps to the limit in another environment if it does in its own. -/
theorem within (h : Limits n p) (env : Environment) : Limits n (Eval.within env p) := by
  constructor
  · intro m
    have hp := h.grows { m with current := env }
    unfold Eval.within
    cases hresult : p { m with current := env } <;> rw [hresult] at hp <;> exact hp
  · intro m t e hresult
    unfold Eval.within at hresult
    cases hp : p { m with current := env } with
    | ok a t' =>
      rw [hp] at hresult
      cases hresult
    | error e' t' =>
      rw [hp] at hresult
      cases hresult
      exact h.failure { m with current := env } t' e hp
  · intro m hlimit hsize
    have hp := h.limited { m with current := env } hlimit hsize
    have henter : { m.limited n with current := env } = { m with current := env }.limited n := rfl
    unfold Eval.within
    rw [henter]
    rcases hp with ⟨hsame, hroom⟩ | ⟨t', hfull, hover⟩
    · rw [hsame]
      cases hresult : p { m with current := env } <;> rw [hresult] at hroom <;> exact .inl ⟨rfl, hroom⟩
    · rw [hfull]
      cases hresult : p { m with current := env } <;> rw [hresult] at hover <;>
        exact .inr ⟨_, rfl, hover⟩

end Limits

end Steps

end Lox
