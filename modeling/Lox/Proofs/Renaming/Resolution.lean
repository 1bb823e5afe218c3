import Lox.Proofs.Renaming.Alike
import Lox.Proofs.Resolution.Accepted

/-!
# Renaming keeps the distances

A program and its version with a variable renamed are resolved in lockstep: in each scope the second binds
what the first binds, with the two names changed where the scope is marked. So every use finds its scope
at the same distance, and nothing is reported for the second if nothing is for the first.

The use of a name is renamed by the distance that was recorded for it. At the use, this is the distance
at which its name is found in the open scopes.
-/

set_option autoImplicit false

namespace Lox

variable {r : Renaming} {marks : Marks}

/-- Scopes bind what the first scopes bind, under the names they have then. -/
def LocalScopes.Renamed (r : Renaming) : Marks → LocalScopes → LocalScopes → Prop
  | _, [], [] => True
  | marks, scope :: outer, scope' :: outer' =>
    scope.get? r.new = none ∧ (∀ x, scope'.get? (r.key (marks 0) x) = scope.get? x) ∧
      LocalScopes.Renamed r (fun distance => marks (distance + 1)) outer outer'
  | _, _, _ => False

namespace LocalScopes.Renamed

variable {scopes scopes' outer outer' : LocalScopes} {scope scope' : Bindings Bool}

/-- A scope is opened in both programs, with the same names but for the renaming. -/
theorem enter (h : Renamed r marks outer outer') {marked : Bool} (hnew : scope.get? r.new = none)
    (hnames : ∀ x, scope'.get? (r.key marked x) = scope.get? x) :
    Renamed r (marks.enter marked) (scope :: outer) (scope' :: outer') := ⟨hnew, hnames, h⟩

/-- Behind the innermost scope, the scopes outside of it are renamed. -/
theorem tail {marked : Bool} (h : Renamed r (marks.enter marked) scopes scopes') :
    Renamed r marks scopes.tail scopes'.tail := by
  cases scopes <;> cases scopes'
  · trivial
  · exact h.elim
  · exact h.elim
  · exact h.2.2

/-- In the innermost scope, a use finds what it found there. -/
theorem get?_head (h : Renamed r marks (scope :: outer) (scope' :: outer')) {x : String}
    (hx : x ≠ r.new) :
    scope'.get? (r.key ((Resolution.distance? x (scope :: outer)).any marks) x) = scope.get? x := by
  obtain ⟨hnew, hnames, -⟩ := h
  cases hget : scope.get? x with
  | some status =>
    have hdistance : Resolution.distance? x (scope :: outer) = some 0 := by
      rw [LocalScopes.distance?_cons, Bindings.binds, hget]
      rfl
    rw [hdistance, Option.any_some, hnames, hget]
  | none =>
    -- the name was not in this scope, and neither was the new one
    rw [← r.key_key (marks 0) (r.key _ x), hnames]
    have hname (marked : Bool) : r.key (marks 0) (r.key marked x) = x ∨
        r.key (marks 0) (r.key marked x) = r.new := by
      unfold Renaming.key
      grind
    rcases hname ((Resolution.distance? x (scope :: outer)).any marks) with heq | heq
    · rw [heq, hget]
    · rw [heq, hnew]

/-- A use finds its scope at the same distance. -/
theorem distance? (h : Renamed r marks scopes scopes') {x : String} (hx : x ≠ r.new) :
    Resolution.distance? (r.key ((Resolution.distance? x scopes).any marks) x) scopes' =
      Resolution.distance? x scopes := by
  induction scopes generalizing marks scopes' with
  | nil =>
    cases scopes' with
    | nil => rfl
    | cons scope' outer' => exact h.elim
  | cons scope outer ih =>
    cases scopes' with
    | nil => exact h.elim
    | cons scope' outer' =>
      have hhead := h.get?_head hx
      have houter := ih h.2.2
      rw [LocalScopes.distance?_cons] at hhead ⊢
      rw [LocalScopes.distance?_cons, Bindings.binds, hhead, ← Bindings.binds]
      cases hbinds : scope.binds x with
      | true => rfl
      | false =>
        rw [hbinds] at hhead
        simp only [Bool.false_eq_true, if_false, Option.any_map] at houter ⊢
        exact congrArg _ houter

end LocalScopes.Renamed

namespace Resolution

/-- One resolution does to a program what the other does to its renamed version, both without errors. -/
structure Renamed (r : Renaming) (marks : Marks) (r₁ r₂ : Resolution) : Prop where
  scopes : LocalScopes.Renamed r marks r₁.scopes r₂.scopes
  distances : r₂.distances = r₁.distances
  clean : r₁.errors = []
  clean' : r₂.errors = []

/-- What reports nothing in the end has reported nothing before. -/
theorem Extends.clean {ids : List Occurrence} {r r' : Resolution} (h : Extends ids r r')
    (hclean : r'.errors = []) : r.errors = [] :=
  List.prefix_nil.mp (hclean ▸ h.errors)

/-- A resolution without errors has added none. -/
theorem Extends.clean_eq {ids : List Occurrence} {r r' : Resolution} (h : Extends ids r r')
    (hclean : r'.errors = []) : r'.errors = r.errors := hclean.trans (h.clean hclean).symm

namespace Renamed

variable {r₁ r₂ : Resolution} {name : Token}

/-- Both resolutions enter scopes with the same names but for the renaming. -/
theorem enter (h : Renamed r marks r₁ r₂) {marked : Bool} {names names' : Bindings Bool}
    (hnew : names.get? r.new = none) (hnames : ∀ x, names'.get? (r.key marked x) = names.get? x) :
    Renamed r (marks.enter marked) (r₁.enter names) (r₂.enter names') :=
  ⟨h.scopes.enter hnew hnames, h.distances, h.clean, h.clean'⟩

/-- Both resolutions leave their innermost scopes. -/
theorem leave {marked : Bool} (h : Renamed r (marks.enter marked) r₁ r₂) :
    Renamed r marks r₁.leave r₂.leave :=
  ⟨h.scopes.tail, h.distances, h.clean, h.clean'⟩

/-- Names of a scope that get the same value stay the same names. -/
theorem put_renamed {marked : Bool} {scope scope' : Bindings Bool}
    (hnames : ∀ x, scope'.get? (r.key marked x) = scope.get? x) (x : String) (status : Bool)
    (y : String) :
    (scope'.put (r.key marked x) status).get? (r.key marked y) = (scope.put x status).get? y := by
  rw [Bindings.get?_put, Bindings.get?_put, hnames]
  by_cases heq : x = y
  · rw [if_pos heq, if_pos (congrArg _ heq)]
  · rw [if_neg heq, if_neg (fun h => heq (r.key_injective h))]

/-- Both resolutions declare a name, if this is no error in the first. -/
theorem declare (h : Renamed r marks r₁ r₂) (hname : name.lexeme ≠ r.new)
    (hclean : (r₁.declare name).errors = []) :
    Renamed r marks (r₁.declare name) (r₂.declare (r.token (marks 0) name)) := by
  obtain ⟨hscopes, hdistances, hclean₁, hclean₂⟩ := h
  unfold Resolution.declare at hclean ⊢
  cases h₁ : r₁.scopes with
  | nil =>
    cases h₂ : r₂.scopes with
    | nil => exact ⟨hscopes, hdistances, hclean₁, hclean₂⟩
    | cons scope' outer' =>
      rw [h₁, h₂] at hscopes
      exact hscopes.elim
  | cons scope outer =>
    cases h₂ : r₂.scopes with
    | nil =>
      rw [h₁, h₂] at hscopes
      exact hscopes.elim
    | cons scope' outer' =>
      rw [h₁, h₂] at hscopes
      obtain ⟨hnew, hnames, houter⟩ := hscopes
      rw [h₁] at hclean
      have hbinds : scope'.binds (r.token (marks 0) name).lexeme = scope.binds name.lexeme := by
        rw [r.token_lexeme _ hname, Bindings.binds, hnames, Bindings.binds]
      cases hbound : scope.binds name.lexeme with
      | true => simp [hbound, report] at hclean
      | false =>
        simp only [hbinds, hbound, Bool.false_eq_true, if_false]
        refine ⟨⟨?_, fun x => ?_, houter⟩, hdistances, hclean₁, hclean₂⟩
        · rw [Bindings.get?_put, if_neg hname, hnew]
        · rw [r.token_lexeme _ hname]
          exact put_renamed hnames name.lexeme false x

/-- Both resolutions complete the declaration of a name. -/
theorem define (h : Renamed r marks r₁ r₂) (hname : name.lexeme ≠ r.new) :
    Renamed r marks (r₁.define name) (r₂.define (r.token (marks 0) name)) := by
  obtain ⟨hscopes, hdistances, hclean₁, hclean₂⟩ := h
  unfold Resolution.define
  cases h₁ : r₁.scopes with
  | nil =>
    cases h₂ : r₂.scopes with
    | nil => exact ⟨hscopes, hdistances, hclean₁, hclean₂⟩
    | cons scope' outer' =>
      rw [h₁, h₂] at hscopes
      exact hscopes.elim
  | cons scope outer =>
    cases h₂ : r₂.scopes with
    | nil =>
      rw [h₁, h₂] at hscopes
      exact hscopes.elim
    | cons scope' outer' =>
      rw [h₁, h₂] at hscopes
      obtain ⟨hnew, hnames, houter⟩ := hscopes
      refine ⟨⟨?_, fun x => ?_, houter⟩, hdistances, hclean₁, hclean₂⟩
      · rw [Bindings.get?_put, if_neg hname, hnew]
      · rw [r.token_lexeme _ hname]
        exact put_renamed hnames name.lexeme true x

/-- Both resolutions declare a name and complete this, if it is no error in the first. -/
theorem introduce (h : Renamed r marks r₁ r₂) (hname : name.lexeme ≠ r.new)
    (hclean : (r₁.introduce name).errors = []) :
    Renamed r marks (r₁.introduce name) (r₂.introduce (r.token (marks 0) name)) :=
  (h.declare hname ((define_extends _ [] name).clean hclean)).define hname

/-- Both resolutions introduce parameters, if this is no error in the first. -/
theorem introduceAll (h : Renamed r marks r₁ r₂) (params : List Token)
    (hparams : ∀ p ∈ params, p.lexeme ≠ r.new)
    (hclean : (params.foldl (fun r p => r.introduce p) r₁).errors = []) :
    Renamed r marks (params.foldl (fun r p => r.introduce p) r₁)
      ((params.map (r.token (marks 0))).foldl (fun r p => r.introduce p) r₂) := by
  induction params generalizing r₁ r₂ with
  | nil => exact h
  | cons p rest ih =>
    obtain ⟨hp, hrest⟩ := List.forall_mem_cons.mp hparams
    exact ih (h.introduce hp ((introduceAll_extends _ [] rest).clean hclean)) hrest hclean

/-- A use is located at the same distance. -/
theorem locate (h : Renamed r marks r₁ r₂) (id : Occurrence) (hname : name.lexeme ≠ r.new)
    (hrecorded : r.distances.get? id = distance? name.lexeme r₁.scopes) :
    Renamed r marks (r₁.locate id name) (r₂.locate id (r.use marks id name)) := by
  have hfound := h.scopes.distance? hname
  rw [← hrecorded, ← r.token_lexeme _ hname] at hfound
  unfold Resolution.locate
  rw [Renaming.use, hfound, hrecorded]
  cases distance? name.lexeme r₁.scopes with
  | none => exact h
  | some distance => exact ⟨h.scopes, by rw [h.distances], h.clean, h.clean'⟩

/-- What is not renamed is located at the same distance. -/
theorem locate_this (h : Renamed r marks r₁ r₂) (hthis : r.SparesThis) (id : Occurrence)
    (hname : name.lexeme = thisName) : Renamed r marks (r₁.locate id name) (r₂.locate id name) := by
  have hfound := h.scopes.distance? (x := name.lexeme) (by rw [hname]; exact hthis.2.symm)
  rw [r.key_of_ne (fun _ => by rw [hname]; exact hthis.1.symm) (by rw [hname]; exact hthis.2.symm)]
    at hfound
  unfold Resolution.locate
  rw [hfound]
  cases distance? name.lexeme r₁.scopes with
  | none => exact h
  | some distance => exact ⟨h.scopes, by rw [h.distances], h.clean, h.clean'⟩

/-- A use is read in the initializer of its variable in both, or in neither. -/
theorem isPending (h : Renamed r marks r₁ r₂) {id : Occurrence} (hname : name.lexeme ≠ r.new)
    (hrecorded : r.distances.get? id = distance? name.lexeme r₁.scopes) :
    r₂.isPending (r.use marks id name).lexeme = r₁.isPending name.lexeme := by
  have hscopes := h.scopes
  rw [Renaming.use, hrecorded, r.token_lexeme _ hname]
  unfold Resolution.isPending
  cases h₁ : r₁.scopes with
  | nil =>
    cases h₂ : r₂.scopes with
    | nil => rfl
    | cons scope' outer' =>
      rw [h₁, h₂] at hscopes
      exact hscopes.elim
  | cons scope outer =>
    cases h₂ : r₂.scopes with
    | nil =>
      rw [h₁, h₂] at hscopes
      exact hscopes.elim
    | cons scope' outer' =>
      rw [h₁, h₂] at hscopes
      dsimp only
      rw [hscopes.get?_head hname]

/-- A return statement is checked alike. -/
theorem checkReturn (h : Renamed r marks r₁ r₂) {around : Surroundings} {keyword : Token} {hasValue : Bool}
    (hclean : (checkReturn around keyword hasValue r₁).errors = []) :
    Renamed r marks (checkReturn around keyword hasValue r₁) (checkReturn around keyword hasValue r₂) := by
  unfold Lox.checkReturn at hclean ⊢
  cases hbody : around.body with
  | program => simp [hbody, report] at hclean
  | function => exact h
  | initializer =>
    cases hasValue with
    | true => simp [hbody, report] at hclean
    | false => exact h

end Renamed

end Resolution

end Lox
