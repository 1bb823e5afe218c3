import Lox.Session
import Lox.Proofs.Grammar.Language
import Lox.Proofs.Grammar.Names
import Lox.Proofs.Grammar.StatementYields
import Lox.Proofs.Resolution.Accepted
import Lox.Proofs.Resolution.Numbering
import Lox.Proofs.Token.Spelling

/-!
# Accepted sources

A source is accepted if scanning, parsing and resolution find no errors in it. What this says about the
program that then runs is collected here: it is resolved, its sites have numbers of their own from the
range that the parse has handed out, and their distances are what resolution recorded.
-/

set_option autoImplicit false

namespace Lox

open Grammar

/-- A parse leaves the errors and the numbers of `program`. -/
theorem parse_eq (tokens : List Token) (firstId : Occurrence) :
    ∃ rest last,
      (∀ t ∈ last :: rest, t ∈ tokens ∨ t = .eofAt 1) ∧
      Grammar.parse tokens firstId =
        match program rest.length ⟨rest, last, firstId, []⟩ with
        | .ok statements s => ⟨statements, s.errors, s.nextId⟩
        | .error e s => ⟨[], s.errors ++ [e], s.nextId⟩ := by
  refine ⟨tokens.takeWhile (!·.isEof), (tokens.find? (·.isEof)).getD (.eofAt 1), fun t ht => ?_, rfl⟩
  rcases List.mem_cons.mp ht with rfl | ht
  · cases hfound : tokens.find? (·.isEof) with
    | none => exact .inr rfl
    | some t => exact .inl (List.mem_of_find?_eq_some hfound)
  · exact .inl ((List.takeWhile_prefix _).subset ht)

/-- A parse hands out numbers from the first one on. -/
theorem le_parse_nextId (tokens : List Token) (firstId : Occurrence) :
    firstId ≤ (Grammar.parse tokens firstId).nextId := by
  obtain ⟨rest, last, -, heq⟩ := parse_eq tokens firstId
  have hprogram := program_yields rest.length ⟨rest, last, firstId, []⟩
  rw [heq]
  cases hrun : program rest.length ⟨rest, last, firstId, []⟩ with
  | ok statements s =>
    rw [hrun] at hprogram
    exact hprogram.1.nextId
  | error e s =>
    rw [hrun] at hprogram
    exact hprogram.nextId

/-- A parse without errors yields a program that carries the numbers handed out. -/
theorem parse_numbered (tokens : List Token) (firstId : Occurrence)
    (hspelled : ∀ t ∈ tokens, t.Spelled) (h : (Grammar.parse tokens firstId).errors = []) :
    Stmt.AllNumbered
      (List.range' firstId ((Grammar.parse tokens firstId).nextId - firstId))
      (Grammar.parse tokens firstId).statements := by
  obtain ⟨rest, last, htokens, heq⟩ := parse_eq tokens firstId
  have hprogram := program_yields rest.length ⟨rest, last, firstId, []⟩
  rw [heq] at h ⊢
  cases hrun : program rest.length ⟨rest, last, firstId, []⟩ with
  | ok statements s =>
    rw [hrun] at hprogram h
    refine hprogram.2 (fun t ht => ?_) h
    rcases htokens t ht with hmem | rfl
    · exact hspelled t hmem
    · exact ⟨(fun hkind => by cases hkind), (fun hkind => by cases hkind)⟩
  | error e s =>
    rw [hrun] at h
    simp at h

/-- The parse of a source whose occurrences are numbered from `firstId` on. -/
abbrev parsed (source : String) (firstId : Occurrence) : Parsed :=
  Grammar.parse (Scan.tokens source) firstId

/-- Nothing is found in front of resolution if neither scanning nor parsing finds an error. -/
theorem frontDiagnostics_eq_nil_iff {source : String} {p : Grammar.Parsed} :
    frontDiagnostics source p = [] ↔ Scan.errors source = [] ∧ p.errors = [] := by
  simp [frontDiagnostics]

/-- A source that scans and parses without errors carries the numbers that were handed out. -/
theorem parsed_numbered {source : String} {firstId : Occurrence}
    (h : frontDiagnostics source (parsed source firstId) = []) : Stmt.AllNumbered
    (List.range' firstId ((parsed source firstId).nextId - firstId))
    (parsed source firstId).statements := by
  refine parse_numbered _ _ (fun t ht => Scan.spelled_of_mem_tokens ht) ?_
  exact (frontDiagnostics_eq_nil_iff.mp h).2

/-- The numbers of a source are in the range that was handed out. -/
theorem parsed_id_bounds {source : String} {firstId id : Occurrence}
    (h : frontDiagnostics source (parsed source firstId) = [])
    (hid : id ∈ Stmt.occurrencesAll (parsed source firstId).statements) :
    firstId ≤ id ∧ id < (parsed source firstId).nextId := by
  obtain ⟨hle, hlt⟩ := List.mem_range'_1.mp ((parsed_numbered h).occurrences.subset hid)
  exact ⟨hle, by rwa [Nat.add_sub_of_le (le_parse_nextId _ _)] at hlt⟩

/-- What is known of the names among tokens is known of the names in their program. -/
theorem names_of_parse {tokens : List Token} {firstId : Occurrence}
    (h : (Grammar.parse tokens firstId).errors = []) {p : Token → Prop} (hp : NamesAre p tokens) :
    ∀ t ∈ Stmt.namesAll (Grammar.parse tokens firstId).statements, p t := by
  have hprogram := program_of_parse h
  rw [← Stmt.namesAll_anonymous]
  exact (hprogram.names_are fun t ht => hp t ((List.takeWhile_prefix _).subset ht)).2

/-- What is known of the names among the tokens of a source is known of the names in its program. -/
theorem names_of_parsed {source : String} {firstId : Occurrence}
    (h : frontDiagnostics source (parsed source firstId) = []) {p : Token → Prop}
    (hp : NamesAre p (Scan.tokens source)) :
    ∀ t ∈ Stmt.namesAll (parsed source firstId).statements, p t :=
  names_of_parse ((frontDiagnostics_eq_nil_iff.mp h).2) hp

/-- No name in a program is `this`. -/
theorem names_ne_this {source : String} {firstId : Occurrence}
    (h : frontDiagnostics source (parsed source firstId) = []) :
    ∀ t ∈ Stmt.namesAll (parsed source firstId).statements, t.lexeme ≠ thisName :=
  names_of_parsed h fun _ ht hidentifier => (Scan.spelled_of_mem_tokens ht).identifier hidentifier

/-- The diagnostics with which a source is rejected: those of resolution only if there are no others. -/
def rejection (source : String) (firstId : Occurrence) : List Diagnostic :=
  if (frontDiagnostics source (parsed source firstId)).isEmpty then
    (resolve (parsed source firstId).statements).errors.map (·.diagnostic)
  else frontDiagnostics source (parsed source firstId)

/-- No error is found in a source before it runs. -/
structure Accepted (source : String) (firstId : Occurrence) : Prop where
  front : frontDiagnostics source (parsed source firstId) = []
  resolved : (resolve (parsed source firstId).statements).errors = []

namespace Accepted

variable {source : String} {firstId : Occurrence} (h : Accepted source firstId)
include h

/-- The sites of an accepted program, and what is recorded of them. -/
theorem yields : Resolution.Yields .empty (resolve (parsed source firstId).statements)
    (Stmt.sitesAll (parsed source firstId).statements []) []
    (fun plan => Stmt.AllResolved plan (parsed source firstId).statements []) :=
  resolve_yields _ (parsed_numbered h.front).wellFormed h.resolved

/-- Resolution of an accepted program records the distances of all its sites. -/
theorem distances : (resolve (parsed source firstId).statements).distances =
    (Stmt.sitesAll (parsed source firstId).statements []).filterMap Site.entry? := by
  rw [h.yields.eq]
  rfl

/-- The sites have numbers of their own. -/
theorem sites_nodup : ((Stmt.sitesAll (parsed source firstId).statements []).map Site.id).Nodup := by
  rw [Stmt.sitesAll_map_id]
  exact (parsed_numbered h.front).occurrences.nodup_iff.mpr List.nodup_range'

/-- The sites of an accepted program bear numbers that its parse has given out. -/
theorem site_id_bounds {site : Site}
    (hsite : site ∈ Stmt.sitesAll (parsed source firstId).statements []) :
    firstId ≤ site.id ∧ site.id < (parsed source firstId).nextId := by
  refine parsed_id_bounds h.front ?_
  rw [← Stmt.sitesAll_map_id _ []]
  exact List.mem_map_of_mem hsite

end Accepted

end Lox
