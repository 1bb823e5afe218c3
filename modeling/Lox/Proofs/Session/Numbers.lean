import Mathlib
import Lox.Proofs.Cursor.Programs
import Lox.Proofs.Resolution.Recorded
import Lox.Proofs.Session.Histories

/-!
# Numbers are given out once

A parse numbers the operands that it reads, in their order and without gaps, and a tree that it yields bears each
of these numbers once. A session hands on the number at which a line has stopped, also if the line is rejected.
So all numbers under which resolution records a distance are new to the table, which lives as long as the session.
-/

set_option autoImplicit false

namespace Lox

namespace Distances

/-- The entries that are recorded one after the other, each with the table that it comes to. -/
def insertions (d : Distances) : List (Occurrence × Nat) → List (Distances × Occurrence × Nat)
  | [] => []
  | (id, distance) :: rest => (d, id, distance) :: (d.insert id distance).insertions rest

/-- Behind the last entry the table is the one that all entries leave. -/
theorem insertAll_eq_getLast (d : Distances) (entries : List (Occurrence × Nat)) :
    d.insertAll entries = ((d.insertions entries).getLast?.map fun r => r.1.insert r.2.1 r.2.2).getD d := by
  induction entries generalizing d with
  | nil => rfl
  | cons entry rest ih =>
    obtain ⟨id, distance⟩ := entry
    refine (ih (d.insert id distance)).trans ?_
    rw [insertions, List.getLast?_cons]
    cases (insertions (d.insert id distance) rest).getLast? <;> rfl

/-- Entries under different numbers that are new to a table come one after the other to a table to which their
number is new. -/
theorem insertions_new {d : Distances} {entries : List (Occurrence × Nat)} (hids : (entries.map Prod.fst).Nodup)
    (hnew : ∀ entry ∈ entries, d.get? entry.1 = none) : ∀ r ∈ d.insertions entries, r.1.get? r.2.1 = none := by
  induction entries generalizing d with
  | nil => nofun
  | cons entry rest ih =>
    obtain ⟨id, distance⟩ := entry
    obtain ⟨hother, hrest⟩ := List.nodup_cons.mp hids
    obtain ⟨hfirst, hbehind⟩ := List.forall_mem_cons.mp hnew
    refine List.forall_mem_cons.mpr ⟨hfirst, ih hrest fun entry hentry => ?_⟩
    have hmem : entry.1 ∈ rest.map Prod.fst := List.mem_map_of_mem hentry
    have hne : entry.1 ≠ id := fun heq => hother (heq ▸ hmem)
    rw [get?_insert, if_neg hne]
    exact hbehind entry hentry

end Distances

/-- The numbers of sites that have distances are among those of all sites, in their order. -/
theorem Site.entries_sublist (sites : List Site) :
    ((sites.filterMap Site.entry?).map Prod.fst).Sublist (sites.map Site.id) := by
  induction sites with
  | nil => exact .slnil
  | cons site rest ih =>
    rw [List.filterMap_cons, Site.entry?]
    cases site.distance? with
    | none => exact ih.cons _
    | some distance => exact ih.cons_cons _

namespace Session

/-- What resolution records for a line, if no errors are found before; also if the line is rejected then. -/
def lineInsertions (s : Session) (source : String) : List (Distances × Occurrence × Nat) :=
  if (frontDiagnostics source (parsed source s.nextId)).isEmpty then
    s.interpreter.distances.insertions (resolve (parsed source s.nextId).statements).distances
  else []

/-- What resolution records for lines that a session runs. -/
def insertions (depth : Nat) (s : Session) : List String → List (Distances × Occurrence × Nat)
  | [] => []
  | source :: rest =>
    s.lineInsertions source ++
      match s.run depth source with
      | some (_, s') => s'.insertions depth rest
      | none => []

variable {R : Relabeling} {printed : ByteArray} {w : World} {s : Session} {n : Lexical.Machine}

/-- The numbers of a line are new to the table. -/
theorem Mirrors.lineInsertions_new (h : s.Mirrors R printed w n) (source : String) :
    ∀ r ∈ s.lineInsertions source, r.1.get? r.2.1 = none := by
  unfold lineInsertions
  split
  · rename_i hempty
    have hfront : frontDiagnostics source (parsed source s.nextId) = [] := List.isEmpty_iff.mp hempty
    have hnumbered := parsed_numbered hfront
    have hsublist := Site.entries_sublist (Stmt.sitesAll (parsed source s.nextId).statements [])
    rw [Stmt.sitesAll_map_id] at hsublist
    rw [resolve_distances hnumbered.wellFormed (names_ne_this hfront)]
    refine Distances.insertions_new ?_ fun entry hentry => ?_
    · exact hsublist.nodup (hnumbered.occurrences.nodup_iff.mpr List.nodup_range')
    · refine h.simulation.unrecorded _ ?_
      rw [h.nextId]
      exact (parsed_id_bounds hfront (hsublist.subset (List.mem_map_of_mem hentry))).1
  · nofun

/-- The numbers of all lines are new to the table. -/
theorem Mirrors.insertions_new (h : s.Mirrors R .empty w n) (depth : Nat) (lines : List String) :
    ∀ r ∈ s.insertions depth lines, r.1.get? r.2.1 = none := by
  induction lines generalizing s w n with
  | nil => nofun
  | cons source rest ih =>
    refine List.forall_mem_append.mpr ⟨h.lineInsertions_new source, ?_⟩
    split
    · rename_i outcome s' hrun
      obtain ⟨w', n', hmirrors, -⟩ := h.run hrun
      exact ih hmirrors
    · nofun

end Session

/-- Where the last token ends the input, a parse from any first number gives out the next numbers to the operands
that it reads as primary expressions, in the order of their positions; without errors, the tree bears each of
these numbers once, with its token, and no others. From another first number, the same is parsed with all
numbers shifted. So no distance that a session records is recorded under a number that the table holds already,
whatever lines it has run. -/
theorem numbers_given_once :
    (∀ tokens : List Token, tokens.getLast?.any (·.isEof) = true → ∀ i j : Occurrence,
      (∃ c, Reading.program tokens.length (Cursor.start tokens i) = .ok (Grammar.parse tokens i).statements c ∧
        Operand.InOrder tokens i 0 (tokens.findIdx (·.isEof)) c.operands ∧
        (Grammar.parse tokens i).nextId = i + c.operands.length ∧
        ((Grammar.parse tokens i).errors = [] →
          Stmt.bearersAll (Grammar.parse tokens i).statements = (c.operands.map Operand.use : List _))) ∧
      (Grammar.parse tokens j).errors = (Grammar.parse tokens i).errors ∧
      (Grammar.parse tokens j).statements =
        Stmt.relabelAll (.renumbering fun id => j + (id - i)) (Grammar.parse tokens i).statements ∧
      (Grammar.parse tokens j).nextId = j + ((Grammar.parse tokens i).nextId - i)) ∧
    ∀ (clock : Nat → Float) (output : Sink) (depth : Nat) (lines : List String),
      ∀ r ∈ (Session.fresh clock output).insertions depth lines, r.1.get? r.2.1 = none :=
  ⟨fun _ hlast i j => ⟨Cursor.numbers_of_parse hlast i, Cursor.parse_shifted hlast i j⟩,
    fun clock output depth lines => (Session.fresh_mirrors .id clock output).insertions_new depth lines⟩

/-- The tokens of `a = this;`. -/
def assignedThis : List Token :=
  [⟨.identifier, "a", 1⟩, ⟨.symbol .equal, "=", 1⟩, ⟨.keyword .this, "this", 1⟩, ⟨.symbol .semicolon, ";", 1⟩,
    .eofAt 1]

/-- An assignment bears the number of its target. A line that may not return leaves a distance in the table, and
the next line comes to new numbers. -/
theorem numbers_given_once_assigned :
    (∃ c : Cursor, Operand.InOrder assignedThis 3 0 4 c.operands ∧
      {(3, ⟨.identifier, "a", 1⟩)} + {(4, ⟨.keyword .this, "this", 1⟩)} =
        ((c.operands.map Operand.use : List _) : Multiset (Occurrence × Token))) ∧
    (Grammar.parse assignedThis 0).nextId = 2 ∧
    ((Session.fresh (fun _ => 0) .unlimited).insertions 9 ["{ var a; print a; return; }", "{ var b; b = b; }"]).map
      (fun r => (r.1.get? 0, r.2)) = [(none, 0, 0), (some 0, 2, 0), (some 0, 1, 0)] ∧
    ∀ r ∈ (Session.fresh (fun _ => 0) .unlimited).insertions 9 ["{ var a; print a; return; }", "{ var b; b = b; }"],
      r.1.get? r.2.1 = none := by
  obtain ⟨⟨c, -, horder, -, hbearers⟩, -, -, hnext⟩ := numbers_given_once.1 assignedThis rfl 3 0
  have hparse : (Grammar.parse assignedThis 3).nextId = 5 := rfl
  rw [hparse] at hnext
  exact ⟨⟨c, horder, hbearers rfl⟩, hnext, by cbv, numbers_given_once.2 _ _ 9 _⟩

end Lox
