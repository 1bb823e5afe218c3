import Lox.Proofs.Simulation.Evaluation

/-!
# Programs are lexical

A program runs from the top level, where its declarations are global on both sides. Before it runs, the
interpreter takes over the distances of its sites. These must be new: the program has occurrence numbers
of its own, and no distance was recorded under one of them.
-/

set_option autoImplicit false

namespace Lox

namespace Distances

/-- A distance that was recorded is found, and every other one is as before. -/
theorem get?_insert (d : Distances) (id id' : Occurrence) (distance : Nat) :
    (d.insert id distance).get? id' = if id' = id then some distance else d.get? id' := by
  unfold insert get?
  by_cases heq : id' = id
  · subst heq
    rw [if_pos rfl, Array.getElem?_setIfInBounds_self_of_lt (by simp; omega)]
    rfl
  · rw [if_neg heq, Array.getElem?_setIfInBounds_ne (Ne.symm heq), Array.getElem?_append]
    split
    · rfl
    · rename_i hsize
      rw [Array.getElem?_eq_none (Nat.le_of_not_lt hsize), Array.getElem?_replicate]
      split <;> rfl

/-- A distance that is not among those recorded is as before. -/
theorem get?_insertAll_of_not_mem (d : Distances) (entries : List (Occurrence × Nat))
    {id : Occurrence} (h : ∀ entry ∈ entries, entry.1 ≠ id) :
    (d.insertAll entries).get? id = d.get? id := by
  induction entries generalizing d with
  | nil => rfl
  | cons entry rest ih =>
    obtain ⟨hne, hrest⟩ := List.forall_mem_cons.mp h
    exact (ih _ hrest).trans ((d.get?_insert _ _ _).trans (if_neg (Ne.symm hne)))

/-- Of sites with numbers of their own, the distances are recorded under these numbers. -/
theorem get?_insertAll_sites (d : Distances) (sites : List Site)
    (hnodup : (sites.map Site.id).Nodup) (hfree : ∀ site ∈ sites, d.get? site.id = none)
    {site : Site} (hsite : site ∈ sites) :
    (d.insertAll (sites.filterMap Site.entry?)).get? site.id = site.distance? := by
  induction sites generalizing d with
  | nil => cases hsite
  | cons first rest ih =>
    obtain ⟨hnew, hrest⟩ := List.nodup_cons.mp hnodup
    have hother (other : Site) (hmem : other ∈ rest) : other.id ≠ first.id :=
      fun heq => hnew (heq ▸ List.mem_map_of_mem hmem)
    have hbehind : ∀ entry ∈ rest.filterMap Site.entry?, entry.1 ≠ first.id := by
      intro entry hentry
      obtain ⟨other, hmem, hentry⟩ := List.mem_filterMap.mp hentry
      obtain ⟨distance, -, rfl⟩ := Option.map_eq_some_iff.mp hentry
      exact hother other hmem
    cases hdistance : first.distance? with
    | none =>
      rw [List.filterMap_cons_none (by rw [Site.entry?, hdistance]; rfl)]
      rcases List.mem_cons.mp hsite with rfl | hmem
      · rw [get?_insertAll_of_not_mem d _ hbehind, hdistance]
        exact hfree site (List.mem_cons_self ..)
      · exact ih d hrest (fun other hother => hfree other (List.mem_cons_of_mem _ hother)) hmem
    | some distance =>
      have hentry : first.entry? = some (first.id, distance) := by rw [Site.entry?, hdistance]; rfl
      rw [List.filterMap_cons_some hentry]
      show ((d.insert first.id distance).insertAll _).get? site.id = _
      rcases List.mem_cons.mp hsite with rfl | hmem
      · rw [get?_insertAll_of_not_mem _ _ hbehind, get?_insert, if_pos rfl, hdistance]
      · refine ih _ hrest (fun other hmem' => ?_) hmem
        rw [get?_insert, if_neg (hother other hmem')]
        exact hfree other (List.mem_cons_of_mem _ hmem')

end Distances

/-- The world in which a program is started. -/
def World.planning (w : World) (sites : List Site) (nextId : Occurrence) : World :=
  { w with plan := w.plan ++ sites, nextId }

/-- A world with more sites planned extends the one before. -/
theorem World.extends_planning (w : World) (sites : List Site) (nextId : Occurrence) :
    w.Extends (w.planning sites nextId) :=
  ⟨Nat.le_refl _, fun _ _ _ h => h, fun _ _ h => h, List.subset_append_left _ _⟩

variable {R : Relabeling} {printed : ByteArray} {frozen : ScopeId} {w : World} {env : Environment}
  {m : Interpreter} {n : Lexical.Machine}

/-- Distances under new numbers are recorded. -/
theorem Simulation.record (h : Simulation R printed w m n) {nextId : Occurrence}
    (hnextId : w.nextId ≤ nextId) {entries : List (Occurrence × Nat)}
    (hentries : ∀ entry ∈ entries, w.nextId ≤ entry.1 ∧ entry.1 < nextId) :
    Simulation R printed { w with nextId } (m.learn entries) n :=
  have hw : w.Extends { w with nextId } :=
    ⟨Nat.le_refl _, fun _ _ _ h => h, fun _ _ h => h, fun _ h => h⟩
  { h with
    distances := fun site hsite =>
      (Distances.get?_insertAll_of_not_mem _ _ fun entry hentry =>
        Nat.ne_of_gt (Nat.lt_of_lt_of_le (h.numbered site hsite) (hentries entry hentry).1)).trans
      (h.distances site hsite)
    numbered := fun site hsite => Nat.lt_of_lt_of_le (h.numbered site hsite) hnextId
    unrecorded := fun id hid =>
      (Distances.get?_insertAll_of_not_mem _ _ fun entry hentry =>
        Nat.ne_of_lt (Nat.lt_of_lt_of_le (hentries entry hentry).2 hid)).trans
      (h.unrecorded id (Nat.le_trans hnextId hid))
    natives := h.natives.mono hw
    globals := h.globals.mono hw
    cells := fun scope x l hl => (h.cells scope x l hl).mono hw
    fields := fun i => (h.fields i).mono hw }

/-- The interpreter takes over the distances of new sites. -/
theorem Simulation.learn (h : Simulation R printed w m n) {nextId : Occurrence}
    (hnextId : w.nextId ≤ nextId) {sites : List Site} (hsettled : ∀ site ∈ sites, site.Settled)
    (hnodup : (sites.map Site.id).Nodup)
    (hsites : ∀ site ∈ sites, w.nextId ≤ site.id ∧ site.id < nextId) :
    Simulation R printed (w.planning sites nextId) (m.learn (sites.filterMap Site.entry?)) n := by
  have hw := w.extends_planning sites nextId
  have hrecorded := h.record hnextId (fun entry (hentry : entry ∈ sites.filterMap Site.entry?) => by
    obtain ⟨site, hsite, hentry⟩ := List.mem_filterMap.mp hentry
    obtain ⟨distance, -, rfl⟩ := Option.map_eq_some_iff.mp hentry
    exact hsites site hsite)
  exact
    { hrecorded with
      distances := List.forall_mem_append.mpr ⟨hrecorded.distances, fun site hsite =>
        Distances.get?_insertAll_sites _ sites hnodup
          (fun site hsite => h.unrecorded _ (hsites site hsite).1) hsite⟩
      settled := List.forall_mem_append.mpr ⟨h.settled, hsettled⟩
      numbered := List.forall_mem_append.mpr
        ⟨hrecorded.numbered, fun site hsite => (hsites site hsite).2⟩
      natives := h.natives.mono hw
      globals := h.globals.mono hw
      cells := fun scope x l hl => (h.cells scope x l hl).mono hw
      fields := fun i => (h.fields i).mono hw }

/-- Top-level statements run alike. -/
theorem executeProgram_simulates (depth : Nat) (ss : List Stmt)
    (hresolved : Stmt.AllResolved w.plan ss []) :
    Simulates R printed 0 w .outermost (executeProgram (execute depth) ss)
      (Lexical.executeProgram (Lexical.execute depth []) (Stmt.relabelAll R ss))
      (fun _ _ _ => True) := by
  induction ss generalizing w with
  | nil => exact .pure trivial
  | cons s rest ih =>
    have hscoped : w.Scoped (LocalScopes.entering s []) .outermost [] :=
      (LocalScopes.entering_nil s).symm ▸ w.scoped_outermost
    refine ((agreement R printed depth).execute s (Nat.zero_le _) hscoped hresolved.1).bind
      fun w₁ _ _ hw₁ _ => ih ?_
    exact (LocalScopes.after_nil s ▸ hresolved.2).mono hw₁.plan

/-- Related sinks are flushed alike. -/
theorem flush_simulates :
    Simulates R printed frozen w env Eval.flush Lexical.flush (fun _ _ _ => True) := by
  intro m n hsim hcurrent
  have hflush : n.output.flush = m.output.flush := by
    rw [hsim.output.eq]
    rfl
  unfold Eval.flush Lexical.flush
  rw [hflush]
  cases m.output.flush with
  | none => exact ⟨hcurrent, w, .refl frozen w, hsim, trivial⟩
  | some e => exact ⟨hcurrent, rfl, w, .refl frozen w, hsim⟩

/-- The end of a flush behind the failure `e`. -/
def flushedBehind {S : Type} (e : Halt) : EStateM.Result Halt S Unit → EStateM.Result Halt S Unit
  | .ok () s => .error e s
  | .error e' s => .error e' s

/-- A failure before the flush stays, unless the flush fails too. -/
theorem Agrees.fails {post : World → Unit → Unit → Prop}
    {result : EStateM.Result Halt Interpreter Unit}
    {result' : EStateM.Result Halt Lexical.Machine Unit}
    (h : Agrees R printed frozen w env post result result') (e : Halt) :
    Agrees R printed frozen w env (fun _ _ _ => True) (flushedBehind e result)
      (flushedBehind (e.relabel R) result') := by
  cases result with
  | ok a m =>
    cases result' with
    | ok b n =>
      obtain ⟨hcurrent, w', hgrown, hsim, -⟩ := h
      exact ⟨hcurrent, rfl, w', hgrown, hsim⟩
    | error e' n => exact h.elim
  | error e m =>
    cases result' with
    | ok b n => exact h.elim
    | error e' n => exact h

/-- Programs run alike, and leave the program at the top level. -/
theorem interpret_agrees (h : Simulation R printed w m n) (depth : Nat) (program : List Stmt)
    (hresolved : Stmt.AllResolved w.plan program []) :
    Agrees R printed 0 w .outermost (fun _ _ _ => True) (interpret depth program m)
      (Lexical.interpret depth (Stmt.relabelAll R program) n) := by
  have hrun : Agrees R printed 0 w .outermost (fun _ _ _ => True)
      (executeProgram (execute depth) program { m with current := m.topLevel })
      (Lexical.executeProgram (Lexical.execute depth []) (Stmt.relabelAll R program) n) :=
    executeProgram_simulates depth program hresolved _ n (h.within _) h.topLevel
  unfold interpret Lexical.interpret
  generalize executeProgram (execute depth) program { m with current := m.topLevel } = result,
    Lexical.executeProgram (Lexical.execute depth []) (Stmt.relabelAll R program) n = result'
    at hrun ⊢
  cases result with
  | ok a m' =>
    cases result' with
    | error e' n' => exact hrun.elim
    | ok b n' =>
      obtain ⟨hcurrent, w', hw, hsim, -⟩ := hrun
      exact (flush_simulates m' n' hsim hcurrent).grow (Nat.le_refl _) hw (fun _ _ _ _ h => h)
  | error e m' =>
    cases result' with
    | ok b n' => exact hrun.elim
    | error e' n' =>
      obtain ⟨hcurrent, rfl, w', hw, hsim⟩ := hrun
      have hflushed : Agrees R printed 0 w' .outermost (fun _ (_ _ : Unit) => True)
          (Eval.flush { m' with current := m'.topLevel }) (Lexical.flush n') :=
        flush_simulates _ _ (hsim.within _) hsim.topLevel
      have hend := hflushed.grow (Nat.le_refl _) hw (fun _ _ _ _ h => h)
      cases e with
      | exhausted => exact ⟨hcurrent, rfl, w', hw, hsim⟩
      | failed failure =>
        have hfailed := hend.fails (.failed failure)
        simp only [Halt.relabel] at hfailed ⊢
        generalize Eval.flush { m' with current := m'.topLevel } = flushed,
          Lexical.flush n' = flushed' at hfailed ⊢
        cases flushed <;> cases flushed' <;> exact hfailed

end Lox
