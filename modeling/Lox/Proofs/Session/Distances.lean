import Mathlib
import Lox.Proofs.Session.Histories
import Lox.Proofs.Visits.Observation

/-!
# Recorded distances never miss

Whatever lines a session has run, a line that is accepted visits each of its names, and each name of a
function or method that earlier lines left behind, in an environment that fits the scopes that resolution
saw there. So the environment at a recorded distance is never outside all local scopes, and binds the
name.
-/

set_option autoImplicit false

namespace Lox

namespace Session

/-- The visits of a line, if it is accepted. -/
def visits (depth : Nat) (s : Session) (source : String) : List Visit :=
  if Accepted source s.nextId then
    Visits.interpret depth (parsed source s.nextId).statements
      (s.emptied.learn (resolve (parsed source s.nextId).statements).distances)
  else []

end Session

/-- In a session, every visit is sound for a site of an accepted line: the environment has one link for
each scope that resolution saw, what is read at a recorded distance is bound there, and so is what is
assigned there, but for a variable in its own initializer. -/
theorem Session.visit_sound {depth : Nat} {clock : Nat → Float} {output : Sink}
    {history : List String} {outcomes : List Outcome} {s : Session}
    (hrun : (Session.fresh clock output).runAll depth history = some (outcomes, s)) {source : String}
    {v : Visit} (hv : v ∈ s.visits depth source) :
    ∃ site ∈ (Session.fresh clock output).sites depth (history ++ [source]), v.Sound site := by
  obtain ⟨w, n, hmirrors, hplan⟩ := (Session.fresh_mirrors .id clock output).runAll hrun
  unfold Session.visits at hv
  split at hv
  · rename_i haccepted
    have hstarted := hmirrors.started (RelatesOutput.refl _) haccepted
    obtain ⟨site, hsite, hsound⟩ := interpret_observes hstarted depth _
      (haccepted.yields.resolved _ (List.subset_append_right _ _)) v hv
    refine ⟨site, ?_, hsound⟩
    rw [Session.sites_append_singleton hrun, Session.lineSites, if_pos haccepted]
    rwa [World.planning, hplan] at hsite
  · cases hv

/-- A function of an earlier line finds its parameter one scope inside the top level. -/
theorem Session.visit_sound_parameter :
    ∃ outcomes s v,
      (Session.fresh (fun _ => 0) ⟨.empty, none, false⟩).runAll 9 ["fun f(a) { return a; }"] =
        some (outcomes, s) ∧
      v ∈ s.visits 9 "f(nil);" ∧ v.use = .read ∧ v.state.distances.get? v.id = some 0 ∧
      ∃ site ∈ (Session.fresh (fun _ => 0) ⟨.empty, none, false⟩).sites 9
          ["fun f(a) { return a; }", "f(nil);"],
        v.Sound site := by
  have hvisits :
      ((Session.fresh (fun _ => 0) ⟨.empty, none, false⟩).runAll 9 ["fun f(a) { return a; }"]).map
        (fun r => (r.2.visits 9 "f(nil);").map fun v => (v.use, v.state.distances.get? v.id)) =
      some [(.read, none), (.read, some 0)] := by cbv
  obtain ⟨⟨outcomes, s⟩, hrun, hvisits⟩ := Option.map_eq_some_iff.mp hvisits
  have hparameter : (Use.read, some 0) ∈
      (s.visits 9 "f(nil);").map fun v => (v.use, v.state.distances.get? v.id) := by simp [hvisits]
  obtain ⟨v, hv, heq⟩ := List.mem_map.mp hparameter
  exact ⟨outcomes, s, v, hrun, hv, congrArg Prod.fst heq, congrArg Prod.snd heq,
    Session.visit_sound hrun hv⟩

end Lox
