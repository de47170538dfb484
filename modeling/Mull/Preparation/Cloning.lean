import Mull.Preparation.Passes

/-! What cloning leaves behind: the functions that were there and one clone for each covered point. -/

namespace Mull.Preparation
open LLVM MutationPoint Base

def clone (original : Function) (ref : FunctionRef) (name : Text) : Function :=
  { original with ref := ref, name := name, isInternal := true }

def Prepared (point point' : MutationPoint) :
    Prop := ∃ mutated, point' = { point with mutatedFunction := mutated }

/-- The function is a clone of the original for the point. -/
def CloneFor (original : Function) (point : MutationPoint) (g : Function) : Prop :=
  point.mutatedFunction = some g.ref ∧
    ∃ suffix, g = clone original g.ref (point.getUserIdentifier ++ suffix)

theorem choose_suffix (naming : Naming) (names : List Text) (name : Text) :
    ∃ suffix, naming.choose names name = name ++ suffix := by
  unfold Naming.choose
  split
  · obtain ⟨digits, -, -, eq⟩ := naming.numbered names name
    exact ⟨_, eq⟩
  · exact ⟨[], (List.append_nil _).symm⟩

section
variable (naming : Naming) (original : Function) {point : MutationPoint} (rest : List MutationPoint)
  (module : Module)

theorem clonePoints_idle (idle : point.covered = false) : clonePoints naming original (point :: rest) module =
    (point :: (clonePoints naming original rest module).1, (clonePoints naming original rest module).2) := by
  simp [clonePoints, idle]

theorem clonePoints_covered (covered : point.covered = true) :
    clonePoints naming original (point :: rest) module =
    (point.setMutatedFunction module.freshRef :: (clonePoints naming original rest
        (module.insert naming point.getUserIdentifier (setInternalLinkage original))).1,
      (clonePoints naming original rest
        (module.insert naming point.getUserIdentifier (setInternalLinkage original))).2) := by
  simp [clonePoints, covered]

theorem clonePoints_spec (points : List MutationPoint) :
    ∃ clones, (clonePoints naming original points module).2.functions = module.functions ++ clones ∧
      (clonePoints naming original points module).2.globals = module.globals ∧
      List.Forall₂ Prepared points (clonePoints naming original points module).1 ∧
      List.Forall₂ (CloneFor original)
        ((clonePoints naming original points module).1.filter MutationPoint.covered) clones := by
  induction points generalizing module with
  | nil => exact ⟨[], (List.append_nil _).symm, rfl, .nil, .nil⟩
  | cons point rest ih =>
    cases covered : point.covered with
    | false =>
      obtain ⟨clones, functions, globals, prepared, cloned⟩ := ih module
      rw [clonePoints_idle naming original rest module covered, List.filter_cons_of_neg (by simp [covered])]
      exact ⟨clones, functions, globals, .cons ⟨point.mutatedFunction, rfl⟩ prepared, cloned⟩
    | true =>
      obtain ⟨clones, functions, globals, prepared, cloned⟩ :=
        ih (module.insert naming point.getUserIdentifier (setInternalLinkage original))
      obtain ⟨suffix, name⟩ := choose_suffix naming module.names point.getUserIdentifier
      rw [clonePoints_covered naming original rest module covered,
        List.filter_cons_of_pos (a := point.setMutatedFunction _) covered]
      refine ⟨clone original module.freshRef (naming.choose module.names point.getUserIdentifier) ::
        clones, ?_, globals, .cons ⟨some module.freshRef, rfl⟩ prepared, .cons ⟨rfl, suffix, ?_⟩ cloned⟩
      · rw [List.append_cons]
        exact functions
      · rw [name]
        rfl

end

def coveredPoints (map : MutationPoints) : List (FunctionRef × MutationPoint) :=
  map.flatMap fun pair => (pair.2.filter MutationPoint.covered).map (Prod.mk pair.1)

def PreparedPair (pair pair' : FunctionRef × List MutationPoint) : Prop :=
  pair'.1 = pair.1 ∧ List.Forall₂ Prepared pair.2 pair'.2

/-- The function is a clone of the one that the point is in. -/
def CloneIn (module : Module) (point : FunctionRef × MutationPoint) (g : Function) : Prop :=
  ∃ f ∈ module.functions, f.ref = point.1 ∧ CloneFor f point.2 g

theorem cloneFunctions_spec (naming : Naming) {module₀ : Module} {map : MutationPoints} {module : Module}
    (known : ∀ pair ∈ map, ∃ f ∈ module₀.functions, f.ref = pair.1)
    (grown : ∃ added, module.functions = module₀.functions ++ added) :
    ∃ map' module' clones, cloneFunctions naming map module = some (map', module') ∧
      module'.functions = module.functions ++ clones ∧ module'.globals = module.globals ∧
      List.Forall₂ PreparedPair map map' ∧ List.Forall₂ (CloneIn module₀) (coveredPoints map') clones := by
  induction map generalizing module with
  | nil => exact ⟨[], module, [], rfl, (List.append_nil _).symm, rfl, .nil, .nil⟩
  | cons pair rest ih =>
    obtain ⟨key, points⟩ := pair
    obtain ⟨f, mem, rfl⟩ := known (key, points) List.mem_cons_self
    obtain ⟨added, functions⟩ := grown
    have found : module.function? f.ref = some f := by
      apply Module.function?_of_mem
      rw [functions]
      exact List.mem_append_left _ mem
    obtain ⟨clones, functions_points, globals_points, prepared_points, cloned_points⟩ :=
      clonePoints_spec naming f module points
    obtain ⟨map', module', clones', run, functions_rest, globals_rest, prepared, cloned⟩ :=
      ih (fun pair mem => known pair (List.mem_cons_of_mem _ mem)) ⟨added ++ clones, by
        rw [functions_points, functions, List.append_assoc]⟩
    refine ⟨(f.ref, (clonePoints naming f points module).1) :: map', module', clones ++ clones', ?_, ?_, ?_,
      .cons ⟨rfl, prepared_points⟩ prepared, ?_⟩
    · unfold cloneFunctions
      rw [found]
      show (cloneFunctions naming rest (clonePoints naming f points module).2).bind _ = _
      rw [run]
      rfl
    · rw [functions_rest, functions_points, List.append_assoc]
    · rw [globals_rest, globals_points]
    · refine List.rel_append ?_ cloned
      rw [List.forall₂_map_left_iff]
      exact cloned_points.imp fun point g clone_for => ⟨f, mem, rfl, clone_for⟩

end Mull.Preparation
