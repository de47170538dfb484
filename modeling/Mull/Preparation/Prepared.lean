import Mull.Preparation.Emptied

/-! What preparation makes of a module: functions without a covered point stay, the others call the copy of their
body or one of its mutants. -/

namespace Mull.Preparation
open LLVM MutationPoint Base

/-- The function has the body of the original with the point's mutation applied. -/
def MutantOf (irm : LowLevelMutations) (f : Function) (point : MutationPoint) (g : Function) : Prop :=
  ∃ mutated, point.mutateFunction irm f = some mutated ∧ g.blocks = mutated.blocks

def CheckFor (irm : LowLevelMutations) (final : Module) (f : Function) (point : MutationPoint)
    (check : Check) : Prop :=
  check.1 = point.getUserIdentifier ∧ ∃ g ∈ final.functions, g.ref = check.2 ∧
    (∃ suffix, g.name = point.getUserIdentifier ++ suffix) ∧ MutantOf irm f point g

/-- The function calls the copy of its body or one of its mutants. -/
structure Redirects (irm : LowLevelMutations) (final : Module) (getenv : Value) (f : Function)
    (points : List MutationPoint) (copy : Function) (checks : List Check) : Prop where
  body : final.function? f.ref = some (trampoline (dropAllReferences f) getenv copy.ref checks)
  present : copy ∈ final.functions
  named : copy.name = getOriginalFunctionName f.name
  copied : copy = { f with ref := copy.ref, name := copy.name }
  mutants : List.Forall₂ (CheckFor irm final f) (points.filter MutationPoint.covered) checks
  apart : ∀ check ∈ checks, check.2 ≠ copy.ref

structure Preparable (irm : LowLevelMutations) (module : Module) (map : MutationPoints) : Prop where
  mutates : ∀ f ∈ module.functions, ∀ points, (f.ref, points) ∈ map → ∀ point ∈ points, point.covered = true →
    (point.mutateFunction irm f).isSome = true
  copies : ∀ f ∈ module.functions, f.ref ∈ coveredFunctions map →
    getOriginalFunctionName f.name ∉ module.globals.map Global.name

theorem mutateFunction_prepared {point point' : MutationPoint} (prepared : Prepared point point')
    (irm : LowLevelMutations) (f : Function) : point'.mutateFunction irm f = point.mutateFunction irm f := by
  obtain ⟨mutated, rfl⟩ := prepared
  rfl

theorem covered_prepared {point point' : MutationPoint} (prepared : Prepared point point') :
    point.covered = point'.covered := by
  obtain ⟨mutated, rfl⟩ := prepared
  rfl

theorem mutantOf_iff {irm : LowLevelMutations} {f g : Function} {point : MutationPoint} :
    MutantOf irm f point g ↔ (point.mutateFunction irm f).map Function.blocks = some g.blocks := by
  unfold MutantOf
  rw [Option.map_eq_some_iff]
  simp only [eq_comm]

namespace Emptied

variable {module module₂ module₄ : Module} {map map' : MutationPoints}
  {clones originals copies : List Function}
  (setup : Emptied module map map' module₂ clones originals copies) (irm : LowLevelMutations)
  (naming : Naming) (arrangement : Arrangement)
  (kept : ∀ g ∈ module₂.functions, g.ref ∉ coveredFunctions map → module₄.function? g.ref = some g)
include setup

theorem exists_clone {point : MutationPoint} (mem : point ∈ map'.flatMap Prod.snd)
    (active : point.covered = true) :
    ∃ f ∈ module.functions, (∃ pair ∈ map', f.ref = pair.1 ∧ point ∈ pair.2) ∧ ∃ g ∈ clones,
    CloneFor f point g := by
  obtain ⟨pair, listed, inside⟩ := List.mem_flatMap.mp mem
  have mem_covered : (pair.1, point) ∈ coveredPoints map' :=
    List.mem_flatMap.mpr ⟨pair, listed, List.mem_map_of_mem (List.mem_filter.mpr ⟨inside, active⟩)⟩
  obtain ⟨g, mem_g, f, mem_f, same, made⟩ := exists_right setup.cloned mem_covered
  exact ⟨f, mem_f, ⟨pair, listed, same, inside⟩, g, mem_g, made⟩

theorem arranged_nodup : (((arrangement.arrange (map'.flatMap Prod.snd)).filter MutationPoint.covered).map
    MutationPoint.mutatedFunction).Nodup := by
  have perm := ((arrangement.perm (map'.flatMap Prod.snd)).filter MutationPoint.covered).map
    MutationPoint.mutatedFunction
  rw [perm.nodup_iff, setup.point_keys]
  have refs := (List.nodup_append.mp (List.nodup_append.mp setup.refs_nodup).1).2.1
  have some_refs := refs.map fun _ _ => Option.some.inj
  rwa [List.map_map] at some_refs

include kept

theorem clone_found {f g : Function} {point : MutationPoint} (mem : g ∈ clones) (made : CloneFor f point g) :
    module₄.lookup point.mutatedFunction = some g := by
  rw [made.1]
  exact kept g (setup.clone_mem mem) (setup.clone_new mem)

theorem applyMutations_isSome :
    (applyMutations irm naming (arrangement.arrange (map'.flatMap Prod.snd)) module₄).isSome = true ↔
      ∀ f ∈ module.functions, ∀ points, (f.ref, points) ∈ map → ∀ point ∈ points, point.covered = true →
        (point.mutateFunction irm f).isSome = true := by
  have edit {f g : Function} {point : MutationPoint} (mem : g ∈ clones) (made : CloneFor f point g) :
      (bodyEdit (MutationPoint.mutateFunction irm) point (module₄.lookup point.mutatedFunction)).isSome =
        (point.mutateFunction irm f).isSome := by
    obtain ⟨-, suffix, eq⟩ := id made
    have renamed :=
      congrArg Option.isSome (mutateFunction_clone irm point f g.ref (point.getUserIdentifier ++ suffix))
    rw [Option.isSome_map, Option.isSome_map, ← eq] at renamed
    rw [setup.clone_found kept mem made, ← renamed]
    exact Option.isSome_map
  unfold applyMutations
  rw [(applyMutationTask_local irm naming module₄).foldlM_isSome (setup.arranged_nodup arrangement)
    (.refl module₄)]
  constructor
  · intro each f mem points listed point inside active
    obtain ⟨pair', listed', same, prepared⟩ := exists_right setup.prepared listed
    obtain ⟨point', inside', ready⟩ := exists_right prepared inside
    have active' : point'.covered = true := (covered_prepared ready).symm.trans active
    have mem' : point' ∈ map'.flatMap Prod.snd := List.mem_flatMap.mpr ⟨pair', listed', inside'⟩
    have mem_covered : (pair'.1, point') ∈ coveredPoints map' :=
      List.mem_flatMap.mpr ⟨pair', listed', List.mem_map_of_mem (List.mem_filter.mpr ⟨inside', active'⟩)⟩
    obtain ⟨g, mem_g, f', mem_f', same', made⟩ := exists_right setup.cloned mem_covered
    obtain rfl := List.inj_on_of_nodup_map module.distinct mem_f' mem (same'.trans same)
    have applied := each point' ((arrangement.perm _).mem_iff.mpr mem') active'
    rwa [edit mem_g made, mutateFunction_prepared ready] at applied
  · intro each point' mem' active'
    obtain ⟨f, mem, ⟨pair', listed', same, inside'⟩, g, mem_g, made⟩ :=
      setup.exists_clone ((arrangement.perm _).mem_iff.mp mem') active'
    obtain ⟨pair, listed, same', prepared⟩ := exists_left setup.prepared listed'
    obtain ⟨point, inside, ready⟩ := exists_left prepared inside'
    rw [edit mem_g made, mutateFunction_prepared ready]
    refine each f mem pair.2 ?_ point inside ((covered_prepared ready).trans active')
    rw [same, same']
    exact listed

theorem applyMutations_spec {final : Module}
    (run : applyMutations irm naming (arrangement.arrange (map'.flatMap Prod.snd)) module₄ = some final) :
    (∀ k, k ∉ clones.map Function.ref → final.function? k = module₄.function? k) ∧
      module₄.Extends final ∧
      ∀ point ∈ map'.flatMap Prod.snd, point.covered = true → ∀ f ∈ module.functions, ∀ g ∈ clones,
      CloneFor f point g →
        ∃ g', final.function? g.ref = some g' ∧ g'.name = g.name ∧ MutantOf irm f point g' := by
  obtain ⟨extended, edited, elsewhere⟩ :=
    (applyMutationTask_local irm naming module₄).foldlM_some (setup.arranged_nodup arrangement)
      (.refl module₄) run
  refine ⟨fun k outside => ?_, extended, fun point mem active f _ g mem_g made => ?_⟩
  · refine elsewhere (some k) fun listed => outside ?_
    have perm := ((arrangement.perm (map'.flatMap Prod.snd)).filter MutationPoint.covered).map
      MutationPoint.mutatedFunction
    rw [perm.mem_iff, setup.point_keys] at listed
    obtain ⟨g, mem, same⟩ := List.mem_map.mp listed
    rw [← Option.some.inj same]
    exact List.mem_map_of_mem mem
  · have edit := edited point ((arrangement.perm _).mem_iff.mpr mem) active
    rw [setup.clone_found kept mem_g made, made.1] at edit
    obtain ⟨body, applied, eq⟩ := Option.map_eq_some_iff.mp edit
    refine ⟨g.withBody body, eq.symm, rfl, ?_⟩
    obtain ⟨-, suffix, clone_eq⟩ := made
    have renamed := mutateFunction_clone irm point f g.ref (point.getUserIdentifier ++ suffix)
    rw [← clone_eq, applied] at renamed
    obtain ⟨mutated, done, blocks⟩ := Option.map_eq_some_iff.mp renamed.symm
    exact ⟨mutated, done, blocks.symm⟩

end Emptied

section
variable (irm : LowLevelMutations) (naming : Naming) (arrangement : Arrangement) {module : Module}
  {map : MutationPoints} (distinct : (map.map Prod.fst).Nodup)
  (known : ∀ pair ∈ map, ∃ f ∈ module.functions, f.ref = pair.1)
  (free : ∀ f ∈ module.functions, f.ref ∈ map.map Prod.fst → ∀ g ∈ module.functions,
    g.name ≠ getOriginalFunctionName f.name)
include distinct known free

theorem prepare_isSome : (prepare irm naming arrangement map module).isSome = true ↔
    Preparable irm module map := by
  obtain ⟨map', module₁, module₂, clones, originals, copies, setup, -, eq⟩ :=
    exists_emptied irm naming arrangement distinct known free
  rw [eq]
  have trampolines := setup.insertTrampolines_isSome naming distinct
  cases run : insertTrampolines naming map' module₂ with
  | none =>
    rw [run] at trampolines
    exact ⟨nofun, fun preparable => trampolines.mpr preparable.copies⟩
  | some module₄ =>
    rw [run] at trampolines
    obtain ⟨kept, -⟩ := setup.insertTrampolines_spec naming distinct run
    rw [Option.bind_some, setup.applyMutations_isSome irm naming arrangement kept]
    exact ⟨fun mutates => ⟨mutates, trampolines.mp rfl⟩, Preparable.mutates⟩

theorem prepare_spec {final : Module} (run : prepare irm naming arrangement map module = some final) :
    (∀ f ∈ module.functions, f.ref ∉ coveredFunctions map → final.function? f.ref = some f) ∧
      ∃ getenv, Getenv module map final getenv ∧
        ∀ f ∈ module.functions, ∀ points, (f.ref, points) ∈ map → hasCoveredMutants points = true →
          ∃ copy cs, Redirects irm final getenv f points copy cs := by
  obtain ⟨map', module₁, module₂, clones, originals, copies, setup, -, eq⟩ :=
    exists_emptied irm naming arrangement distinct known free
  rw [eq] at run
  obtain ⟨module₄, trampolines, mutations⟩ := Option.bind_eq_some_iff.mp run
  obtain ⟨kept, getenv, looked_up, redirected⟩ := setup.insertTrampolines_spec naming distinct trampolines
  obtain ⟨elsewhere, extended, mutated⟩ := setup.applyMutations_spec irm naming arrangement kept mutations
  constructor
  · intro f mem uncovered
    have same : emptied (coveredFunctions map) f = f := if_neg uncovered
    have present := setup.original_mem mem
    rw [same] at present
    rw [elsewhere _ (setup.original_apart mem), kept f present uncovered]
  · refine ⟨getenv, looked_up.extended extended, fun f mem points listed active => ?_⟩
    obtain ⟨pair', listed', same, prepared⟩ := exists_right setup.prepared listed
    have active' : hasCoveredMutants pair'.2 = true := by
      rw [PreparedPair.hasCoveredMutants_eq ⟨same, prepared⟩]
      exact active
    obtain ⟨copy, mem_copy, made, named, cs, checked, body⟩ :=
      redirected pair' listed' active' f mem same.symm
    obtain ⟨new, apart⟩ := setup.copy_apart mem_copy
    have checked := mapM_some_iff.mp checked
    have clone_of {point' : MutationPoint} (inside' : point' ∈ pair'.2.filter MutationPoint.covered) :
        ∃ g ∈ clones, CloneFor f point' g := by
      have mem_covered : (pair'.1, point') ∈ coveredPoints map' :=
        List.mem_flatMap.mpr ⟨pair', listed', List.mem_map_of_mem inside'⟩
      obtain ⟨g, mem_clone, f', mem_f', same', cloned⟩ := exists_right setup.cloned mem_covered
      obtain rfl := List.inj_on_of_nodup_map module.distinct mem_f' mem (same'.trans same)
      exact ⟨g, mem_clone, cloned⟩
    refine ⟨copy, cs, ?_, ?_, named, ?_, ?_, ?_⟩
    · rw [elsewhere _ (setup.original_apart mem), body]
    · have present : final.function? copy.ref = some copy := by
        rw [elsewhere _ apart, kept copy (setup.copy_mem mem_copy) new]
      exact (Module.mem_of_function? present).1
    · exact made.1
    · refine related_trans (filter_related prepared fun _ _ => covered_prepared) checked ?_
      intro point point' check inside' ready at_check
      obtain ⟨g, mem_g, made⟩ := clone_of inside'
      obtain ⟨mem_point, active_point⟩ := List.mem_filter.mp inside'
      obtain ⟨g', found, name', mutant⟩ := mutated point' (List.mem_flatMap.mpr ⟨pair', listed', mem_point⟩)
        active_point f mem g mem_g made
      obtain ⟨mutated_ref, suffix, clone_eq⟩ := made
      obtain ⟨mutated', rfl⟩ := ready
      rw [mutated_ref] at at_check
      obtain rfl := Option.some.inj at_check
      obtain ⟨mem', ref'⟩ := Module.mem_of_function? found
      exact ⟨rfl, g', mem', ref', ⟨suffix, by rw [name', clone_eq]; rfl⟩, mutant⟩
    · intro check mem_check at_copy
      obtain ⟨point', inside', at_check⟩ := exists_left checked mem_check
      obtain ⟨g, mem_g, mutated_ref, -⟩ := clone_of inside'
      rw [mutated_ref] at at_check
      obtain rfl := Option.some.inj at_check
      exact apart (at_copy ▸ List.mem_map_of_mem mem_g)

end

end Mull.Preparation
