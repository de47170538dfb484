import Mull.Preparation.Unshadowed

/-! Mutant copies are isolated: the clone of a covered point has its mutation and no other, at the instruction
that the point was created from, whatever the order in which the points are applied. -/

namespace Mull.Preparation
open LLVM MutationPoint Base

/-- The point was created from the instruction before preparation. -/
structure CreatedFrom (module : Module) (point : MutationPoint) (place : Place) : Prop where
  inside : place ∈ place.function.instructions
  address : point.address = .addressFromInstruction module place
  owner : point.originalFunction = place.function.ref

/-- In the prepared module every covered point has a function of its own, whose body is that of its function
with the mutation applied where the point was created, and the original is kept in the copy. -/
def Isolated (irm : LowLevelMutations) (naming : Naming) (module final : Module)
    (map : MutationPoints) : Prop :=
  ∃ prepared module₁, cloneFunctions naming map module = some (prepared, module₁) ∧
    (((prepared.flatMap Prod.snd).filter MutationPoint.covered).map MutationPoint.mutatedFunction).Nodup ∧
    ∀ f ∈ module.functions, ∀ points, (f.ref, points) ∈ prepared →
      (hasCoveredMutants points = true → ∃ copy ∈ final.functions,
        copy.name = getOriginalFunctionName f.name ∧
        copy.blocks = f.blocks) ∧
      ∀ point ∈ points, point.covered = true → ∃ g ∈ final.functions, point.mutatedFunction = some g.ref ∧
        MutantOf irm f point g ∧
          ∀ place, place.function ∈ module.functions → CreatedFrom module point place →
            place.function = f ∧ f.place? point.address.basicBlockIndex
              point.address.instructionIndex = some place

theorem isolated_of_prepare {irm : LowLevelMutations} {naming : Naming} {arrangement : Arrangement}
    {module final : Module} {map : MutationPoints} (distinct : (map.map Prod.fst).Nodup)
    (known : ∀ pair ∈ map, ∃ f ∈ module.functions, f.ref = pair.1)
    (free : ∀ f ∈ module.functions, f.ref ∈ map.map Prod.fst → ∀ g ∈ module.functions,
      g.name ≠ getOriginalFunctionName f.name)
    (own : ∀ pair ∈ map, ∀ point ∈ pair.2, point.originalFunction = pair.1)
    (run : prepare irm naming arrangement map module = some final) :
      Isolated irm naming module final map := by
  obtain ⟨map', module₁, module₂, clones, originals, copies, setup, cloning, eq⟩ :=
    exists_emptied irm naming arrangement distinct known free
  rw [eq] at run
  obtain ⟨module₄, trampolines, mutations⟩ := Option.bind_eq_some_iff.mp run
  obtain ⟨kept, getenv, -, redirected⟩ := setup.insertTrampolines_spec naming distinct trampolines
  obtain ⟨elsewhere, -, mutated⟩ := setup.applyMutations_spec irm naming arrangement kept mutations
  have keys := setup.arranged_nodup .inOrder
  refine ⟨map', module₁, cloning, keys, fun f mem points listed =>
    ⟨fun active => ?_, fun point inside active => ?_⟩⟩
  · obtain ⟨copy, mem_copy, made, named, -⟩ := redirected _ listed active f mem rfl
    obtain ⟨new, apart⟩ := setup.copy_apart mem_copy
    have present : final.function? copy.ref = some copy := by
      rw [elsewhere _ apart, kept copy (setup.copy_mem mem_copy) new]
    refine ⟨copy, (Module.mem_of_function? present).1, named, ?_⟩
    rw [made.1]
  · have mem_point : point ∈ map'.flatMap Prod.snd := List.mem_flatMap.mpr ⟨_, listed, inside⟩
    have mem_covered : (f.ref, point) ∈ coveredPoints map' :=
      List.mem_flatMap.mpr ⟨_, listed, List.mem_map_of_mem (List.mem_filter.mpr ⟨inside, active⟩)⟩
    obtain ⟨g, mem_g, f', mem_f', same, made⟩ := exists_right setup.cloned mem_covered
    obtain rfl := List.inj_on_of_nodup_map module.distinct mem_f' mem same
    obtain ⟨g', found, -, mutant⟩ := mutated point mem_point active f' mem g mem_g made
    obtain ⟨mem_g', ref⟩ := Module.mem_of_function? found
    refine ⟨g', mem_g', made.1.trans (congrArg some ref.symm), mutant, fun place mem_place created => ?_⟩
    obtain ⟨pair, listed', same', prepared⟩ := exists_left setup.prepared listed
    obtain ⟨point', inside', mutated_ref, rfl⟩ := exists_left prepared inside
    have owner : place.function.ref = f'.ref := created.owner.symm.trans
      ((own pair listed' point' inside').trans same'.symm)
    have function := List.inj_on_of_nodup_map module.distinct mem_place mem owner
    refine ⟨function, ?_⟩
    rw [created.address, ← function]
    exact Function.mem_instructions.mp created.inside

/-- The mutants are isolated wherever preparation goes through. -/
theorem isolated_iff {irm : LowLevelMutations} {naming : Naming} {arrangement : Arrangement} {module : Module}
    {points : List MutationPoint} {map : MutationPoints}
    (grouped : Grouped MutationPoint.originalFunction points map)
    (known : ∀ point ∈ points, point.originalFunction ∈ module.functions.map Function.ref)
    (free : ∀ f ∈ module.functions, f.ref ∈ points.map MutationPoint.originalFunction →
      ∀ g ∈ module.functions, g.name ≠ getOriginalFunctionName f.name) :
    (∃ final, prepare irm naming arrangement map module = some final ∧ Isolated irm naming module final map) ↔
      Preparable irm module map := by
  have known_pairs := known_functions grouped known
  have free_pairs : ∀ f ∈ module.functions, f.ref ∈ map.map Prod.fst → ∀ g ∈ module.functions,
      g.name ≠ getOriginalFunctionName f.name :=
    fun f mem keyed => free f mem ((grouped.mem_keys f.ref).mp keyed)
  rw [← prepare_isSome irm naming arrangement grouped.keys_nodup known_pairs free_pairs,
    Option.isSome_iff_exists]
  constructor
  · rintro ⟨final, run, -⟩
    exact ⟨final, run⟩
  · rintro ⟨final, run⟩
    refine ⟨final, run, isolated_of_prepare grouped.keys_nodup known_pairs free_pairs
      (fun pair listed point inside => ?_) run⟩
    rw [grouped.group_eq pair listed] at inside
    exact of_decide_eq_true (List.mem_filter.mp inside).2

theorem isolated_area :
    ∃ final, prepare .simple .zeros .inOrder [(3, areaPoints)] areaModule = some final ∧
      Isolated .simple .zeros areaModule final [(3, areaPoints)] := by
  have grouped : Grouped MutationPoint.originalFunction areaPoints [(3, areaPoints)] :=
    groups_grouped areaPoints
  exact (isolated_iff grouped (by decide) (by decide)).mpr preparable_area

/-- The module of `area` with a variable `mull_area_original`. -/
def clashModule : Module where
  functions := [area, draw]
  globals := [{ name := "mull_area_original".toList }]
  distinct := areaModule.distinct
  named := by decide
  aliased := by
    intro global mem ref known
    rw [List.mem_singleton.mp mem] at known
    cases known

def clashPlace : Place := ⟨area, areaBlock, 0, 0, .plain callInstruction⟩

def clashPoint : MutationPoint :=
  .create .scalarValueMutator (some (.constIntReplacement 42 0)) clashPlace ⟨0, clashModule⟩

theorem not_isolated_clash : CreatedFrom clashModule clashPoint clashPlace ∧ clashPoint.covered = true ∧
    (∀ f ∈ clashModule.functions, ∀ g ∈ clashModule.functions, g.name ≠ getOriginalFunctionName f.name) ∧
      ¬ ∃ final, prepare .simple .zeros .inOrder [(3, [clashPoint])] clashModule = some final ∧
        Isolated .simple .zeros clashModule final [(3, [clashPoint])] := by
  refine ⟨⟨by decide, rfl, rfl⟩, rfl, by decide, ?_⟩
  rintro ⟨final, run, -⟩
  have preparable := (prepare_isSome .simple .zeros .inOrder (by decide) (by decide) (by decide)).mp
    (Option.isSome_of_eq_some run)
  exact absurd (preparable.copies area (by decide) (by decide)) (by decide)

end Mull.Preparation
