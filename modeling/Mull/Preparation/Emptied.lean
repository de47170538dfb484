import Mull.Base.Fallible
import Mull.Base.Related
import Mull.Preparation.Redirection

/-! The module between the passes: originals are empty, clones and copies are there, and then the trampolines. -/

namespace Mull.Preparation
open LLVM MutationPoint Base

structure Emptied (module : Module) (map map' : MutationPoints) (module₂ : Module)
    (clones originals copies : List Function) : Prop where
  functions : module₂.functions = (module.functions ++ clones).map (emptied (coveredFunctions map)) ++ copies
  globals : module₂.globals = module.globals
  prepared : List.Forall₂ PreparedPair map map'
  cloned : List.Forall₂ (CloneIn module) (coveredPoints map') clones
  copied : List.Forall₂ (CopyFor module.globals) originals copies
  keys : originals.map Function.ref = coveredFunctions map
  inside : originals ⊆ module.functions

theorem PreparedPair.hasCoveredMutants_eq {pair pair' : FunctionRef × List MutationPoint}
    (prepared : PreparedPair pair pair') : hasCoveredMutants pair'.2 = hasCoveredMutants pair.2 := by
  have same : pair'.2.map MutationPoint.covered = pair.2.map MutationPoint.covered := by
    refine (map_eq_of_related prepared.2 ?_).symm
    rintro point _ ⟨mutated, rfl⟩
    rfl
  have any (points : List MutationPoint) :
    hasCoveredMutants points = (points.map MutationPoint.covered).any id := by
    rw [List.any_map]
    rfl
  rw [any, any, same]

theorem keys_prepared {map map' : MutationPoints} (prepared : List.Forall₂ PreparedPair map map') :
    map'.map Prod.fst = map.map Prod.fst :=
  (map_eq_of_related prepared fun _ _ pair => pair.1.symm).symm

theorem coveredFunctions_prepared {map map' : MutationPoints}
    (prepared : List.Forall₂ PreparedPair map map') :
    coveredFunctions map' = coveredFunctions map :=
  keys_prepared (filter_related prepared fun _ _ pair => pair.hasCoveredMutants_eq.symm)

theorem getUniqueIdentifier_head (mutator : Mutator) : mutator.getUniqueIdentifier.head? ≠ some 'm' := by
  cases mutator <;> decide

theorem clone_name {point : MutationPoint} {name suffix : Text} :
    point.getUserIdentifier ++ suffix ≠ getOriginalFunctionName name := by
  intro same
  have heads := congrArg List.head? same
  unfold getUserIdentifier getOriginalFunctionName at heads
  simp only [List.append_assoc] at heads
  rw [List.head?_append_of_ne_nil _ point.mutator.getUniqueIdentifier_ne_nil] at heads
  exact getUniqueIdentifier_head point.mutator heads

theorem getenv_not_cloned {point : MutationPoint} {suffix : Text} :
    point.getUserIdentifier ++ suffix ≠ "getenv".toList := by
  intro same
  have colon : ':' ∈ point.getUserIdentifier ++ suffix := by
    unfold getUserIdentifier
    simp
  rw [same] at colon
  exact absurd colon (by decide)

theorem getenv_not_copied {globals : List Global} {f g : Function} (made : CopyFor globals f g) :
    g.name ≠ "getenv".toList := by
  obtain ⟨-, named | ⟨digits, -, -, named⟩, -⟩ := made <;>
  · intro same
    have heads := congrArg List.head? (named.symm.trans same)
    unfold getOriginalFunctionName at heads
    exact absurd heads (by simp)

/-- How trampolines know `getenv`: as the module does, if it does. -/
structure Getenv (module : Module) (map : MutationPoints) (prepared : Module) (getenv : Value) : Prop where
  callee : prepared.callee? "getenv".toList = getenv.callee?
  missing : getenv.callee? = none → getenv = .global "getenv".toList none
  known : "getenv".toList ∈ module.names → getenv.callee? = module.callee? "getenv".toList
  declared : "getenv".toList ∉ module.names → ∃ ref, getenv.callee? = some ref ∧ ref ∉ coveredFunctions map
  function : "getenv".toList ∉ module.globals.map Global.name → ∃ g ∈ prepared.functions,
    g.name = "getenv".toList ∧ getenv = .function g.ref

theorem Getenv.extended {module prepared prepared' : Module} {map : MutationPoints} {getenv : Value}
    (looked_up : Getenv module map prepared getenv) (extended : prepared.Extends prepared') :
    Getenv module map prepared' getenv := by
  refine ⟨(extended.callee? _).trans looked_up.callee, looked_up.missing, looked_up.known, looked_up.declared,
    fun free => ?_⟩
  obtain ⟨g, mem, name, same⟩ := looked_up.function free
  obtain ⟨g', mem', ref', name'⟩ := Module.exists_of_signature extended.signature.symm mem
  exact ⟨g', mem', name'.trans name, ref' ▸ same⟩

section
variable (irm : LowLevelMutations) (naming : Naming) (arrangement : Arrangement) {module : Module}
  {map : MutationPoints}

theorem exists_emptied (distinct : (map.map Prod.fst).Nodup)
    (known : ∀ pair ∈ map, ∃ f ∈ module.functions, f.ref = pair.1)
    (free : ∀ f ∈ module.functions, f.ref ∈ map.map Prod.fst → ∀ g ∈ module.functions,
    g.name ≠ getOriginalFunctionName f.name) :
    ∃ map' module₁ module₂ clones originals copies, Emptied module map map' module₂ clones originals copies ∧
      cloneFunctions naming map module = some (map', module₁) ∧
      prepare irm naming arrangement map module = (insertTrampolines naming map' module₂).bind
        (applyMutations irm naming (arrangement.arrange (map'.flatMap Prod.snd))) := by
  obtain ⟨map', module₁, clones, cloning, functions₁, globals₁, prepared, cloned⟩ :=
    cloneFunctions_spec naming known ⟨[], (List.append_nil _).symm⟩
  have inside₁ : module.functions ⊆ module₁.functions := by
    rw [functions₁]
    exact List.subset_append_left ..
  have inside : (module.functions.filter fun f => f.ref ∈ map.map Prod.fst) ⊆ module.functions :=
    fun f mem => (List.mem_filter.mp mem).1
  have free₁ : ∀ f ∈ module.functions.filter fun f => f.ref ∈ map.map Prod.fst, ∀ g ∈ module₁.functions,
      g.name ≠ getOriginalFunctionName f.name := by
    intro f mem g mem_g
    obtain ⟨mem, keyed⟩ := List.mem_filter.mp mem
    rw [functions₁, List.mem_append] at mem_g
    rcases mem_g with old | new
    · exact free f mem (of_decide_eq_true keyed) g old
    · obtain ⟨point, -, original, -, -, -, suffix, eq⟩ := exists_left cloned new
      rw [eq]
      exact clone_name
  have known₁ : ∀ pair ∈ map', ∃ f ∈ module.functions.filter fun f => f.ref ∈ map.map Prod.fst,
    f.ref = pair.1 := by
    intro pair' mem'
    obtain ⟨pair, mem, same, -⟩ := exists_left prepared mem'
    obtain ⟨f, mem_f, ref⟩ := known pair mem
    refine ⟨f, List.mem_filter.mpr ⟨mem_f, decide_eq_true ?_⟩, ref.trans same.symm⟩
    rw [ref]
    exact List.mem_map_of_mem mem
  obtain ⟨module₂, originals, copies, deleting, globals₂, functions₂, copied, keys, sub⟩ :=
    deleteFunctions_spec naming (keys_prepared prepared ▸ distinct)
      (fun _ mem => inside₁ (inside mem)) free₁ known₁
  refine ⟨map', module₁, module₂, clones, originals, copies,
    ⟨?_, globals₂.trans globals₁, prepared, cloned, ?_, ?_, fun _ mem => inside (sub mem)⟩, cloning, ?_⟩
  · rw [functions₂, functions₁, coveredFunctions_prepared prepared]
  · rwa [← globals₁]
  · rw [keys, coveredFunctions_prepared prepared]
  · unfold prepare
    rw [cloning]
    show (deleteFunctions naming map' module₁).bind _ = _
    rw [deleting]
    rfl

end

/-! ### Where the functions are after the originals were emptied -/

namespace Emptied

variable {module module₂ : Module} {map map' : MutationPoints} {clones originals copies : List Function}
  (setup : Emptied module map map' module₂ clones originals copies)
include setup

theorem refs : module₂.functions.map Function.ref =
    (module.functions.map Function.ref ++ clones.map Function.ref) ++ copies.map Function.ref := by
  have same : Function.ref ∘ emptied (coveredFunctions map) = Function.ref := funext (emptied_ref _)
  rw [setup.functions, List.map_append, List.map_map, same, List.map_append]

theorem refs_nodup : ((module.functions.map Function.ref ++ clones.map Function.ref) ++
    copies.map Function.ref).Nodup := by
  rw [← setup.refs]
  exact module₂.distinct

theorem covered_mem {ref : FunctionRef} (covered : ref ∈ coveredFunctions map) :
    ref ∈ module.functions.map Function.ref := by
  rw [← setup.keys] at covered
  obtain ⟨f, mem, rfl⟩ := List.mem_map.mp covered
  exact List.mem_map_of_mem (setup.inside mem)

theorem original_mem {f : Function} (mem : f ∈ module.functions) :
    emptied (coveredFunctions map) f ∈ module₂.functions := by
  rw [setup.functions]
  exact List.mem_append_left _ (List.mem_map_of_mem (List.mem_append_left _ mem))

theorem clone_new {g : Function} (mem : g ∈ clones) : g.ref ∉ coveredFunctions map := by
  intro covered
  have apart := (List.nodup_append.mp (List.nodup_append.mp setup.refs_nodup).1).2.2
  exact apart _ (setup.covered_mem covered) _ (List.mem_map_of_mem mem) rfl

theorem clone_mem {g : Function} (mem : g ∈ clones) : g ∈ module₂.functions := by
  have kept : emptied (coveredFunctions map) g = g := by
    unfold emptied
    rw [if_neg (setup.clone_new mem)]
  rw [setup.functions, ← kept]
  exact List.mem_append_left _ (List.mem_map_of_mem (List.mem_append_right _ mem))

theorem copy_mem {g : Function} (mem : g ∈ copies) : g ∈ module₂.functions := by
  rw [setup.functions]
  exact List.mem_append_right _ mem

theorem copy_apart {g : Function} (mem : g ∈ copies) :
    g.ref ∉ coveredFunctions map ∧ g.ref ∉ clones.map Function.ref := by
  have apart := (List.nodup_append.mp setup.refs_nodup).2.2
  constructor
  · intro covered
    exact apart _ (List.mem_append_left _ (setup.covered_mem covered)) _ (List.mem_map_of_mem mem) rfl
  · intro cloned
    exact apart _ (List.mem_append_right _ cloned) _ (List.mem_map_of_mem mem) rfl

theorem original_apart {f : Function} (mem : f ∈ module.functions) : f.ref ∉ clones.map Function.ref := by
  intro cloned
  exact (List.nodup_append.mp (List.nodup_append.mp setup.refs_nodup).1).2.2 _
    (List.mem_map_of_mem mem) _ cloned rfl

theorem exists_copy {f : Function} (mem : f ∈ module.functions) (covered : f.ref ∈ coveredFunctions map) :
    ∃ copy ∈ copies, CopyFor module.globals f copy := by
  rw [← setup.keys] at covered
  obtain ⟨g, mem_g, same⟩ := List.mem_map.mp covered
  obtain rfl := List.inj_on_of_nodup_map module.distinct (setup.inside mem_g) mem same
  exact exists_right setup.copied mem_g

theorem point_keys :
    ((map'.flatMap Prod.snd).filter MutationPoint.covered).map MutationPoint.mutatedFunction =
    clones.map fun g => some g.ref := by
  have points : (map'.flatMap Prod.snd).filter MutationPoint.covered = (coveredPoints map').map Prod.snd := by
    unfold coveredPoints
    rw [List.filter_flatMap, List.map_flatMap]
    refine List.flatMap_congr fun pair _ => ?_
    rw [List.map_map]
    exact (List.map_id _).symm
  rw [points, List.map_map]
  refine map_eq_of_related setup.cloned ?_
  rintro ⟨key, point⟩ g ⟨f, -, -, mutated, -⟩
  exact mutated

/-! ### Trampolines -/

theorem exists_checks {pair : FunctionRef × List MutationPoint} (mem : pair ∈ map') :
    ∃ cs, checks pair.2 = some cs := by
  have clones_known : ∀ point ∈ pair.2.filter MutationPoint.covered, ∃ g ∈ clones,
    point.mutatedFunction = some g.ref := by
    intro point mem_point
    have listed : (pair.1, point) ∈ coveredPoints map' :=
      List.mem_flatMap.mpr ⟨pair, mem, List.mem_map_of_mem mem_point⟩
    obtain ⟨g, mem_g, -, -, -, mutated, -⟩ := exists_right setup.cloned listed
    exact ⟨g, mem_g, mutated⟩
  refine ⟨(pair.2.filter MutationPoint.covered).map fun point =>
    (point.getUserIdentifier, point.mutatedFunction.getD 0), mapM_some_iff.mpr ?_⟩
  rw [List.forall₂_map_right_iff, List.forall₂_same]
  intro point mem_point
  obtain ⟨g, -, mutated⟩ := clones_known point mem_point
  rw [mutated]
  rfl

theorem covered_pair {pair : FunctionRef × List MutationPoint} (mem : pair ∈ map')
    (covered : hasCoveredMutants pair.2 = true) : pair.1 ∈ coveredFunctions map := by
  rw [← coveredFunctions_prepared setup.prepared]
  exact List.mem_map_of_mem (List.mem_filter.mpr ⟨mem, covered⟩)

theorem exists_pair {ref : FunctionRef} (covered : ref ∈ coveredFunctions map) :
    ∃ pair ∈ map', hasCoveredMutants pair.2 = true ∧ pair.1 = ref := by
  rw [← coveredFunctions_prepared setup.prepared] at covered
  obtain ⟨pair, mem, same⟩ := List.mem_map.mp covered
  obtain ⟨mem, active⟩ := List.mem_filter.mp mem
  exact ⟨pair, mem, active, same⟩

theorem getFunction_getenv : module₂.getFunction "getenv".toList =
    (module.getFunction "getenv".toList).map (emptied (coveredFunctions map)) := by
  have not_cloned : clones.find? (fun g => g.name = "getenv".toList) = none := by
    refine List.find?_eq_none.mpr fun g mem named => ?_
    obtain ⟨point, -, original, -, -, -, suffix, eq⟩ := exists_left setup.cloned mem
    rw [eq] at named
    exact getenv_not_cloned (of_decide_eq_true named)
  have not_copied : copies.find? (fun g => g.name = "getenv".toList) = none := by
    refine List.find?_eq_none.mpr fun g mem named => ?_
    obtain ⟨original, -, made⟩ := exists_left setup.copied mem
    exact getenv_not_copied made (of_decide_eq_true named)
  have same : (fun f : Function => decide (f.name = "getenv".toList)) ∘ emptied (coveredFunctions map) =
      fun f => decide (f.name = "getenv".toList) := by
    funext f
    rw [Function.comp_apply, emptied_name]
  unfold Module.getFunction
  rw [setup.functions, List.find?_append, List.find?_map, same, List.find?_append, not_cloned, not_copied,
    Option.or_none, Option.or_none]

section
variable (naming : Naming)

theorem getenv_spec : Getenv module map (getOrInsertFunction naming module₂ "getenv".toList getEnvType).2
    (getOrInsertFunction naming module₂ "getenv".toList getEnvType).1 := by
  have callee : module₂.callee? "getenv".toList = module.callee? "getenv".toList := by
    unfold Module.callee?
    rw [setup.getFunction_getenv, setup.globals]
    cases module.getFunction "getenv".toList with
    | none => rfl
    | some f => exact congrArg some (emptied_ref _ f)
  have names : "getenv".toList ∈ module₂.names ↔ "getenv".toList ∈ module.names := by
    unfold Module.names
    rw [List.mem_append, List.mem_append, setup.globals, ← Module.getFunction_isSome,
      ← Module.getFunction_isSome, setup.getFunction_getenv, Option.isSome_map]
  obtain ⟨inserted, -, -, named, missing, known, declared, function⟩ :=
    getOrInsertFunction_spec naming module₂ "getenv".toList getEnvType
  refine ⟨named, missing, fun mem => (known (names.mpr mem)).trans callee, fun unknown =>
    ⟨_, declared (mt names.mp unknown), fun covered => ?_⟩, setup.globals ▸ function⟩
  obtain ⟨f, mem, same⟩ := List.mem_map.mp (setup.covered_mem covered)
  refine module₂.freshRef_fresh ?_
  rw [← same, ← emptied_ref (coveredFunctions map)]
  exact List.mem_map_of_mem (setup.original_mem mem)

end

section
variable (naming : Naming) (distinct : (map.map Prod.fst).Nodup)

theorem emptied_found {module₃ : Module} {inserted : List Function}
    (functions : module₃.functions = module₂.functions ++ inserted) {f : Function}
    (mem : f ∈ module.functions)
    (covered : f.ref ∈ coveredFunctions map) : module₃.function? f.ref = some (dropAllReferences f) := by
  have emptied_eq : emptied (coveredFunctions map) f = dropAllReferences f := if_pos covered
  have present : dropAllReferences f ∈ module₃.functions := by
    rw [functions, ← emptied_eq]
    exact List.mem_append_left _ (setup.original_mem mem)
  exact Module.function?_of_mem present

theorem copy_found {module₃ : Module} {inserted : List Function}
    (functions : module₃.functions = module₂.functions ++ inserted) {f : Function}
    (mem : f ∈ module.functions) (covered : f.ref ∈ coveredFunctions map)
    (free : getOriginalFunctionName f.name ∉ module.globals.map Global.name) :
    ∃ copy ∈ copies, CopyFor module.globals f copy ∧
    module₃.refOf (getOriginalFunctionName f.name) = some copy.ref := by
  obtain ⟨copy, mem_copy, made⟩ := setup.exists_copy mem covered
  have present : copy ∈ module₃.functions := by
    rw [functions]
    exact List.mem_append_left _ (setup.copy_mem mem_copy)
  refine ⟨copy, mem_copy, made, ?_⟩
  rw [← made.2.2 free, Module.refOf_of_mem present]

theorem redirected_eq {module₃ : Module} {inserted : List Function}
    (functions : module₃.functions = module₂.functions ++ inserted) {f : Function}
    (mem : f ∈ module.functions) {pair : FunctionRef × List MutationPoint} (listed : pair ∈ map')
    (covered : hasCoveredMutants pair.2 = true)
    (same : f.ref = pair.1) (getenv : Value) {cs : List Check} (checked : checks pair.2 = some cs) :
    bodyEdit (redirected module₃.refOf getenv) pair (module₃.lookup (some pair.1)) =
      (module₃.refOf (getOriginalFunctionName f.name)).map fun copy =>
        some (trampoline (dropAllReferences f) getenv copy cs) := by
  have key := setup.covered_pair listed covered
  rw [← same] at key ⊢
  have found : module₃.lookup (some f.ref) = some (dropAllReferences f) :=
    setup.emptied_found functions mem key
  unfold bodyEdit redirected
  rw [found, Option.bind_some, checked]
  show Option.map _ ((module₃.refOf (getOriginalFunctionName f.name)).bind _) = _
  cases module₃.refOf (getOriginalFunctionName f.name) <;> rfl

include distinct

theorem keys_nodup :
    ((map'.filter fun pair => hasCoveredMutants pair.2).map fun pair => some pair.1).Nodup := by
  have keys : (coveredFunctions map').Nodup := by
    rw [coveredFunctions_prepared setup.prepared]
    exact distinct.sublist (List.Sublist.map _ (List.filter_sublist ..))
  have some_keys := keys.map fun _ _ => Option.some.inj
  unfold coveredFunctions coveredPairs at some_keys
  rwa [List.map_map] at some_keys

theorem insertTrampolines_isSome : (insertTrampolines naming map' module₂).isSome = true ↔
    ∀ f ∈ module.functions, f.ref ∈ coveredFunctions map →
      getOriginalFunctionName f.name ∉ module.globals.map Global.name := by
  obtain ⟨inserted, functions, globals, -⟩ := getOrInsertFunction_spec naming module₂
    "getenv".toList getEnvType
  unfold insertTrampolines
  generalize getOrInsertFunction naming module₂ "getenv".toList getEnvType = found at *
  obtain ⟨getenv, module₃⟩ := found
  rw [setup.globals] at globals
  show (map'.foldlM (insertTrampoline getenv) module₃).isSome = true ↔ _
  rw [(insertTrampoline_local getenv module₃).foldlM_isSome (setup.keys_nodup distinct) (.refl module₃)]
  constructor
  · intro each f mem covered taken
    obtain ⟨pair, listed, active, same⟩ := setup.exists_pair covered
    obtain ⟨cs, checked⟩ := setup.exists_checks listed
    have edit := each pair listed active
    rw [setup.redirected_eq functions mem listed active same.symm getenv checked,
      Module.refOf_global (globals ▸ taken)] at edit
    cases edit
  · intro free pair listed active
    have covered := setup.covered_pair listed active
    obtain ⟨f, mem, same⟩ := List.mem_map.mp (setup.covered_mem covered)
    obtain ⟨cs, checked⟩ := setup.exists_checks listed
    rw [← same] at covered
    obtain ⟨copy, -, -, at_name⟩ := setup.copy_found functions mem covered (free f mem covered)
    rw [setup.redirected_eq functions mem listed active same getenv checked, at_name]
    rfl

theorem insertTrampolines_spec {module₄ : Module}
    (run : insertTrampolines naming map' module₂ = some module₄) :
    (∀ g ∈ module₂.functions, g.ref ∉ coveredFunctions map → module₄.function? g.ref = some g) ∧
      ∃ getenv, Getenv module map module₄ getenv ∧
        ∀ pair ∈ map', hasCoveredMutants pair.2 = true → ∀ f ∈ module.functions, f.ref = pair.1 →
          ∃ copy ∈ copies, CopyFor module.globals f copy ∧ copy.name = getOriginalFunctionName f.name ∧
            ∃ cs, checks pair.2 = some cs ∧
              module₄.function? f.ref = some (trampoline (dropAllReferences f) getenv copy.ref cs) := by
  have free := (setup.insertTrampolines_isSome naming distinct).mp (Option.isSome_of_eq_some run)
  have looked_up := setup.getenv_spec naming
  obtain ⟨inserted, functions, -⟩ := getOrInsertFunction_spec naming module₂ "getenv".toList getEnvType
  unfold insertTrampolines at run
  generalize getOrInsertFunction naming module₂ "getenv".toList getEnvType = found at *
  obtain ⟨getenv, module₃⟩ := found
  have fold : map'.foldlM (insertTrampoline getenv) module₃ = some module₄ := run
  obtain ⟨extended, edited, elsewhere⟩ :=
    (insertTrampoline_local getenv module₃).foldlM_some (setup.keys_nodup distinct) (.refl module₃) fold
  constructor
  · intro g mem uncovered
    have present : g ∈ module₃.functions := by
      rw [functions]
      exact List.mem_append_left _ mem
    have outside : some g.ref ∉ (map'.filter fun pair => hasCoveredMutants pair.2).map fun pair =>
      some pair.1 := by
      intro listed
      obtain ⟨pair, mem_pair, same⟩ := List.mem_map.mp listed
      obtain ⟨mem_pair, active⟩ := List.mem_filter.mp mem_pair
      rw [← Option.some.inj same] at uncovered
      exact uncovered (setup.covered_pair mem_pair active)
    exact (elsewhere _ outside).trans (Module.function?_of_mem present)
  · refine ⟨getenv, looked_up.extended extended, ?_⟩
    intro pair listed active f mem same
    obtain ⟨cs, checked⟩ := setup.exists_checks listed
    have covered := setup.covered_pair listed active
    rw [← same] at covered
    obtain ⟨copy, mem_copy, made, at_name⟩ := setup.copy_found functions mem covered (free f mem covered)
    have edit := edited pair listed active
    rw [setup.redirected_eq functions mem listed active same getenv checked, at_name] at edit
    refine ⟨copy, mem_copy, made, made.2.2 (free f mem covered), cs, checked, ?_⟩
    rw [same]
    exact (Option.some.inj edit).symm

end

end Emptied

end Mull.Preparation
