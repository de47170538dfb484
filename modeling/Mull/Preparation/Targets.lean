import Mull.Preparation.Prepared

/-! What trampolines call: clones have the type of their function, and `getenv` is the program's own or is
declared. -/

namespace LLVM.Module

theorem setBody_type {module : Module} {ref changed : FunctionRef} {f body : Function}
    (found : module.function? ref = some f) : ∃ g, (module.setBody changed body).function? ref = some g ∧
    g.type = f.type := by
  rw [function?_setBody, found]
  refine ⟨_, rfl, ?_⟩
  dsimp only
  split <;> rfl

end LLVM.Module

namespace Mull.Preparation
open LLVM MutationPoint Base

theorem applyMutations_type {irm : LowLevelMutations} {naming : Naming} {points : List MutationPoint}
    {final : Module}
    {ref : FunctionRef} {module : Module} (run : applyMutations irm naming points module = some final)
    {f : Function}
    (found : module.function? ref = some f) : ∃ g, final.function? ref = some g ∧ g.type = f.type := by
  unfold applyMutations at run
  induction points generalizing module f with
  | nil =>
    cases run
    exact ⟨f, found, rfl⟩
  | cons point rest ih =>
    obtain ⟨module₁, step, rest_run⟩ := Option.bind_eq_some_iff.mp run
    have kept : ∃ g, module₁.function? ref = some g ∧ g.type = f.type := by
      unfold applyMutationTask applyMutation at step
      split at step
      · obtain ⟨_, -, step⟩ := Option.bind_eq_some_iff.mp step
        obtain ⟨_, -, step⟩ := Option.bind_eq_some_iff.mp step
        obtain ⟨_, -, step⟩ := Option.bind_eq_some_iff.mp step
        rw [← Option.some.inj step]
        exact Module.setBody_type found
      · rw [← Option.some.inj step]
        exact ⟨f, found, rfl⟩
    obtain ⟨g, found', type⟩ := kept
    obtain ⟨h, found'', type'⟩ := ih rest_run found'
    exact ⟨h, found'', type'.trans type⟩

theorem checkBlocks_inj {base : Nat} {getenv getenv' : Value} {k : Nat} {cs cs' : List Check}
    (same : checkBlocks base getenv k cs = checkBlocks base getenv' k cs') :
      cs = cs' ∧ (cs ≠ [] → getenv = getenv') := by
  induction cs generalizing k cs' with
  | nil =>
    cases cs' with
    | nil => exact ⟨rfl, fun some => absurd rfl some⟩
    | cons => cases same
  | cons check rest ih =>
    cases cs' with
    | nil => cases same
    | cons check' rest' =>
      obtain ⟨check_eq, later⟩ := List.cons.inj same
      obtain ⟨mutation_eq, later⟩ := List.cons.inj later
      obtain ⟨rfl, -⟩ := ih later
      have lookup := (List.cons.inj (congrArg BasicBlock.body check_eq)).1
      have store := (List.cons.inj (congrArg BasicBlock.body mutation_eq)).1
      obtain ⟨callee, operands, -⟩ := Operation.call.inj (congrArg Instruction.operation lookup)
      obtain ⟨clone, -⟩ := Operation.store.inj (congrArg Instruction.operation store)
      have identifier := Value.string.inj (List.cons.inj operands).1
      obtain rfl : check = check' := Prod.ext identifier (Value.function.inj clone)
      exact ⟨rfl, fun _ => callee⟩

theorem trampoline_inj {f : Function} {getenv getenv' : Value} {copy copy' : FunctionRef}
    {cs cs' : List Check} (same : trampoline f getenv copy cs = trampoline f getenv' copy' cs') :
      cs = cs' ∧ (cs ≠ [] → getenv = getenv') := by
  have blocks := List.append_cancel_left (congrArg Function.blocks same)
  unfold trampolineBlocks at blocks
  exact checkBlocks_inj (List.cons.inj (List.cons.inj (List.cons.inj blocks).2).2).2

theorem mem_getOrInsertFunction {naming : Naming} {module : Module} {name : Text}
    {type : FunctionType} {g : Function}
    (mem : g ∈ (getOrInsertFunction naming module name type).2.functions) :
    g ∈ module.functions ∨ (g.ref = module.freshRef ∧ g.blocks = [] ∧ g.type = type) := by
  unfold getOrInsertFunction at mem
  split at mem
  · exact .inl mem
  · exact .inl mem
  · rcases Module.mem_insert.mp mem with mem | rfl
    · exact .inl mem
    · exact .inr ⟨rfl, rfl, rfl⟩

section
variable {irm : LowLevelMutations} {naming : Naming} {arrangement : Arrangement} {module final : Module}
  {map : MutationPoints} (distinct : (map.map Prod.fst).Nodup)
  (known : ∀ pair ∈ map, ∃ f ∈ module.functions, f.ref = pair.1)
  (free : ∀ f ∈ module.functions, f.ref ∈ map.map Prod.fst → ∀ g ∈ module.functions,
    g.name ≠ getOriginalFunctionName f.name)
  (run : prepare irm naming arrangement map module = some final)
include distinct known free run

theorem prepare_clones {f : Function} (mem : f ∈ module.functions) {points : List MutationPoint}
    (listed : (f.ref, points) ∈ map) (active : hasCoveredMutants points = true) {getenv : Value}
    {copy : FunctionRef} {cs : List Check}
    (body : final.function? f.ref = some (trampoline (dropAllReferences f) getenv copy cs)) :
    ∀ check ∈ cs, ∃ g, final.function? check.2 = some g ∧ g.type = f.type := by
  obtain ⟨map', module₁, module₂, clones, originals, copies, setup, -, eq⟩ :=
    exists_emptied irm naming arrangement distinct known free
  rw [eq] at run
  obtain ⟨module₄, trampolines, mutations⟩ := Option.bind_eq_some_iff.mp run
  obtain ⟨kept, getenv', -, redirected⟩ := setup.insertTrampolines_spec naming distinct trampolines
  obtain ⟨elsewhere, -⟩ := setup.applyMutations_spec irm naming arrangement kept mutations
  obtain ⟨pair', listed', same, prepared⟩ := exists_right setup.prepared listed
  have active' : hasCoveredMutants pair'.2 = true := by
    rw [PreparedPair.hasCoveredMutants_eq ⟨same, prepared⟩]
    exact active
  obtain ⟨copy', -, -, -, cs', checked, body'⟩ := redirected pair' listed' active' f mem same.symm
  rw [elsewhere _ (setup.original_apart mem), body'] at body
  obtain ⟨rfl, -⟩ := trampoline_inj (Option.some.inj body)
  intro check mem_check
  obtain ⟨point', inside', at_check⟩ := exists_left (mapM_some_iff.mp checked) mem_check
  have mem_covered : (pair'.1, point') ∈ coveredPoints map' :=
    List.mem_flatMap.mpr ⟨pair', listed', List.mem_map_of_mem inside'⟩
  obtain ⟨g, mem_g, f', mem_f', same', mutated, suffix, clone_eq⟩ := exists_right setup.cloned mem_covered
  obtain rfl := List.inj_on_of_nodup_map module.distinct mem_f' mem (same'.trans same)
  rw [mutated] at at_check
  obtain rfl := Option.some.inj at_check
  obtain ⟨g', found, type⟩ := applyMutations_type mutations
    (kept g (setup.clone_mem mem_g) (setup.clone_new mem_g))
  refine ⟨g', found, type.trans ?_⟩
  rw [clone_eq]
  rfl

theorem prepare_getenv {g : Function} (mem : g ∈ final.functions) (name : g.name = "getenv".toList) :
    (∃ h ∈ module.functions, h.ref = g.ref ∧ h.name = "getenv".toList) ∨
    (g.blocks = [] ∧ g.type = getEnvType) := by
  obtain ⟨map', module₁, module₂, clones, originals, copies, setup, -, eq⟩ :=
    exists_emptied irm naming arrangement distinct known free
  rw [eq] at run
  obtain ⟨module₄, trampolines, mutations⟩ := Option.bind_eq_some_iff.mp run
  obtain ⟨kept, -⟩ := setup.insertTrampolines_spec naming distinct trampolines
  obtain ⟨elsewhere, extended, -⟩ := setup.applyMutations_spec irm naming arrangement kept mutations
  have old {h : Function} (mem_h : h ∈ module₂.functions) (name_h : h.name = "getenv".toList) :
      ∃ h' ∈ module.functions, h'.ref = h.ref ∧ h'.name = "getenv".toList := by
    rw [setup.functions, List.mem_append] at mem_h
    rcases mem_h with mem_h | mem_h
    · obtain ⟨h', mem', rfl⟩ := List.mem_map.mp mem_h
      rw [emptied_name] at name_h
      rcases List.mem_append.mp mem' with mem' | mem'
      · exact ⟨h', mem', (emptied_ref _ h').symm, name_h⟩
      · obtain ⟨point, -, original, -, -, -, suffix, eq⟩ := exists_left setup.cloned mem'
        rw [eq] at name_h
        exact absurd name_h getenv_not_cloned
    · obtain ⟨original, -, made⟩ := exists_left setup.copied mem_h
      exact absurd name_h (getenv_not_copied made)
  have found := @mem_getOrInsertFunction naming module₂ "getenv".toList getEnvType
  unfold insertTrampolines at trampolines
  generalize getOrInsertFunction naming module₂ "getenv".toList getEnvType = getenv_module at *
  obtain ⟨getenv, module₃⟩ := getenv_module
  have fold : map'.foldlM (insertTrampoline getenv) module₃ = some module₄ := trampolines
  obtain ⟨extended', -, elsewhere'⟩ :=
    (insertTrampoline_local getenv module₃).foldlM_some (setup.keys_nodup distinct) (.refl module₃) fold
  obtain ⟨g₃, mem₃, ref₃, name₃⟩ := Module.exists_of_signature (extended'.trans extended).signature mem
  rcases found mem₃ with mem₂ | ⟨fresh, empty, type⟩
  · obtain ⟨h, mem_h, ref_h, name_h⟩ := old mem₂ (name₃.trans name)
    exact .inl ⟨h, mem_h, ref_h.trans ref₃, name_h⟩
  · have new : g.ref ∉ module₂.functions.map Function.ref := by
      rw [← ref₃, fresh]
      exact module₂.freshRef_fresh
    have uncloned : g.ref ∉ clones.map Function.ref := by
      intro cloned
      obtain ⟨h, mem_h, same⟩ := List.mem_map.mp cloned
      exact new (same ▸ List.mem_map_of_mem (setup.clone_mem mem_h))
    have uncovered : some g.ref ∉ (map'.filter fun pair => hasCoveredMutants pair.2).map fun pair =>
      some pair.1 := by
      intro listed
      obtain ⟨pair, mem_pair, same⟩ := List.mem_map.mp listed
      obtain ⟨mem_pair, active⟩ := List.mem_filter.mp mem_pair
      obtain ⟨h, mem_h, ref_h⟩ := List.mem_map.mp (setup.covered_mem (setup.covered_pair mem_pair active))
      refine new (List.mem_map.mpr ⟨_, setup.original_mem mem_h, ?_⟩)
      rw [emptied_ref, ref_h]
      exact Option.some.inj same
    have at_ref : final.function? g.ref = some g₃ := by
      rw [elsewhere _ uncloned, ← ref₃, ← Module.function?_of_mem mem₃, ref₃]
      exact elsewhere' (some g.ref) uncovered
    obtain rfl := Option.some.inj ((Module.function?_of_mem mem).symm.trans at_ref)
    exact .inr ⟨empty, type⟩

end
end Mull.Preparation
