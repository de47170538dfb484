import Mull.Preparation.Originals

/-! What the trampolines and the mutations change: each covered function gets a trampoline, each clone its mutation,
and all others stay as they are. -/

namespace LLVM

namespace Module

def signature (module : Module) :
    List (FunctionRef × Base.Text) := module.functions.map fun f => (f.ref, f.name)

def refOf (module : Module) (name : Base.Text) : Option FunctionRef :=
  (module.getFunction name).map Function.ref

theorem setBody_signature (module : Module) (ref : FunctionRef) (body : Function) :
    (module.setBody ref body).signature = module.signature := by
  unfold signature setBody
  exact map_withBody _ (fun _ _ => rfl) _ ref body

theorem refOf_signature (module : Module) (name : Base.Text) :
    module.refOf name = (module.signature.find? fun entry => entry.2 = name).map Prod.fst := by
  unfold refOf getFunction signature
  rw [List.find?_map, Option.map_map]
  rfl

theorem refOf_of_mem {module : Module} {f : Function} (mem : f ∈ module.functions) :
    module.refOf f.name = some f.ref := by
  unfold refOf
  rw [getFunction_of_mem mem]
  rfl

theorem refOf_global {module : Module} {name : Base.Text} (taken : name ∈ module.globals.map Global.name) :
    module.refOf name = none := by
  unfold refOf
  cases found : module.getFunction name with
  | none => rfl
  | some f =>
    obtain ⟨mem, rfl⟩ := mem_of_getFunction found
    exact absurd taken ((List.nodup_append.mp module.named).2.2 _ (List.mem_map_of_mem mem) _ · rfl)

theorem callee?_refOf (module : Module) (name : Base.Text) : module.callee? name =
    (module.refOf name).or ((module.globals.find? fun global => global.name = name).bind Global.aliasee) := by
  unfold callee? refOf
  cases module.getFunction name <;> rfl

/-- The same functions with other bodies, and some variables more. -/
structure Extends (module module' : Module) : Prop where
  signature : module'.signature = module.signature
  globals : ∃ added, module'.globals = module.globals ++ added ∧ ∀ global ∈ added, global.aliasee = none

theorem Extends.refl (module : Module) : Extends module module := ⟨rfl, [], (List.append_nil _).symm, nofun⟩

theorem Extends.trans {module₁ module₂ module₃ : Module} (first : Extends module₁ module₂)
    (second : Extends module₂ module₃) : Extends module₁ module₃ := by
  obtain ⟨added, globals, plain⟩ := first.globals
  obtain ⟨added', globals', plain'⟩ := second.globals
  refine ⟨second.signature.trans first.signature, added ++ added', ?_, fun global mem => ?_⟩
  · rw [globals', globals, List.append_assoc]
  · exact (List.mem_append.mp mem).elim (plain global) (plain' global)

theorem extends_setBody (module : Module) (ref : FunctionRef) (body : Function) :
    Extends module (module.setBody ref body) :=
  ⟨setBody_signature module ref body, [], (List.append_nil _).symm, nofun⟩

theorem extends_insertGlobal (naming : Naming) (module : Module) (name : Base.Text) :
    Extends module (module.insertGlobal naming name) := by
  refine ⟨rfl, [_], rfl, fun global mem => ?_⟩
  rw [List.mem_singleton.mp mem]

theorem Extends.callee? {module module' : Module} (extended : Extends module module') (name : Base.Text) :
    module'.callee? name = module.callee? name := by
  obtain ⟨added, globals, plain⟩ := extended.globals
  have none_new : (added.find? fun global => global.name = name).bind Global.aliasee = none := by
    cases found : added.find? fun global => global.name = name with
    | none => rfl
    | some global => exact plain global (List.mem_of_find?_eq_some found)
  rw [callee?_refOf, callee?_refOf, refOf_signature, extended.signature, ← refOf_signature, globals,
    List.find?_append]
  congr 1
  cases module.globals.find? fun global => global.name = name with
  | none => exact none_new
  | some global => rfl

theorem exists_of_signature {module module' : Module}
    (same : module.signature = module'.signature) {f : Function}
    (mem : f ∈ module.functions) : ∃ g ∈ module'.functions, g.ref = f.ref ∧ g.name = f.name := by
  have listed : (f.ref, f.name) ∈ module'.signature := by
    rw [← same]
    exact List.mem_map_of_mem mem
  obtain ⟨g, mem_g, eq⟩ := List.mem_map.mp listed
  exact ⟨g, mem_g, congrArg Prod.fst eq, congrArg Prod.snd eq⟩

def lookup (module : Module) (ref : Option FunctionRef) : Option Function := ref.bind module.function?

theorem function?_setBody_of_ne {module : Module} {body : Function} {changed ref : FunctionRef}
    (ne : ref ≠ changed) :
    (module.setBody changed body).function? ref = module.function? ref := by
  rw [function?_setBody]
  simp only [ne, if_false, Option.map_id']

theorem function?_setBody_self {module : Module} {f body : Function} {ref : FunctionRef}
    (found : module.function? ref = some f) :
      (module.setBody ref body).function? ref = some (f.withBody body) := by
  rw [function?_setBody, found]
  simp

end Module
end LLVM

namespace Mull.Preparation
open LLVM MutationPoint Base

/-! ### New bodies, one for each key -/

section
variable {α : Type} {active : α → Bool} {key : α → Option FunctionRef} {edit : α → Function → Option Function}
  {step : Module → α → Option Module} {module₀ : Module}

def bodyEdit (edit : α → Function → Option Function) (a : α) (found : Option Function) :
    Option (Option Function) :=
  found.bind fun f => (edit a f).map fun body => some (f.withBody body)

theorem bodyEdit_local
    (idle : ∀ module a, active a = false → ∃ module', step module a = some module' ∧
      module'.function? = module.function? ∧ module.Extends module')
    (busy : ∀ module a, module₀.Extends module → active a = true → ∃ module' : Module,
      module'.function? = module.function? ∧ module.Extends module' ∧
      step module a = (key a).bind fun ref => ((module.function? ref).bind (edit a)).map
        (module'.setBody ref)) :
    LocalStep Module.lookup active key (bodyEdit edit) module₀.Extends step where
  idle module a inv inactive := by
    obtain ⟨module', done, functions, same⟩ := idle module a inactive
    refine ⟨module', done, inv.trans same, fun k => ?_⟩
    unfold Module.lookup
    rw [functions]
  defined module a inv act := by
    obtain ⟨module', -, -, done⟩ := busy module a inv act
    rw [done]
    unfold Module.lookup bodyEdit
    cases key a with
    | none => rfl
    | some ref => cases found : module.function? ref <;> simp [found]
  keeps module a next inv act done := by
    obtain ⟨module', -, same, eq⟩ := busy module a inv act
    rw [eq, Option.bind_eq_some_iff] at done
    obtain ⟨ref, -, done⟩ := done
    obtain ⟨body, -, rfl⟩ := Option.map_eq_some_iff.mp done
    exact (inv.trans same).trans (Module.extends_setBody module' ref body)
  edits module a next inv act done := by
    obtain ⟨module', functions, -, eq⟩ := busy module a inv act
    rw [eq, Option.bind_eq_some_iff] at done
    obtain ⟨ref, at_key, done⟩ := done
    obtain ⟨body, edited, rfl⟩ := Option.map_eq_some_iff.mp done
    obtain ⟨f, found, edited⟩ := Option.bind_eq_some_iff.mp edited
    rw [at_key]
    show bodyEdit edit a (module.function? ref) = some ((module'.setBody ref body).function? ref)
    rw [found, Module.function?_setBody_self (functions ▸ found)]
    unfold bodyEdit
    rw [Option.bind_some, edited]
    rfl
  elsewhere module a next inv act done k other := by
    obtain ⟨module', functions, -, eq⟩ := busy module a inv act
    rw [eq, Option.bind_eq_some_iff] at done
    obtain ⟨ref, at_key, done⟩ := done
    obtain ⟨body, -, rfl⟩ := Option.map_eq_some_iff.mp done
    cases k with
    | none => rfl
    | some k =>
      have ne : k ≠ ref := by
        rintro rfl
        exact other at_key.symm
      show (module'.setBody ref body).function? k = module.function? k
      rw [Module.function?_setBody_of_ne ne, functions]

end

/-! ### Trampolines -/

section
variable (naming : Naming) (module : Module) (name : Text) (type : FunctionType)

/-- The module has a global value of the name then, and it is the one returned. -/
theorem getOrInsertFunction_spec : ∃ inserted,
    (getOrInsertFunction naming module name type).2.functions = module.functions ++ inserted ∧
      (getOrInsertFunction naming module name type).2.globals = module.globals ∧
      (getOrInsertFunction naming module name type).2.callee? name =
        (getOrInsertFunction naming module name type).1.callee? ∧
      ((getOrInsertFunction naming module name type).1.callee? = none →
        (getOrInsertFunction naming module name type).1 = .global name none) ∧
      (name ∈ module.names → (getOrInsertFunction naming module name type).1.callee? = module.callee? name) ∧
      (name ∉ module.names → (getOrInsertFunction naming module name type).1.callee? = some module.freshRef) ∧
      (name ∉ module.globals.map Global.name →
        ∃ g ∈ (getOrInsertFunction naming module name type).2.functions,
        g.name = name ∧ (getOrInsertFunction naming module name type).1 = .function g.ref) := by
  unfold getOrInsertFunction
  cases found : module.getFunction name with
  | some f =>
    obtain ⟨mem, rfl⟩ := Module.mem_of_getFunction found
    have here : module.callee? f.name = some f.ref := by
      unfold Module.callee?
      rw [found]
    refine ⟨[], (List.append_nil _).symm, rfl, here, nofun, fun _ => here.symm, fun unknown => ?_,
      fun _ => ⟨f, mem, rfl, rfl⟩⟩
    exact absurd (List.mem_append_left _ (List.mem_map_of_mem mem)) unknown
  | none =>
    cases taken : module.globals.find? fun global => global.name = name with
    | some global =>
      have same : global.name = name := by simpa using List.find?_some taken
      have here : module.callee? name = global.aliasee := by
        unfold Module.callee?
        rw [found, taken, Option.bind_some]
      have listed : name ∈ module.globals.map Global.name := by
        rw [← same]
        exact List.mem_map_of_mem (List.mem_of_find?_eq_some taken)
      exact ⟨[], (List.append_nil _).symm, rfl, here, congrArg₂ Value.global same, fun _ => here.symm,
        fun unknown => absurd (List.mem_append_right _ listed) unknown, fun free => absurd listed free⟩
    | none =>
      have unknown : name ∉ module.names := by
        intro known
        rcases List.mem_append.mp known with known | known
        · obtain ⟨f, mem, rfl⟩ := List.mem_map.mp known
          rw [Module.getFunction_of_mem mem] at found
          cases found
        · obtain ⟨global, mem, same⟩ := List.mem_map.mp known
          exact absurd (decide_eq_true same) (by simpa using List.find?_eq_none.mp taken global mem)
      let declaration : Function :=
        { ref := 0, name := name, type := type, blocks := [], distinct := List.nodup_nil }
      have added : Module.added naming module name
        declaration ∈ (module.insert naming name declaration).functions :=
        Module.mem_insert.mpr (.inr rfl)
      have present := Module.getFunction_of_mem added
      have kept : (Module.added naming module name declaration).name = name := if_neg unknown
      refine ⟨[_], rfl, rfl, ?_, nofun, fun known => absurd known unknown, fun _ => rfl,
        fun _ => ⟨_, added, kept, rfl⟩⟩
      rw [kept] at present
      show (module.insert naming name declaration).callee? name = _
      unfold Module.callee?
      rw [present]
      rfl

end

/-- What a trampoline makes of an original, given where the copies are. -/
def redirected (copies : Text → Option FunctionRef) (getenv : Value)
    (pair : FunctionRef × List MutationPoint) (original : Function) : Option Function := do
  let copy ← copies (getOriginalFunctionName original.name)
  let checks ← checks pair.2
  some (trampoline original getenv copy checks)

theorem insertTrampoline_local (getenv : Value) (module₀ : Module) :
    LocalStep Module.lookup (fun pair => hasCoveredMutants pair.2) (fun pair => some pair.1)
      (bodyEdit (redirected module₀.refOf getenv)) module₀.Extends
      (insertTrampoline getenv) := by
  refine bodyEdit_local (fun module pair inactive => ?_) fun module pair same active => ?_
  · refine ⟨module, ?_, rfl, .refl module⟩
    unfold insertTrampoline
    rw [inactive, if_neg Bool.false_ne_true]
  · refine ⟨module, rfl, .refl module, ?_⟩
    have copies : module.refOf = module₀.refOf := by
      funext name
      rw [Module.refOf_signature, same.signature, ← Module.refOf_signature]
    unfold insertTrampoline redirected
    rw [if_pos active, ← copies, Option.bind_some]
    cases module.function? pair.1 with
    | none => rfl
    | some original =>
      simp only [Module.refOf, bind, Option.bind_some]
      cases module.getFunction (getOriginalFunctionName original.name) with
      | none => rfl
      | some copy =>
        simp only [Option.map_some, Option.bind_some]
        cases checks pair.2 <;> rfl

/-! ### Mutations -/

theorem applyMutationTask_local (irm : LowLevelMutations) (naming : Naming) (module₀ : Module) :
    LocalStep Module.lookup MutationPoint.covered MutationPoint.mutatedFunction
      (bodyEdit (MutationPoint.mutateFunction irm)) module₀.Extends
      (applyMutationTask irm naming) := by
  refine bodyEdit_local (fun module point inactive => ?_) fun module point _ active => ?_
  · refine ⟨module.insertGlobal naming point.getUserIdentifier, ?_, rfl,
      Module.extends_insertGlobal naming module _⟩
    unfold applyMutationTask
    rw [inactive, if_neg Bool.false_ne_true]
  · refine ⟨module.insertGlobal naming point.getUserIdentifier, rfl,
      Module.extends_insertGlobal naming module _, ?_⟩
    unfold applyMutationTask applyMutation
    rw [if_pos active]
    cases point.mutatedFunction with
    | none => rfl
    | some mutated =>
      simp only [bind, Option.bind_some, Module.function?_insertGlobal]
      cases module.function? mutated with
      | none => rfl
      | some f =>
        simp only [Option.bind_some]
        cases point.mutateFunction irm f <;> rfl

/-! ### What a function is called does not matter to its mutations. -/

section
variable {f g : Function} (same : g.blocks = f.blocks)
include same

theorem redirect_blocks (first second : CondBranch) (trueDest falseDest target : Nat) :
    (Logical.redirect g first second trueDest falseDest target).blocks =
      (Logical.redirect f first second trueDest falseDest target).blocks := by
  unfold Logical.redirect
  simp only [List.foldl_cons, List.foldl_nil]
  split_ifs <;> simp only [Function.setPhis, Function.setTerminator, Function.mapBlocks, same]

theorem negateJoin_blocks (first second : CondBranch) :
    (Logical.negateJoin g first second).map Function.blocks =
      (Logical.negateJoin f first second).map Function.blocks := by
  unfold Logical.negateJoin
  rw [Option.map_map, Option.map_map]
  refine Option.map_congr fun phis _ => ?_
  simp only [Function.comp_apply, Function.setPhis, Function.setTerminator, Function.mapBlocks, same]

theorem applyMutation_blocks (mutator : LogicalMutator) (i j : Nat) :
    (mutator.applyMutation g i j).map Function.blocks =
      (mutator.applyMutation f i j).map Function.blocks := by
  have branches : g.condBranches = f.condBranches := by
    unfold Function.condBranches
    rw [same]
  have found (branch : CondBranch) :
      mutator.findPossibleMutationInBranch g branch = mutator.findPossibleMutationInBranch f branch := by
    cases mutator
    · show Logical.findSecondBranch _ _ _ _ _ = Logical.findSecondBranch _ _ _ _ _
      rw [branches]
    · show Logical.findSecondBranch _ _ _ _ _ = Logical.findSecondBranch _ _ _ _ _
      rw [branches]
  have pattern (branch : CondBranch) (found : LogicalPattern × CondBranch) :
      (mutator.applyPattern g branch found).map Function.blocks =
        (mutator.applyPattern f branch found).map Function.blocks := by
    obtain ⟨pattern, second⟩ := found
    cases pattern with
    | pattern1 => cases mutator <;> exact congrArg some (redirect_blocks same ..)
    | pattern2 => cases mutator <;> exact congrArg some (redirect_blocks same ..)
    | pattern3 => cases mutator <;> exact negateJoin_blocks same ..
  unfold LogicalMutator.applyMutation
  rw [same]
  cases f.blocks[i]? with
  | none => rfl
  | some block =>
    simp only [bind, Option.bind_some]
    cases block.instructions[j]? with
    | none => rfl
    | some instruction =>
      simp only [Option.bind_some]
      split
      · unfold LogicalMutator.mutateBranch
        rw [found]
        split
        · exact congrArg some same
        · exact pattern _ _
      · rfl

end

theorem mutateFunction_clone (irm : LowLevelMutations) (point : MutationPoint) (f : Function)
    (ref : FunctionRef) (name : Text) : (point.mutateFunction irm (clone f ref name)).map Function.blocks =
      (point.mutateFunction irm f).map Function.blocks := by
  have low : (point.irMutator.bind fun irMutator => irm.mutate irMutator (clone f ref name)
      point.address.basicBlockIndex point.address.instructionIndex).map Function.blocks =
      (point.irMutator.bind fun irMutator => irm.mutate irMutator f
        point.address.basicBlockIndex point.address.instructionIndex).map Function.blocks := by
    cases point.irMutator with
    | none => rfl
    | some irMutator => exact irm.renamed irMutator f ref name true _ _
  have body : (clone f ref name).blocks = f.blocks := rfl
  unfold mutateFunction
  split
  · exact applyMutation_blocks body ..
  · exact applyMutation_blocks body ..
  · exact low

end Mull.Preparation
