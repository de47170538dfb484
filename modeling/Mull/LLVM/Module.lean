import Mull.LLVM.IR

/-! Modules, and where an instruction stands in its function. -/

namespace LLVM
open Base

/-- A global value that is not a function: a variable, or an alias. -/
structure Global where
  name : Text
  aliasee : Option FunctionRef := none
deriving DecidableEq

structure Module where
  functions : List Function
  globals : List Global := []
  distinct : (functions.map Function.ref).Nodup
  named : (functions.map Function.name ++ globals.map Global.name).Nodup
  aliased : ∀ global ∈ globals, ∀ ref ∈ global.aliasee, ref ∈ functions.map Function.ref := by simp
deriving DecidableEq

structure Place where
  function : Function
  parent : BasicBlock
  basicBlockIndex : Nat
  instructionIndex : Nat
  instruction : Inst
deriving DecidableEq

namespace Function

def place? (f : Function) (basicBlockIndex instructionIndex : Nat) : Option Place := do
  let block ← f.blocks[basicBlockIndex]?
  let instruction ← block.instructions[instructionIndex]?
  some ⟨f, block, basicBlockIndex, instructionIndex, instruction⟩

/-- `llvm::instructions`. -/
def instructions (f : Function) : List Place :=
  f.blocks.zipIdx.flatMap fun (block, basicBlockIndex) =>
    block.instructions.zipIdx.map fun (instruction, instructionIndex) =>
      ⟨f, block, basicBlockIndex, instructionIndex, instruction⟩

theorem mem_instructions {f : Function} {place : Place} :
    place ∈ f.instructions ↔ f.place? place.basicBlockIndex place.instructionIndex = some place := by
  obtain ⟨g, parent, i, j, instruction⟩ := place
  unfold instructions place?
  simp only [List.mem_flatMap, List.mem_map, Prod.exists, List.mem_zipIdx_iff_getElem?, bind,
    Option.bind_eq_some_iff, Option.some.injEq]
  constructor
  · rintro ⟨_, _, at_block, _, _, at_instruction, same⟩
    cases same
    exact ⟨parent, at_block, instruction, at_instruction, rfl⟩
  · rintro ⟨block, at_block, _, at_instruction, same⟩
    cases same
    exact ⟨parent, i, at_block, instruction, j, at_instruction, rfl⟩

end Function

namespace Module

def functionIndex (module : Module) (f : Function) : Nat := module.functions.findIdx fun g => g.ref = f.ref

theorem functionIndex_get {module : Module} {f : Function} (mem : f ∈ module.functions) :
    module.functions[module.functionIndex f]? = some f := by
  have inside : module.functionIndex f < module.functions.length :=
    List.findIdx_lt_length_of_exists ⟨f, mem, by simp⟩
  have found : (module.functions[module.functionIndex f]).ref = f.ref :=
    of_decide_eq_true (List.findIdx_getElem (w := inside))
  rw [List.getElem?_eq_getElem inside,
    List.inj_on_of_nodup_map module.distinct (List.getElem_mem inside) mem found]

end Module
end LLVM
