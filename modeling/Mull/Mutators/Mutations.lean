import Mull.FunctionUnderTest
import Mull.MutationPoint
import Mull.Mutators.LogicalMutators

/-! `getMutations` of every mutator: which instructions of a function under test it takes, and the low level
mutations it tries on each. -/

namespace Mull
open LLVM

namespace MutationPointAddress

def addressFromInstruction (module : Module) (place : Place) : MutationPointAddress :=
  ⟨module.functionIndex place.function, place.basicBlockIndex, place.instructionIndex⟩

def findInstruction (address : MutationPointAddress) (module : Module) : Option Place := do
  let function ← module.functions[address.functionIndex]?
  function.place? address.basicBlockIndex address.instructionIndex

theorem findInstruction_addressFromInstruction {module : Module} {place : Place} {f : Function}
    (mem : f ∈ module.functions) (inside : place ∈ f.instructions) :
    (addressFromInstruction module place).findInstruction module = some place := by
  have found := Function.mem_instructions.mp inside
  have own : place.function = f := by
    simp only [Function.place?, bind, Option.bind_eq_some_iff] at found
    obtain ⟨_, -, _, -, same⟩ := found
    rw [← Option.some.inj same]
  unfold findInstruction addressFromInstruction
  rw [own, Module.functionIndex_get mem]
  exact found

end MutationPointAddress

def MutationPoint.create (mutator : Mutator) (irMutator : Option IRMutation)
    (instruction : Place) (m : Bitcode) :
    MutationPoint where
  mutator := mutator
  irMutator := irMutator
  address := .addressFromInstruction m.module instruction
  bitcode := m.position
  originalFunction := instruction.function.ref
  mutatedFunction := none
  sourceLocation := .locationFromInstruction instruction.instruction
  endLocation := .nullSourceLocation
  covered := true

namespace Mutator

/-! ### The low level mutations -/

def getAddToSub : List IRMutation := [.addToSub, .fAddToFSub, .saddWithOverflowToSsubWithOverflow]

def getSubToAdd : List IRMutation := [.subToAdd, .fSubToFAdd, .ssubWithOverflowToSaddWithOverflow]

/-- Decrements are lowered to additions of -1. -/
def getDecToInc : List IRMutation := [.subToAdd, .fSubToFAdd, .ssubWithOverflowToSaddWithOverflow, .addToSub]

def getMulToDiv : List IRMutation := [.mulToSDiv, .fMulToFDiv]

def getDivToMul : List IRMutation := [.fDivToFMul, .sDivToMul, .uDivToMul]

def getRemToDiv : List IRMutation := [.fRemToFDiv, .sRemToSDiv, .uRemToUDiv]

def getRShiftToLShift : List IRMutation := [.lShrToShl, .aShrToShl]

def getNumberMutators : List IRMutation :=
  [.storeIntReplacement 42, .storeDoubleReplacement 42, .storeFloatReplacement 42]

def getEqualToNotEqual : List IRMutation := [.icmp .eq .ne, .fcmp .oeq .one, .fcmp .ueq .une]

def getNotEqualToEqual : List IRMutation := [.icmp .ne .eq, .fcmp .one .oeq, .fcmp .une .ueq]

def relational (signed signed' unsigned unsigned' : ICmp) (ordered ordered' unordered unordered' : FCmp) :
    List IRMutation :=
  [.icmp signed signed', .icmp unsigned unsigned', .fcmp ordered ordered', .fcmp unordered unordered']

/-- `lowLevelMutators`; the logical mutators have none. -/
def lowLevelMutators : Mutator → List IRMutation
  | negateConditionMutator => getEqualToNotEqual ++ getNotEqualToEqual
  | scalarValueMutator =>
    (List.range 5).flatMap fun i => [.constIntReplacement 42 i, .constFloatReplacement 42 i]
  | removeVoidCall => [.removeVoidFunctionCall, .removeVoidIntrinsicsCall]
  | replaceScalarCall => [.intCallReplacement 42, .floatCallReplacement 42, .doubleCallReplacement 42]
  | numberAssignConst | numberInitConst => getNumberMutators
  | addAssignToSubAssign | preIncToPreDec | postIncToPostDec | addToSub => getAddToSub
  | subAssignToAddAssign | subToAdd => getSubToAdd
  | preDecToPreInc | postDecToPostInc => getDecToInc
  | mulAssignToDivAssign | mulToDiv => getMulToDiv
  | divAssignToMulAssign | divToMul => getDivToMul
  | remAssignToDivAssign | remToDiv => getRemToDiv
  | andAssignToOrAssign | bitwiseAndToOr => [.andToOr]
  | orAssignToAndAssign | bitwiseOrToAnd => [.orToAnd]
  | xorAssignToOrAssign | xorToOr => [.xorToOr]
  | lShiftAssignToRShiftAssign | lShiftToRShift => [.shlToLShr]
  | rShiftAssignToLShiftAssign | rShiftToLShift => getRShiftToLShift
  | unaryMinusToNoop => [.swapSubOperands, .swapFSubOperands, .swapFNegWithOperand]
  | bitwiseNotToNoop => [.xorToAnd]
  | logicalAndToOr | logicalOrToAnd => []
  | removeNegation => [.negateXORReplacement]
  | equalToNotEqual => getEqualToNotEqual
  | notEqualToEqual => getNotEqualToEqual
  | lessOrEqualToGreaterThan => relational .sle .sgt .ule .ugt .ole .ogt .ule .ugt
  | lessThanToGreaterOrEqual => relational .slt .sge .ult .uge .olt .oge .ult .uge
  | greaterOrEqualToLessThan => relational .sge .slt .uge .ult .oge .olt .uge .ult
  | greaterThanToLessOrEqual => relational .sgt .sle .ugt .ule .ogt .ole .ugt .ule
  | lessOrEqualToLessThan => relational .sle .slt .ule .ult .ole .olt .ule .ult
  | lessThanToLessOrEqual => relational .slt .sle .ult .ule .olt .ole .ult .ule
  | greaterOrEqualToGreaterThan => relational .sge .sgt .uge .ugt .oge .ogt .uge .ugt
  | greaterThanToGreaterOrEqual => relational .sgt .sge .ugt .uge .ogt .oge .ugt .uge

section
variable (canMutate : IRMutation → Place → Bool)

/-- The loop over the selected instructions and, for each, over the low level mutations. -/
def selectedMutations (accepts : Inst → Bool) (mutator : Mutator) (function : FunctionUnderTest) :
    List MutationPoint :=
  function.selectedInstructions.flatMap fun instruction =>
    (mutator.lowLevelMutators.filter fun irMutator =>
      canMutate irMutator instruction && accepts instruction.instruction).map fun irMutator =>
        .create mutator (some irMutator) instruction function.bitcode

end

end Mutator

namespace UnaryMinusToNoop

def isZero : Value → Bool
  | .constantInt _ value => value == 0
  | .constantFP mantissa _ => mantissa == 0
  | _ => false

/-- Not a binary operator, or one with a zero on the left. -/
def accepts : Inst → Bool
  | .plain ⟨_, .binary _ lhs _, _⟩ => isZero lhs
  | _ => true

end UnaryMinusToNoop

namespace LogicalMutator

def toMutator : LogicalMutator → Mutator
  | .orToAnd => .logicalOrToAnd
  | .andToOr => .logicalAndToOr

/-- All instructions of the function, selected or not. -/
def getMutations (mutator : LogicalMutator) (function : FunctionUnderTest) : List MutationPoint :=
  (function.function.instructions.filter fun instruction =>
    (mutator.findPossibleMutation function.function instruction.parent instruction.instruction).isSome).map
      fun instruction => .create mutator.toMutator none instruction function.bitcode

end LogicalMutator

namespace Mutator

section
variable (canMutate : IRMutation → Place → Bool)

def getMutations (mutator : Mutator) (function : FunctionUnderTest) : List MutationPoint :=
  match mutator with
  | logicalOrToAnd => LogicalMutator.orToAnd.getMutations function
  | logicalAndToOr => LogicalMutator.andToOr.getMutations function
  | unaryMinusToNoop => selectedMutations canMutate UnaryMinusToNoop.accepts unaryMinusToNoop function
  | mutator => selectedMutations canMutate (fun _ => true) mutator function

variable {canMutate} {function : FunctionUnderTest} {point : MutationPoint}

theorem mem_selectedMutations {accepts : Inst → Bool} {mutator : Mutator}
    (mem : point ∈ selectedMutations canMutate accepts mutator function) :
    ∃ irMutator, ∃ place ∈ function.selectedInstructions,
    point = .create mutator irMutator place function.bitcode := by
  simp only [selectedMutations, List.mem_flatMap, List.mem_map, List.mem_filter] at mem
  obtain ⟨place, selected, irMutator, -, rfl⟩ := mem
  exact ⟨some irMutator, place, selected, rfl⟩

theorem mem_logicalMutations {mutator : LogicalMutator} : point ∈ mutator.getMutations function ↔
    ∃ place ∈ function.function.instructions,
      (mutator.findPossibleMutation function.function place.parent place.instruction).isSome = true ∧
        point = .create mutator.toMutator none place function.bitcode := by
  simp only [LogicalMutator.getMutations, List.mem_map, List.mem_filter, and_assoc, eq_comm]

theorem mem_getMutations {mutator : Mutator} (mem : point ∈ mutator.getMutations canMutate function) :
    (∃ irMutator, ∃ place ∈ function.selectedInstructions,
      point = .create mutator irMutator place function.bitcode) ∨
    ∃ logical : LogicalMutator, logical.toMutator = mutator ∧ point ∈ logical.getMutations function := by
  unfold getMutations at mem
  split at mem
  · exact .inr ⟨.orToAnd, rfl, mem⟩
  · exact .inr ⟨.andToOr, rfl, mem⟩
  · exact .inl (mem_selectedMutations mem)
  · exact .inl (mem_selectedMutations mem)

theorem getMutations_logical (logical : LogicalMutator) :
    logical.toMutator.getMutations canMutate function = logical.getMutations function := by
  cases logical <;> rfl

end

end Mutator
end Mull
