import Mull.LLVM.Module

/-! Functions under test and the instructions that the filters leave to mutate. -/

namespace Mull
open LLVM

structure Bitcode where
  position : Nat
  module : Module
deriving DecidableEq

structure FunctionUnderTest where
  function : Function
  bitcode : Bitcode
  covered : Bool := true
  selectedInstructions : List Place := []
deriving DecidableEq

/-- `shouldSkip` of a filter. -/
abbrev FunctionFilter := Function → Bool
abbrev InstructionFilter := Place → Bool

namespace FunctionUnderTest

def selectInstructions (filters : List InstructionFilter) (f : FunctionUnderTest) : FunctionUnderTest :=
  { f with selectedInstructions := f.selectedInstructions ++
      f.function.instructions.filter fun instruction => !filters.any fun filter => filter instruction }

theorem mem_selectInstructions {filters : List InstructionFilter} {f : FunctionUnderTest}
    (fresh : f.selectedInstructions = []) {place : Place} :
    place ∈ (f.selectInstructions filters).selectedInstructions ↔
      place ∈ f.function.instructions ∧ ∀ filter ∈ filters, filter place = false := by
  unfold selectInstructions
  rw [fresh, List.nil_append, List.mem_filter]
  simp

end FunctionUnderTest
end Mull
