import Mull.LLVM.IR

/-! The low level mutations of the `irm` library that the mutators use, by the names of their classes. -/

namespace Mull

inductive IRMutation
  | addToSub | fAddToFSub | saddWithOverflowToSsubWithOverflow
  | subToAdd | fSubToFAdd | ssubWithOverflowToSaddWithOverflow
  | mulToSDiv | fMulToFDiv
  | fDivToFMul | sDivToMul | uDivToMul
  | fRemToFDiv | sRemToSDiv | uRemToUDiv
  | xorToAnd | negateXORReplacement
  | swapSubOperands | swapFSubOperands | swapFNegWithOperand
  | shlToLShr | lShrToShl | aShrToShl
  | orToAnd | andToOr | xorToOr
  | icmp (source target : LLVM.ICmp)
  | fcmp (source target : LLVM.FCmp)
  | removeVoidFunctionCall | removeVoidIntrinsicsCall
  | intCallReplacement (value : Nat) | floatCallReplacement
    (value : Nat) | doubleCallReplacement (value : Nat)
  | storeIntReplacement (value : Nat) | storeDoubleReplacement
    (value : Nat) | storeFloatReplacement (value : Nat)
  | constIntReplacement (value operand : Nat) | constFloatReplacement (value operand : Nat)
deriving DecidableEq

/-- What the low level mutations make of a function at the position of an instruction; `none` is a failed
assertion. They rewrite the body, whatever the function is called. -/
structure LowLevelMutations where
  mutate : IRMutation → LLVM.Function → Nat → Nat → Option LLVM.Function
  renamed : ∀ irMutator (f : LLVM.Function) ref name isInternal i j,
    (mutate irMutator { f with ref, name, isInternal } i j).map LLVM.Function.blocks =
      (mutate irMutator f i j).map LLVM.Function.blocks

namespace LowLevelMutations
open LLVM

def replaceOperation (rewrite : Operation → Option Operation) (f : Function) (i j : Nat) :
    Option Function := do
  let block ← f.blocks[i]?
  let instruction ← block.body[j - block.phis.length]?
  let operation ← rewrite instruction.operation
  some (f.mapBlocks (fun other => if other.ref = block.ref then
      { other with body := other.body.set (j - other.phis.length) { instruction with operation := operation } }
    else other) fun other => by split <;> rfl)

/-- What `addToSub` does to an addition and `constIntReplacement` to the arguments of a call; `Add` is 13, `Sub`
15. -/
def rewriteSimple : IRMutation → Operation → Option Operation
  | .addToSub, .binary 13 lhs rhs => some (.binary 15 lhs rhs)
  | .constIntReplacement value operand, .call callee arguments type attributes callingConv =>
    match arguments[operand]? with
    | some (.constantInt bits _) =>
      some (.call callee (arguments.set operand (.constantInt bits value)) type attributes callingConv)
    | _ => none
  | _, _ => none

def simple : LowLevelMutations where
  mutate irMutator := replaceOperation (rewriteSimple irMutator)
  renamed irMutator f ref name isInternal i j := by
    unfold replaceOperation
    show Option.map _ (f.blocks[i]?.bind _) = Option.map _ (f.blocks[i]?.bind _)
    cases f.blocks[i]? with
    | none => rfl
    | some block =>
      show Option.map _ (block.body[j - block.phis.length]?.bind _) =
        Option.map _ (block.body[j - block.phis.length]?.bind _)
      cases block.body[j - block.phis.length]? with
      | none => rfl
      | some instruction =>
        show Option.map _ ((rewriteSimple irMutator instruction.operation).bind _) =
          Option.map _ ((rewriteSimple irMutator instruction.operation).bind _)
        cases rewriteSimple irMutator instruction.operation <;> rfl

end LowLevelMutations

end Mull
