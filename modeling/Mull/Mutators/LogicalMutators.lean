import Mull.LLVM.IR

/-! `LogicalOrToAnd` and `LogicalAndToOr`: how they pair a conditional branch with a second one and what
they make of the pair. The left successor of a branch is the true one, operand 2, the right successor
the false one, operand 1. -/

namespace Mull
open LLVM

inductive LogicalPattern
  | pattern1
  | pattern2
  | pattern3
deriving DecidableEq

namespace Logical

/-- Some PHI node of the candidate's block comes from elsewhere than the first branch. -/
def joinsOthers (first candidate : CondBranch) : Bool :=
  candidate.parent.phis.any fun phi => phi.blocks.any fun block => block ≠ first.parent.ref

/-- The scan for a second branch: the candidates after `first`, by the successor on the shared side. -/
def findSecondBranch (shared other : CondBranch → Nat) (first : CondBranch) (passedBranchInst : Bool) :
    List CondBranch → Option (LogicalPattern × CondBranch)
  | [] => none
  | candidate :: rest =>
    if candidate.parent.ref = first.parent.ref then findSecondBranch shared other first true rest
    else if !passedBranchInst then findSecondBranch shared other first passedBranchInst rest
    else if shared candidate = shared first then some (.pattern1, candidate)
    else if shared candidate = other first then some (.pattern2, candidate)
    else if joinsOthers first candidate && candidate.parent.ref == shared first then some
      (.pattern3, candidate)
    else findSecondBranch shared other first passedBranchInst rest

/-- A PHI node with an entry for `source` gets the same value for `block`. -/
def copyIncoming (source block : Nat) (phi : PHINode) : PHINode :=
  match phi.incomingValue? source with
  | none => phi
  | some operand => phi.addIncoming operand block

/-- The new branch takes the place of the first one; then the loop over the successors of the second
branch's block, for those that are `target`. -/
def redirect (f : Function) (first second : CondBranch) (trueDest falseDest target : Nat) : Function :=
  [second.trueDest, second.falseDest].foldl
    (fun f successor =>
      if target ≠ successor then f
      else f.setPhis successor (List.map (copyIncoming second.parent.ref first.parent.ref)))
    (f.setTerminator first.parent.ref (.condBr first.condition trueDest falseDest) none)

/-- `ConstantInt::getFalse` or `getTrue`. -/
def getBool (value : Bool) : Value := .constantInt 1 (if value then 1 else 0)

/-- The first PHI node with the opposite of its first operand; `none` unless that is a `ConstantInt`. -/
def negateFirst : List PHINode → Option (List PHINode)
  | ⟨result, (.constantInt _ value, block) :: incoming, debugLoc⟩ :: phis =>
    some (⟨result, (getBool (value == 0), block) :: incoming, debugLoc⟩ :: phis)
  | _ => none

/-- The join block gets its first PHI node negated and the first branch is turned around. `none` where an
assertion fails. -/
def negateJoin (f : Function) (first second : CondBranch) : Option Function :=
  (negateFirst second.parent.phis).map fun phis =>
    (f.setPhis second.parent.ref fun _ => phis).setTerminator first.parent.ref
      (.condBr first.condition first.falseDest first.trueDest) none

end Logical

namespace LogicalOrToAnd
open Logical

def findPossibleMutationInBranch (f : Function) (branch : CondBranch) :
    Option (LogicalPattern × CondBranch) :=
  findSecondBranch CondBranch.trueDest CondBranch.falseDest branch false f.condBranches

def applyMutationORToAND_Pattern1 (f : Function) (first second : CondBranch) : Function :=
  redirect f first second first.falseDest second.falseDest second.falseDest

def applyMutationORToAND_Pattern2 (f : Function) (first second : CondBranch) : Function :=
  redirect f first second second.falseDest first.trueDest second.falseDest

def applyMutationORToAND_Pattern3 (f : Function) (first second : CondBranch) : Option Function :=
  negateJoin f first second

end LogicalOrToAnd

namespace LogicalAndToOr
open Logical

def findPossibleMutationInBranch (f : Function) (branch : CondBranch) :
    Option (LogicalPattern × CondBranch) :=
  findSecondBranch CondBranch.falseDest CondBranch.trueDest branch false f.condBranches

def applyMutationANDToOR_Pattern1 (f : Function) (first second : CondBranch) : Function :=
  redirect f first second second.trueDest first.trueDest second.trueDest

def applyMutationANDToOR_Pattern2 (f : Function) (first second : CondBranch) : Function :=
  redirect f first second first.falseDest second.trueDest second.trueDest

def applyMutationANDToOR_Pattern3 (f : Function) (first second : CondBranch) : Option Function :=
  negateJoin f first second

end LogicalAndToOr

/-- Which of the two. -/
inductive LogicalMutator
  | orToAnd
  | andToOr
deriving DecidableEq

namespace LogicalMutator
open Logical

def findPossibleMutationInBranch :
    LogicalMutator → Function → CondBranch → Option (LogicalPattern × CondBranch)
  | .orToAnd => LogicalOrToAnd.findPossibleMutationInBranch
  | .andToOr => LogicalAndToOr.findPossibleMutationInBranch

def applyPattern (mutator : LogicalMutator) (f : Function) (first : CondBranch) :
    LogicalPattern × CondBranch → Option Function
  | (.pattern1, second) => match mutator with
    | .orToAnd => some (LogicalOrToAnd.applyMutationORToAND_Pattern1 f first second)
    | .andToOr => some (LogicalAndToOr.applyMutationANDToOR_Pattern1 f first second)
  | (.pattern2, second) => match mutator with
    | .orToAnd => some (LogicalOrToAnd.applyMutationORToAND_Pattern2 f first second)
    | .andToOr => some (LogicalAndToOr.applyMutationANDToOR_Pattern2 f first second)
  | (.pattern3, second) => match mutator with
    | .orToAnd => LogicalOrToAnd.applyMutationORToAND_Pattern3 f first second
    | .andToOr => LogicalAndToOr.applyMutationANDToOR_Pattern3 f first second

/-- `applyMutation` once the branch is found. Without a second branch nothing happens. -/
def mutateBranch (mutator : LogicalMutator) (f : Function) (branch : CondBranch) : Option Function :=
  match mutator.findPossibleMutationInBranch f branch with
  | none => some f
  | some found => mutator.applyPattern f branch found

/-- `applyMutation` at an address; `none` where the address or an assertion fails. -/
def applyMutation (mutator : LogicalMutator) (f : Function) (basicBlockIndex instructionIndex : Nat) :
    Option Function := do
  let block ← f.blocks[basicBlockIndex]?
  let instruction ← block.instructions[instructionIndex]?
  match instruction with
  | .terminator (.condBr condition trueDest falseDest) _ =>
    mutator.mutateBranch f ⟨block, condition, trueDest, falseDest⟩
  | _ => none

/-- `findPossibleMutation`: an instruction is a candidate if it is a conditional branch with a second one. -/
def findPossibleMutation (mutator : LogicalMutator) (f : Function) (block : BasicBlock) :
    Inst → Option (LogicalPattern × CondBranch)
  | .terminator (.condBr condition trueDest falseDest) _ =>
    mutator.findPossibleMutationInBranch f ⟨block, condition, trueDest, falseDest⟩
  | _ => none

end LogicalMutator

end Mull
