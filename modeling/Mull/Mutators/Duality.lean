import Mull.LLVM.Phis
import Mull.Mutators.LogicalMutators

/-! `LogicalAndToOr` is `LogicalOrToAnd` on the function whose branches are turned around. -/

namespace LLVM

def Terminator.swapTargets : Terminator → Terminator
  | .condBr condition trueDest falseDest => .condBr condition falseDest trueDest
  | terminator => terminator

def BasicBlock.swapTargets (block : BasicBlock) : BasicBlock :=
  { block with terminator := block.terminator.swapTargets }

def CondBranch.swapTargets (branch : CondBranch) : CondBranch :=
  ⟨branch.parent.swapTargets, branch.condition, branch.falseDest, branch.trueDest⟩

def Inst.swapTargets : Inst → Inst
  | .terminator last loc => .terminator last.swapTargets loc
  | inst => inst

def Function.swapTargets (f : Function) : Function := f.mapBlocks BasicBlock.swapTargets fun _ => rfl

theorem Terminator.swap_swap (terminator : Terminator) : terminator.swapTargets.swapTargets = terminator := by
  cases terminator <;> rfl

theorem BasicBlock.swap_swap (block : BasicBlock) : block.swapTargets.swapTargets = block := by
  show { block with terminator := block.terminator.swapTargets.swapTargets } = block
  rw [Terminator.swap_swap]

theorem CondBranch.swap_swap (branch : CondBranch) : branch.swapTargets.swapTargets = branch := by
  show CondBranch.mk branch.parent.swapTargets.swapTargets branch.condition branch.trueDest
    branch.falseDest = branch
  rw [BasicBlock.swap_swap]

theorem CondBranch.swap_inj {branch branch' : CondBranch} :
    branch.swapTargets = branch'.swapTargets ↔ branch = branch' := by
  refine ⟨fun same => ?_, congrArg swapTargets⟩
  rw [← branch.swap_swap, same, swap_swap]

theorem BasicBlock.condBranch?_swap (block : BasicBlock) :
    block.swapTargets.condBranch? = block.condBranch?.map CondBranch.swapTargets := by
  obtain ⟨ref, phis, body, terminator, loc⟩ := block
  cases terminator <;> rfl

theorem BasicBlock.instructions_swap (block : BasicBlock) :
    block.swapTargets.instructions = block.instructions.map Inst.swapTargets := by
  unfold instructions
  rw [List.map_append, List.map_append, List.map_map, List.map_map]
  rfl

namespace Function

theorem condBranches_swap (f : Function) :
    f.swapTargets.condBranches = f.condBranches.map CondBranch.swapTargets := by
  show (f.blocks.map BasicBlock.swapTargets).filterMap BasicBlock.condBranch? = _
  rw [List.filterMap_map, condBranches, List.map_filterMap]
  exact congrFun (congrArg List.filterMap (funext BasicBlock.condBranch?_swap)) f.blocks

theorem mapBlocks_mapBlocks_congr (f : Function) {first second first' second' : BasicBlock → BasicBlock}
    {keeps keeps' keeps'' keeps'''} (same : ∀ block, second (first block) = second' (first' block)) :
    (f.mapBlocks first keeps).mapBlocks second keeps' =
      (f.mapBlocks first' keeps'').mapBlocks second' keeps''' := by
  have blocks : (f.blocks.map first).map second = (f.blocks.map first').map second' := by
    rw [List.map_map, List.map_map]
    exact List.map_congr_left fun block _ => same block
  simp only [mapBlocks, blocks]

theorem swap_swap (f : Function) : f.swapTargets.swapTargets = f := by
  refine mapBlocks_eq rfl ?_
  show (f.blocks.map BasicBlock.swapTargets).map BasicBlock.swapTargets = f.blocks
  rw [List.map_map]
  exact (List.map_congr_left fun block _ => block.swap_swap).trans (List.map_id _)

theorem setTerminator_swap (f : Function) (ref : Nat) (terminator : Terminator) (loc : Option DebugLoc) :
    (f.setTerminator ref terminator loc).swapTargets =
      f.swapTargets.setTerminator ref terminator.swapTargets loc := by
  refine mapBlocks_mapBlocks_congr f fun block => ?_
  show BasicBlock.swapTargets _ = if block.ref = ref then _ else _
  split <;> rfl

theorem setPhis_swap (f : Function) (ref : Nat) (update : List PHINode → List PHINode) :
    (f.setPhis ref update).swapTargets = f.swapTargets.setPhis ref update := by
  refine mapBlocks_mapBlocks_congr f fun block => ?_
  show BasicBlock.swapTargets _ = if block.ref = ref then _ else _
  split <;> rfl

end Function
end LLVM

namespace Mull
open LLVM

namespace Logical

theorem findSecondBranch_swap {shared other shared' other' : CondBranch → Nat}
    (sides : ∀ branch, shared' branch.swapTargets = shared branch)
    (others : ∀ branch, other' branch.swapTargets = other branch)
    (first : CondBranch) (passed : Bool) (candidates : List CondBranch) :
    findSecondBranch shared' other' first.swapTargets passed (candidates.map CondBranch.swapTargets) =
      (findSecondBranch shared other first passed candidates).map (Prod.map id CondBranch.swapTargets) := by
  induction candidates generalizing passed with
  | nil => rfl
  | cons candidate rest ih =>
    have joins : joinsOthers first.swapTargets candidate.swapTargets = joinsOthers first candidate := rfl
    have parent (branch : CondBranch) : branch.swapTargets.parent.ref = branch.parent.ref := rfl
    simp only [List.map_cons, findSecondBranch, sides, others, joins, parent, ih]
    split_ifs <;> rfl

theorem redirect_swap (f : Function) (first second : CondBranch) (trueDest falseDest target : Nat) :
    (redirect f first second trueDest falseDest target).swapTargets =
      redirect f.swapTargets first.swapTargets second.swapTargets falseDest trueDest target := by
  have patched (g : Function) (successor : Nat) :
      (if target ≠ successor then g
        else g.setPhis successor (List.map (copyIncoming second.parent.ref first.parent.ref))).swapTargets =
      if target ≠ successor then g.swapTargets
        else g.swapTargets.setPhis successor (List.map (copyIncoming second.parent.ref first.parent.ref)) := by
    split
    · rfl
    · exact g.setPhis_swap ..
  have entry :
    (f.setTerminator first.parent.ref (.condBr first.condition trueDest falseDest) none).swapTargets =
      f.swapTargets.setTerminator first.swapTargets.parent.ref
        (.condBr first.swapTargets.condition falseDest trueDest) none :=
    f.setTerminator_swap ..
  unfold redirect
  simp only [List.foldl_cons, List.foldl_nil]
  rw [patched, patched, entry]
  show _ = if target ≠ second.trueDest then (if target ≠ second.falseDest then _ else _)
    else Function.setPhis (if
    target ≠ second.falseDest then _ else _) _ _
  -- both successors are patched only where they are one block
  by_cases left : target = second.trueDest
  · by_cases right : target = second.falseDest
    · rw [if_neg (not_not_intro left), if_neg (not_not_intro right), if_neg (not_not_intro left),
        if_neg (not_not_intro right)]
      show (Function.setPhis _ second.trueDest _).setPhis second.falseDest _ =
        (Function.setPhis _ second.falseDest _).setPhis second.trueDest _
      rw [← left, ← right]
      rfl
    · rw [if_neg (not_not_intro left), if_pos right, if_neg (not_not_intro left), if_pos right]
      rfl
  · by_cases right : target = second.falseDest
    · rw [if_pos left, if_neg (not_not_intro right), if_pos left, if_neg (not_not_intro right)]
      rfl
    · rw [if_pos left, if_pos right, if_pos left, if_pos right]

theorem negateJoin_swap (f : Function) (first second : CondBranch) :
    (negateJoin f first second).map Function.swapTargets = negateJoin f.swapTargets first.swapTargets
      second.swapTargets := by
  unfold negateJoin
  rw [Option.map_map]
  refine Option.map_congr fun phis _ => ?_
  show Function.swapTargets _ = _
  rw [Function.setTerminator_swap, Function.setPhis_swap]
  rfl

end Logical

namespace LogicalMutator
open Logical

theorem findPossibleMutationInBranch_swap (f : Function) (branch : CondBranch) :
    orToAnd.findPossibleMutationInBranch f.swapTargets branch.swapTargets =
      (andToOr.findPossibleMutationInBranch f branch).map (Prod.map id CondBranch.swapTargets) := by
  show findSecondBranch _ _ _ _ f.swapTargets.condBranches = _
  rw [Function.condBranches_swap]
  exact findSecondBranch_swap (fun _ => rfl) (fun _ => rfl) ..

theorem applyPattern_swap (f : Function) (first : CondBranch) (found : LogicalPattern × CondBranch) :
    (andToOr.applyPattern f first found).map Function.swapTargets =
      orToAnd.applyPattern f.swapTargets first.swapTargets (Prod.map id CondBranch.swapTargets found) := by
  obtain ⟨pattern, second⟩ := found
  cases pattern with
  | pattern1 => exact congrArg some (redirect_swap ..)
  | pattern2 => exact congrArg some (redirect_swap ..)
  | pattern3 => exact negateJoin_swap ..

theorem mutateBranch_swap (f : Function) (branch : CondBranch) :
    (andToOr.mutateBranch f branch).map Function.swapTargets =
      orToAnd.mutateBranch f.swapTargets branch.swapTargets := by
  unfold mutateBranch
  rw [findPossibleMutationInBranch_swap]
  cases andToOr.findPossibleMutationInBranch f branch with
  | none => rfl
  | some found => exact applyPattern_swap f branch found

theorem applyMutation_swap (f : Function) (i j : Nat) :
    (andToOr.applyMutation f i j).map Function.swapTargets = orToAnd.applyMutation f.swapTargets i j := by
  have at_block : f.swapTargets.blocks[i]? = f.blocks[i]?.map BasicBlock.swapTargets := List.getElem?_map
  unfold applyMutation
  rw [at_block]
  cases f.blocks[i]? with
  | none => rfl
  | some block =>
    simp only [bind, Option.map_some, Option.bind_some]
    rw [block.instructions_swap, List.getElem?_map]
    cases block.instructions[j]? with
    | none => rfl
    | some instruction =>
      simp only [Option.map_some, Option.bind_some]
      cases instruction with
      | phi _ => rfl
      | plain _ => rfl
      | terminator terminator loc =>
        cases terminator with
        | condBr condition trueDest falseDest =>
          exact mutateBranch_swap f ⟨block, condition, trueDest, falseDest⟩
        | _ => rfl

/-- The search reports the same pattern and second branch, and the mutation at a branch, by itself or by its
address, has the same outcome, PHI nodes with the order of their entries. -/
theorem andToOr_dual (f : Function) :
    (∀ branch pattern second, andToOr.findPossibleMutationInBranch f branch = some (pattern, second) ↔
      orToAnd.findPossibleMutationInBranch f.swapTargets branch.swapTargets =
        some (pattern, second.swapTargets)) ∧
    (∀ branch, andToOr.mutateBranch f branch =
      (orToAnd.mutateBranch f.swapTargets branch.swapTargets).map Function.swapTargets) ∧
    ∀ i j, andToOr.applyMutation f i j = (orToAnd.applyMutation f.swapTargets i j).map
      Function.swapTargets := by
  have twice (result : Option Function) :
    (result.map Function.swapTargets).map Function.swapTargets = result := by
    rw [Option.map_map]
    exact (Option.map_congr fun g _ => g.swap_swap).trans Option.map_id'
  refine ⟨fun branch pattern second => ?_, fun branch => ?_, fun i j => ?_⟩
  · rw [findPossibleMutationInBranch_swap]
    cases andToOr.findPossibleMutationInBranch f branch with
    | none => simp
    | some found => simp [Prod.ext_iff, CondBranch.swap_inj]
  · rw [← mutateBranch_swap, twice]
  · rw [← applyMutation_swap, twice]

end LogicalMutator
end Mull
