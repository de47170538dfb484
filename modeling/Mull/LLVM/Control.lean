import Mull.Base.DecisionGraph
import Mull.Base.Transition
import Mull.LLVM.Phis

/-! Where control goes, given which conditions hold. -/

namespace LLVM
open Base Relation

def CondBranch.dest (branch : CondBranch) (b : Bool) : Nat := if b then branch.trueDest else branch.falseDest

namespace Function

def next (f : Function) (holds : Value → Bool) (ref : Nat) : Option Nat :=
  (f.block? ref).bind fun block => match block.terminator with
    | .condBr condition trueDest falseDest => some (if holds condition then trueDest else falseDest)
    | .br dest => some dest
    | _ => none

def Reaches (f : Function) (holds : Value → Bool) : Nat → Nat → Prop :=
  ReflTransGen fun a b => f.next holds a = some b

def registers (v : Register → Bool) : Value → Bool
  | .register name => v name
  | _ => false

/-- Block `i` tests register `i` and branches to two different later blocks, for every `i` below `size`. -/
def Ordered (f : Function) (size : Nat) : Prop :=
  ∀ i < size, ∃ branch ∈ f.condBranches, branch.parent.ref = i ∧ branch.condition = .register i ∧
    (∀ b, i < branch.dest b) ∧ branch.dest true ≠ branch.dest false

section
variable {f : Function} {size : Nat}

theorem next_condBranch {branch : CondBranch} (mem : branch ∈ f.condBranches) (holds : Value → Bool) :
    f.next holds branch.parent.ref = some (branch.dest (holds branch.condition)) := by
  obtain ⟨mem_block, terminator⟩ := mem_condBranches.mp mem
  unfold next
  rw [block?_of_mem mem_block, Option.bind_some, terminator]
  rfl

theorem reaches_step {branch : CondBranch} (mem : branch ∈ f.condBranches) (holds : Value → Bool) :
    f.Reaches holds branch.parent.ref (branch.dest (holds branch.condition)) :=
  .single (next_condBranch mem holds)

theorem reaches_trans {holds : Value → Bool} {a b c : Nat} (first : f.Reaches holds a b)
    (second : f.Reaches holds b c) : f.Reaches holds a c :=
  ReflTransGen.trans first second

theorem reaches_unique {holds : Value → Bool} {start a b : Nat} (first : f.Reaches holds start a)
    (second : f.Reaches holds start b) (stop_a : f.next holds a = none)
    (stop_b : f.next holds b = none) : a = b :=
  run_unique first second stop_a stop_b

def destOf (f : Function) (ref : Nat) (b : Bool) : Nat :=
  (((f.block? ref).bind BasicBlock.condBranch?).map (CondBranch.dest · b)).getD ref

theorem destOf_eq {branch : CondBranch} (mem : branch ∈ f.condBranches) (b : Bool) :
    f.destOf branch.parent.ref b = branch.dest b := by
  obtain ⟨mem_block, terminator⟩ := mem_condBranches.mp mem
  unfold destOf BasicBlock.condBranch?
  rw [block?_of_mem mem_block, Option.bind_some, terminator]
  rfl

def graph (f : Function) (ordered : f.Ordered size) : DecisionGraph size where
  next := f.destOf
  forward i node b := by
    obtain ⟨branch, mem, rfl, -, further, -⟩ := ordered i node
    rw [destOf_eq mem]
    exact further b
  apart i node := by
    obtain ⟨branch, mem, rfl, -, -, apart⟩ := ordered i node
    rw [destOf_eq mem, destOf_eq mem]
    exact apart

theorem reaches_exit (ordered : f.Ordered size) (v : Register → Bool) (i : Nat) :
    f.Reaches (registers v) i ((f.graph ordered).exit v i) := by
  by_cases node : i < size
  · obtain ⟨branch, mem, ref, condition, -⟩ := ordered i node
    have further := (f.graph ordered).forward i node (v i)
    have step := reaches_step mem (registers v)
    have dest : branch.dest (registers v branch.condition) = (f.graph ordered).next i (v i) := by
      rw [condition, ← ref]
      exact (destOf_eq mem _).symm
    rw [dest, ref] at step
    rw [DecisionGraph.exit_node _ v node]
    exact step.trans (reaches_exit ordered v _)
  · rw [DecisionGraph.exit_exit _ v (Nat.le_of_not_lt node)]
    exact .refl
termination_by size - i
decreasing_by exact Nat.sub_lt_sub_left node further

theorem next_setTerminator {ref : Nat} (terminator : Terminator) (loc : Option DebugLoc) {start : Nat}
    (elsewhere : start ≠ ref) (holds : Value → Bool) :
    (f.setTerminator ref terminator loc).next holds start = f.next holds start := by
  unfold next setTerminator
  rw [block?_mapBlocks]
  cases found : f.block? start with
  | none => rfl
  | some block =>
    have here : block.ref ≠ ref := (mem_of_block? found).2.trans_ne elsewhere
    simp [here]

theorem destOf_setTerminator_of_ne {ref i : Nat} (elsewhere : i ≠ ref) (terminator : Terminator)
    (loc : Option DebugLoc) (b : Bool) : (f.setTerminator ref terminator loc).destOf i b = f.destOf i b := by
  unfold destOf setTerminator
  rw [block?_mapBlocks]
  cases found : f.block? i with
  | none => rfl
  | some block =>
    have here : block.ref ≠ ref := (mem_of_block? found).2.trans_ne elsewhere
    rw [Option.map_some, if_neg here]

theorem condBranches_setTerminator_of_ne {branch : CondBranch} (mem : branch ∈ f.condBranches) {ref : Nat}
    (elsewhere : branch.parent.ref ≠ ref) (terminator : Terminator) (loc : Option DebugLoc) :
    branch ∈ (f.setTerminator ref terminator loc).condBranches := by
  obtain ⟨mem_block, same⟩ := mem_condBranches.mp mem
  exact mem_condBranches.mpr ⟨List.mem_map.mpr ⟨_, mem_block, if_neg elsewhere⟩, same⟩

theorem condBranches_setTerminator_self {block : BasicBlock} (mem : block ∈ f.blocks) (condition : Value)
    (trueDest falseDest : Nat) (loc : Option DebugLoc) :
    ⟨{ block with terminator := .condBr condition trueDest falseDest, terminatorLoc := loc },
      condition, trueDest,
      falseDest⟩ ∈ (f.setTerminator block.ref (.condBr condition trueDest falseDest) loc).condBranches := by
  exact mem_condBranches.mpr ⟨List.mem_map.mpr ⟨_, mem, if_pos rfl⟩, rfl⟩

end

end Function
end LLVM
