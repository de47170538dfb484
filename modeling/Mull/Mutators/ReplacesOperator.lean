import Mull.Mutators.OperatorReplacement

/-! The logical mutators against the operator replacement they announce, for every condition and every
operator in it. -/

namespace Mull.LogicalMutator
open LLVM Logical Function ShortCircuit Condition

def At (f : Function) (basicBlockIndex instructionIndex : Nat) (branch : CondBranch) : Prop :=
  f.blocks[basicBlockIndex]? = some branch.parent ∧ ∃ loc, branch.parent.instructions[instructionIndex]? =
    some (.terminator (.condBr branch.condition branch.trueDest branch.falseDest) loc)

/-- Whatever is reported at the operator's branch makes the function implement the condition in which that
operator is replaced. -/
def ReplacesOperator (mutator : LogicalMutator) (context : Context) (left right : Condition) : Prop :=
  let source := context.plug (.binary mutator.operator left right)
  let target := context.plug (.binary mutator.replacement left right)
  ∀ i j branch, At source.function i j branch → branch.parent.ref = context.leavesBefore + left.leaves - 1 →
    mutator.findPossibleMutationInBranch source.function branch ≠ none →
    ∃ g, mutator.applyMutation source.function i j = some g ∧ Implements g (exitBlocks source) target

section
variable {mutator : LogicalMutator} {context : Context} {left right : Condition} {f : Function}
  {branch : CondBranch}

theorem applyMutation_at {i j : Nat} (address : At f i j branch) :
    mutator.applyMutation f i j = mutator.mutateBranch f branch := by
  obtain ⟨at_block, loc, at_instruction⟩ := address
  simp only [applyMutation, at_block, at_instruction, bind, Option.bind_some]

theorem At.mem {i j : Nat} (address : At f i j branch) : branch ∈ f.condBranches := by
  obtain ⟨at_block, loc, at_instruction⟩ := address
  refine mem_condBranches.mpr ⟨List.mem_of_getElem? at_block, ?_⟩
  have mem := List.mem_of_getElem? at_instruction
  simp only [BasicBlock.instructions, List.mem_append, List.mem_map, List.mem_singleton,
    reduceCtorEq, and_false, exists_false, false_or, Inst.terminator.injEq] at mem
  exact mem.1.symm

theorem exists_at (mem : branch ∈ f.condBranches) : ∃ i j, At f i j branch := by
  obtain ⟨mem_block, terminator⟩ := mem_condBranches.mp mem
  obtain ⟨i, at_block⟩ := List.mem_iff_getElem?.mp mem_block
  have last : Inst.terminator (.condBr branch.condition branch.trueDest branch.falseDest)
      branch.parent.terminatorLoc ∈ branch.parent.instructions := by
    rw [BasicBlock.instructions, terminator]
    simp
  obtain ⟨j, at_instruction⟩ := List.mem_iff_getElem?.mp last
  exact ⟨i, j, at_block, _, at_instruction⟩

theorem eq_of_ref_eq {other : CondBranch} (mem : branch ∈ f.condBranches) (mem_other : other ∈ f.condBranches)
    (same : branch.parent.ref = other.parent.ref) : branch = other :=
  List.inj_on_of_nodup_map f.condBranches_nodup mem mem_other same

theorem frame_around {exits : Bool → Nat} {before after : List BasicBlock} {holeExits : Bool → Nat}
    (frame : context.Frame (left.leaves + right.leaves) 0 exits before after holeExits) (op : Operator)
    (same : exitBlocks (context.plug (.binary op left right)) = exits) :
    Around op left right (context.plug (.binary op left right)).function context.leavesBefore holeExits
      (branches before) (branches after) := by
  have further := frame.further
  have beyond := frame.beyond
  simp only [Nat.zero_add] at further beyond
  refine ⟨?_, ⟨beyond, frame.apart⟩, fun block mem => function_phis mem, fun c mem => ?_⟩
  · rw [function_condBranches, same, frame.blocks _ rfl, branches_append, branches_append, Nat.zero_add]
  · rw [Nat.add_assoc]
    exact (further c mem).2

theorem exitBlocks_plug (op : Operator) : exitBlocks (context.plug (.binary op left right)) =
    fun b => if b then context.leaves + (left.leaves + right.leaves)
      else context.leaves + (left.leaves + right.leaves) + 1 := by
  unfold exitBlocks
  rw [Context.plug_leaves]
  rfl

/-- A mutation goes through exactly when the paired branch shares both exits of an operator whose left operand
is a literal. -/
theorem replacesOperator_around {before after : List CondBranch} {exits : Bool → Nat}
    (source : Around mutator.operator left right (context.plug (.binary mutator.operator left right)).function
      context.leavesBefore exits before after)
    (target : Around mutator.replacement left right
      (context.plug (.binary mutator.replacement left right)).function context.leavesBefore
        exits before after) :
    ReplacesOperator mutator context left right ↔
      ∀ second, ((branches (right.compile (context.leavesBefore + left.leaves) exits) ++ after).find? fun c =>
          c.dest mutator.operator.side = exits mutator.operator.side) = some second →
        left.literal = true ∧ second.dest (!mutator.operator.side) = exits !mutator.operator.side := by
  have mem : operatorBranch mutator.operator left context.leavesBefore exits ∈
      (context.plug (.binary mutator.operator left right)).function.condBranches :=
    source.mem_split.mpr (.inr (.inl rfl))
  have leaves : (context.plug (.binary mutator.replacement left right)).leaves =
      (context.plug (.binary mutator.operator left right)).leaves := by
    rw [Context.plug_leaves, Context.plug_leaves]
    rfl
  have within : context.leavesBefore + left.leaves + right.leaves ≤
      (context.plug (.binary mutator.operator left right)).leaves := by
    rw [Context.plug_leaves, Condition.leaves]
    have inside := context.leavesBefore_le
    omega
  constructor
  · intro replaces second found
    obtain ⟨i, j, address⟩ := exists_at mem
    have reported : mutator.findPossibleMutationInBranch
      (context.plug (.binary mutator.operator left right)).function
        (operatorBranch mutator.operator left context.leavesBefore exits) ≠ none := by
      rw [source.find_eq, found]
      exact Option.some_ne_none _
    obtain ⟨g, mutated, implements⟩ := replaces i j _ address rfl reported
    rw [applyMutation_at address, source.mutateBranch_eq found] at mutated
    cases mutated
    exact (implements_redirected_iff source target leaves within (List.mem_of_find?_eq_some found)).mp
      implements
  · intro allowed i j branch address ref reported
    obtain rfl := eq_of_ref_eq address.mem mem ref
    rw [source.find_eq, Ne, Option.map_eq_none_iff, ← Ne, Option.ne_none_iff_exists'] at reported
    obtain ⟨second, found⟩ := reported
    refine ⟨_, (applyMutation_at address).trans (source.mutateBranch_eq found), ?_⟩
    exact (implements_redirected_iff source target leaves within (List.mem_of_find?_eq_some found)).mpr
      (allowed second found)

/-- The operator is replaced exactly when its left operand is a literal and the first branch of its right operand
that shares its exit also has its other exit, or when no branch is paired. -/
theorem replacesOperator_iff (mutator : LogicalMutator) (context : Context) (left right : Condition) :
    ReplacesOperator mutator context left right ↔
      left.literal = true ∧ right.firstPaired mutator.operator.side mutator.operator.side = some true ∨
      right.firstPaired mutator.operator.side mutator.operator.side = none ∧
        context.pairedAfter mutator.operator.side mutator.operator.side = false := by
  have outside := exitBlocks_outside (context.plug (.binary mutator.operator left right))
  rw [Context.plug_leaves, exitBlocks_plug] at outside
  obtain ⟨before, after, holeExits, frame⟩ := context.frame_exists
    (Nat.add_pos_left left.leaves_pos right.leaves)
    outside
  have source := frame_around frame mutator.operator (exitBlocks_plug _)
  have target := frame_around frame mutator.replacement (exitBlocks_plug _)
  rw [replacesOperator_around source target]
  have paired := firstPaired_spec mutator.operator.side source.outside.right mutator.operator.side
  have later := frame.paired mutator.operator.side mutator.operator.side
  have other := frame.other mutator.operator.side mutator.operator.side
  rw [← paired]
  simp only [List.find?_append]
  cases found : (branches (right.compile (context.leavesBefore + left.leaves) holeExits)).find? fun c =>
      c.dest mutator.operator.side = holeExits mutator.operator.side with
  | some second => simp
  | none =>
    simp only [Option.none_or, Option.map_none, reduceCtorEq, and_false, false_or, true_and]
    rw [← Bool.not_eq_true, ← later]
    constructor
    · rintro allowed ⟨c, mem, same⟩
      have some : ((branches after).find? fun c =>
          c.dest mutator.operator.side = holeExits mutator.operator.side).isSome := by
        rw [List.find?_isSome]
        exact ⟨c, mem, by simpa using same⟩
      obtain ⟨second, found⟩ := Option.isSome_iff_exists.mp some
      have shares := List.find?_some found
      exact other second (List.mem_of_find?_eq_some found) (of_decide_eq_true shares) (allowed second found).2
    · intro none second found
      have shares := List.find?_some found
      exact absurd ⟨second, List.mem_of_find?_eq_some found, of_decide_eq_true shares⟩ none

end

/-- In `(a || b) || c` the first test keeps its exits, although the outer operator is replaced. -/
theorem not_replacesOperator_or_or :
    ¬ ReplacesOperator .orToAnd .hole (.binary .or (.leaf []) (.leaf [])) (.leaf []) := by
  intro replaces
  obtain ⟨g, mutated, implements⟩ :=
    replaces 1 0 ⟨⟨1, [], [], .condBr (.register 1) 3 2, none⟩, .register 1, 3, 2⟩
    ⟨rfl, none, rfl⟩ rfl (by decide)
  cases mutated
  have reached := (implements fun i => i == 0).2.mpr rfl
  have same := reaches_unique (a := 3) (.single (by rfl)) reached (by rfl) (by rfl)
  cases same

end Mull.LogicalMutator
