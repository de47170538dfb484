import Mull.LLVM.Phis
import Mull.Mutators.LogicalMutators

/-! The logical mutators and the PHI nodes of the function they mutate. The old edge of a redirected
branch keeps its entries, so the PHI nodes stay well formed exactly when the abandoned block has none. -/

namespace Mull
open LLVM Logical

namespace LogicalMutator

def shared : LogicalMutator → CondBranch → Nat
  | .orToAnd => CondBranch.trueDest
  | .andToOr => CondBranch.falseDest

def other : LogicalMutator → CondBranch → Nat
  | .orToAnd => CondBranch.falseDest
  | .andToOr => CondBranch.trueDest

theorem find_eq (mutator : LogicalMutator) (f : Function) (branch : CondBranch) :
    mutator.findPossibleMutationInBranch f branch =
      findSecondBranch mutator.shared mutator.other branch false f.condBranches := by
  cases mutator <;> rfl

theorem successors_perm (mutator : LogicalMutator) (branch : CondBranch) :
    [branch.trueDest, branch.falseDest].Perm [mutator.shared branch, mutator.other branch] := by
  cases mutator
  · exact .refl _
  · exact .swap _ _ _

end LogicalMutator

namespace Logical

/-- What the second branch has to do with the first one. -/
def Paired (shared other : CondBranch → Nat) (first : CondBranch) : LogicalPattern × CondBranch → Prop
  | (.pattern1, second) => shared second = shared first
  | (.pattern2, second) => shared second = other first
  | (.pattern3, second) => joinsOthers first second = true ∧ second.parent.ref = shared first

theorem findSecondBranch_spec {shared other : CondBranch → Nat} {first : CondBranch} {passed : Bool}
    {branches : List CondBranch} {found : LogicalPattern × CondBranch}
    (eq : findSecondBranch shared other first passed branches = some found) :
    found.2 ∈ branches ∧ found.2.parent.ref ≠ first.parent.ref ∧ Paired shared other first found := by
  induction branches generalizing passed with
  | nil => cases eq
  | cons candidate rest ih =>
    have later {passed : Bool} (eq : findSecondBranch shared other first passed rest = some found) :
        found.2 ∈ candidate :: rest ∧ found.2.parent.ref ≠ first.parent.ref ∧
        Paired shared other first found :=
      ⟨List.mem_cons_of_mem _ (ih eq).1, (ih eq).2⟩
    unfold findSecondBranch at eq
    split at eq
    · exact later eq
    rename_i elsewhere
    split at eq
    · exact later eq
    split at eq
    · rename_i same
      cases eq
      exact ⟨List.mem_cons_self, elsewhere, same⟩
    split at eq
    · rename_i same
      cases eq
      exact ⟨List.mem_cons_self, elsewhere, same⟩
    split at eq
    · rename_i join
      cases eq
      rw [Bool.and_eq_true, beq_iff_eq] at join
      exact ⟨List.mem_cons_self, elsewhere, join⟩
    · exact later eq

/-- The entries of a PHI node after the loop, `count` of the successors being the target. -/
def addEntries (source block : Nat) (count : Nat) (blocks : List Nat) : List Nat :=
  if source ∈ blocks then blocks ++ List.replicate count block else blocks

theorem copyIncoming_blocks (source block : Nat) (phi : PHINode) :
    (copyIncoming source block phi).blocks = addEntries source block 1 phi.blocks := by
  have known := @PHINode.incomingValue?_isSome phi source
  unfold copyIncoming addEntries
  split
  · rename_i missing
    simp only [missing, Option.isSome_none, Bool.false_eq_true, false_iff] at known
    rw [if_neg known]
  · rename_i operand present
    simp only [present, Option.isSome_some, true_iff] at known
    rw [if_pos known, PHINode.blocks_addIncoming]
    rfl

theorem addEntries_succ (source block : Nat) (count : Nat) (blocks : List Nat) :
    addEntries source block count (addEntries source block 1 blocks) =
      addEntries source block (count + 1) blocks := by
  unfold addEntries
  by_cases present : source ∈ blocks
  · simp [present, Nat.add_comm count, List.replicate_add]
  · simp [present]

theorem addEntries_count (source block : Nat) (count : Nat) (blocks : List Nat) (s : Nat) :
    (addEntries source block count blocks).count s =
      blocks.count s + if source ∈ blocks ∧ s = block then count else 0 := by
  unfold addEntries
  by_cases present : source ∈ blocks
  · by_cases here : s = block
    · simp [present, here]
    · simp [present, here, List.count_replicate, Ne.symm here]
  · simp [present]

section
variable {f : Function} {first second : CondBranch} {source block target : Nat}

def updatePhis (f : Function) (source block target : Nat) (successors : List Nat) : Function :=
  successors.foldl (fun f successor =>
    if target ≠ successor then f else f.setPhis successor (List.map (copyIncoming source block))) f

theorem updatePhis_edges (successors : List Nat) (s t : Nat) :
    (updatePhis f source block target successors).edges s t = f.edges s t := by
  induction successors generalizing f with
  | nil => rfl
  | cons successor rest ih =>
    unfold updatePhis at ih ⊢
    rw [List.foldl_cons, ih]
    split
    · rfl
    · exact Function.edges_setPhis ..

theorem updatePhis_entries (successors : List Nat) :
    (updatePhis f source block target successors).phiEntries = f.phiEntries.map fun pair =>
      if pair.1 = target then (pair.1, addEntries source block (successors.count target) pair.2) else pair := by
  induction successors generalizing f with
  | nil =>
    have same (pair : Nat × List Nat) :
        (if pair.1 = target then (pair.1, addEntries source block 0 pair.2) else pair) = pair := by
      unfold addEntries
      split <;> simp
    simp [updatePhis, same]
  | cons successor rest ih =>
    have step : updatePhis f source block target (successor :: rest) =
        updatePhis (if target ≠ successor then f
          else f.setPhis successor (List.map (copyIncoming source block))) source block target rest := rfl
    rw [step, ih]
    by_cases here : target = successor
    · subst here
      rw [if_neg (not_not_intro rfl), List.count_cons_self,
        Function.phiEntries_setPhis_map _ _ (addEntries source block 1) (copyIncoming_blocks source block),
        List.map_map]
      refine List.map_congr_left fun pair _ => ?_
      by_cases at_target : pair.1 = target
      · simp [at_target, addEntries_succ]
      · simp [at_target]
    · rw [if_pos here, List.count_cons_of_ne (Ne.symm here)]

theorem redirect_eq (f : Function) (first second : CondBranch) (trueDest falseDest target : Nat) :
    redirect f first second trueDest falseDest target =
      updatePhis (f.setTerminator first.parent.ref (.condBr first.condition trueDest falseDest) none)
        second.parent.ref first.parent.ref target [second.trueDest, second.falseDest] := rfl

/-- Redirecting the first branch from `removed` to `target` keeps the PHI nodes well formed exactly when
no PHI node stands in `removed`. -/
theorem redirect_phis {trueDest falseDest removed kept : Nat} (ok : f.PhisWellFormed)
    (mem_first : first ∈ f.condBranches) (mem_second : second ∈ f.condBranches)
    (before : [first.trueDest, first.falseDest].Perm [removed, kept])
    (paired : [second.trueDest, second.falseDest].Perm [removed, target])
    (after : [trueDest, falseDest].Perm [kept, target]) :
    (redirect f first second trueDest falseDest target).PhisWellFormed ↔
      ∀ entry ∈ f.phiEntries, entry.1 ≠ removed := by
  rw [Function.phisWellFormed_iff] at ok
  rw [redirect_eq, Function.phisWellFormed_iff, updatePhis_entries, List.forall_mem_map,
    Function.phiEntries_setTerminator]
  refine forall₂_congr fun entry mem => ?_
  have count := ok entry mem
  have old := count first.parent.ref
  have source := count second.parent.ref
  rw [Function.edges_condBranch mem_first, before.count_eq] at old
  rw [Function.edges_condBranch mem_second, paired.count_eq] at source
  have entries (s : Nat) : (if entry.1 = target then (entry.1, addEntries second.parent.ref first.parent.ref
        ([second.trueDest, second.falseDest].count target) entry.2) else entry).2.count s =
      entry.2.count s + if entry.1 = target ∧ s = first.parent.ref then [removed, target].count
        target else 0 := by
    by_cases here : entry.1 = target
    · have listed : second.parent.ref ∈ entry.2 := by
        rw [← List.count_pos_iff, source, here]
        simp
      simp only [here, if_pos, true_and, addEntries_count, listed, paired.count_eq]
    · simp [here]
  have block : (if entry.1 = target then (entry.1, addEntries second.parent.ref first.parent.ref
        ([second.trueDest, second.falseDest].count target) entry.2) else entry).1 = entry.1 := by
    split <;> rfl
  simp only [entries, block, updatePhis_edges, Terminator.successors, after.count_eq, count,
    Function.edges_setTerminator (Function.mem_condBranches.mp mem_first).1]
  constructor
  · intro well
    have here := well first.parent.ref
    rw [if_pos rfl, ← count, old] at here
    rintro rfl
    by_cases at_target : entry.1 = target
    · simp only [at_target, List.count_cons, List.count_nil, BEq.rfl, and_self, if_true] at here
      omega
    · simp [at_target, Ne.symm at_target, List.count_cons] at here
  · intro kept_block s
    by_cases here : s = first.parent.ref
    · rw [if_pos here, here, ← count, old]
      by_cases at_target : entry.1 = target
      · have apart : removed ≠ target := fun same => kept_block (at_target.trans same.symm)
        simp [at_target, List.count_cons, apart, Nat.add_comm]
      · simp [at_target, Ne.symm at_target, List.count_cons, Ne.symm kept_block]
    · simp [here]

theorem negateJoin_phis {g : Function} (ok : f.PhisWellFormed) (mem_first : first ∈ f.condBranches)
    (mem_second : second ∈ f.condBranches) (negated : negateJoin f first second = some g) :
      g.PhisWellFormed := by
  unfold negateJoin at negated
  obtain ⟨phis, negate, rfl⟩ := Option.map_eq_some_iff.mp negated
  obtain ⟨block_first, terminator⟩ := Function.mem_condBranches.mp mem_first
  have same : phis.map PHINode.blocks = second.parent.phis.map PHINode.blocks := by
    unfold negateFirst at negate
    split at negate
    · rename_i phis eq
      cases negate
      rw [eq]
      rfl
    · cases negate
  have entries : (f.setPhis second.parent.ref fun _ => phis).phiEntries = f.phiEntries := by
    refine Function.phiEntries_setPhis_same _ _ fun block mem here => ?_
    have known := Function.block?_of_mem mem
    rw [here, Function.block?_of_mem (Function.mem_condBranches.mp mem_second).1] at known
    cases known
    exact same
  rw [Function.phisWellFormed_iff] at ok ⊢
  rw [Function.phiEntries_setTerminator, entries]
  intro entry mem source
  obtain ⟨block, mem_block, ref⟩ : ∃ block ∈ (f.setPhis second.parent.ref fun _ => phis).blocks,
      block.ref = first.parent.ref := by
    refine ⟨_, List.mem_map_of_mem block_first, ?_⟩
    split <;> rfl
  rw [← ref, Function.edges_setTerminator mem_block, Function.edges_setPhis, ok entry mem]
  split
  · rename_i here
    rw [here, ref, Function.edges_condBranch mem_first]
    exact List.Perm.count_eq (.swap _ _ _) _
  · rfl

end

end Logical

namespace LogicalMutator

/-- The mutation of a branch goes through and leaves every PHI node well formed. -/
def KeepsPhis (mutator : LogicalMutator) (f : Function) (branch : CondBranch) : Prop :=
  ∃ g, mutator.mutateBranch f branch = some g ∧ g.PhisWellFormed

/-- No PHI node in the block that the branch abandons; a constant as the first operand of the first PHI
node where that operand is negated. -/
def PhisAllow (mutator : LogicalMutator) (f : Function) (branch : CondBranch) :
    LogicalPattern × CondBranch → Prop
  | (.pattern1, _) => ∀ block ∈ f.blocks, block.ref = mutator.shared branch → block.phis = []
  | (.pattern2, _) => ∀ block ∈ f.blocks, block.ref = mutator.other branch → block.phis = []
  | (.pattern3, second) => ∃ phi phis bits value block incoming, second.parent.phis = phi :: phis ∧
      phi.incoming = (.constantInt bits value, block) :: incoming

theorem no_phis_iff {f : Function} {ref : Nat} :
    (∀ entry ∈ f.phiEntries, entry.1 ≠ ref) ↔ ∀ block ∈ f.blocks, block.ref = ref → block.phis = [] := by
  simp only [Function.phiEntries, List.mem_flatMap, List.mem_map]
  constructor
  · rintro none block mem here
    refine List.eq_nil_iff_forall_not_mem.mpr fun phi mem_phi => ?_
    exact none _ ⟨block, mem, phi, mem_phi, rfl⟩ here
  · rintro empty _ ⟨block, mem, phi, mem_phi, rfl⟩ here
    rw [empty block mem here] at mem_phi
    cases mem_phi

theorem negateJoin_isSome {f : Function} {first second : CondBranch} :
    (∃ g, negateJoin f first second = some g) ↔ ∃ phi phis bits value block incoming,
      second.parent.phis = phi :: phis ∧ phi.incoming = (.constantInt bits value, block) :: incoming := by
  simp only [negateJoin, Option.map_eq_some_iff]
  constructor
  · rintro ⟨_, phis, negate, rfl⟩
    unfold negateFirst at negate
    split at negate
    · rename_i eq
      exact ⟨_, _, _, _, _, _, eq, rfl⟩
    · cases negate
  · rintro ⟨⟨result, _, loc⟩, phis, bits, value, block, incoming, eq, rfl⟩
    exact ⟨_, _, by rw [eq]; rfl, rfl⟩

theorem applyPattern_redirect (mutator : LogicalMutator) (f : Function) (first second : CondBranch) :
    (∃ trueDest falseDest, mutator.applyPattern f first (.pattern1, second) =
        some (redirect f first second trueDest falseDest (mutator.other second)) ∧
        [trueDest, falseDest].Perm [mutator.other first, mutator.other second]) ∧
    ∃ trueDest falseDest, mutator.applyPattern f first (.pattern2, second) =
        some (redirect f first second trueDest falseDest (mutator.other second)) ∧
        [trueDest, falseDest].Perm [mutator.shared first, mutator.other second] := by
  cases mutator
  · exact ⟨⟨_, _, rfl, .refl _⟩, _, _, rfl, .swap _ _ _⟩
  · exact ⟨⟨_, _, rfl, .swap _ _ _⟩, _, _, rfl, .refl _⟩

/-- A mutation keeps the PHI nodes well formed exactly when they allow it. -/
theorem keepsPhis_iff {mutator : LogicalMutator} {f : Function} {branch : CondBranch}
    {found : LogicalPattern × CondBranch} (ok : f.PhisWellFormed) (mem : branch ∈ f.condBranches)
    (reported : mutator.findPossibleMutationInBranch f branch = some found) :
    mutator.KeepsPhis f branch ↔ mutator.PhisAllow f branch found := by
  have applied : mutator.mutateBranch f branch = mutator.applyPattern f branch found := by
    simp [mutateBranch, reported]
  rw [find_eq] at reported
  obtain ⟨mem_second, -, paired⟩ := findSecondBranch_spec reported
  unfold KeepsPhis
  rw [applied]
  obtain ⟨pattern, second⟩ := found
  have before := mutator.successors_perm branch
  have after := mutator.successors_perm second
  cases pattern with
  | pattern1 =>
    obtain ⟨trueDest, falseDest, redirected, perm⟩ := (applyPattern_redirect mutator f branch second).1
    rw [show mutator.shared second = mutator.shared branch from paired] at after
    have keeps := redirect_phis ok mem mem_second before after perm
    simp only [redirected, Option.some.injEq, exists_eq_left', keeps, no_phis_iff, PhisAllow]
  | pattern2 =>
    obtain ⟨trueDest, falseDest, redirected, perm⟩ := (applyPattern_redirect mutator f branch second).2
    rw [show mutator.shared second = mutator.other branch from paired] at after
    have keeps := redirect_phis ok mem mem_second (before.trans (.swap _ _ _)) after perm
    simp only [redirected, Option.some.injEq, exists_eq_left', keeps, no_phis_iff, PhisAllow]
  | pattern3 =>
    have join : mutator.applyPattern f branch (.pattern3, second) = negateJoin f branch second := by
      cases mutator <;> rfl
    have possible : (∃ g, negateJoin f branch second = some g) ↔
        mutator.PhisAllow f branch (.pattern3, second) := negateJoin_isSome
    rw [join, ← possible]
    constructor
    · rintro ⟨g, negated, -⟩
      exact ⟨g, negated⟩
    · rintro ⟨g, negated⟩
      exact ⟨g, negated, negateJoin_phis ok mem mem_second negated⟩

/-- The blocks of `int v = 1; if (a || b) v = 2;`, where the other successors join, and of a value `a || b ||
c`, whose join is the shared successor. -/
def orCondition : Function where
  ref := 0
  name := "f".toList
  type := ⟨[.int 1, .int 1], false, .int 32⟩
  blocks := [⟨0, [], [], .condBr (.argument 0) 2 1, none⟩, ⟨1, [], [], .condBr (.argument 1) 2 3, none⟩,
    ⟨2, [], [], .br 3, none⟩,
    ⟨3, [⟨0, [(.constantInt 32 1, 1), (.constantInt 32 2, 2)], none⟩], [], .ret (some (.register 0)), none⟩]
  distinct := by decide

def orValue : Function where
  ref := 0
  name := "f".toList
  type := ⟨[.int 1, .int 1, .int 1], false, .int 1⟩
  blocks := [⟨0, [], [], .condBr (.argument 0) 3 1, none⟩, ⟨1, [], [], .condBr (.argument 1) 3 2, none⟩,
    ⟨2, [], [], .br 3, none⟩,
    ⟨3, [⟨0, [(getBool true, 0), (getBool true, 1), (.argument 2, 2)], none⟩], [],
      .ret (some (.register 0)), none⟩]
  distinct := by decide

theorem keepsPhis_orCondition :
    orToAnd.KeepsPhis orCondition ⟨orCondition.blocks[0], .argument 0, 2, 1⟩ := by
  have reported : orToAnd.findPossibleMutationInBranch orCondition
    ⟨orCondition.blocks[0], .argument 0, 2, 1⟩ =
      some (.pattern1, ⟨orCondition.blocks[1], .argument 1, 2, 3⟩) := by decide
  have abandoned : ∀ block ∈ orCondition.blocks,
      block.ref = orToAnd.shared ⟨orCondition.blocks[0], .argument 0, 2, 1⟩ → block.phis = [] := by decide
  exact (keepsPhis_iff (by decide) (by decide) reported).mpr abandoned

/-- The join keeps its entry for the first block, which no longer leads there. -/
theorem not_keepsPhis_orValue : orValue.PhisWellFormed ∧
    ⟨orValue.blocks[0], .argument 0, 3, 1⟩ ∈ orValue.condBranches ∧
    orToAnd.findPossibleMutationInBranch orValue ⟨orValue.blocks[0], .argument 0, 3, 1⟩ =
      some (.pattern1, ⟨orValue.blocks[1], .argument 1, 3, 2⟩) ∧
    ¬ orToAnd.KeepsPhis orValue ⟨orValue.blocks[0], .argument 0, 3, 1⟩ := by
  refine ⟨by decide, by decide, by decide, ?_⟩
  rintro ⟨g, mutated, well⟩
  cases mutated
  exact absurd well (by decide)

end LogicalMutator
end Mull
