import Mull.Mutators.PhiNodes

/-! Which entry of the join's PHI node a logical mutation negates: the first one, whatever block it is for. -/

namespace LLVM

def Value.IsBoolean : Value → Prop
  | .constantInt bits _ => bits = 1
  | _ => False

def Value.negate : Value → Value
  | .constantInt 1 value => Mull.Logical.getBool (value == 0)
  | value => value

/-- The PHI node with the incoming values of one block negated. -/
def PHINode.negateFor (phi : PHINode) (block : Nat) : PHINode :=
  { phi with incoming := phi.incoming.map fun entry => if entry.2 = block then (entry.1.negate, entry.2) else entry }

theorem Value.negate_ne {value : Value} (boolean : value.IsBoolean) : value.negate ≠ value := by
  cases value with
  | constantInt bits value =>
    obtain rfl : bits = 1 := boolean
    unfold negate Mull.Logical.getBool
    by_cases zero : value = 0
    · simp [zero]
    · simp [zero, Ne.symm zero]
  | _ => exact boolean.elim

namespace Function

theorem setPhis_setTerminator_inj {f : Function} {block : BasicBlock} (mem : block ∈ f.blocks) {ref : Nat}
    {terminator : Terminator} {loc : Option DebugLoc} {phis phis' : List PHINode}
    (same : (f.setPhis block.ref fun _ => phis).setTerminator ref terminator loc =
      (f.setPhis block.ref fun _ => phis').setTerminator ref terminator loc) : phis = phis' := by
  have blocks := congrArg blocks same
  simp only [setPhis, setTerminator, mapBlocks, List.map_map] at blocks
  have here := congrArg BasicBlock.phis (List.map_inj_left.mp blocks block mem)
  simp only [Function.comp_apply, if_true] at here
  split at here <;> exact here

end Function
end LLVM

namespace Mull.LogicalMutator
open LLVM Logical

/-- The join's first PHI node has boolean constants for the branch's block; the mutation negates these, keeps
all other entries and exchanges the targets of the branch. -/
def NegatesOwnEntry (mutator : LogicalMutator) (f : Function) (branch second : CondBranch) : Prop :=
  ∃ phi phis, second.parent.phis = phi :: phis ∧ branch.parent.ref ∈ phi.blocks ∧
    (∀ entry ∈ phi.incoming, entry.2 = branch.parent.ref → entry.1.IsBoolean) ∧
    mutator.mutateBranch f branch = some ((f.setPhis second.parent.ref fun _ =>
      phi.negateFor branch.parent.ref :: phis).setTerminator branch.parent.ref
        (.condBr branch.condition branch.falseDest branch.trueDest) none)

/-- The first entry of the join's first PHI node is a boolean constant for the branch's block, and no other is
for it. -/
def FirstEntryOwn (branch second : CondBranch) : Prop :=
  ∃ phi phis value rest, second.parent.phis = phi :: phis ∧ value.IsBoolean ∧
    phi.incoming = (value, branch.parent.ref) :: rest ∧ branch.parent.ref ∉ rest.map Prod.snd

theorem negateFirst_eq {result : Register} {value : Value} {block : Nat} {incoming : List (Value × Nat)}
    {loc : Option DebugLoc} {phis : List PHINode} (boolean : value.IsBoolean) :
    negateFirst (⟨result, (value, block) :: incoming, loc⟩ :: phis) =
      some (⟨result, (value.negate, block) :: incoming, loc⟩ :: phis) := by
  cases value with
  | constantInt bits value =>
    obtain rfl : bits = 1 := boolean
    rfl
  | _ => exact boolean.elim

theorem getBool_ne {bits : Nat} {value : Int} : getBool (value == 0) ≠ .constantInt bits value := by
  unfold getBool
  by_cases zero : value = 0
  · simp [zero]
  · simp [zero, Ne.symm zero]

theorem mutateBranch_pattern3 {mutator : LogicalMutator} {f : Function} {branch second : CondBranch}
    (reported : mutator.findPossibleMutationInBranch f branch = some (.pattern3, second)) :
    mutator.mutateBranch f branch = (negateFirst second.parent.phis).map fun phis =>
      (f.setPhis second.parent.ref fun _ => phis).setTerminator branch.parent.ref
        (.condBr branch.condition branch.falseDest branch.trueDest) none := by
  unfold mutateBranch
  rw [reported]
  cases mutator <;> rfl

theorem negateFor_own {value : Value} {rest : List (Value × Nat)} {block : Nat} {result : Register}
    {loc : Option DebugLoc} (alone : block ∉ rest.map Prod.snd) :
    PHINode.negateFor ⟨result, (value, block) :: rest, loc⟩ block =
      ⟨result, (value.negate, block) :: rest, loc⟩ := by
  unfold PHINode.negateFor
  rw [List.map_cons, if_pos rfl]
  congr 2
  refine (List.map_congr_left fun entry mem => if_neg fun same => alone ?_).trans (List.map_id _)
  rw [← same]
  exact List.mem_map_of_mem mem

theorem negatesOwnEntry_iff {mutator : LogicalMutator} {f : Function} {branch second : CondBranch}
    (reported : mutator.findPossibleMutationInBranch f branch = some (.pattern3, second)) :
    mutator.NegatesOwnEntry f branch second ↔ FirstEntryOwn branch second := by
  unfold NegatesOwnEntry
  rw [mutateBranch_pattern3 reported]
  constructor
  · rintro ⟨phi, phis, at_join, own, boolean, applied⟩
    rw [find_eq] at reported
    obtain ⟨mem_second, -, -⟩ := findSecondBranch_spec reported
    have mem := (Function.mem_condBranches.mp mem_second).1
    obtain ⟨phis', negated, same⟩ := Option.map_eq_some_iff.mp applied
    obtain rfl := Function.setPhis_setTerminator_inj mem same
    rw [at_join] at negated
    unfold negateFirst at negated
    split at negated
    · rename_i result bits value block incoming loc _ eq
      obtain ⟨rfl, rfl⟩ := List.cons.inj eq
      have incoming_eq := congrArg PHINode.incoming (List.cons.inj (Option.some.inj negated)).1
      obtain ⟨first_eq, rest_eq⟩ := List.cons.inj incoming_eq
      have here : block = branch.parent.ref := by
        by_contra elsewhere
        simp only [elsewhere, if_false] at first_eq
        exact getBool_ne (congrArg Prod.fst first_eq)
      subst here
      refine ⟨_, phis, .constantInt bits value, incoming, at_join, ?_, rfl, fun other => ?_⟩
      · exact boolean _ List.mem_cons_self rfl
      · obtain ⟨entry, mem_entry, same⟩ := List.mem_map.mp other
        have kept := List.map_inj_left.mp (rest_eq.symm.trans (List.map_id incoming).symm) entry mem_entry
        simp only [same, if_true, id] at kept
        exact Value.negate_ne (boolean entry (List.mem_cons_of_mem _ mem_entry) same) (congrArg Prod.fst kept)
    · cases negated
  · rintro ⟨⟨result, incoming, loc⟩, phis, value, rest, at_join, boolean, rfl, alone⟩
    refine ⟨_, phis, at_join, by simp [PHINode.blocks], ?_, ?_⟩
    · intro entry mem same
      rcases List.mem_cons.mp mem with rfl | mem
      · exact boolean
      · exact absurd (same ▸ List.mem_map_of_mem mem) alone
    · rw [at_join, negateFirst_eq boolean, negateFor_own alone]
      rfl

/-- The blocks of `(p || q || r) ? x : y` where the condition is a value. -/
def conditionalValue : Function where
  ref := 0
  name := "f".toList
  type := ⟨[.int 1, .int 1, .int 1], false, .void⟩
  blocks := [⟨0, [], [], .condBr (.argument 0) 3 1, none⟩, ⟨1, [], [], .condBr (.argument 1) 3 2, none⟩,
    ⟨2, [], [], .br 3, none⟩,
    ⟨3, [⟨0, [(getBool true, 0), (getBool true, 1), (.argument 2, 2)], none⟩], [],
      .condBr (.register 0) 4 5, none⟩,
    ⟨4, [], [], .ret none, none⟩, ⟨5, [], [], .ret none, none⟩]
  distinct := by decide

/-- The blocks of `(p || q) ? x : y` where the condition is a value. -/
def conditionalPair : Function where
  ref := 0
  name := "f".toList
  type := ⟨[.int 1, .int 1], false, .void⟩
  blocks := [⟨0, [], [], .condBr (.argument 0) 2 1, none⟩, ⟨1, [], [], .br 2, none⟩,
    ⟨2, [⟨0, [(getBool true, 0), (.argument 1, 1)], none⟩], [], .condBr (.register 0) 3 4, none⟩,
    ⟨3, [], [], .ret none, none⟩, ⟨4, [], [], .ret none, none⟩]
  distinct := by decide

theorem negatesOwnEntry_conditionalPair :
    orToAnd.NegatesOwnEntry conditionalPair ⟨conditionalPair.blocks[0], .argument 0, 2, 1⟩
      ⟨conditionalPair.blocks[2], .register 0, 3, 4⟩ := by
  refine (negatesOwnEntry_iff (by decide)).mpr ⟨_, [], getBool true, [(.argument 1, 1)], rfl,
    rfl, rfl, by decide⟩

/-- The mutation of `q` negates the value for `p`. -/
theorem not_negatesOwnEntry_conditionalValue : conditionalValue.PhisWellFormed ∧
    orToAnd.findPossibleMutationInBranch conditionalValue ⟨conditionalValue.blocks[1], .argument 1, 3, 2⟩ =
      some (.pattern3, ⟨conditionalValue.blocks[3], .register 0, 4, 5⟩) ∧
    ¬ orToAnd.NegatesOwnEntry conditionalValue ⟨conditionalValue.blocks[1], .argument 1, 3, 2⟩
      ⟨conditionalValue.blocks[3], .register 0, 4, 5⟩ := by
  refine ⟨by decide, by decide, ?_⟩
  rintro ⟨phi, phis, at_join, -, -, applied⟩
  obtain ⟨rfl, rfl⟩ := List.cons.inj at_join
  exact absurd applied (by decide)

end Mull.LogicalMutator
