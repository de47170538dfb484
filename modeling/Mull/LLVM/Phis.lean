import Mull.LLVM.IR

/-! PHI nodes against the edges of the control flow graph, and what rewriting a branch does to both. -/

namespace LLVM
namespace Function

section
variable {f : Function} {block : BasicBlock}

theorem find?_ref {blocks : List BasicBlock} (distinct : (blocks.map BasicBlock.ref).Nodup)
    (mem : block ∈ blocks) : (blocks.find? fun other => other.ref = block.ref) = some block := by
  induction blocks with
  | nil => cases mem
  | cons head rest ih =>
    rw [List.map_cons, List.nodup_cons] at distinct
    rcases List.mem_cons.mp mem with rfl | mem
    · simp
    · have other : head.ref ≠ block.ref := fun same => distinct.1 (same ▸ List.mem_map_of_mem mem)
      simpa [other] using ih distinct.2 mem

theorem block?_of_mem (mem : block ∈ f.blocks) : f.block? block.ref = some block :=
  find?_ref f.distinct mem

theorem mem_of_block? {ref : Nat} (found : f.block? ref = some block) : block ∈ f.blocks ∧ block.ref = ref :=
  ⟨List.mem_of_find?_eq_some found, by simpa using List.find?_some found⟩

theorem mem_condBranches {branch : CondBranch} : branch ∈ f.condBranches ↔ branch.parent ∈ f.blocks ∧
    branch.parent.terminator = .condBr branch.condition branch.trueDest branch.falseDest := by
  unfold condBranches
  rw [List.mem_filterMap]
  constructor
  · rintro ⟨block, mem, eq⟩
    unfold BasicBlock.condBranch? at eq
    split at eq
    · rename_i terminator
      cases eq
      exact ⟨mem, terminator⟩
    · cases eq
  · rintro ⟨mem, terminator⟩
    exact ⟨branch.parent, mem, by simp [BasicBlock.condBranch?, terminator]⟩

theorem edges_eq_zero {source : Nat} (missing : source ∉ f.blocks.map BasicBlock.ref) (target : Nat) :
    f.edges source target = 0 := by
  have none : f.block? source = none := by
    unfold block?
    rw [List.find?_eq_none]
    intro block mem here
    exact missing (of_decide_eq_true here ▸ List.mem_map_of_mem mem)
  simp [edges, none]

theorem phisWellFormed_iff_listed : f.PhisWellFormed ↔ ∀ block ∈ f.blocks, ∀ phi ∈ block.phis,
    ∀ source ∈ phi.blocks ++ f.blocks.map BasicBlock.ref,
    phi.blocks.count source = f.edges source block.ref := by
  refine forall₂_congr fun block _ => forall₂_congr fun phi _ =>
    ⟨fun ok source _ => ok source, fun ok source => ?_⟩
  by_cases listed : source ∈ phi.blocks ++ f.blocks.map BasicBlock.ref
  · exact ok source listed
  · rw [List.mem_append, not_or] at listed
    rw [List.count_eq_zero.mpr listed.1, edges_eq_zero listed.2]

instance : Decidable f.PhisWellFormed := decidable_of_iff' _ phisWellFormed_iff_listed

theorem condBranches_nodup (f : Function) : (f.condBranches.map fun branch => branch.parent.ref).Nodup := by
  refine List.Sublist.nodup ?_ f.distinct
  unfold condBranches
  induction f.blocks with
  | nil => exact .slnil
  | cons block rest ih =>
    unfold BasicBlock.condBranch? at ih ⊢
    rw [List.filterMap_cons]
    cases block.terminator with
    | condBr condition trueDest falseDest => exact ih.cons_cons block.ref
    | br _ => exact ih.cons block.ref
    | ret _ => exact ih.cons block.ref
    | other _ _ _ => exact ih.cons block.ref

/-- For every PHI node its block and the blocks of its entries. -/
def phiEntries (f : Function) : List (Nat × List Nat) :=
  f.blocks.flatMap fun block => block.phis.map fun phi => (block.ref, phi.blocks)

theorem phisWellFormed_iff :
    f.PhisWellFormed ↔ ∀ entry ∈ f.phiEntries, ∀ source, entry.2.count source = f.edges source entry.1 := by
  simp only [PhisWellFormed, phiEntries, List.mem_flatMap, List.mem_map]
  constructor
  · rintro ok _ ⟨block, mem, phi, mem_phi, rfl⟩
    exact ok block mem phi mem_phi
  · intro ok block mem phi mem_phi
    exact ok _ ⟨block, mem, phi, mem_phi, rfl⟩

theorem phiEntries_mapBlocks (rewrite : BasicBlock → BasicBlock)
    (keeps : ∀ block, (rewrite block).ref = block.ref) :
    (f.mapBlocks rewrite keeps).phiEntries =
      f.blocks.flatMap fun block => (rewrite block).phis.map fun phi => (block.ref, phi.blocks) := by
  simp [phiEntries, mapBlocks, List.flatMap_map, keeps]

theorem phiEntries_setTerminator (ref : Nat) (terminator : Terminator) (loc : Option DebugLoc) :
    (f.setTerminator ref terminator loc).phiEntries = f.phiEntries := by
  unfold setTerminator
  rw [phiEntries_mapBlocks]
  refine List.flatMap_congr fun block _ => ?_
  split <;> rfl

theorem phiEntries_setPhis_map (ref : Nat) (update : PHINode → PHINode) (entry : List Nat → List Nat)
    (updates : ∀ phi, (update phi).blocks = entry phi.blocks) :
    (f.setPhis ref (List.map update)).phiEntries =
      f.phiEntries.map fun pair => if pair.1 = ref then (pair.1, entry pair.2) else pair := by
  unfold setPhis
  rw [phiEntries_mapBlocks]
  simp only [phiEntries, List.map_flatMap, List.map_map]
  refine List.flatMap_congr fun block _ => ?_
  split <;> simp [*, Function.comp_def]

theorem phiEntries_setPhis_same (ref : Nat) (update : List PHINode → List PHINode)
    (same : ∀ block ∈ f.blocks, block.ref = ref → (update block.phis).map PHINode.blocks =
      block.phis.map PHINode.blocks) :
    (f.setPhis ref update).phiEntries = f.phiEntries := by
  unfold setPhis
  rw [phiEntries_mapBlocks]
  refine List.flatMap_congr fun block mem => ?_
  split
  · rename_i here
    have blocks := congrArg (List.map (Prod.mk block.ref)) (same block mem here)
    simpa [Function.comp_def] using blocks
  · rfl

theorem block?_mapBlocks (rewrite : BasicBlock → BasicBlock)
    (keeps : ∀ block, (rewrite block).ref = block.ref)
    (ref : Nat) : (f.mapBlocks rewrite keeps).block? ref = (f.block? ref).map rewrite := by
  have same : (fun block : BasicBlock => decide (block.ref = ref)) ∘ rewrite = fun block =>
    decide (block.ref = ref) := by
    funext block
    rw [Function.comp_apply, keeps]
  rw [block?, mapBlocks, List.find?_map, same]
  rfl

theorem edges_setPhis (ref : Nat) (update : List PHINode → List PHINode) (source target : Nat) :
    (f.setPhis ref update).edges source target = f.edges source target := by
  unfold edges setPhis
  rw [block?_mapBlocks, Option.map_map]
  congr 2
  funext block
  simp only [Function.comp_apply]
  split <;> rfl

theorem edges_setTerminator (mem : block ∈ f.blocks) (terminator : Terminator) (loc : Option DebugLoc)
    (source target : Nat) :
    (f.setTerminator block.ref terminator loc).edges source target =
      if source = block.ref then terminator.successors.count target else f.edges source target := by
  unfold edges setTerminator
  rw [block?_mapBlocks, Option.map_map]
  split
  · rename_i here
    simp [here, block?_of_mem mem]
  · rename_i elsewhere
    cases found : f.block? source with
    | none => rfl
    | some other =>
      have ref := (mem_of_block? found).2
      simp [ref, elsewhere]

theorem edges_condBranch {branch : CondBranch} (mem : branch ∈ f.condBranches) (target : Nat) :
    f.edges branch.parent.ref target = [branch.trueDest, branch.falseDest].count target := by
  obtain ⟨mem_block, terminator⟩ := mem_condBranches.mp mem
  simp [edges, block?_of_mem mem_block, terminator, Terminator.successors]

theorem mapBlocks_self {f : Function} {rewrite : BasicBlock → BasicBlock}
    {keeps : ∀ block, (rewrite block).ref = block.ref} (same : ∀ block ∈ f.blocks, rewrite block = block) :
    f.mapBlocks rewrite keeps = f := by
  have blocks : f.blocks.map rewrite = f.blocks := (List.map_congr_left same).trans (List.map_id _)
  cases f
  simp only [mapBlocks] at blocks ⊢
  congr

theorem mapBlocks_eq {f g : Function} {rewrite : BasicBlock → BasicBlock}
    {keeps : ∀ block, (rewrite block).ref = block.ref}
    (agree : { f with blocks := g.blocks, distinct := g.distinct } = g)
    (blocks : f.blocks.map rewrite = g.blocks) : f.mapBlocks rewrite keeps = g := by
  rw [← agree]
  simp only [mapBlocks]
  congr

end

end Function
end LLVM
