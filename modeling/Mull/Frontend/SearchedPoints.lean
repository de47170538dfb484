import Mull.Base.Fallible
import Mull.Frontend.Performing

/-! The points of a function come in an order in which no earlier one has changed what a later one reads. -/

namespace Mull.Frontend
open Base

section
variable {isValidMutation : MutatorKind → Bool} {endOfToken : Location → Int32 × Int32}
  {unit : List DeclGroupRef} {ref : Ref} {node : Node Ref}

theorem visit_congr {heap heap' : Heap} (same : ∀ child ∈ node.children, heap child = heap' child) :
    visit isValidMutation heap ref node = visit isValidMutation heap' ref node := by
  have child? (k : Nat) : node.children[k]? >>= heap = node.children[k]? >>= heap' := by
    cases found : node.children[k]? with
    | none => rfl
    | some child => exact same child (List.mem_of_getElem? found)
  unfold visit
  split
  · rfl
  · rw [visitBinaryOperator, visitBinaryOperator, child?]
  · rw [visitBinaryOperator, visitBinaryOperator, child?]
  · rfl
  · rw [visitVarDecl, visitVarDecl]
    cases found : node.children[0]? with
    | none => rfl
    | some child => rw [Option.bind_eq_bind, Option.bind_eq_bind, Option.bind_some, Option.bind_some,
        same child (List.mem_of_getElem? found)]
  · rfl

theorem traverse_congr {heap : Heap} {d : Nat} {refs : List Ref}
    (inside : ∀ ref ∈ refs, ∃ i, ref = .parsed d i)
    (same : ∀ i, heap (.parsed d i) = source unit (.parsed d i)) :
    traverseFunctionDecl isValidMutation endOfToken heap refs =
      traverseFunctionDecl isValidMutation endOfToken (source unit) refs := by
  have each : ∀ ref ∈ refs, heap ref >>= visit isValidMutation heap ref =
      source unit ref >>= visit isValidMutation (source unit) ref := by
    intro ref mem
    obtain ⟨i, rfl⟩ := inside ref mem
    rw [same]
    cases read : source unit (.parsed d i) with
    | none => rfl
    | some node =>
      apply visit_congr
      intro child isChild
      obtain ⟨_, _, j, _, isRef, rfl, _⟩ := source_child read isChild
      obtain ⟨rfl, _⟩ := Ref.parsed.inj isRef
      exact same j
  unfold traverseFunctionDecl
  rw [mapM_congr each]

theorem finds_here {mutation : StmtMutation} (finds : Finds unit ref node mutation)
    (noAssign : ¬ node.kind.hasBinaryOpcode .assign) (noVar : node.kind.isVarDecl = false) {target : Ref}
    {effect : Effect} (found : mutation.edit? (source unit) = some (target, effect)) : target = ref := by
  cases finds with
  | opcode | removal | call | scalar => exact (Prod.mk.inj (Option.some.inj found)).1.symm
  | binary =>
    rw [StmtMutation.edit?] at found
    obtain ⟨other, _, same⟩ := Option.bind_eq_some_iff.mp found
    exact (Prod.mk.inj (Option.some.inj same)).1.symm
  | assigned kind => exact absurd kind noAssign
  | initial kind =>
    rw [kind] at noVar
    cases noVar

theorem visit_alone {findings : List (Finding StmtMutation)}
    (visited : visit isValidMutation (source unit) ref node = some findings) :
    findings.length ≤ 1 ∨
      ∀ finding ∈ findings, ∀ target effect, finding.mutation.edit? (source unit) = some (target, effect) →
      target = ref := by
  by_cases isVar : node.kind.isVarDecl = true
  · left
    cases kind : node.kind with
    | varDecl varKind =>
      rw [visit, kind] at visited
      rcases visitVarDecl_finds kind visited with rfl | ⟨finding, rfl, _⟩
      · exact Nat.zero_le _
      · exact Nat.le_refl _
    | _ =>
      rw [kind] at isVar
      cases isVar
  · by_cases assigns : node.kind.hasBinaryOpcode .assign
    · obtain rfl : visitBinaryOperator isValidMutation (source unit) ref node .assign = findings := by
        rcases assigns with kind | ⟨lhsType, resultType, kind⟩ <;> rw [visit, kind] at visited <;>
          exact Option.some.inj visited
      unfold visitBinaryOperator
      split
      · left
        split
        · exact Nat.zero_le _
        · split <;> simp
      · right
        intro finding mem target effect found
        obtain ⟨mutation, _, rfl⟩ := List.mem_map.mp mem
        rw [StmtMutation.edit?] at found
        obtain ⟨other, _, same⟩ := Option.bind_eq_some_iff.mp found
        exact (Prod.mk.inj (Option.some.inj same)).1.symm
    · right
      intro finding mem target effect found
      exact finds_here (visit_finds visited mem) assigns (Bool.eq_false_iff.mpr isVar) found

/-- The earlier mutation is not for a child of what the later one is found at. -/
def LeavesAlone (unit : List DeclGroupRef) (earlier later : StmtMutation) : Prop :=
  ∀ target effect node, earlier.edit? (source unit) = some (target, effect) →
    source unit later.visited = some node → target ∉ node.children

theorem visit_pairwise {findings : List (Finding StmtMutation)} (read : source unit ref = some node)
    (visited : visit isValidMutation (source unit) ref node = some findings) :
    findings.Pairwise fun earlier later => LeavesAlone unit earlier.mutation later.mutation := by
  rcases visit_alone visited with short | here
  · apply List.pairwise_iff_getElem.mpr
    intro i j _ bound less
    omega
  · apply List.pairwise_of_forall_mem_list
    intro earlier mem later mem' target effect node' found read' isChild
    obtain rfl := here earlier mem target effect found
    rw [(visit_finds visited mem').visited] at read'
    obtain ⟨_, _, _, _, rfl, same, less, _⟩ := source_child read' isChild
    obtain ⟨_, rfl⟩ := Ref.parsed.inj same
    exact Nat.lt_irrefl _ less

theorem visit_earlier {d i j : Nat} (less : i < j) {node' : Node Ref} {mutation mutation' : StmtMutation}
    (read : source unit (.parsed d i) = some node) (finds : Finds unit (.parsed d i) node mutation)
    (finds' : Finds unit (.parsed d j) node' mutation') : LeavesAlone unit mutation mutation' := by
  intro target effect other found read' isChild
  rw [finds'.visited] at read'
  obtain ⟨target', effect', found', place⟩ := finds.edit? read
  obtain ⟨rfl, _⟩ := Prod.mk.inj (Option.some.inj (found.symm.trans found'))
  rcases place with rfl | ⟨below, _⟩
  · obtain ⟨_, _, _, _, same, same', later, _⟩ := source_child read' isChild
    obtain ⟨rfl, rfl⟩ := Ref.parsed.inj same
    obtain ⟨_, rfl⟩ := Ref.parsed.inj same'
    omega
  · obtain ⟨_, rfl⟩ := Ref.parsed.inj (parent_unique read below read' isChild)
    omega

theorem recorded_mutation {finding : Finding StmtMutation} {point : Point}
    (recorded : recordMutationPoint endOfToken finding = some point) : point.mutation = finding.mutation := by
  unfold recordMutationPoint at recorded
  split at recorded
  · cases recorded
  · split at recorded
    · cases recorded
    · dsimp only at recorded
      split at recorded
      · cases recorded
      · split at recorded
        · cases recorded
        · rw [← Option.some.inj recorded]

structure SearchedIn (unit : List DeclGroupRef) (d : Nat) (points : List Point) : Prop where
  finds : ∀ point ∈ points, ∃ i node, source unit (.parsed d i) = some node ∧
    Finds unit (.parsed d i) node point.mutation
  order : points.Pairwise fun earlier later => LeavesAlone unit earlier.mutation later.mutation

theorem traverse_searchedIn {d n : Nat} {points : List Point}
    (traversed : traverseFunctionDecl isValidMutation endOfToken (source unit)
      ((List.range n).map (Ref.parsed d)) =
      some points) : SearchedIn unit d points := by
  obtain ⟨findings, all, recorded⟩ := Option.bind_eq_some_iff.mp traversed
  obtain rfl := Option.some.inj recorded
  obtain ⟨length, each⟩ := List.forall₂_iff_get.mp (mapM_some_iff.mp all)
  rw [List.length_map, List.length_range] at length
  have visited (i : Nat) (bound : i < findings.length) : ∃ node, source unit (.parsed d i) = some node ∧
      visit isValidMutation (source unit) (.parsed d i) node = some findings[i] := by
    have found := each i (by simpa [length] using bound) bound
    simp only [List.get_eq_getElem, List.getElem_map, List.getElem_range] at found
    exact Option.bind_eq_some_iff.mp found
  have finds (i : Nat) (bound : i < findings.length) {finding : Finding StmtMutation}
    (mem : finding ∈ findings[i]) :
      ∃ node, source unit (.parsed d i) = some node ∧ Finds unit (.parsed d i) node finding.mutation := by
    obtain ⟨node, read, isVisited⟩ := visited i bound
    exact ⟨node, read, visit_finds isVisited mem⟩
  constructor
  · intro point mem
    obtain ⟨finding, isIn, isPoint⟩ := List.mem_filterMap.mp mem
    obtain ⟨found, isFound, isIn⟩ := List.mem_flatten.mp isIn
    obtain ⟨i, bound, rfl⟩ := List.getElem_of_mem isFound
    obtain ⟨node, read, isFinding⟩ := finds i bound isIn
    rw [recorded_mutation isPoint]
    exact ⟨i, node, read, isFinding⟩
  · have flat : findings.flatten.Pairwise fun earlier later =>
      LeavesAlone unit earlier.mutation later.mutation := by
      apply List.pairwise_flatten.mpr
      constructor
      · intro found mem
        obtain ⟨i, bound, rfl⟩ := List.getElem_of_mem mem
        obtain ⟨node, read, isVisited⟩ := visited i bound
        exact visit_pairwise read isVisited
      · apply List.pairwise_iff_getElem.mpr
        intro i j bound bound' less earlier isEarlier later isLater
        obtain ⟨node, read, isFinding⟩ := finds i bound isEarlier
        obtain ⟨node', _, isFinding'⟩ := finds j bound' isLater
        exact visit_earlier less read isFinding isFinding'
    apply flat.filterMap
    intro earlier later leaves point isPoint point' isPoint'
    rw [recorded_mutation isPoint, recorded_mutation isPoint']
    exact leaves

theorem declPoints_searchedIn {numbered : TopLevelDecl × Nat} {points : List Point}
    (searched : declPoints isValidMutation endOfToken unit numbered = some points) :
      SearchedIn unit numbered.2 points := by
  unfold declPoints at searched
  split at searched
  · exact traverse_searchedIn searched
  · obtain rfl := Option.some.inj searched
    exact ⟨by simp, List.Pairwise.nil⟩

end
end Mull.Frontend
