import Mull.Frontend.HandledGroups

/-! Parsing: the parent map of an AST on which nothing was performed yet. -/

namespace Mull.Frontend
open Base

def refsBelow (unit : List DeclGroupRef) (bound : Nat) : List Ref :=
  (unit.flatten.zipIdx.take bound).flatMap fun numbered => numbered.1.refs numbered.2

section
variable {unit : List DeclGroupRef} {bound : Nat} {context : ASTContext}

theorem mem_refsBelow {ref : Ref} : ref ∈ refsBelow unit bound ↔
    ∃ d i decl, ref = .parsed d i ∧ d < bound ∧ unit.flatten[d]? = some decl ∧ i < decl.nodes.length := by
  unfold refsBelow TopLevelDecl.refs
  constructor
  · intro mem
    obtain ⟨⟨decl, d⟩, isIn, mem⟩ := List.mem_flatMap.mp mem
    obtain ⟨i, isIndex, rfl⟩ := List.mem_map.mp mem
    obtain ⟨n, bound', found⟩ := List.mem_take_iff_getElem.mp isIn
    rw [List.getElem_zipIdx] at found
    obtain ⟨rfl, rfl⟩ := Prod.mk.inj found
    rw [Nat.zero_add]
    have inside : n < unit.flatten.length := by
      rw [List.length_zipIdx] at bound'
      omega
    exact ⟨n, i, _, rfl, by omega, List.getElem?_eq_getElem inside, List.mem_range.mp isIndex⟩
  · rintro ⟨d, i, decl, rfl, below, found, inside⟩
    refine List.mem_flatMap.mpr ⟨(decl, d), ?_, List.mem_map.mpr ⟨i, List.mem_range.mpr inside, rfl⟩⟩
    obtain ⟨within, same⟩ := List.getElem?_eq_some_iff.mp found
    refine List.mem_take_iff_getElem.mpr ⟨d, by rw [List.length_zipIdx]; omega, ?_⟩
    rw [List.getElem_zipIdx, same, Nat.zero_add]

theorem lookup_iff_mem {entries : List (Ref × Ref)}
    (single : ∀ child parent other, (child, parent) ∈ entries → (child, other) ∈ entries → parent = other)
    {child parent : Ref} : entries.lookup child = some parent ↔ (child, parent) ∈ entries := by
  induction entries with
  | nil => simp
  | cons entry entries ih =>
    obtain ⟨key, value⟩ := entry
    have below := ih fun c p q first second => single c p q (List.mem_cons_of_mem _ first)
      (List.mem_cons_of_mem _ second)
    rw [List.lookup_cons]
    by_cases same : child = key
    · subst same
      rw [beq_self_eq_true]
      dsimp only
      rw [Option.some.injEq]
      constructor
      · rintro rfl
        exact List.mem_cons_self
      · intro mem
        exact single child value parent List.mem_cons_self mem
    · have other : (child == key) = false := beq_eq_false_iff_ne.mpr same
      rw [other]
      dsimp only
      rw [below, List.mem_cons, Prod.mk.injEq]
      simp [same]

theorem mem_buildParentMap {child parent : Ref} : (child, parent) ∈ context.buildParentMap ↔
    parent ∈ context.parsed ∧ ∃ node, context.node? parent = some node ∧ child ∈ node.children := by
  unfold ASTContext.buildParentMap
  rw [List.mem_flatMap]
  constructor
  · rintro ⟨other, isParsed, mem⟩
    cases read : context.node? other with
    | none =>
      rw [read] at mem
      cases mem
    | some node =>
      rw [read] at mem
      obtain ⟨_, isChild, same⟩ := List.mem_map.mp mem
      obtain ⟨rfl, rfl⟩ := Prod.mk.inj same
      exact ⟨isParsed, node, read, isChild⟩
  · rintro ⟨isParsed, node, read, isChild⟩
    refine ⟨parent, isParsed, ?_⟩
    rw [read]
    exact List.mem_map_of_mem isChild

theorem asked_source (heap : context.node? = source unit) (list : context.parsed = refsBelow unit bound)
    (first : context.parentMap = none) : Asked unit bound context := by
  intro child parent
  have map : context.parentMap.getD context.buildParentMap = context.buildParentMap := by
    rw [first]
    rfl
  have mem {child parent : Ref} : (child, parent) ∈ context.buildParentMap ↔
      parent ∈ refsBelow unit bound ∧ ∃ node, source unit parent = some node ∧ child ∈ node.children := by
    rw [mem_buildParentMap, heap, list]
  rw [map, lookup_iff_mem, mem]
  · constructor
    · rintro ⟨isIn, node, read, isChild⟩
      obtain ⟨d, i, decl, rfl, below, -, -⟩ := mem_refsBelow.mp isIn
      exact ⟨d, i, node, rfl, below, read, isChild⟩
    · rintro ⟨d, i, node, rfl, below, read, isChild⟩
      refine ⟨?_, node, read, isChild⟩
      obtain ⟨_, _, decl, parsed, same, found, isNode, -⟩ := source_eq_some.mp read
      obtain ⟨rfl, rfl⟩ := Ref.parsed.inj same
      exact mem_refsBelow.mpr ⟨d, i, decl, rfl, below, found, (List.getElem?_eq_some_iff.mp isNode).1⟩
  · intro child parent other first second
    obtain ⟨-, node, read, isChild⟩ := mem.mp first
    obtain ⟨-, otherNode, read', isChild'⟩ := mem.mp second
    exact parent_unique read isChild read' isChild'

theorem node_map_id (node : Node Ref) : node.map id = node := by
  simp [Node.map]

theorem performed_source (heap : context.node? = source unit) (list : context.parsed = refsBelow unit bound)
    (first : context.parentMap = none) : Performed unit bound [] context where
  switched := by
    refine ⟨id, fun _ _ => rfl, ?_, ?_, ?_⟩
    · intro ref edit last
      cases last
    · intro d i
      rw [heap]
      cases source unit (.parsed d i) with
      | none => rfl
      | some node => exact congrArg some (node_map_id node).symm
    · intro n _
      rw [heap]
      rfl
  asked := asked_source heap list first
  list := by
    intro ref mem
    rw [list] at mem
    obtain ⟨d, i, -, rfl, -⟩ := mem_refsBelow.mp mem
    exact ⟨d, i, rfl⟩

end
end Mull.Frontend
