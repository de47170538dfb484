import Mull.Frontend.ParseAST

/-! What the edits of a translation unit are for, and what they make of it. -/

namespace Mull.Frontend
open Base

def NodeKind.isOperator : NodeKind → Bool
  | unaryOperator _ => true
  | binaryOperator opcode | compoundAssignOperator opcode _ _ => opcode != .assign
  | _ => false

/-- An operator or a call, which the search visits itself. -/
def Operates (unit : List DeclGroupRef) (ref : Ref) : Prop :=
  ∃ node, source unit ref = some node ∧ (node.kind.isOperator = true ∨ node.kind = .callExpr)

/-- What an edit makes of its target: another operator, the operand, a value or nothing. -/
inductive Alters (unit : List DeclGroupRef) (edit : Edit) : Prop
  | operator {node : Node Ref} {kind : NodeKind} (read : source unit edit.target = some node)
      (operates : node.kind.isOperator = true) (effect : edit.effect = .operator kind)
      (plain : kind.isPlain = true)
      (expr : kind.isExpr = true) (other : kind ≠ node.kind) : Alters unit edit
  | operand {node : Node Ref} {operand : Ref} {opcode : UnaryOpcode}
      (read : source unit edit.target = some node)
      (kind : node.kind = .unaryOperator opcode) (slots : node.slots = [⟨.expr, operand⟩])
      (effect : edit.effect = .operand) : Alters unit edit
  | call {node : Node Ref} (read : source unit edit.target = some node) (kind : node.kind = .callExpr)
      (effect : edit.effect = .literal ∨ edit.effect = .removed) : Alters unit edit
  | value {ref : Ref} {node parent : Node Ref} (parentRead : source unit ref = some parent)
      (takes : parent.kind.hasBinaryOpcode .assign ∨ parent.kind.isVarDecl = true)
      (child : edit.target ∈ parent.children)
      (read : source unit edit.target = some node) (expr : node.kind.isExpr = true)
      (effect : edit.effect = .literal) :
      Alters unit edit

section
variable {unit : List DeclGroupRef} {ref : Ref} {node : Node Ref} {edit : Edit}

theorem isPlain_of_isOperator {kind : NodeKind} (operates : kind.isOperator = true) :
    kind.isPlain = true ∧ kind.isExpr = true := by
  cases kind <;> first | exact ⟨rfl, rfl⟩ | cases operates

theorem withBinaryOpcode_spec {opcode replacement : BinaryOpcode} (kind : node.kind.hasBinaryOpcode opcode)
    (other : replacement ≠ opcode) : (node.kind.withBinaryOpcode replacement).isPlain = true ∧
      (node.kind.withBinaryOpcode replacement).isExpr = true ∧
      node.kind.withBinaryOpcode replacement ≠ node.kind := by
  rcases kind with kind | ⟨lhsType, resultType, kind⟩ <;> rw [kind]
  · refine ⟨rfl, rfl, ?_⟩
    intro same
    exact other (NodeKind.binaryOperator.inj same)
  · refine ⟨rfl, rfl, ?_⟩
    intro same
    exact other (NodeKind.compoundAssignOperator.inj same).1

theorem isOperator_of_hasBinaryOpcode {opcode : BinaryOpcode} (kind : node.kind.hasBinaryOpcode opcode)
    (noAssign : opcode ≠ .assign) : node.kind.isOperator = true := by
  rcases kind with kind | ⟨lhsType, resultType, kind⟩ <;> rw [kind] <;>
    simpa [NodeKind.isOperator] using noAssign

theorem value_isExpr {parent : Node Ref} (parentRead : source unit ref = some parent)
    (takes : parent.kind.hasBinaryOpcode .assign ∨ parent.kind.isVarDecl = true) {child : Ref}
    (mem : child ∈ parent.children) {childNode : Node Ref} (read : source unit child = some childNode) :
    childNode.kind.isExpr = true := by
  have slotted : (⟨.expr, child⟩ : Slot Ref) ∈ parent.slots ∨
    (⟨.constant, child⟩ : Slot Ref) ∈ parent.slots := by
    rcases takes with assigns | isVar
    · obtain ⟨lhs, rhs, slots⟩ := binary_slots parentRead assigns
      rw [Node.children, slots] at mem
      rw [slots]
      rcases List.mem_cons.mp mem with rfl | mem
      · exact .inl List.mem_cons_self
      · obtain rfl := List.mem_singleton.mp mem
        exact .inl (List.mem_cons_of_mem _ List.mem_cons_self)
    · obtain ⟨_, slots, rfl | rfl⟩ := varDecl_children parentRead isVar mem <;> rw [slots]
      · exact .inl List.mem_cons_self
      · exact .inr List.mem_cons_self
  rcases slotted with slotted | slotted
  all_goals
    obtain ⟨_, _, _, other, _, _, _, there, accepted⟩ := source_slot parentRead slotted
    obtain rfl := Option.some.inj (read.symm.trans there)
    exact accepted

theorem alters_of_finds (read : source unit ref = some node) {point : Point}
    (finds : Finds unit ref node point.mutation)
    (isEdit : editOf? (source unit) point = some edit) : Alters unit edit := by
  generalize isMutation : point.mutation = mutation at finds
  have unfolded {target : Ref} {effect : Effect}
    (found : mutation.edit? (source unit) = some (target, effect)) :
      edit = ⟨target, effect, point.mutationIdentifier⟩ := by
    rw [editOf?, isMutation, found] at isEdit
    exact (Option.some.inj isEdit).symm
  cases finds with
  | @opcode opcode replacement kind other =>
    obtain rfl := unfolded rfl
    refine .operator read (by rw [kind]; rfl) rfl rfl rfl ?_
    rw [kind]
    intro same
    exact other (NodeKind.unaryOperator.inj same)
  | @removal opcode kind =>
    obtain rfl := unfolded rfl
    obtain ⟨operand, slots⟩ := unary_slots read kind
    exact .operand read kind slots rfl
  | @binary opcode replacement kind other noAssign =>
    obtain rfl := unfolded (edit?_binary read replacement)
    obtain ⟨plain, expr, different⟩ := withBinaryOpcode_spec kind other
    exact .operator read (isOperator_of_hasBinaryOpcode kind noAssign) rfl plain expr different
  | call kind =>
    obtain rfl := unfolded rfl
    exact .call read kind (.inr rfl)
  | scalar kind =>
    obtain rfl := unfolded rfl
    exact .call read kind (.inl rfl)
  | @assigned rhs rhsNode kind child there numeric =>
    obtain rfl := unfolded (edit?_assigned read child)
    have mem := List.mem_of_getElem? child
    exact .value read (.inl kind) mem there (value_isExpr read (.inl kind) mem there) rfl
  | @initial varKind init initNode kind child there =>
    obtain rfl := unfolded (edit?_initial read child)
    have mem := List.mem_of_getElem? child
    have isVar : node.kind.isVarDecl = true := by rw [kind]; rfl
    exact .value read (.inr isVar) mem there (value_isExpr read (.inr isVar) mem there) rfl

theorem Finds.target {mutation : StmtMutation} (finds : Finds unit ref node mutation)
    (read : source unit ref = some node)
    {target : Ref} {effect : Effect} (found : mutation.edit? (source unit) = some (target, effect)) :
    target = ref ∧ (node.kind.isOperator = true ∨ node.kind = .callExpr) ∨ target ∈ node.children := by
  cases finds with
  | opcode kind | removal kind =>
    obtain ⟨rfl, rfl⟩ := Prod.mk.inj (Option.some.inj found)
    exact .inl ⟨rfl, .inl (by rw [kind]; rfl)⟩
  | binary kind _ noAssign =>
    obtain ⟨rfl, rfl⟩ := Prod.mk.inj (Option.some.inj ((edit?_binary read _).symm.trans found))
    exact .inl ⟨rfl, .inl (isOperator_of_hasBinaryOpcode kind noAssign)⟩
  | call kind | scalar kind =>
    obtain ⟨rfl, rfl⟩ := Prod.mk.inj (Option.some.inj found)
    exact .inl ⟨rfl, .inr kind⟩
  | assigned kind child =>
    obtain ⟨rfl, rfl⟩ := Prod.mk.inj (Option.some.inj ((edit?_assigned read child).symm.trans found))
    exact .inr (List.mem_of_getElem? child)
  | initial kind child =>
    obtain ⟨rfl, rfl⟩ := Prod.mk.inj (Option.some.inj ((edit?_initial read child).symm.trans found))
    exact .inr (List.mem_of_getElem? child)

def Again (unit : List DeclGroupRef) (earlier later : Edit) : Prop :=
  earlier.target = later.target → Operates unit later.target

theorem SearchedIn.again {d : Nat} {points : List Point} (searched : SearchedIn unit d points) :
    (editsOf unit points).Pairwise (Again unit) := by
  have listed : points.Pairwise fun earlier later => earlier ∈ points ∧ later ∈ points ∧
      LeavesAlone unit earlier.mutation later.mutation :=
    List.Pairwise.and_mem.mp searched.order
  apply listed.filterMap
  rintro earlier later ⟨-, isIn, leaves⟩ edit isEdit edit' isEdit' same
  obtain ⟨i, node, read, finds⟩ := searched.finds later isIn
  obtain ⟨⟨target, effect⟩, found, isThis⟩ := Option.bind_eq_some_iff.mp isEdit'
  obtain rfl := Option.some.inj isThis
  rcases finds.target read found with ⟨rfl, operates⟩ | below
  · exact ⟨node, read, operates⟩
  · have apart := leavesAlone_edit leaves isEdit (by rw [finds.visited, read])
    rw [same] at apart
    exact absurd below apart

end

section
variable {isValidMutation : MutatorKind → Bool} {endOfToken : Location → Int32 × Int32}
  {unit : List DeclGroupRef} {edit : Edit}

theorem editsIn_again {decls : List (TopLevelDecl × Nat)}
    (order : decls.Pairwise fun earlier later => earlier.2 < later.2) :
    (editsIn isValidMutation endOfToken unit decls).Pairwise (Again unit) := by
  induction decls with
  | nil => exact List.Pairwise.nil
  | cons numbered decls ih =>
    obtain ⟨first, rest⟩ := List.pairwise_cons.mp order
    rw [← List.singleton_append, editsIn_append, editsIn_singleton]
    refine List.pairwise_append.mpr ⟨?_, ih rest, ?_⟩
    · cases points? : declPoints isValidMutation endOfToken unit numbered with
      | none => exact List.Pairwise.nil
      | some points => exact (declPoints_searchedIn points?).again
    · intro earlier isEarlier later isLater same
      obtain ⟨other, isIn, place⟩ := declOf_editsIn isLater
      have less := first other isIn
      rw [← place, ← same, declOf_edit isEarlier] at less
      exact absurd less (Nat.lt_irrefl _)

theorem recorded_again : (recordedEdits isValidMutation endOfToken unit).Pairwise (Again unit) :=
  editsIn_again (zipIdx_order _ _)

theorem recorded_alters (mem : edit ∈ recordedEdits isValidMutation endOfToken unit) : Alters unit edit := by
  obtain ⟨point, isPoint, isEdit⟩ := mem_editsOf.mp mem
  obtain ⟨numbered, -, isPoint⟩ := List.mem_flatMap.mp isPoint
  cases points? : declPoints isValidMutation endOfToken unit numbered with
  | none =>
    rw [points?] at isPoint
    cases isPoint
  | some points =>
    rw [points?] at isPoint
    obtain ⟨i, node, read, finds⟩ := (declPoints_searchedIn points?).finds point isPoint
    exact alters_of_finds read finds isEdit

theorem recorded_function (mem : edit ∈ recordedEdits isValidMutation endOfToken unit) : ∃ d i function,
    edit.target = .parsed d i ∧ unit.flatten[d]? = some function ∧ function.isFunction = true := by
  obtain ⟨point, isPoint, isEdit⟩ := mem_editsOf.mp mem
  obtain ⟨numbered, isIn, isPoint⟩ := List.mem_flatMap.mp isPoint
  cases points? : declPoints isValidMutation endOfToken unit numbered with
  | none =>
    rw [points?] at isPoint
    cases isPoint
  | some points =>
    rw [points?] at isPoint
    obtain ⟨edit', i, isEdit', target⟩ := (declPoints_searchedIn points?).exists_edit isPoint
    obtain rfl := Option.some.inj (isEdit.symm.trans isEdit')
    refine ⟨numbered.2, i, numbered.1, target, List.mem_zipIdx_iff_getElem?.mp isIn, ?_⟩
    by_cases searched : numbered.1.isSearched = true
    · unfold TopLevelDecl.isSearched at searched
      rw [Bool.and_eq_true, Bool.and_eq_true, Bool.and_eq_true] at searched
      exact searched.1.1.1
    · rw [declPoints, if_neg searched] at points?
      obtain rfl := Option.some.inj points?
      cases isPoint

theorem InPlace.not_root (inPlace : InPlace unit edit) (d : Nat) : edit.target ≠ .parsed d 0 := by
  obtain ⟨d', i, node, read, mem, -⟩ := inPlace
  obtain ⟨_, _, j, _, _, isTarget, less, _⟩ := source_child read mem
  rw [isTarget]
  intro same
  obtain ⟨-, rfl⟩ := Ref.parsed.inj same
  exact Nat.not_lt_zero _ less

end
end Mull.Frontend
