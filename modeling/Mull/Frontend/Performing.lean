import Mull.Frontend.Rewiring

/-! What the search finds, and what performing it comes to. -/

namespace Mull.Frontend
open Base

def NodeKind.hasBinaryOpcode (kind : NodeKind) (opcode : BinaryOpcode) : Prop :=
  kind = .binaryOperator opcode ∨ ∃ lhsType resultType,
    kind = .compoundAssignOperator opcode lhsType resultType

inductive Finds (unit : List DeclGroupRef) (ref : Ref) (node : Node Ref) : StmtMutation → Prop
  | opcode {opcode replacement : UnaryOpcode} (kind : node.kind = .unaryOperator opcode)
  (other : replacement ≠ opcode) :
      Finds unit ref node ⟨.unaryOperatorOpcodeMutation ref replacement, ref⟩
  | removal {opcode : UnaryOpcode} (kind : node.kind = .unaryOperator opcode) :
      Finds unit ref node ⟨.unaryOperatorRemovalMutation ref, ref⟩
  | binary {opcode replacement : BinaryOpcode} (kind : node.kind.hasBinaryOpcode opcode)
      (other : replacement ≠ opcode)
      (noAssign : opcode ≠ .assign) : Finds unit ref node ⟨.binaryMutation replacement, ref⟩
  | call (kind : node.kind = .callExpr) : Finds unit ref node ⟨.removeVoidMutation, ref⟩
  | scalar (kind : node.kind = .callExpr) (type : node.type = .int) :
      Finds unit ref node ⟨.replaceScalarCallMutation ref, ref⟩
  | assigned {rhs : Ref} {rhsNode : Node Ref} (kind : node.kind.hasBinaryOpcode .assign)
      (child : node.children[1]? = some rhs) (read : source unit rhs = some rhsNode)
      (numeric : rhsNode.type.isNumeric = true) :
        Finds unit ref node ⟨.replaceNumericAssignmentMutation ref, ref⟩
  | initial {varKind : VarKind} {init : Ref} {initNode : Node Ref} (kind : node.kind = .varDecl varKind)
      (child : node.children[0]? = some init) (read : source unit init = some initNode) :
      Finds unit ref node ⟨.replaceNumericInitAssignmentMutation ref, init⟩

def StmtMutation.visited (mutation : StmtMutation) : Ref :=
  match mutation.mutation with
  | .replaceNumericInitAssignmentMutation varDecl => varDecl
  | _ => mutation.mutableStmt

section
variable {isValidMutation : MutatorKind → Bool} {unit : List DeclGroupRef} {ref : Ref} {node : Node Ref}
  {findings : List (Finding StmtMutation)}

theorem binaryMutations_spec :
    ∀ mutation ∈ BinaryMutations, mutation.2.2 ≠ mutation.1 ∧ mutation.1 ≠ .assign := by
  decide

theorem unaryMutation_spec {opcode : UnaryOpcode} {found : MutatorKind × ASTMutation}
    (kind : node.kind = .unaryOperator opcode)
    (isFound : unaryMutation ref opcode = some found) : Finds unit ref node ⟨found.2, ref⟩ := by
  cases opcode <;> cases isFound
  case lNot | minus | not => exact .removal kind
  all_goals exact .opcode kind (by decide)

theorem visitBinaryOperator_finds {opcode : BinaryOpcode} (kind : node.kind.hasBinaryOpcode opcode)
    {finding : Finding StmtMutation}
    (mem : finding ∈ visitBinaryOperator isValidMutation (source unit) ref node opcode) :
    Finds unit ref node finding.mutation := by
  unfold visitBinaryOperator at mem
  split at mem
  · rename_i assigns
    obtain ⟨rfl, _⟩ := assigns
    split at mem
    · cases mem
    · rename_i rhs found
      obtain ⟨child, isChild, read⟩ := Option.bind_eq_some_iff.mp found
      split at mem
      · rename_i numeric
        obtain rfl := List.mem_singleton.mp mem
        exact .assigned kind isChild read numeric
      · cases mem
  · obtain ⟨mutation, listed, rfl⟩ := List.mem_map.mp mem
    obtain ⟨isIn, filtered⟩ := List.mem_filter.mp listed
    obtain ⟨rfl, _⟩ := of_decide_eq_true filtered
    obtain ⟨other, noAssign⟩ := binaryMutations_spec mutation isIn
    exact .binary kind other noAssign

theorem visitVarDecl_finds {kind : VarKind} (isVar : node.kind = .varDecl kind)
    (visited : visitVarDecl isValidMutation (source unit) ref node kind = some findings) :
    findings = [] ∨ ∃ finding, findings = [finding] ∧ Finds unit ref node finding.mutation := by
  unfold visitVarDecl at visited
  split at visited
  · exact .inl (Option.some.inj visited).symm
  · split at visited
    · obtain ⟨init, isInit, visited⟩ := Option.bind_eq_some_iff.mp visited
      obtain ⟨initNode, read, visited⟩ := Option.bind_eq_some_iff.mp visited
      obtain rfl := Option.some.inj visited
      exact .inr ⟨_, rfl, .initial isVar isInit read⟩
    · exact .inl (Option.some.inj visited).symm

theorem visit_finds (visited : visit isValidMutation (source unit) ref node = some findings)
    {finding : Finding StmtMutation} (mem : finding ∈ findings) : Finds unit ref node finding.mutation := by
  unfold visit at visited
  split at visited
  · rename_i opcode kind
    obtain rfl := Option.some.inj visited
    unfold visitUnaryOperator at mem
    split at mem
    · cases mem
    · rename_i mutatorKind mutation found
      split at mem
      · obtain rfl := List.mem_singleton.mp mem
        exact unaryMutation_spec kind found
      · cases mem
  · rename_i opcode kind
    obtain rfl := Option.some.inj visited
    exact visitBinaryOperator_finds (.inl kind) mem
  · rename_i opcode lhsType resultType kind
    obtain rfl := Option.some.inj visited
    exact visitBinaryOperator_finds (.inr ⟨lhsType, resultType, kind⟩) mem
  · rename_i kind
    obtain rfl := Option.some.inj visited
    rcases List.mem_append.mp mem with mem | mem
    · split at mem
      · obtain rfl := List.mem_singleton.mp mem
        exact .call kind
      · cases mem
    · split at mem
      · rename_i scalar
        obtain rfl := List.mem_singleton.mp mem
        exact .scalar kind scalar.1
      · cases mem
  · rename_i kind isVar
    rcases visitVarDecl_finds isVar visited with rfl | ⟨only, rfl, finds⟩
    · cases mem
    · obtain rfl := List.mem_singleton.mp mem
      exact finds
  · obtain rfl := Option.some.inj visited
    cases mem

theorem Finds.visited {mutation : StmtMutation} (finds : Finds unit ref node mutation) :
    mutation.visited = ref := by
  cases finds <;> rfl

theorem edit?_binary (read : source unit ref = some node) (replacement : BinaryOpcode) :
    StmtMutation.edit? (source unit) ⟨.binaryMutation replacement, ref⟩ =
      some (ref, .operator (node.kind.withBinaryOpcode replacement)) := by
  rw [StmtMutation.edit?]
  dsimp only
  rw [read]
  rfl

theorem edit?_assigned (read : source unit ref = some node) {rhs : Ref}
    (child : node.children[1]? = some rhs) :
    StmtMutation.edit? (source unit) ⟨.replaceNumericAssignmentMutation ref, ref⟩ = some (rhs, .literal) := by
  rw [StmtMutation.edit?]
  dsimp only
  rw [read, Option.bind_eq_bind, Option.bind_some, child]
  rfl

theorem edit?_initial (read : source unit ref = some node) {init : Ref}
    (child : node.children[0]? = some init) :
    StmtMutation.edit? (source unit) ⟨.replaceNumericInitAssignmentMutation ref, init⟩ =
      some (init, .literal) := by
  rw [StmtMutation.edit?]
  dsimp only
  rw [read, Option.bind_eq_bind, Option.bind_some, child]
  rfl

/-- What a mutation is found for stands at the visited node or, where a value is replaced, below it. -/
theorem Finds.edit? {mutation : StmtMutation} (finds : Finds unit ref node mutation)
    (read : source unit ref = some node) :
    ∃ target effect, mutation.edit? (source unit) = some (target, effect) ∧
      (target = ref ∨ target ∈ node.children ∧ effect = .literal) := by
  cases finds with
  | opcode => exact ⟨ref, _, rfl, .inl rfl⟩
  | removal => exact ⟨ref, _, rfl, .inl rfl⟩
  | binary => exact ⟨ref, _, edit?_binary read _, .inl rfl⟩
  | call => exact ⟨ref, _, rfl, .inl rfl⟩
  | scalar => exact ⟨ref, _, rfl, .inl rfl⟩
  | assigned kind child =>
    exact ⟨_, .literal, edit?_assigned read child, .inr ⟨List.mem_of_getElem? child, rfl⟩⟩
  | initial kind child =>
    exact ⟨_, .literal, edit?_initial read child, .inr ⟨List.mem_of_getElem? child, rfl⟩⟩

end

section
variable {unit : List DeclGroupRef} {bound : Nat} {edits : List Edit} {edit : Edit}
  {context context' : ASTContext} {new : Ref} {succeeds succeeds' : Prop}

theorem Outcome.congr (same : succeeds ↔ succeeds') (list : context'.parsed = context.parsed)
    {result : Option ASTContext} (outcome : Outcome unit bound edits edit context' succeeds result) :
    Outcome unit bound edits edit context succeeds' result := by
  rcases outcome with ⟨ok, after, isResult, performed, asked, kept⟩ | ⟨fails, isResult⟩
  · exact .inl ⟨same.mp ok, after, isResult, performed, asked, kept.trans list⟩
  · exact .inr ⟨fun ok => fails (same.mpr ok), isResult⟩

theorem Rewired.of_grown {result : Except PerformFailure ASTContext} (list : context'.parsed = context.parsed)
    (rewired : Rewired unit bound edits edit context' result) :
      Rewired unit bound edits edit context result :=
  ⟨rewired.outcome.congr Iff.rfl list, rewired.failure⟩

theorem replaceExpression_rewired (performed : Performed unit bound edits context)
    (mutated : IsMutated (source unit) context.node? edit new) (stays : edit.effect ≠ .removed)
    (there : ∃ node, context.node? new = some node) :
    Rewired unit bound edits edit context (replaceExpression context edit.target new edit.identifier) := by
  obtain ⟨node, read⟩ := there
  obtain ⟨switch, switched⟩ := performed.switched
  obtain ⟨n, isRef, grows, conditional⟩ := create_spec switched.fresh
    { kind := .conditionalOperator edit.identifier, type := node.type, valueKind := node.valueKind,
      slots := [⟨.expr, new⟩, ⟨.expr, edit.target⟩] }
  have chooses := IsSwitch.expr stays conditional rfl rfl (mutated.mono grows.kept)
  have rewired := rewire (performed.extend grows) chooses
  rw [decide_eq_true stays, ← isRef] at rewired
  rw [replaceExpression, ASTContext.createMutatedExpression, read]
  exact rewired.of_grown grows.list

theorem replaceByCreated_rewired (performed : Performed unit bound edits context) {old node : Node Ref}
    (read : source unit edit.target = some old) (built : edit.effect ≠ .operand)
    (stays : edit.effect ≠ .removed) (construct : node.toConstruct = (edit.effect.apply old).toConstruct)
    (slots : node.slots = (edit.effect.apply old).slots) :
    Rewired unit bound edits edit context
      (replaceExpression (context.create node).2 edit.target (context.create node).1 edit.identifier) := by
  obtain ⟨switch, switched⟩ := performed.switched
  obtain ⟨n, isRef, grows, there⟩ := create_spec switched.fresh node
  rw [isRef]
  exact (replaceExpression_rewired (performed.extend grows) (.built read built there construct slots) stays
    ⟨_, there⟩).of_grown
    grows.list

theorem replaceByLiteral_rewired (performed : Performed unit bound edits context) {target : Ref}
    {old : Node Ref} (read : source unit target = some old) (point : Point) :
    (old.type.isNumeric = true → Rewired unit bound edits ⟨target, .literal, point.mutationIdentifier⟩ context
      (replaceByLiteral context point target)) ∧
    (¬ old.type.isNumeric = true → replaceByLiteral context point target = .error .notImplemented) := by
  obtain ⟨switch, switched⟩ := performed.switched
  have now : context.node? target = some (old.map switch) := by
    obtain ⟨d, i, _, _, isTarget, _⟩ := source_eq_some.mp read
    rw [isTarget, switched.parsed, ← isTarget, read]
    rfl
  rw [replaceByLiteral, now, deref_bind]
  constructor
  · intro numeric
    rw [if_pos (by exact numeric)]
    refine @replaceByCreated_rewired unit bound edits ⟨target, .literal, point.mutationIdentifier⟩ context
      performed old _ read ?_ ?_ rfl rfl
    · simp
    · simp
  · intro other
    rw [if_neg (by exact other)]

theorem replaceStatement_rewired (performed : Performed unit bound edits context) {old : Node Ref}
    (read : source unit edit.target = some old) (effect : edit.effect = .removed) :
    Rewired unit bound edits edit context (replaceStatement context edit.target none edit.identifier) := by
  obtain ⟨switch, switched⟩ := performed.switched
  let thenNode : Node Ref := { kind := .compoundStmt, type := .void, valueKind := .rValue, slots := [] }
  let elseNode : Node Ref := { thenNode with slots := [⟨.stmt, edit.target⟩] }
  obtain ⟨n, isThen, grows, thenRead⟩ := create_spec switched.fresh thenNode
  obtain ⟨m, isElse, grows', elseRead⟩ := create_spec grows.fresh elseNode
  obtain ⟨k, isIf, grows'', ifRead⟩ := create_spec grows'.fresh
    { kind := .ifStmt edit.identifier, type := .void, valueKind := .rValue,
      slots := [⟨.stmt, (context.create thenNode).1⟩,
        ⟨.stmt, ((context.create thenNode).2.create elseNode).1⟩] }
  have built : edit.effect ≠ .operand := by
    rw [effect]
    decide
  have mutated := IsMutated.built read built (grows'.trans grows'' |>.read thenRead) (by rw [effect]; rfl)
    (by rw [effect]; rfl)
  have children : [(context.create thenNode).1, ((context.create thenNode).2.create elseNode).1] =
      [.created n, .created m] := by
    rw [isThen, isElse]
  have chooses := IsSwitch.stmt effect ifRead rfl children mutated (grows''.read elseRead) rfl rfl
  have grown := grows.trans (grows'.trans grows'')
  have rewired := rewire (performed.extend grown) chooses
  rw [decide_eq_false (not_not_intro effect), ← isIf] at rewired
  exact rewired.of_grown grown.list

/-- An initial value has a numeric type and belongs to a variable proper. -/
def Typed (unit : List DeclGroupRef) (mutation : StmtMutation) : Prop :=
  ∀ varDecl, mutation.mutation = .replaceNumericInitAssignmentMutation varDecl → ∃ node init initNode,
    source unit varDecl = some node ∧ node.kind = .varDecl .var ∧ node.children[0]? = some init ∧
    source unit init = some initNode ∧ initNode.type.isNumeric = true

/-- An initial value belongs to a variable proper. -/
def OfVar (unit : List DeclGroupRef) (mutation : StmtMutation) : Prop :=
  ∀ varDecl, mutation.mutation = .replaceNumericInitAssignmentMutation varDecl → ∃ node,
    source unit varDecl = some node ∧ node.kind = .varDecl .var

theorem typed_of_ne {mutation : StmtMutation}
    (other : ∀ varDecl, mutation.mutation ≠ .replaceNumericInitAssignmentMutation varDecl) :
      Typed unit mutation :=
  fun varDecl same => absurd same (other varDecl)

theorem map_children_unmoved {original : Heap} {switch : Ref → Ref} {node : Node Ref}
    (switched : Switched original edits switch context)
    (below : ∀ child ∈ node.children, lastEdit edits child = none) :
    (node.map switch).children = node.children := by
  rw [Node.map_children]
  conv => rhs; rw [← List.map_id node.children]
  apply List.map_congr_left
  intro child mem
  exact switched.unmoved child (below child mem)

theorem unary_slots {ref : Ref} {node : Node Ref} {opcode : UnaryOpcode} (read : source unit ref = some node)
    (kind : node.kind = .unaryOperator opcode) : ∃ operand, node.slots = [⟨.expr, operand⟩] := by
  have takes := source_takes read
  rw [kind] at takes
  have expects : node.slots.map Slot.expects = [.expr] := by simpa [NodeKind.takes] using takes
  obtain ⟨slot, slots, isSlot⟩ := List.map_eq_singleton_iff.mp expects
  exact ⟨slot.child, by rw [slots, ← isSlot]⟩

theorem binary_slots {ref : Ref} {node : Node Ref} {opcode : BinaryOpcode}
    (read : source unit ref = some node)
    (kind : node.kind.hasBinaryOpcode opcode) : ∃ lhs rhs, node.slots = [⟨.expr, lhs⟩, ⟨.expr, rhs⟩] := by
  have takes := source_takes read
  have expects : node.slots.map Slot.expects = [.expr, .expr] := by
    rcases kind with kind | ⟨lhsType, resultType, kind⟩ <;> rw [kind] at takes <;>
      simpa [NodeKind.takes] using takes
  obtain ⟨lhs, rest, slots, isLhs, isRest⟩ := List.map_eq_cons_iff.mp expects
  obtain ⟨rhs, isOnly, isRhs⟩ := List.map_eq_singleton_iff.mp isRest
  have whole {slot : Slot Ref} (expects : slot.expects = .expr) : slot = ⟨.expr, slot.child⟩ := by
    rw [← expects]
  exact ⟨lhs.child, rhs.child, by rw [slots, isOnly, ← whole isLhs, ← whole isRhs]⟩

/-- The types are known, and the rest is up to `clangAstMutator`; or they are not, and an assertion of `perform...`
fails. -/
def PerformedAs (unit : List DeclGroupRef) (bound : Nat) (edits : List Edit) (edit : Edit)
    (context : ASTContext)
    (mutation : StmtMutation) (performed : Except PerformFailure ASTContext) : Prop :=
  (Typed unit mutation ∧ Rewired unit bound edits edit context performed) ∨
  (¬ Typed unit mutation ∧ OfVar unit mutation ∧ performed = .error .notImplemented) ∨
  (¬ Typed unit mutation ∧ ¬ OfVar unit mutation ∧ performed = .error .notVar)

theorem PerformedAs.of_typed {mutation : StmtMutation}
    (other : ∀ varDecl, mutation.mutation ≠ .replaceNumericInitAssignmentMutation varDecl)
    {performed : Except PerformFailure ASTContext}
    (rewired : Rewired unit bound edits edit context performed) :
    PerformedAs unit bound edits edit context mutation performed := .inl ⟨typed_of_ne other, rewired⟩

theorem typed_initial {ref init : Ref} {node initNode : Node Ref} {varKind : VarKind}
    (read : source unit ref = some node)
    (kind : node.kind = .varDecl varKind) (child : node.children[0]? = some init)
    (there : source unit init = some initNode) :
    Typed unit ⟨.replaceNumericInitAssignmentMutation ref, init⟩ ↔ varKind = .var ∧
    initNode.type.isNumeric = true := by
  constructor
  · intro typed
    obtain ⟨_, _, _, read', isVar, child', there', numeric⟩ := typed ref rfl
    obtain rfl := Option.some.inj (read.symm.trans read')
    obtain rfl := Option.some.inj (child.symm.trans child')
    obtain rfl := Option.some.inj (there.symm.trans there')
    exact ⟨NodeKind.varDecl.inj (kind.symm.trans isVar), numeric⟩
  · rintro ⟨rfl, numeric⟩ varDecl same
    obtain rfl := ASTMutation.replaceNumericInitAssignmentMutation.inj same
    exact ⟨node, init, initNode, read, kind, child, there, numeric⟩

theorem ofVar_initial {ref init : Ref} {node : Node Ref} {varKind : VarKind}
    (read : source unit ref = some node) (kind : node.kind = .varDecl varKind) :
    OfVar unit ⟨.replaceNumericInitAssignmentMutation ref, init⟩ ↔ varKind = .var := by
  constructor
  · intro ofVar
    obtain ⟨_, read', isVar⟩ := ofVar ref rfl
    obtain rfl := Option.some.inj (read.symm.trans read')
    exact NodeKind.varDecl.inj (kind.symm.trans isVar)
  · rintro rfl varDecl same
    obtain rfl := ASTMutation.replaceNumericInitAssignmentMutation.inj same
    exact ⟨node, read, kind⟩

/-- By the way in which the mutation was found. -/
theorem performMutation_spec (performed : Performed unit bound edits context) {ref : Ref} {node : Node Ref}
    (read : source unit ref = some node) {point : Point} (finds : Finds unit ref node point.mutation)
    (isEdit : editOf? (source unit) point = some edit)
    (below : ∀ child ∈ node.children, lastEdit edits child = none) :
    PerformedAs unit bound edits edit context point.mutation (performMutation context point) := by
  obtain ⟨switch, switched⟩ := performed.switched
  have now : context.node? ref = some (node.map switch) := by
    obtain ⟨d, i, _, _, isRef, _⟩ := source_eq_some.mp read
    rw [isRef, switched.parsed, ← isRef, read]
    rfl
  have children := map_children_unmoved switched below
  generalize isMutation : point.mutation = mutation at finds
  have unfolded {target : Ref} {effect : Effect}
    (found : mutation.edit? (source unit) = some (target, effect)) :
      edit = ⟨target, effect, point.mutationIdentifier⟩ := by
    rw [editOf?, isMutation, found] at isEdit
    exact (Option.some.inj isEdit).symm
  rw [performMutation, isMutation]
  cases finds with
  | @opcode opcode replacement kind =>
    obtain rfl := unfolded rfl
    obtain ⟨operand, slots⟩ := unary_slots read kind
    dsimp only
    rw [performUnaryOperatorOpcodeMutation, isMutation]
    dsimp only
    rw [now, deref_bind, children, Node.children, slots]
    refine .of_typed (by simp) (replaceByCreated_rewired performed read ?_ ?_ rfl ?_)
    · simp
    · simp
    · exact slots.symm
  | @removal opcode kind =>
    obtain rfl := unfolded rfl
    obtain ⟨operand, slots⟩ := unary_slots read kind
    have isChildren : node.children = [operand] := by simp [Node.children, slots]
    have child : operand ∈ node.children := by simp [isChildren]
    obtain ⟨d, _, j, operandNode, _, rfl, _, there⟩ := source_child read child
    dsimp only
    rw [performUnaryOperatorRemovalMutation, now, deref_bind, children, isChildren]
    refine .of_typed (by simp)
      (replaceExpression_rewired performed (.operand read rfl isChildren) ?_ ⟨operandNode.map switch, ?_⟩)
    · simp
    · rw [switched.parsed, there]
      rfl
  | @binary opcode replacement kind =>
    obtain rfl := unfolded (edit?_binary read replacement)
    obtain ⟨lhs, rhs, slots⟩ := binary_slots read kind
    dsimp only
    rw [performBinaryMutation, isMutation]
    dsimp only
    rw [now, deref_bind, children, Node.children, slots]
    rcases kind with kind | ⟨lhsType, resultType, kind⟩
    · rw [Node.map_toConstruct, kind]
      refine .of_typed (by simp) (replaceByCreated_rewired performed read ?_ ?_ rfl slots.symm)
      · simp
      · simp
    · rw [Node.map_toConstruct, kind]
      refine .of_typed (by simp) (replaceByCreated_rewired performed read ?_ ?_ rfl slots.symm)
      · simp
      · simp
  | call kind =>
    obtain rfl := unfolded rfl
    dsimp only
    rw [performRemoveVoidMutation, isMutation]
    exact .of_typed (by simp) (replaceStatement_rewired performed read rfl)
  | scalar kind type =>
    obtain rfl := unfolded rfl
    have numeric : node.type.isNumeric = true := by
      rw [type]
      rfl
    exact .of_typed (by simp) ((replaceByLiteral_rewired performed read point).1 numeric)
  | @assigned rhs rhsNode kind child there numeric =>
    obtain rfl := unfolded (edit?_assigned read child)
    dsimp only
    rw [performReplaceNumericAssignmentMutation, now, deref_bind, children, child, deref_bind]
    exact .of_typed (by simp) ((replaceByLiteral_rewired performed there point).1 numeric)
  | @initial varKind init initNode kind child there =>
    obtain rfl := unfolded (edit?_initial read child)
    have typed := typed_initial read kind child there
    obtain ⟨known, unknown⟩ := replaceByLiteral_rewired performed there point
    dsimp only
    rw [performReplaceNumericInitAssignmentMutation, now, deref_bind, children, child,
      Node.map_toConstruct, kind]
    unfold PerformedAs
    rw [typed, ofVar_initial read kind]
    by_cases isVar : varKind = .var
    · rw [if_pos (by rw [isVar]), deref_bind]
      by_cases numeric : initNode.type.isNumeric = true
      · exact .inl ⟨⟨isVar, numeric⟩, known numeric⟩
      · exact .inr (.inl ⟨fun both => numeric both.2, isVar, unknown numeric⟩)
    · rw [if_neg (by simpa using isVar)]
      exact .inr (.inr ⟨fun both => isVar both.1, isVar, rfl⟩)

theorem performMutation_outcome (performed : Performed unit bound edits context) {ref : Ref} {node : Node Ref}
    (read : source unit ref = some node) {point : Point} (finds : Finds unit ref node point.mutation)
    (isEdit : editOf? (source unit) point = some edit)
    (below : ∀ child ∈ node.children, lastEdit edits child = none) :
    Outcome unit bound edits edit context (Typed unit point.mutation ∧ Rewires unit bound edits edit)
      (performOrAbort context point) := by
  unfold performOrAbort
  rcases performMutation_spec performed read finds isEdit below with
    ⟨typed, rewired⟩ | ⟨untyped, _, failed⟩ | ⟨untyped, _, failed⟩
  · exact rewired.outcome.congr (and_iff_right typed).symm rfl
  · rw [failed]
    exact .inr ⟨fun both => untyped both.1, rfl⟩
  · rw [failed]
    exact .inr ⟨fun both => untyped both.1, rfl⟩

end
end Mull.Frontend
