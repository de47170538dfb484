import Mull.Frontend.Evaluation
import Mull.Frontend.MullASTMutator

/-! What the recorded mutations make of the source, and when the mutants of a translation unit are switched as they
should be. -/

namespace Mull.Frontend
open Base

/-- What becomes of the node that is mutated. -/
inductive Effect
  | operator (kind : NodeKind)
  | operand
  | literal
  | removed
deriving DecidableEq

structure Edit where
  target : Ref
  effect : Effect
  identifier : Text
deriving DecidableEq

def Effect.apply (effect : Effect) (node : Node Ref) : Node Ref :=
  match effect with
  | operator kind => ⟨{ node.toConstruct with kind := kind }, node.slots, node.locations⟩
  | operand => ⟨{ node.toConstruct with kind := .parenExpr }, node.slots, node.locations⟩
  | literal => ⟨⟨.literal 42, node.type, .rValue⟩, [], node.locations⟩
  | removed => ⟨⟨.compoundStmt, .void, .rValue⟩, [], node.locations⟩

def NodeKind.withBinaryOpcode (opcode : BinaryOpcode) : NodeKind → NodeKind
  | compoundAssignOperator _ computationLHSType computationResultType =>
    compoundAssignOperator opcode computationLHSType computationResultType
  | _ => binaryOperator opcode

def StmtMutation.edit? (heap : Heap) (mutation : StmtMutation) : Option (Ref × Effect) :=
  match mutation.mutation with
  | .binaryMutation replacementOpCode => do
    let node ← heap mutation.mutableStmt
    some (mutation.mutableStmt, .operator (node.kind.withBinaryOpcode replacementOpCode))
  | .removeVoidMutation => some (mutation.mutableStmt, .removed)
  | .replaceScalarCallMutation callExpr => some (callExpr, .literal)
  | .unaryOperatorOpcodeMutation unaryOperator replacementOpCode =>
    some (unaryOperator, .operator (.unaryOperator replacementOpCode))
  | .unaryOperatorRemovalMutation unaryOperator => some (unaryOperator, .operand)
  | .replaceNumericAssignmentMutation assignment => do
    let node ← heap assignment
    let rhs ← node.children[1]?
    some (rhs, .literal)
  | .replaceNumericInitAssignmentMutation varDecl => do
    let node ← heap varDecl
    let init ← node.children[0]?
    some (init, .literal)

def editOf? (heap : Heap) (point : Point) : Option Edit := do
  let (target, effect) ← point.mutation.edit? heap
  some ⟨target, effect, point.mutationIdentifier⟩

section
variable (isValidMutation : MutatorKind → Bool) (endOfToken : Location → Int32 × Int32)
  (unit : List DeclGroupRef)

/-- The points of a declaration, none where the search fails. -/
def declPoints (numbered : TopLevelDecl × Nat) : Option (List Point) :=
  if numbered.1.isSearched then
    traverseFunctionDecl isValidMutation endOfToken (source unit) (numbered.1.refs numbered.2)
  else some []

def recordedEdits : List Edit :=
  (unit.flatten.zipIdx.flatMap fun numbered =>
    (declPoints isValidMutation endOfToken unit numbered).getD []).filterMap
    (editOf? (source unit))

end

def lastEdit (edits : List Edit) (ref : Ref) : Option Edit := (edits.filter (·.target = ref)).getLast?

def setEdits (environment : Text → Bool) (edits : List Edit) :
    List Edit := edits.filter (environment ·.identifier)

def editedHeap (heap : Heap) (edits : List Edit) : Heap := fun ref =>
  (heap ref).map fun node => (lastEdit edits ref).elim node (·.effect.apply node)

def EvaluatesAlike (environment : Text → Bool) (heap heap' : Heap) (ref : Ref) : Prop :=
  ∀ (D : Type) (meaning : Construct → List D → D) (value : D),
    Evaluates meaning environment heap ref value ↔ Evaluates meaning environment heap' ref value

/-- All mutations are performed, and every function evaluates as in the original source where no identifier is
set, and as in the source with the mutations of an identifier where only that one is set. -/
def SwitchesCorrectly (isValidMutation : MutatorKind → Bool) (endOfToken : Location → Int32 × Int32)
    (unit : List DeclGroupRef) : Prop :=
  ∃ context, parseAST isValidMutation endOfToken unit = some context ∧
    ∀ d function, unit.flatten[d]? = some function → function.isFunction = true → ∀ environment : Text → Bool,
      ((∀ edit ∈ recordedEdits isValidMutation endOfToken unit, environment edit.identifier = false) →
        EvaluatesAlike environment context.node? (source unit) (.parsed d 0)) ∧
      ∀ recorded ∈ recordedEdits isValidMutation endOfToken unit,
        (∀ edit ∈ recordedEdits isValidMutation endOfToken unit,
          environment edit.identifier = true ↔ edit.identifier = recorded.identifier) →
        EvaluatesAlike environment context.node?
          (editedHeap (source unit) ((recordedEdits isValidMutation endOfToken unit).filter
            (·.identifier = recorded.identifier)))
          (.parsed d 0)

end Mull.Frontend
