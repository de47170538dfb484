import Mathlib.Data.List.Nodup
import Mull.Frontend.MutationPoint

/-! The part of Clang's AST that the plugin reads and rewires. -/

namespace Mull.Frontend
open Base

inductive UnaryOpcode
  | postInc | postDec | preInc | preDec | addrOf | deref | plus | minus | not | lNot | real | imag | extension
  | coawait
deriving DecidableEq

inductive BinaryOpcode
  | ptrMemD | ptrMemI | mul | div | rem | add | sub | shl | shr | cmp | lt | gt | le | ge | eq | ne | and | xor | or
  | lAnd | lOr | assign | mulAssign | divAssign | remAssign | addAssign | subAssign | shlAssign | shrAssign | andAssign
  | xorAssign | orAssign | comma
deriving DecidableEq

inductive QualType
  | void
  | int
  | float
  | double
  | other (type : Nat)
deriving DecidableEq

inductive ValueKind
  | rValue
  | lValue
  | xValue
deriving DecidableEq

inductive VarKind
  | var
  | parmVar
  | other
deriving DecidableEq

/-- What may stand in a place; of a constant, the value has to be known when the program is compiled. -/
inductive SlotKind
  | expr
  | constant
  | stmt
  | decl
deriving DecidableEq

/-- What a node is. The plugin makes the conditional operators and `if` statements; their condition asks
`getenv` for the identifier. -/
inductive NodeKind
  | unaryOperator (opcode : UnaryOpcode)
  | binaryOperator (opcode : BinaryOpcode)
  | compoundAssignOperator (opcode : BinaryOpcode) (computationLHSType computationResultType : QualType)
  | callExpr
  | parenExpr
  | literal (value : Int)
  | conditionalOperator (identifier : Text)
  | expr (construct : Nat)
  | compoundStmt
  | ifStmt (identifier : Text)
  | stmt (construct : Nat)
  | varDecl (kind : VarKind)
  | decl (construct : Nat)
deriving DecidableEq

namespace NodeKind

def isExpr : NodeKind → Bool
  | unaryOperator _ | binaryOperator _ | compoundAssignOperator _ _ _ | callExpr | parenExpr | literal _
  | conditionalOperator _ | expr _ => true
  | _ => false

def isVarDecl : NodeKind → Bool
  | varDecl _ => true
  | _ => false

def isDecl : NodeKind → Bool
  | varDecl _ | decl _ => true
  | _ => false

/-- Expressions are statements. -/
def isStmt (kind : NodeKind) : Bool := !kind.isDecl

/-- What a node of the parser has below it; the parser makes none of the plugin's nodes. -/
def takes : NodeKind → List SlotKind → Bool
  | unaryOperator _, slots | parenExpr, slots => slots == [.expr]
  | binaryOperator _, slots | compoundAssignOperator _ _ _, slots => slots == [.expr, .expr]
  | varDecl _, slots => slots == [] || slots == [.expr] || slots == [.constant]
  | literal _, slots => slots == []
  | conditionalOperator _, _ | ifStmt _, _ => false
  | _, _ => true

end NodeKind

def SlotKind.accepts : SlotKind → NodeKind → Bool
  | expr, kind | constant, kind => kind.isExpr
  | stmt, kind => kind.isStmt
  | decl, kind => kind.isDecl

structure Slot (ρ : Type) where
  expects : SlotKind
  child : ρ
deriving DecidableEq

structure Construct where
  kind : NodeKind
  type : QualType
  valueKind : ValueKind
deriving DecidableEq

structure NodeLocations where
  operatorLoc : Location
  exprLoc : Location
  beginLoc : Location
  endLoc : Location
deriving DecidableEq

def NULL_LOCATION : Location := .file ⟨[], 0, 0, false⟩

structure Node (ρ : Type) extends Construct where
  slots : List (Slot ρ)
  locations : NodeLocations := ⟨NULL_LOCATION, NULL_LOCATION, NULL_LOCATION, NULL_LOCATION⟩
deriving DecidableEq

namespace Node
variable {ρ σ : Type} (node : Node ρ)

def children : List ρ := node.slots.map Slot.child

def map (f : ρ → σ) : Node σ :=
  ⟨node.toConstruct, node.slots.map fun slot => ⟨slot.expects, f slot.child⟩, node.locations⟩

@[simp] theorem map_toConstruct (f : ρ → σ) : (node.map f).toConstruct = node.toConstruct := rfl

@[simp] theorem map_children (f : ρ → σ) : (node.map f).children = node.children.map f := by
  simp [children, map, Function.comp_def]

end Node

/-- A declaration at the top level with its nodes in the order of a visit, each before its children. -/
structure TopLevelDecl where
  isFunction : Bool
  name : Text
  location : Location
  nodes : List (Node Nat)
  headed : ∀ node ∈ nodes.head?, node.kind.isDecl = true
  shaped : ∀ node ∈ nodes, node.kind.takes (node.slots.map Slot.expects) = true
  ordered : ∀ i, (bound : i < nodes.length) → ∀ child ∈ (nodes.get ⟨i, bound⟩).children, i < child
  filled : ∀ node ∈ nodes, ∀ slot ∈ node.slots,
    ∃ bound : slot.child < nodes.length, slot.expects.accepts (nodes.get ⟨slot.child, bound⟩).kind = true
  single : (nodes.flatMap Node.children).Nodup
  rooted : ∀ i, i < nodes.length → 0 < i → i ∈ nodes.flatMap Node.children

abbrev DeclGroupRef := List TopLevelDecl

inductive Ref
  | parsed (decl index : Nat)
  | created (index : Nat)
deriving DecidableEq

abbrev Heap := Ref → Option (Node Ref)

def source (unit : List DeclGroupRef) : Heap
  | .parsed d i => (unit.flatten[d]?).bind fun decl => (decl.nodes[i]?).map (·.map (Ref.parsed d))
  | .created _ => none

section
variable {unit : List DeclGroupRef} {ref parent : Ref} {node : Node Ref}

theorem source_eq_some : source unit ref = some node ↔ ∃ d i decl parsed, ref = .parsed d i ∧
    unit.flatten[d]? = some decl ∧ decl.nodes[i]? = some parsed ∧ node = parsed.map (Ref.parsed d) := by
  cases ref with
  | parsed d i =>
    simp only [source, Option.bind_eq_some_iff, Option.map_eq_some_iff]
    constructor
    · rintro ⟨decl, isDecl, parsed, isNode, rfl⟩
      exact ⟨d, i, decl, parsed, rfl, isDecl, isNode, rfl⟩
    · rintro ⟨_, _, decl, parsed, same, isDecl, isNode, rfl⟩
      obtain ⟨rfl, rfl⟩ := Ref.parsed.inj same
      exact ⟨decl, isDecl, parsed, isNode, rfl⟩
  | created n =>
    constructor
    · intro read
      cases read
    · rintro ⟨_, _, _, _, same, _⟩
      cases same

theorem source_takes (read : source unit ref = some node) :
    node.kind.takes (node.slots.map Slot.expects) = true := by
  obtain ⟨d, i, decl, parsed, rfl, _, isNode, rfl⟩ := source_eq_some.mp read
  have shaped := decl.shaped parsed (List.mem_of_getElem? isNode)
  rw [Node.map, List.map_map]
  exact shaped

theorem source_slot (read : source unit ref = some node) {slot : Slot Ref} (mem : slot ∈ node.slots) :
    ∃ d i j child, ref = .parsed d i ∧ slot.child = .parsed d j ∧ i < j ∧
    source unit slot.child = some child ∧
      slot.expects.accepts child.kind = true := by
  obtain ⟨d, i, decl, parsed, rfl, isDecl, isNode, rfl⟩ := source_eq_some.mp read
  obtain ⟨inner, isInner, rfl⟩ := List.mem_map.mp mem
  obtain ⟨bound, accepted⟩ := decl.filled parsed (List.mem_of_getElem? isNode) inner isInner
  obtain ⟨below, rfl⟩ := List.getElem?_eq_some_iff.mp isNode
  have later := decl.ordered i below inner.child (List.mem_map_of_mem isInner)
  have there : source unit (.parsed d inner.child) =
    some ((decl.nodes.get ⟨inner.child, bound⟩).map (Ref.parsed d)) :=
    source_eq_some.mpr ⟨d, inner.child, decl, _, rfl, isDecl, List.getElem?_eq_getElem bound, rfl⟩
  exact ⟨d, i, inner.child, _, rfl, rfl, later, there, accepted⟩

theorem mem_children {ρ : Type} {node : Node ρ} {child : ρ} :
    child ∈ node.children ↔ ∃ slot ∈ node.slots, slot.child = child := List.mem_map

theorem source_child (read : source unit ref = some node) {child : Ref} (mem : child ∈ node.children) :
    ∃ d i j childNode, ref = .parsed d i ∧ child = .parsed d j ∧ i < j ∧
    source unit child = some childNode := by
  obtain ⟨slot, isSlot, rfl⟩ := mem_children.mp mem
  obtain ⟨d, i, j, childNode, isRef, isChild, later, there, _⟩ := source_slot read isSlot
  exact ⟨d, i, j, childNode, isRef, isChild, later, there⟩

theorem source_induction {P : Ref → Prop}
    (step : ∀ ref node, source unit ref = some node → (∀ child ∈ node.children, P child) → P ref) :
    ∀ ref node, source unit ref = some node → P ref := by
  intro ref node read
  obtain ⟨d, i, decl, parsed, rfl, isDecl, isNode, -⟩ := source_eq_some.mp read
  -- By induction on the number of nodes behind it.
  generalize behind : decl.nodes.length - i = k
  induction k using Nat.strong_induction_on generalizing i node parsed with
  | _ k ih =>
    apply step _ node read
    intro child mem
    obtain ⟨d', i', j, childNode, same, rfl, less, there⟩ := source_child read mem
    obtain ⟨rfl, rfl⟩ := Ref.parsed.inj same
    obtain ⟨_, _, decl', parsed', same', isDecl', isNode', -⟩ := source_eq_some.mp there
    obtain ⟨rfl, rfl⟩ := Ref.parsed.inj same'
    obtain rfl := Option.some.inj (isDecl.symm.trans isDecl')
    have inside : j < decl.nodes.length := (List.getElem?_eq_some_iff.mp isNode').1
    exact ih (decl.nodes.length - j) (by omega) childNode j parsed' there isNode' rfl

theorem nodup_children (read : source unit ref = some node) : node.children.Nodup := by
  obtain ⟨d, i, decl, parsed, rfl, _, isNode, rfl⟩ := source_eq_some.mp read
  rw [Node.map_children]
  apply List.Nodup.map (fun _ _ same => (Ref.parsed.inj same).2)
  exact (List.nodup_flatMap.mp decl.single).1 parsed (List.mem_of_getElem? isNode)

theorem parent_unique {other : Ref} {otherNode : Node Ref} {child : Ref} (read : source unit ref = some node)
    (mem : child ∈ node.children) (otherRead : source unit other = some otherNode)
    (otherMem : child ∈ otherNode.children) :
    ref = other := by
  obtain ⟨d, i, decl, parsed, rfl, isDecl, isNode, rfl⟩ := source_eq_some.mp read
  obtain ⟨d', i', decl', parsed', rfl, isDecl', isNode', rfl⟩ := source_eq_some.mp otherRead
  rw [Node.map_children] at mem otherMem
  obtain ⟨j, isChild, rfl⟩ := List.mem_map.mp mem
  obtain ⟨j', isChild', same⟩ := List.mem_map.mp otherMem
  obtain ⟨rfl, rfl⟩ := Ref.parsed.inj same
  obtain rfl := Option.some.inj (isDecl.symm.trans isDecl')
  obtain ⟨bound, rfl⟩ := List.getElem?_eq_some_iff.mp isNode
  obtain ⟨bound', rfl⟩ := List.getElem?_eq_some_iff.mp isNode'
  have apart := List.pairwise_iff_getElem.mp (List.nodup_flatMap.mp decl.single).2
  rcases Nat.lt_trichotomy i i' with less | rfl | greater
  · exact absurd isChild' (apart i i' bound bound' less isChild)
  · rfl
  · exact absurd isChild (apart i' i bound' bound greater isChild')

theorem exists_parent {d i : Nat} (read : source unit (.parsed d i) = some node) (notFirst : 0 < i) :
    ∃ j parentNode, source unit (.parsed d j) = some parentNode ∧ Ref.parsed d i ∈ parentNode.children := by
  obtain ⟨_, _, decl, parsed, same, isDecl, isNode, rfl⟩ := source_eq_some.mp read
  obtain ⟨rfl, rfl⟩ := Ref.parsed.inj same
  obtain ⟨bound, rfl⟩ := List.getElem?_eq_some_iff.mp isNode
  obtain ⟨parent, isParent, isChild⟩ := List.mem_flatMap.mp (decl.rooted i bound notFirst)
  obtain ⟨j, isNode⟩ := List.getElem?_of_mem isParent
  refine ⟨j, _, source_eq_some.mpr ⟨d, j, decl, parent, rfl, isDecl, isNode, rfl⟩, ?_⟩
  rw [Node.map_children]
  exact List.mem_map_of_mem isChild

end

end Mull.Frontend
