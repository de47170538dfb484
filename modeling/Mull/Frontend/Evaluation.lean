import Mathlib.Data.List.Forall2
import Mathlib.Logic.Relation
import Mull.Frontend.ClangAST

/-! What an AST evaluates to in an environment, for any meaning of its constructs. -/

namespace Mull.Frontend
open Base

/-- Kinds that get their meaning from what they are made of; the others choose or pass on the meaning of a child. -/
def NodeKind.isPlain : NodeKind → Bool
  | parenExpr | conditionalOperator _ | ifStmt _ => false
  | _ => true

def Reaches (heap : Heap) : Ref → Ref → Prop :=
  Relation.ReflTransGen fun parent child => ∃ node, heap parent = some node ∧ child ∈ node.children

def NodeKind.isSwitch : NodeKind → Bool
  | conditionalOperator _ | ifStmt _ => true
  | _ => false

/-- Nothing asks for the environment. -/
def Settled (heap : Heap) (ref : Ref) : Prop :=
  ∀ below node, Reaches heap ref below → heap below = some node → node.kind.isSwitch = false

/-- The compiler neither knows the value of a constant that asks for the environment nor compiles it. -/
def Fits (heap : Heap) (slot : Slot Ref) : Prop :=
  ∃ node, heap slot.child = some node ∧ slot.expects.accepts node.kind = true ∧
    (slot.expects = .constant → Settled heap slot.child)

def SameCategory (heap : Heap) (left right : Ref) : Prop :=
  ∃ l r, heap left = some l ∧ heap right = some r ∧ l.type = r.type ∧ l.valueKind = r.valueKind

/-- Only the chosen arm is evaluated. The block of the call alone evaluates as the call. -/
inductive Evaluates {D : Type} (meaning : Construct → List D → D) (environment : Text → Bool) (heap : Heap) :
    Ref → D → Prop
  | construct {ref : Ref} {node : Node Ref} {values : List D} (read : heap ref = some node)
      (plain : node.kind.isPlain = true) (size : node.slots.length = values.length)
      (fits : ∀ slot ∈ node.slots, Fits heap slot)
      (operands : ∀ (i : Nat) (slot : Slot Ref) (value : D), node.slots[i]? = some slot →
        values[i]? = some value →
        Evaluates meaning environment heap slot.child value) :
      Evaluates meaning environment heap ref (meaning node.toConstruct values)
  | paren {ref : Ref} {node : Node Ref} {inner : Slot Ref} {value : D} (read : heap ref = some node)
      (kind : node.kind = .parenExpr) (slots : node.slots = [inner]) (fits : Fits heap inner)
      (operand : Evaluates meaning environment heap inner.child value) :
        Evaluates meaning environment heap ref value
  | conditional {ref new old : Ref} {node : Node Ref} {identifier : Text} {value : D}
      (read : heap ref = some node)
      (kind : node.kind = .conditionalOperator identifier) (children : node.children = [new, old])
      (same : SameCategory heap new old)
      (arm : Evaluates meaning environment heap (if environment identifier then new else old) value) :
      Evaluates meaning environment heap ref value
  | thenBlock {ref thenStmt elseStmt : Ref} {node : Node Ref} {identifier : Text} {value : D}
      (read : heap ref = some node) (kind : node.kind = .ifStmt identifier)
      (children : node.children = [thenStmt, elseStmt]) (set : environment identifier = true)
      (block : Evaluates meaning environment heap thenStmt value) :
        Evaluates meaning environment heap ref value
  | elseBlock {ref thenStmt elseStmt stmt : Ref} {node block : Node Ref} {identifier : Text} {value : D}
      (read : heap ref = some node) (kind : node.kind = .ifStmt identifier)
      (children : node.children = [thenStmt, elseStmt]) (unset : environment identifier = false)
      (blockRead : heap elseStmt = some block) (blockKind : block.kind = .compoundStmt)
      (blockChildren : block.children = [stmt])
      (only : Evaluates meaning environment heap stmt value) : Evaluates meaning environment heap ref value

section
variable {D : Type} {meaning : Construct → List D → D} {environment : Text → Bool} {heap : Heap} {ref : Ref}
  {node : Node Ref} {value : D}

theorem evaluates_plain (read : heap ref = some node) (plain : node.kind.isPlain = true) :
    Evaluates meaning environment heap ref value ↔
      (∀ slot ∈ node.slots, Fits heap slot) ∧ ∃ values, value = meaning node.toConstruct values ∧
        List.Forall₂ (fun slot value => Evaluates meaning environment heap slot.child value)
          node.slots values := by
  constructor
  · intro evaluates
    cases evaluates with
    | construct read' _ size fits operands =>
      obtain rfl := Option.some.inj (read.symm.trans read')
      refine ⟨fits, _, rfl, List.forall₂_iff_get.mpr ⟨size, fun i left right => ?_⟩⟩
      exact operands i _ _ (List.getElem?_eq_getElem left) (List.getElem?_eq_getElem right)
    | paren read' kind | conditional read' kind | thenBlock read' kind | elseBlock read' kind =>
      obtain rfl := Option.some.inj (read.symm.trans read')
      rw [kind] at plain
      cases plain
  · rintro ⟨fits, values, rfl, operands⟩
    obtain ⟨size, each⟩ := List.forall₂_iff_get.mp operands
    refine .construct read plain size fits ?_
    intro i slot value isSlot isValue
    obtain ⟨left, rfl⟩ := List.getElem?_eq_some_iff.mp isSlot
    obtain ⟨right, rfl⟩ := List.getElem?_eq_some_iff.mp isValue
    exact each i left right

theorem evaluates_paren {inner : Slot Ref} (read : heap ref = some node) (kind : node.kind = .parenExpr)
    (slots : node.slots = [inner]) :
    Evaluates meaning environment heap ref value ↔ Fits heap inner ∧
    Evaluates meaning environment heap inner.child value := by
  constructor
  · intro evaluates
    cases evaluates with
    | paren read' _ slots' fits operand =>
      obtain rfl := Option.some.inj (read.symm.trans read')
      obtain rfl := List.singleton_inj.mp (slots.symm.trans slots')
      exact ⟨fits, operand⟩
    | construct read' plain =>
      obtain rfl := Option.some.inj (read.symm.trans read')
      rw [kind] at plain
      cases plain
    | conditional read' kind' | thenBlock read' kind' | elseBlock read' kind' =>
      obtain rfl := Option.some.inj (read.symm.trans read')
      cases kind.symm.trans kind'
  · rintro ⟨fits, operand⟩
    exact .paren read kind slots fits operand

theorem evaluates_conditional {new old : Ref} {identifier : Text} (read : heap ref = some node)
    (kind : node.kind = .conditionalOperator identifier) (children : node.children = [new, old]) :
    Evaluates meaning environment heap ref value ↔ SameCategory heap new old ∧
      Evaluates meaning environment heap (if environment identifier then new else old) value := by
  constructor
  · intro evaluates
    cases evaluates with
    | conditional read' kind' children' same arm =>
      obtain rfl := Option.some.inj (read.symm.trans read')
      obtain ⟨rfl, rfl⟩ := List.cons_eq_cons.mp (children.symm.trans children') |>.imp_right
        List.singleton_inj.mp
      obtain rfl := NodeKind.conditionalOperator.inj (kind.symm.trans kind')
      exact ⟨same, arm⟩
    | construct read' plain =>
      obtain rfl := Option.some.inj (read.symm.trans read')
      rw [kind] at plain
      cases plain
    | paren read' kind' | thenBlock read' kind' | elseBlock read' kind' =>
      obtain rfl := Option.some.inj (read.symm.trans read')
      cases kind.symm.trans kind'
  · rintro ⟨same, arm⟩
    exact .conditional read kind children same arm

theorem evaluates_ifStmt {thenStmt elseStmt stmt : Ref} {block : Node Ref} {identifier : Text}
    (read : heap ref = some node) (kind : node.kind = .ifStmt identifier)
    (children : node.children = [thenStmt, elseStmt])
    (blockRead : heap elseStmt = some block) (blockKind : block.kind = .compoundStmt)
    (blockChildren : block.children = [stmt]) :
    Evaluates meaning environment heap ref value ↔
      Evaluates meaning environment heap (if environment identifier then thenStmt else stmt) value := by
  constructor
  · intro evaluates
    cases evaluates with
    | thenBlock read' kind' children' set only =>
      obtain rfl := Option.some.inj (read.symm.trans read')
      obtain ⟨rfl, rfl⟩ := List.cons_eq_cons.mp (children.symm.trans children') |>.imp_right
        List.singleton_inj.mp
      obtain rfl := NodeKind.ifStmt.inj (kind.symm.trans kind')
      rwa [if_pos set]
    | elseBlock read' kind' children' unset blockRead' _ blockChildren' only =>
      obtain rfl := Option.some.inj (read.symm.trans read')
      obtain ⟨rfl, rfl⟩ := List.cons_eq_cons.mp (children.symm.trans children') |>.imp_right
        List.singleton_inj.mp
      obtain rfl := NodeKind.ifStmt.inj (kind.symm.trans kind')
      obtain rfl := Option.some.inj (blockRead.symm.trans blockRead')
      obtain rfl := List.singleton_inj.mp (blockChildren.symm.trans blockChildren')
      rwa [if_neg (by simp [unset])]
    | construct read' plain =>
      obtain rfl := Option.some.inj (read.symm.trans read')
      rw [kind] at plain
      cases plain
    | paren read' kind' | conditional read' kind' =>
      obtain rfl := Option.some.inj (read.symm.trans read')
      cases kind.symm.trans kind'
  · intro evaluates
    cases set : environment identifier with
    | true =>
      rw [set, if_pos rfl] at evaluates
      exact .thenBlock read kind children set evaluates
    | false =>
      rw [set, if_neg Bool.false_ne_true] at evaluates
      exact .elseBlock read kind children set blockRead blockKind blockChildren evaluates

/-- By induction on the first evaluation. -/
theorem Evaluates.unique {other : D} (left : Evaluates meaning environment heap ref value)
    (right : Evaluates meaning environment heap ref other) : value = other := by
  induction left generalizing other with
  | construct read plain size fits operands ih =>
    obtain ⟨_, values', rfl, operands'⟩ := (evaluates_plain read plain).mp right
    obtain ⟨size', each⟩ := List.forall₂_iff_get.mp operands'
    congr 1
    apply List.ext_getElem (size.symm.trans size')
    intro i left right
    have bound := size.symm ▸ left
    exact ih i _ _ (List.getElem?_eq_getElem bound) (List.getElem?_eq_getElem left) (each i bound right)
  | paren read kind slots fits operand ih => exact ih ((evaluates_paren read kind slots).mp right).2
  | conditional read kind children same arm ih =>
    exact ih ((evaluates_conditional read kind children).mp right).2
  | thenBlock read kind children set block ih =>
    cases right with
    | thenBlock read' kind' children' set' block' =>
      obtain rfl := Option.some.inj (read.symm.trans read')
      obtain ⟨rfl, rfl⟩ := List.cons_eq_cons.mp (children.symm.trans children') |>.imp_right
        List.singleton_inj.mp
      exact ih block'
    | elseBlock read' kind' children' unset =>
      obtain rfl := Option.some.inj (read.symm.trans read')
      obtain rfl := NodeKind.ifStmt.inj (kind.symm.trans kind')
      exact absurd (set.symm.trans unset) (by decide)
    | construct read' plain =>
      obtain rfl := Option.some.inj (read.symm.trans read')
      rw [kind] at plain
      cases plain
    | paren read' kind' | conditional read' kind' =>
      obtain rfl := Option.some.inj (read.symm.trans read')
      cases kind.symm.trans kind'
  | elseBlock read kind children unset blockRead blockKind blockChildren only ih =>
    have chosen := (evaluates_ifStmt read kind children blockRead blockKind blockChildren).mp right
    rw [unset, if_neg Bool.false_ne_true] at chosen
    exact ih chosen

end
end Mull.Frontend
