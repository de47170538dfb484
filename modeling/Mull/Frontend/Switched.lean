import Mull.Frontend.MutatedSource

/-! What the AST is like while mutations are performed on it. -/

namespace Mull.Frontend
open Base

inductive IsMutated (original heap : Heap) (edit : Edit) : Ref → Prop
  | operand {old : Node Ref} {ref : Ref} (read : original edit.target = some old)
  (effect : edit.effect = .operand)
      (children : old.children = [ref]) : IsMutated original heap edit ref
  | built {old node : Node Ref} {n : Nat} (read : original edit.target = some old)
      (effect : edit.effect ≠ .operand)
      (there : heap (.created n) = some node) (construct : node.toConstruct =
        (edit.effect.apply old).toConstruct)
      (slots : node.slots = (edit.effect.apply old).slots) : IsMutated original heap edit (.created n)

inductive IsSwitch (original heap : Heap) (edit : Edit) : Ref → Prop
  | expr {n : Nat} {node : Node Ref} {new : Ref} (effect : edit.effect ≠ .removed)
      (read : heap (.created n) = some node) (kind : node.kind = .conditionalOperator edit.identifier)
      (children : node.children = [new, edit.target]) (mutated : IsMutated original heap edit new) :
      IsSwitch original heap edit (.created n)
  | stmt {n m : Nat} {node block : Node Ref} {thenStmt : Ref} (effect : edit.effect = .removed)
      (read : heap (.created n) = some node) (kind : node.kind = .ifStmt edit.identifier)
      (children : node.children = [thenStmt, .created m]) (mutated : IsMutated original heap edit thenStmt)
      (blockRead : heap (.created m) = some block) (blockKind : block.kind = .compoundStmt)
      (blockChildren : block.children = [edit.target]) : IsSwitch original heap edit (.created n)

section
variable {original heap heap' : Heap} {edit : Edit} {ref : Ref}

theorem IsMutated.mono (kept : ∀ n node, heap (.created n) = some node → heap' (.created n) = some node)
    (mutated : IsMutated original heap edit ref) : IsMutated original heap' edit ref := by
  cases mutated with
  | operand read effect children => exact .operand read effect children
  | built read effect there construct slots => exact .built read effect (kept _ _ there) construct slots

theorem IsSwitch.mono (kept : ∀ n node, heap (.created n) = some node → heap' (.created n) = some node)
    (chooses : IsSwitch original heap edit ref) : IsSwitch original heap' edit ref := by
  cases chooses with
  | expr effect read kind children mutated =>
    exact .expr effect (kept _ _ read) kind children (mutated.mono kept)
  | stmt effect read kind children mutated blockRead blockKind blockChildren =>
    exact .stmt effect (kept _ _ read) kind children (mutated.mono kept) (kept _ _ blockRead)
      blockKind blockChildren

end

/-- The parsed nodes stand with their children switched, and every switch stands for the last edit of its node. -/
structure Switched (original : Heap) (edits : List Edit) (switch : Ref → Ref)
    (context : ASTContext) : Prop where
  unmoved : ∀ ref, lastEdit edits ref = none → switch ref = ref
  moved : ∀ ref edit, lastEdit edits ref = some edit → IsSwitch original context.node? edit (switch ref)
  parsed : ∀ d i, context.node? (.parsed d i) = (original (.parsed d i)).map (·.map switch)
  fresh : ∀ n, context.createdCount ≤ n → context.node? (.created n) = none

structure Extends (context context' : ASTContext) : Prop where
  kept : ∀ n node, context.node? (.created n) = some node → context'.node? (.created n) = some node
  parsed : ∀ d i, context'.node? (.parsed d i) = context.node? (.parsed d i)
  fresh : ∀ n, context'.createdCount ≤ n → context'.node? (.created n) = none
  list : context'.parsed = context.parsed
  parentMap : context'.parentMap = context.parentMap

section
variable {context context' context'' : ASTContext} {original : Heap} {edits : List Edit} {switch : Ref → Ref}

theorem Extends.trans (first : Extends context context') (second : Extends context' context'') :
    Extends context context'' where
  kept n node read := second.kept n node (first.kept n node read)
  parsed d i := (second.parsed d i).trans (first.parsed d i)
  fresh := second.fresh
  list := second.list.trans first.list
  parentMap := second.parentMap.trans first.parentMap

theorem Extends.read (grows : Extends context context') {ref : Ref} {node : Node Ref}
    (read : context.node? ref = some node) : context'.node? ref = some node := by
  cases ref with
  | parsed d i => rw [grows.parsed, read]
  | created n => exact grows.kept n node read

theorem create_spec (fresh : ∀ n, context.createdCount ≤ n → context.node? (.created n) = none)
    (node : Node Ref) :
    ∃ n, (context.create node).1 = .created n ∧ Extends context (context.create node).2 ∧
      (context.create node).2.node? (.created n) = some node := by
  refine ⟨context.createdCount, rfl, ?_, Function.update_self ..⟩
  have other {n : Nat} (different : n ≠ context.createdCount) :
      (context.create node).2.node? (.created n) = context.node? (.created n) :=
    Function.update_of_ne (fun same => different (Ref.created.inj same)) ..
  constructor
  · intro n old read
    have different : n ≠ context.createdCount := by
      rintro rfl
      rw [fresh _ (Nat.le_refl _)] at read
      cases read
    rw [other different]
    exact read
  · intro d i
    have different : Ref.parsed d i ≠ .created context.createdCount := by
      intro same
      cases same
    exact Function.update_of_ne different (some node) context.node?
  · intro n (above : context.createdCount + 1 ≤ n)
    rw [other (by omega)]
    exact fresh n (by omega)
  · rfl
  · rfl

theorem Switched.extend (switched : Switched original edits switch context)
    (grows : Extends context context') :
    Switched original edits switch context' where
  unmoved := switched.unmoved
  moved ref edit last := (switched.moved ref edit last).mono grows.kept
  parsed d i := (grows.parsed d i).trans (switched.parsed d i)
  fresh := grows.fresh

end
end Mull.Frontend
