import Mull.Frontend.Evaluation

/-! What a node makes of the values of its children, and the meaning that keeps all of them. -/

namespace Mull.Frontend
open Base

section
variable {D : Type} (meaning : Construct → List D → D)

def compose (construct : Construct) (values : List D) : Option D :=
  if construct.kind = .parenExpr then values.head? else some (meaning construct values)

/-- The value of a node whose children have values of their own. -/
def Composed (evaluates : Ref → D → Prop) (node : Node Ref) (value : D) : Prop :=
  ∃ values, List.Forall₂ (fun slot value => evaluates slot.child value) node.slots values ∧
    compose meaning node.toConstruct values = some value

end

def Node.Composes (node : Node Ref) : Prop :=
  node.kind.isPlain = true ∨ node.kind = .parenExpr ∧ ∃ inner, node.slots = [inner]

section
variable {D : Type} {meaning : Construct → List D → D} {environment : Text → Bool} {heap : Heap} {ref : Ref}
  {node : Node Ref} {value : D}

theorem isPlain_ne_paren {kind : NodeKind} (plain : kind.isPlain = true) : kind ≠ .parenExpr := by
  rintro rfl
  cases plain

theorem evaluates_iff (read : heap ref = some node) (composes : node.Composes) :
    Evaluates meaning environment heap ref value ↔
      (∀ slot ∈ node.slots, Fits heap slot) ∧ Composed meaning (Evaluates meaning environment heap)
        node value := by
  rcases composes with plain | ⟨kind, inner, slots⟩
  · rw [evaluates_plain read plain]
    apply and_congr_right'
    constructor
    · rintro ⟨values, rfl, operands⟩
      exact ⟨values, operands, if_neg (isPlain_ne_paren plain)⟩
    · rintro ⟨values, operands, isValue⟩
      rw [compose, if_neg (isPlain_ne_paren plain)] at isValue
      exact ⟨values, (Option.some.inj isValue).symm, operands⟩
  · rw [evaluates_paren read kind slots]
    have passes (values : List D) : compose meaning node.toConstruct values = values.head? := if_pos kind
    constructor
    · rintro ⟨fits, operand⟩
      refine ⟨?_, [value], ?_, passes [value]⟩
      · rw [slots]
        intro slot mem
        obtain rfl := List.mem_singleton.mp mem
        exact fits
      · rw [slots]
        exact .cons operand .nil
    · rintro ⟨fits, values, operands, isValue⟩
      rw [slots] at fits operands
      rw [passes] at isValue
      cases operands with
      | cons operand rest =>
        obtain rfl := Option.some.inj isValue
        exact ⟨fits inner List.mem_cons_self, operand⟩

theorem source_composes {unit : List DeclGroupRef} (read : source unit ref = some node) : node.Composes := by
  have takes := source_takes read
  cases kind : node.kind with
  | parenExpr =>
    rw [kind] at takes
    have expects : node.slots.map Slot.expects = [.expr] := by simpa [NodeKind.takes] using takes
    obtain ⟨slot, slots, -⟩ := List.map_eq_singleton_iff.mp expects
    exact .inr ⟨kind, slot, slots⟩
  | conditionalOperator | ifStmt =>
    rw [kind] at takes
    cases takes
  | _ =>
    left
    rw [kind]
    rfl

theorem composed_total {evaluates : Ref → D → Prop} (composes : node.Composes)
    {values : List D} (operands : List.Forall₂ (fun slot value => evaluates slot.child value)
      node.slots values) :
    ∃ value, compose meaning node.toConstruct values = some value := by
  rcases composes with plain | ⟨kind, inner, slots⟩
  · exact ⟨_, if_neg (isPlain_ne_paren plain)⟩
  · rw [slots] at operands
    cases operands with
    | @cons _ value _ _ operand rest =>
      exact ⟨value, if_pos kind⟩

end

inductive Term
  | node (construct : Construct) (children : List Term)

mutual

def Term.size : Term → Nat
  | .node _ children => 1 + Term.sizes children

def Term.sizes : List Term → Nat
  | [] => 0
  | term :: terms => term.size + Term.sizes terms

end

section
variable {construct construct' : Construct} {terms terms' : List Term} {term term' : Term}

theorem Term.size_pos (term : Term) : 0 < term.size := by
  cases term
  rw [Term.size]
  omega

theorem sizes_le (less : List.Forall₂ (fun term term' => term.size ≤ term'.size) terms terms') :
    Term.sizes terms ≤ Term.sizes terms' := by
  induction less with
  | nil => exact Nat.le_refl _
  | cons here _ ih =>
    rw [Term.sizes, Term.sizes]
    omega

theorem compose_plain (plain : construct.kind.isPlain = true) :
    compose Term.node construct terms = some term ↔ term = .node construct terms := by
  rw [compose, if_neg (isPlain_ne_paren plain), Option.some.injEq, eq_comm]

theorem compose_paren (kind : construct.kind = .parenExpr) :
    compose Term.node construct [term] = some term := if_pos kind

end
end Mull.Frontend
