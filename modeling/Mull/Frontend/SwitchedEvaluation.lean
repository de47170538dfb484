import Mull.Frontend.Composition
import Mull.Frontend.RecordedEdits

/-! What the nodes evaluate to after all edits, node by node. -/

namespace Mull.Frontend
open Base

/-- The switch has the type and the value kind of both arms, and an `if` statement stands where a statement may. -/
def Replaceable (unit : List DeclGroupRef) (edit : Edit) : Prop :=
  ∀ node, source unit edit.target = some node →
    match edit.effect with
    | .operator _ => True
    | .operand => ∀ operand ∈ node.children, ∀ other, source unit operand = some other →
        other.type = node.type ∧ other.valueKind = node.valueKind
    | .literal => node.valueKind = .rValue
    | .removed =>
      ∀ ref parent, source unit ref = some parent → ∀ slot ∈ parent.slots, slot.child = edit.target →
        slot.expects = .stmt

/-- The target is neither a constant nor in one. -/
def OutsideConstants (unit : List DeclGroupRef) (edit : Edit) : Prop :=
  ∀ ref parent, source unit ref = some parent → ∀ slot ∈ parent.slots, slot.expects = .constant →
    ¬ Reaches (source unit) slot.child edit.target

section
variable {unit : List DeclGroupRef} {edits : List Edit} {edit : Edit} {switch : Ref → Ref}
  {context : ASTContext} {ref : Ref}
  {node : Node Ref} {D : Type} {meaning : Construct → List D → D} {environment : Text → Bool} {value : D}

theorem Alters.isExpr (alters : Alters unit edit) (read : source unit edit.target = some node) :
    node.kind.isExpr = true := by
  cases alters with
  | operator read' operates =>
    obtain rfl := Option.some.inj (read.symm.trans read')
    exact (isPlain_of_isOperator operates).2
  | operand read' kind | call read' kind =>
    obtain rfl := Option.some.inj (read.symm.trans read')
    rw [kind]
    rfl
  | value _ _ _ read' expr =>
    obtain rfl := Option.some.inj (read.symm.trans read')
    exact expr

theorem Switched.read (switched : Switched (source unit) edits switch context)
    (read : source unit ref = some node) :
    context.node? ref = some (node.map switch) := by
  obtain ⟨d, i, _, _, rfl, _⟩ := source_eq_some.mp read
  rw [switched.parsed, read]
  rfl

theorem evaluates_switch (switched : Switched (source unit) edits switch context)
    (last : lastEdit edits ref = some edit) :
    ∃ new, IsMutated (source unit) context.node? edit new ∧
    (edit.effect ≠ .removed → ∃ n node, switch ref = .created n ∧
        context.node? (.created n) = some node ∧ node.kind = .conditionalOperator edit.identifier) ∧
      (edit.effect = .removed → ∃ n node, switch ref = .created n ∧ context.node? (.created n) = some node ∧
        node.kind = .ifStmt edit.identifier) ∧
      ∀ (D : Type) (meaning : Construct → List D → D) (environment : Text → Bool) (value : D),
        Evaluates meaning environment context.node? (switch ref) value ↔
          (edit.effect ≠ .removed → SameCategory context.node? new ref) ∧
          Evaluates meaning environment context.node?
            (if environment edit.identifier then new else ref) value := by
  have chooses := switched.moved ref edit last
  obtain ⟨-, rfl⟩ := mem_of_lastEdit last
  generalize isSwitch : switch edit.target = sw at chooses
  cases chooses with
  | expr effect read kind children mutated =>
    refine ⟨_, mutated, fun _ => ⟨_, _, rfl, read, kind⟩, fun removed => absurd removed effect, ?_⟩
    intro D meaning environment value
    rw [evaluates_conditional read kind children]
    rw [forall_prop_of_true effect]
  | stmt effect read kind children mutated blockRead blockKind blockChildren =>
    refine ⟨_, mutated, fun stays => absurd effect stays, fun _ => ⟨_, _, rfl, read, kind⟩, ?_⟩
    intro D meaning environment value
    rw [evaluates_ifStmt read kind children blockRead blockKind blockChildren]
    exact (and_iff_right fun stays => absurd effect stays).symm

theorem accepts_expr {expects : SlotKind} {kind other : NodeKind} (accepted : expects.accepts kind = true)
    (expr : kind.isExpr = true) (otherExpr : other.isExpr = true) : expects.accepts other = true := by
  cases expects with
  | expr | constant => exact otherExpr
  | stmt =>
    cases other with
    | varDecl | decl | compoundStmt | ifStmt | stmt => cases otherExpr
    | _ => rfl
  | decl =>
    cases kind with
    | varDecl | decl => cases expr
    | _ => cases accepted

theorem source_isSwitch (read : source unit ref = some node) : node.kind.isSwitch = false := by
  have takes := source_takes read
  cases kind : node.kind with
  | conditionalOperator | ifStmt =>
    rw [kind] at takes
    cases takes
  | _ => rfl

theorem IsSwitch.isSwitch {original heap : Heap} (chooses : IsSwitch original heap edit ref) :
    ∃ node, heap ref = some node ∧ node.kind.isSwitch = true := by
  cases chooses with
  | expr _ read kind | stmt _ read kind => exact ⟨_, read, by rw [kind]; rfl⟩

/-- By induction from above: the first node on the way that is mutated is a switch now. -/
theorem Switched.reaches_switch (switched : Switched (source unit) edits switch context) (mem : edit ∈ edits)
    (reached : Reaches (source unit) ref edit.target) :
    ∃ below node, Reaches context.node? (switch ref) below ∧ context.node? below = some node ∧
    node.kind.isSwitch = true := by
  have moved {ref : Ref} {edit : Edit} (last : lastEdit edits ref = some edit) : ∃ below node,
      Reaches context.node? (switch ref) below ∧ context.node? below = some node ∧
      node.kind.isSwitch = true := by
    obtain ⟨node, read, isSwitch⟩ := (switched.moved ref edit last).isSwitch
    exact ⟨_, node, .refl, read, isSwitch⟩
  induction reached using Relation.ReflTransGen.head_induction_on with
  | refl =>
    obtain ⟨_, last⟩ := exists_lastEdit mem rfl
    exact moved last
  | @head ref child step _ ih =>
    cases last : lastEdit edits ref with
    | some => exact moved last
    | none =>
      obtain ⟨parent, read, isChild⟩ := step
      obtain ⟨below, node, reached, there⟩ := ih
      rw [switched.unmoved ref last]
      refine ⟨below, node, .head ⟨_, switched.read read, ?_⟩ reached, there⟩
      rw [Node.map_children]
      exact List.mem_map_of_mem isChild

theorem Switched.reaches_source (switched : Switched (source unit) edits switch context)
    (outside : ∀ edit ∈ edits, ¬ Reaches (source unit) ref edit.target)
    (read : source unit ref = some node) {below : Ref} (reached : Reaches context.node? ref below) :
    Reaches (source unit) ref below ∧ ∃ belowNode, source unit below = some belowNode := by
  induction reached with
  | refl => exact ⟨.refl, node, read⟩
  | tail _ step ih =>
    obtain ⟨above, parent, isParent⟩ := ih
    obtain ⟨_, there, mem⟩ := step
    obtain rfl := Option.some.inj ((switched.read isParent).symm.trans there)
    rw [Node.map_children] at mem
    obtain ⟨child, isChild, rfl⟩ := List.mem_map.mp mem
    have reaches : Reaches (source unit) ref child := above.tail ⟨parent, isParent, isChild⟩
    have unmoved : switch child = child :=
      switched.unmoved child (lastEdit_eq_none.mpr fun edit isIn same => outside edit isIn (same ▸ reaches))
    obtain ⟨_, _, _, childNode, _, _, _, isThere⟩ := source_child isParent isChild
    rw [unmoved]
    exact ⟨reaches, childNode, isThere⟩

theorem settled_switched (switched : Switched (source unit) edits switch context)
    (read : source unit ref = some node) :
    Settled context.node? (switch ref) ↔ ∀ edit ∈ edits, ¬ Reaches (source unit) ref edit.target := by
  constructor
  · intro settled edit mem reached
    obtain ⟨below, belowNode, isBelow, there, isSwitch⟩ := switched.reaches_switch mem reached
    rw [settled below belowNode isBelow there] at isSwitch
    cases isSwitch
  · intro outside below belowNode reached there
    have unmoved : switch ref = ref :=
      switched.unmoved ref (lastEdit_eq_none.mpr fun edit mem same => outside edit mem (same ▸ .refl))
    rw [unmoved] at reached
    obtain ⟨-, parsed, isParsed⟩ := switched.reaches_source outside read reached
    obtain rfl := Option.some.inj ((switched.read isParsed).symm.trans there)
    exact @source_isSwitch unit below parsed isParsed

/-- Only a statement that is removed needs a place for statements, and a constant has no switch in it. -/
theorem fits_switched (switched : Switched (source unit) edits switch context)
    (alters : ∀ edit ∈ edits, Alters unit edit)
    (read : source unit ref = some node) {slot : Slot Ref} (mem : slot ∈ node.slots) :
    Fits context.node? ⟨slot.expects, switch slot.child⟩ ↔
      (∀ edit, lastEdit edits slot.child = some edit → edit.effect = .removed → slot.expects = .stmt) ∧
      (slot.expects = .constant → ∀ edit ∈ edits, ¬ Reaches (source unit) slot.child edit.target) := by
  obtain ⟨_, _, _, child, _, _, _, there, accepted⟩ := source_slot read mem
  have settled := settled_switched switched there
  have accepts :
    (∃ node, context.node? (switch slot.child) = some node ∧ slot.expects.accepts node.kind = true) ↔
      ∀ edit, lastEdit edits slot.child = some edit → edit.effect = .removed → slot.expects = .stmt := by
    cases last : lastEdit edits slot.child with
    | none =>
      rw [switched.unmoved _ last]
      refine iff_of_true ⟨_, switched.read there, accepted⟩ ?_
      intro edit isEdit
      cases isEdit
    | some edit =>
      obtain ⟨isIn, target⟩ := mem_of_lastEdit last
      have expr := (alters edit isIn).isExpr (by rw [target]; exact there)
      obtain ⟨new, -, conditional, statement, -⟩ := evaluates_switch switched last
      by_cases removed : edit.effect = .removed
      · obtain ⟨n, node', isCreated, read', kind⟩ := statement removed
        rw [isCreated]
        constructor
        · rintro ⟨other, there', accepts⟩ edit' isEdit -
          obtain rfl := Option.some.inj (read'.symm.trans there')
          rw [kind] at accepts
          cases place : slot.expects with
          | stmt => rfl
          | expr | constant | decl =>
            rw [place] at accepts
            cases accepts
        · intro stands
          refine ⟨node', read', ?_⟩
          rw [stands edit rfl removed, kind]
          rfl
      · obtain ⟨n, node', isCreated, read', kind⟩ := conditional removed
        rw [isCreated]
        refine iff_of_true ⟨node', read', ?_⟩ ?_
        · rw [kind]
          exact accepts_expr accepted expr rfl
        · intro edit' isEdit isRemoved
          obtain rfl := Option.some.inj isEdit
          exact absurd isRemoved removed
  rw [← accepts, ← settled]
  constructor
  · rintro ⟨other, isThere, accepted, constant⟩
    exact ⟨⟨other, isThere, accepted⟩, constant⟩
  · rintro ⟨⟨other, isThere, accepted⟩, constant⟩
    exact ⟨other, isThere, accepted, constant⟩

theorem evaluates_parsed (switched : Switched (source unit) edits switch context)
    (read : source unit ref = some node) :
    Evaluates meaning environment context.node? ref value ↔
      (∀ slot ∈ node.slots, Fits context.node? ⟨slot.expects, switch slot.child⟩) ∧
      Composed meaning (fun child => Evaluates meaning environment context.node? (switch child))
        node value := by
  have composes : (node.map switch).Composes := by
    rcases source_composes read with plain | ⟨kind, inner, slots⟩
    · exact .inl plain
    · refine .inr ⟨kind, ⟨inner.expects, switch inner.child⟩, ?_⟩
      rw [Node.map, slots]
      rfl
  rw [evaluates_iff (switched.read read) composes]
  unfold Composed Node.map
  apply and_congr
  · exact List.forall_mem_map
  · simp only [List.forall₂_map_left_iff]

theorem fits_parsed (switched : Switched (source unit) edits switch context)
    (read : source unit ref = some node)
    {slot : Slot Ref} (mem : slot ∈ node.slots) (varies : slot.expects ≠ .constant) :
      Fits context.node? slot := by
  obtain ⟨_, _, _, child, _, _, _, there, accepted⟩ := source_slot read mem
  exact ⟨_, switched.read there, accepted, fun constant => absurd constant varies⟩

theorem mem_apply_slots {effect : Effect} {slot : Slot Ref} (mem : slot ∈ (effect.apply node).slots) :
    slot ∈ node.slots := by
  cases effect with
  | operator | operand => exact mem
  | literal | removed => cases mem

theorem Alters.varies (alters : Alters unit edit) (read : source unit edit.target = some node)
    {slot : Slot Ref} (mem : slot ∈ (edit.effect.apply node).slots) : slot.expects ≠ .constant := by
  have takes := source_takes read
  have listed := List.mem_map_of_mem (@mem_apply_slots node edit.effect slot mem) (f := Slot.expects)
  cases alters with
  | operator read' operates =>
    obtain rfl := Option.some.inj (read.symm.trans read')
    cases kind : node.kind <;> rw [kind] at takes operates <;> first | cases operates | skip
    all_goals
      rw [eq_of_beq takes] at listed
      intro constant
      rw [constant] at listed
      simp at listed
  | operand read' _ slots =>
    obtain rfl := Option.some.inj (read.symm.trans read')
    rw [slots] at listed
    intro constant
    rw [constant] at listed
    simp at listed
  | call _ _ effect => rcases effect with effect | effect <;> rw [effect] at mem <;> cases mem
  | value _ _ _ _ _ effect =>
    rw [effect] at mem
    cases mem

theorem Alters.composes (alters : Alters unit edit) (read : source unit edit.target = some node) :
    (edit.effect.apply node).Composes := by
  cases alters with
  | operator _ _ effect plain =>
    rw [effect]
    exact .inl plain
  | operand read' _ slots effect =>
    obtain rfl := Option.some.inj (read.symm.trans read')
    rw [effect]
    exact .inr ⟨rfl, _, slots⟩
  | call _ _ effect =>
    rcases effect with effect | effect <;> rw [effect] <;> exact .inl rfl
  | value _ _ _ _ _ effect =>
    rw [effect]
    exact .inl rfl

theorem evaluates_mutated (switched : Switched (source unit) edits switch context)
    (alters : Alters unit edit) {new : Ref}
    (mutated : IsMutated (source unit) context.node? edit new) (read : source unit edit.target = some node) :
    Evaluates meaning environment context.node? new value ↔
      Composed meaning (Evaluates meaning environment context.node?) (edit.effect.apply node) value := by
  cases mutated with
  | operand read' effect children =>
    obtain rfl := Option.some.inj (read.symm.trans read')
    obtain ⟨slot, slots, rfl⟩ := List.map_eq_singleton_iff.mp children
    rw [effect]
    unfold Composed
    dsimp only [Effect.apply]
    rw [slots]
    constructor
    · intro evaluates
      exact ⟨[value], .cons evaluates .nil, if_pos rfl⟩
    · rintro ⟨values, operands, isValue⟩
      cases operands with
      | cons operand rest =>
        rw [compose, if_pos rfl] at isValue
        obtain rfl := Option.some.inj isValue
        exact operand
  | @built old node' n read' effect there construct slots =>
    obtain rfl := Option.some.inj (read.symm.trans read')
    have composes : node'.Composes := by
      unfold Node.Composes
      rw [construct, slots]
      exact alters.composes read
    rw [evaluates_iff there composes]
    unfold Composed
    rw [construct, slots]
    refine and_iff_right ?_
    intro slot mem
    exact fits_parsed switched read (mem_apply_slots mem) (alters.varies read mem)

theorem sameCategory_iff {heap : Heap} {left right : Ref} {l r : Node Ref} (isLeft : heap left = some l)
    (isRight : heap right = some r) : SameCategory heap left right ↔ l.type = r.type ∧
    l.valueKind = r.valueKind := by
  constructor
  · rintro ⟨_, _, isLeft', isRight', same⟩
    obtain rfl := Option.some.inj (isLeft.symm.trans isLeft')
    obtain rfl := Option.some.inj (isRight.symm.trans isRight')
    exact same
  · intro same
    exact ⟨l, r, isLeft, isRight, same⟩

theorem replaceable_iff (switched : Switched (source unit) edits switch context) {new : Ref}
    (mutated : IsMutated (source unit) context.node? edit new) (stays : edit.effect ≠ .removed) :
    SameCategory context.node? new edit.target ↔ Replaceable unit edit := by
  unfold Replaceable
  cases mutated with
  | @operand old _ read effect children =>
    have mem : new ∈ old.children := by rw [children]; exact List.mem_cons_self
    obtain ⟨_, _, _, other, _, _, _, there⟩ := source_child read mem
    rw [sameCategory_iff (switched.read there) (switched.read read), effect]
    constructor
    · intro same node read' child isChild otherNode there'
      obtain rfl := Option.some.inj (read.symm.trans read')
      rw [children] at isChild
      obtain rfl := List.mem_singleton.mp isChild
      obtain rfl := Option.some.inj (there.symm.trans there')
      exact same
    · intro all
      exact all old read new mem other there
  | @built old node n read effect there construct slots =>
    rw [sameCategory_iff there (switched.read read), construct]
    cases isEffect : edit.effect with
    | operator kind => exact iff_of_true ⟨rfl, rfl⟩ fun _ _ => trivial
    | operand => exact absurd isEffect effect
    | literal =>
      constructor
      · rintro ⟨-, same⟩ node read'
        obtain rfl := Option.some.inj (read.symm.trans read')
        exact same.symm
      · intro all
        exact ⟨rfl, (all old read).symm⟩
    | removed => exact absurd isEffect stays

def edited (edits : List Edit) (ref : Ref) (node : Node Ref) : Node Ref :=
  (lastEdit edits ref).elim node (·.effect.apply node)

theorem edited_none (none : lastEdit edits ref = none) : edited edits ref node = node := by
  rw [edited, none]
  rfl

theorem edited_some (last : lastEdit edits ref = some edit) :
    edited edits ref node = edit.effect.apply node := by
  rw [edited, last]
  rfl

theorem editedHeap_read (read : source unit ref = some node) :
    editedHeap (source unit) edits ref = some (edited edits ref node) := by
  rw [editedHeap, read]
  rfl

theorem mem_edited_slots {slot : Slot Ref} (mem : slot ∈ (edited edits ref node).slots) :
    slot ∈ node.slots := by
  cases last : lastEdit edits ref with
  | none => rwa [edited_none last] at mem
  | some edit =>
    rw [edited_some last] at mem
    exact mem_apply_slots mem

/-- Statements are only removed where a statement may stand. -/
def Removable (unit : List DeclGroupRef) (edits : List Edit) : Prop :=
  ∀ edit ∈ edits, edit.effect = .removed → ∀ ref parent, source unit ref = some parent →
    ∀ slot ∈ parent.slots, slot.child = edit.target → slot.expects = .stmt

theorem edited_settled (alters : ∀ edit ∈ edits, Alters unit edit) (ref : Ref) :
    Settled (editedHeap (source unit) edits) ref := by
  intro below node _ there
  obtain ⟨parsed, read, rfl⟩ := Option.map_eq_some_iff.mp there
  cases last : lastEdit edits below with
  | none => exact source_isSwitch read
  | some edit =>
    obtain ⟨isIn, -⟩ := mem_of_lastEdit last
    dsimp only [Option.elim]
    cases alters edit isIn with
    | @operator _ kind _ _ effect plain =>
      rw [effect]
      cases kind <;> first | rfl | cases plain
    | operand _ _ _ effect | value _ _ _ _ _ effect =>
      rw [effect]
      rfl
    | call _ _ effect => rcases effect with effect | effect <;> rw [effect] <;> rfl

theorem fits_edited (alters : ∀ edit ∈ edits, Alters unit edit) (removable : Removable unit edits)
    (read : source unit ref = some node) {slot : Slot Ref} (mem : slot ∈ node.slots) :
    Fits (editedHeap (source unit) edits) slot := by
  obtain ⟨_, _, _, child, _, _, _, there, accepted⟩ := source_slot read mem
  refine ⟨_, editedHeap_read there, ?_, fun _ => edited_settled alters slot.child⟩
  cases last : lastEdit edits slot.child with
  | none =>
    rw [edited_none last]
    exact accepted
  | some edit =>
    obtain ⟨isIn, target⟩ := mem_of_lastEdit last
    rw [edited_some last]
    have expr := (alters edit isIn).isExpr (by rw [target]; exact there)
    cases effect : edit.effect with
    | operator kind =>
      cases alters edit isIn with
      | operator _ _ effect' _ kindExpr =>
        rw [effect] at effect'
        obtain rfl := Effect.operator.inj effect'
        exact accepts_expr accepted expr kindExpr
      | operand _ _ _ effect' | value _ _ _ _ _ effect' =>
        rw [effect] at effect'
        cases effect'
      | call _ _ effect' =>
        rw [effect] at effect'
        rcases effect' with effect' | effect' <;> cases effect'
    | operand => exact accepts_expr accepted expr rfl
    | literal => exact accepts_expr accepted expr rfl
    | removed =>
      rw [removable edit isIn effect ref node read slot mem target.symm]
      rfl

theorem edited_composes (alters : ∀ edit ∈ edits, Alters unit edit) (read : source unit ref = some node) :
    (edited edits ref node).Composes := by
  cases last : lastEdit edits ref with
  | none =>
    rw [edited_none last]
    exact source_composes read
  | some edit =>
    obtain ⟨isIn, target⟩ := mem_of_lastEdit last
    rw [edited_some last]
    exact (alters edit isIn).composes (by rw [target]; exact read)

theorem evaluates_edited (alters : ∀ edit ∈ edits, Alters unit edit) (removable : Removable unit edits)
    (read : source unit ref = some node) :
      Evaluates meaning environment (editedHeap (source unit) edits) ref value ↔
      Composed meaning (Evaluates meaning environment (editedHeap (source unit) edits))
      (edited edits ref node) value := by
  rw [evaluates_iff (editedHeap_read read) (edited_composes alters read)]
  refine and_iff_right ?_
  intro slot mem
  exact fits_edited alters removable read (mem_edited_slots mem)

end
end Mull.Frontend
