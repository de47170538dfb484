import Mull.Base.Related
import Mull.Frontend.SwitchedEvaluation

/-! When the AST with its switches evaluates as the source with the edits that are set. -/

namespace Mull.Frontend
open Base

/-- The nodes as they stand, with their switches and in the edited source, each by what its children evaluate to. -/
structure Evaluations (unit : List DeclGroupRef) (edits : List Edit) (environment : Text → Bool) {D : Type}
    (meaning : Construct → List D → D) (stands switched target : Ref → D → Prop) : Prop where
  stands_iff : ∀ {ref node value}, source unit ref = some node →
    (stands ref value ↔ Composed meaning switched node value)
  chosen : ∀ {ref node edit value}, source unit ref = some node → lastEdit edits ref = some edit →
    environment edit.identifier = true →
    (switched ref value ↔ Composed meaning stands (edit.effect.apply node) value)
  other : ∀ {ref value}, (∀ edit, lastEdit edits ref = some edit → environment edit.identifier = false) →
    (switched ref value ↔ stands ref value)
  target_iff : ∀ {ref node value}, source unit ref = some node →
    (target ref value ↔ Composed meaning target (edited (setEdits environment edits) ref node) value)

/-- The edit that is set is the one that is switched, and the mutated node has no child that should be mutated
too. -/
def Applied (unit : List DeclGroupRef) (edits set : List Edit) (ref : Ref) : Prop :=
  ∀ edit, lastEdit set ref = some edit → lastEdit edits ref = some edit ∧
    ∀ node, source unit ref = some node → ∀ child ∈ (edit.effect.apply node).children,
    lastEdit set child = none

section
variable {unit : List DeclGroupRef} {edits : List Edit} {environment : Text → Bool} {root ref : Ref}
  {node : Node Ref}

section
variable {D : Type} {meaning : Construct → List D → D} {stands switched target : Ref → D → Prop}

/-- By induction from the children: where all edits are applied, both evaluate, and to the same value. -/
theorem Evaluations.agree (evaluations : Evaluations unit edits environment meaning stands switched target)
    (alters : ∀ edit ∈ edits, Alters unit edit)
    (applied : ∀ ref, Reaches (editedHeap (source unit) (setEdits environment edits)) root ref →
      Applied unit edits (setEdits environment edits) ref) :
    ∀ ref node, source unit ref = some node →
      Reaches (editedHeap (source unit) (setEdits environment edits)) root ref → ∃ value, switched ref value ∧
        target ref value ∧ (lastEdit (setEdits environment edits) ref = none → stands ref value) := by
  apply source_induction
  intro ref node read below reached
  have composes : (edited (setEdits environment edits) ref node).Composes :=
    edited_composes (fun edit mem => alters edit (mem_setEdits.mp mem).1) read
  have each : ∀ slot ∈ (edited (setEdits environment edits) ref node).slots, ∃ value,
    switched slot.child value ∧
      target slot.child value ∧ (lastEdit (setEdits environment edits) slot.child = none →
        stands slot.child value) := by
    intro slot mem
    apply below slot.child (mem_children.mpr ⟨slot, mem_edited_slots mem, rfl⟩)
    exact reached.tail ⟨_, editedHeap_read read, mem_children.mpr ⟨slot, mem, rfl⟩⟩
  cases last : lastEdit (setEdits environment edits) ref with
  | none =>
    obtain ⟨values, related⟩ := exists_related each
    obtain ⟨value, isValue⟩ := composed_total composes (related.imp fun _ _ both => both.1)
    have isTarget : target ref value := (evaluations.target_iff read).mpr
      ⟨values, related.imp fun _ _ both => both.2.1, isValue⟩
    rw [edited_none last] at related isValue
    have isStanding : stands ref value :=
      (evaluations.stands_iff read).mpr ⟨values, related.imp fun _ _ both => both.1, isValue⟩
    have isSwitched : switched ref value := (evaluations.other fun _ => lastEdit_unset last).mpr isStanding
    exact ⟨value, isSwitched, isTarget, fun _ => isStanding⟩
  | some edit =>
    obtain ⟨here, alone⟩ := applied ref reached edit last
    have set := (mem_setEdits.mp (mem_of_lastEdit last).1).2
    rw [edited_some last] at composes each
    have bare : ∀ slot ∈ (edit.effect.apply node).slots, ∃ value, stands slot.child value ∧
      target slot.child value := by
      intro slot mem
      obtain ⟨value, -, isTarget, isStanding⟩ := each slot mem
      exact ⟨value, isStanding (alone node read slot.child (mem_children.mpr ⟨slot, mem, rfl⟩)), isTarget⟩
    obtain ⟨values, related⟩ := exists_related bare
    obtain ⟨value, isValue⟩ := composed_total composes (related.imp fun _ _ both => both.1)
    have isTarget : target ref value := by
      apply (evaluations.target_iff read).mpr
      rw [edited_some last]
      exact ⟨values, related.imp fun _ _ both => both.2, isValue⟩
    have isSwitched : switched ref value :=
      (evaluations.chosen read here set).mpr ⟨values, related.imp fun _ _ both => both.1, isValue⟩
    refine ⟨value, isSwitched, isTarget, ?_⟩
    intro none
    cases none

end
/-! ### Nothing else evaluates alike -/

section
variable {P Q : Ref → Term → Prop} {term term' : Term}

theorem composed_plain (plain : node.kind.isPlain = true) : Composed Term.node P node term ↔
    ∃ terms, term = .node node.toConstruct terms ∧
    List.Forall₂ (fun slot part => P slot.child part) node.slots terms := by
  constructor
  · rintro ⟨terms, parts, isTerm⟩
    exact ⟨terms, (compose_plain plain).mp isTerm, parts⟩
  · rintro ⟨terms, isTerm, parts⟩
    exact ⟨terms, parts, (compose_plain plain).mpr isTerm⟩

theorem composed_paren (kind : node.kind = .parenExpr) {inner : Slot Ref} (slots : node.slots = [inner]) :
    Composed Term.node P node term ↔ P inner.child term := by
  unfold Composed
  rw [slots]
  constructor
  · rintro ⟨terms, parts, isTerm⟩
    cases parts with
    | cons part rest =>
      cases rest
      obtain rfl := Option.some.inj ((compose_paren kind).symm.trans isTerm)
      exact part
  · intro part
    exact ⟨[term], .cons part .nil, compose_paren kind⟩

theorem composed_parts (composes : node.Composes) (left : Composed Term.node P node term)
    (right : Composed Term.node Q node term) : ∀ slot ∈ node.slots, ∃ part, P slot.child part ∧
    Q slot.child part := by
  intro slot mem
  rcases composes with plain | ⟨kind, inner, slots⟩
  · obtain ⟨terms, rfl, leftParts⟩ := (composed_plain plain).mp left
    obtain ⟨terms', same, rightParts⟩ := (composed_plain plain).mp right
    obtain ⟨-, rfl⟩ := Term.node.inj same
    exact related_both leftParts rightParts mem
  · rw [slots] at mem
    obtain rfl := List.mem_singleton.mp mem
    exact ⟨term, (composed_paren kind slots).mp left, (composed_paren kind slots).mp right⟩

theorem parts_le {slots : List (Slot Ref)} {terms terms' : List Term}
    (left : List.Forall₂ (fun slot part => P slot.child part) slots terms)
    (right : List.Forall₂ (fun slot part => Q slot.child part) slots terms')
    (less : ∀ slot ∈ slots, ∀ part part', P slot.child part → Q slot.child part' → part.size ≤ part'.size) :
    Term.sizes terms ≤ Term.sizes terms' := by
  apply sizes_le
  refine related_trans left.flip right ?_
  intro part slot part' mem isPart isPart'
  exact less slot mem part part' isPart isPart'

theorem composed_le (composes : node.Composes) (left : Composed Term.node P node term)
    (right : Composed Term.node Q node term')
    (less : ∀ slot ∈ node.slots, ∀ part part', P slot.child part → Q slot.child part' →
      part.size ≤ part'.size) :
    term.size ≤ term'.size := by
  rcases composes with plain | ⟨kind, inner, slots⟩
  · obtain ⟨terms, rfl, leftParts⟩ := (composed_plain plain).mp left
    obtain ⟨terms', rfl, rightParts⟩ := (composed_plain plain).mp right
    rw [Term.size, Term.size]
    exact Nat.add_le_add_left (parts_le leftParts rightParts less) 1
  · have mem : inner ∈ node.slots := by rw [slots]; exact List.mem_cons_self
    exact less inner mem term term' ((composed_paren kind slots).mp left) ((composed_paren kind slots).mp right)

end

section
variable {stands switched target : Ref → Term → Prop} {edit : Edit} {term term' : Term}

/-- An edit makes no term greater, and that of the operand is less than that of the operator. -/
theorem apply_le (alters : Alters unit edit) (read : source unit edit.target = some node)
    (left : Composed Term.node target (edit.effect.apply node) term)
    (right : Composed Term.node switched node term')
    (less : ∀ slot ∈ node.slots, ∀ part part', target slot.child part → switched slot.child part' →
      part.size ≤ part'.size) :
    term.size ≤ term'.size ∧ (edit.effect = .operand → term.size < term'.size) := by
  have emptied (effect : edit.effect = .literal ∨ edit.effect = .removed) :
      term.size ≤ term'.size ∧ (edit.effect = .operand → term.size < term'.size) := by
    have bare : (edit.effect.apply node).kind.isPlain = true ∧ (edit.effect.apply node).slots = [] := by
      rcases effect with effect | effect <;> rw [effect] <;> exact ⟨rfl, rfl⟩
    obtain ⟨terms, rfl, parts⟩ := (composed_plain bare.1).mp left
    rw [bare.2] at parts
    cases parts
    have positive := term'.size_pos
    rw [Term.size, Term.sizes]
    refine ⟨by omega, fun isOperand => ?_⟩
    rw [isOperand] at effect
    rcases effect with effect | effect <;> cases effect
  cases alters with
  | operator read' operates effect plain =>
    obtain rfl := Option.some.inj (read.symm.trans read')
    rw [effect] at left
    obtain ⟨terms, rfl, leftParts⟩ := (composed_plain plain).mp left
    obtain ⟨terms', rfl, rightParts⟩ := (composed_plain (isPlain_of_isOperator operates).1).mp right
    have sizes := parts_le leftParts rightParts less
    rw [Term.size, Term.size, effect]
    exact ⟨Nat.add_le_add_left sizes 1, fun isOperand => by cases isOperand⟩
  | @operand _ operand _ read' kind slots effect =>
    obtain rfl := Option.some.inj (read.symm.trans read')
    rw [effect] at left
    have plain : node.kind.isPlain = true := by rw [kind]; rfl
    obtain ⟨terms', rfl, rightParts⟩ := (composed_plain plain).mp right
    have inner : target operand term := (@composed_paren (Effect.operand.apply node) _ _ rfl _ slots).mp left
    rw [slots] at rightParts less
    cases rightParts with
    | cons part rest =>
      cases rest
      have smaller := less _ List.mem_cons_self _ _ inner part
      rw [Term.size, Term.sizes, Term.sizes]
      exact ⟨by omega, fun _ => by omega⟩
  | call _ _ effect => exact emptied effect
  | value _ _ _ _ _ effect => exact emptied (.inl effect)

theorem Evaluations.size_le
    (evaluations : Evaluations unit edits environment Term.node stands switched target)
    (alters : ∀ edit ∈ edits, Alters unit edit) : ∀ ref node, source unit ref = some node →
      ∀ term term', target ref term → (stands ref term' ∨ switched ref term') → term.size ≤ term'.size := by
  apply source_induction
  intro ref node read below
  have less : ∀ slot ∈ node.slots, ∀ part part', target slot.child part → switched slot.child part' →
      part.size ≤ part'.size := by
    intro slot mem part part' isTarget isSwitched
    exact below slot.child (mem_children.mpr ⟨slot, mem, rfl⟩) part part' isTarget (.inr isSwitched)
  have standing : ∀ term term', target ref term → stands ref term' → term.size ≤ term'.size := by
    intro term term' isTarget isStanding
    have left := (evaluations.target_iff read).mp isTarget
    have right := (evaluations.stands_iff read).mp isStanding
    cases last : lastEdit (setEdits environment edits) ref with
    | none =>
      rw [edited_none last] at left
      exact composed_le (source_composes read) left right less
    | some edit =>
      rw [edited_some last] at left
      obtain ⟨mem, rfl⟩ := mem_of_lastEdit last
      exact (apply_le (alters edit (mem_setEdits.mp mem).1) read left right less).1
  intro term term' isTarget either
  rcases either with isStanding | isSwitched
  · exact standing term term' isTarget isStanding
  · by_cases chosen : ∃ edit, lastEdit edits ref = some edit ∧ environment edit.identifier = true
    · obtain ⟨edit, last, set⟩ := chosen
      have left := (evaluations.target_iff read).mp isTarget
      have right := (evaluations.chosen read last set).mp isSwitched
      rw [edited_some (lastEdit_set last set)] at left
      obtain ⟨mem, rfl⟩ := mem_of_lastEdit last
      refine composed_le ((alters edit mem).composes read) left right ?_
      intro slot isSlot part part' isPart isPart'
      exact below slot.child (mem_children.mpr ⟨slot, mem_apply_slots isSlot, rfl⟩) part part'
        isPart (.inl isPart')
    · apply standing term term' isTarget
      apply (evaluations.other _).mp isSwitched
      intro edit last
      exact Bool.eq_false_iff.mpr fun set => chosen ⟨edit, last, set⟩

/-- A node that should be mutated and stands as it was. A value might be what it is replaced by. -/
theorem Evaluations.unapplied
    (evaluations : Evaluations unit edits environment Term.node stands switched target)
    (alters : ∀ edit ∈ edits, Alters unit edit) (read : source unit ref = some node)
    (last : lastEdit (setEdits environment edits) ref = some edit)
    (own : edit.effect = .literal → Operates unit ref)
    (isStanding : stands ref term) (isTarget : target ref term) : False := by
  have left := (evaluations.target_iff read).mp isTarget
  have right := (evaluations.stands_iff read).mp isStanding
  rw [edited_some last] at left
  obtain ⟨mem, rfl⟩ := mem_of_lastEdit last
  have isIn := (mem_setEdits.mp mem).1
  have replaced (plain : node.kind.isPlain = true) (becomes : (edit.effect.apply node).kind.isPlain = true)
      (other : (edit.effect.apply node).kind ≠ node.kind) : False := by
    obtain ⟨terms, isTerm, -⟩ := (composed_plain becomes).mp left
    obtain ⟨terms', isTerm', -⟩ := (composed_plain plain).mp right
    exact other (congrArg Construct.kind (Term.node.inj (isTerm.symm.trans isTerm')).1)
  have literal (operates : Operates unit edit.target) (effect : edit.effect = .literal) : False := by
    obtain ⟨_, read', operates⟩ := operates
    obtain rfl := Option.some.inj (read.symm.trans read')
    rw [effect] at replaced
    rcases operates with operator | call
    · refine replaced (isPlain_of_isOperator operator).1 rfl ?_
      intro same
      rw [← same] at operator
      cases operator
    · rw [call] at replaced
      refine replaced rfl rfl ?_
      intro same
      cases same
  cases alters edit isIn with
  | operator read' operates effect plain _ other =>
    obtain rfl := Option.some.inj (read.symm.trans read')
    rw [effect] at replaced
    exact replaced (isPlain_of_isOperator operates).1 plain other
  | operand _ _ _ effect =>
    have less :=
      (apply_le (alters edit isIn) read left right fun slot mem part part' isPart isPart' => ?_).2 effect
    · exact Nat.lt_irrefl _ less
    · obtain ⟨_, _, _, child, _, _, _, there, _⟩ := source_slot read mem
      exact evaluations.size_le alters slot.child child there part part' isPart (.inr isPart')
  | call read' kind effect =>
    obtain rfl := Option.some.inj (read.symm.trans read')
    rcases effect with effect | effect
    · exact literal ⟨node, read, .inr kind⟩ effect
    · rw [effect, kind] at replaced
      refine replaced rfl rfl ?_
      intro same
      cases same
  | value _ _ _ _ _ effect => exact literal (own effect) effect

theorem operates_child (alters : Alters unit edit) (read : source unit edit.target = some node) {child : Ref}
    (mem : child ∈ (edit.effect.apply node).children) {below : Edit} (alters' : Alters unit below)
    (isChild : below.target = child) (effect : below.effect = .literal) : Operates unit child := by
  obtain ⟨slot, isSlot, rfl⟩ := mem_children.mp mem
  cases alters' with
  | operator _ _ effect' | operand _ _ _ effect' =>
    rw [effect] at effect'
    cases effect'
  | call read' kind => exact ⟨_, isChild ▸ read', .inr kind⟩
  | @value ref _ parent parentRead takes child' =>
    exfalso
    rw [isChild] at child'
    have isParent := parent_unique read (mem_children.mpr ⟨slot, mem_apply_slots isSlot, rfl⟩)
      parentRead child'
    rw [← isParent] at parentRead
    obtain rfl := Option.some.inj (read.symm.trans parentRead)
    have operator : node.kind.isOperator = true := by
      cases alters with
      | operator read' operates =>
        obtain rfl := Option.some.inj (read.symm.trans read')
        exact operates
      | operand read' kind =>
        obtain rfl := Option.some.inj (read.symm.trans read')
        rw [kind]
        rfl
      | call _ _ effect' =>
        rcases effect' with effect' | effect' <;> rw [effect'] at isSlot <;> cases isSlot
      | value _ _ _ _ _ effect' =>
        rw [effect'] at isSlot
        cases isSlot
    rcases takes with (kind | ⟨_, _, kind⟩) | isVar
    · rw [kind] at operator
      cases operator
    · rw [kind] at operator
      cases operator
    · cases kind : node.kind with
      | varDecl =>
        rw [kind] at operator
        cases operator
      | _ =>
        rw [kind] at isVar
        cases isVar

/-- Where a node evaluates as it should, its edit is applied, and so it is below. -/
theorem Evaluations.agree_step
    (evaluations : Evaluations unit edits environment Term.node stands switched target)
    (alters : ∀ edit ∈ edits, Alters unit edit) (again : edits.Pairwise (Again unit))
    (read : source unit ref = some node) (isSwitched : switched ref term) (isTarget : target ref term) :
    Applied unit edits (setEdits environment edits) ref ∧
      ∀ slot ∈ (edited (setEdits environment edits) ref node).slots, ∃ part, switched slot.child part ∧
      target slot.child part := by
  have left := (evaluations.target_iff read).mp isTarget
  cases last : lastEdit (setEdits environment edits) ref with
  | none =>
    have isStanding := (evaluations.other fun _ => lastEdit_unset last).mp isSwitched
    rw [edited_none last] at left ⊢
    refine ⟨fun edit isLast => ?_, composed_parts (source_composes read)
      ((evaluations.stands_iff read).mp isStanding) left⟩
    rw [last] at isLast
    cases isLast
  | some edit =>
    obtain ⟨mem, isHere⟩ := mem_of_lastEdit last
    obtain ⟨isIn, set⟩ := mem_setEdits.mp mem
    have readTarget : source unit edit.target = some node := by rw [isHere]; exact read
    have latest : lastEdit edits ref = some edit := by
      obtain ⟨latest, isLatest⟩ := exists_lastEdit isIn isHere
      by_cases chosen : environment latest.identifier = true
      · rw [isLatest, ← last, lastEdit_set isLatest chosen]
      · exfalso
        have different : edit ≠ latest := by
          rintro rfl
          exact chosen set
        have operates := lastEdit_pairwise again isLatest isIn isHere different
        obtain ⟨-, isThere⟩ := mem_of_lastEdit isLatest
        rw [Again, isThere] at operates
        refine evaluations.unapplied alters read last (fun _ => operates isHere) ?_ isTarget
        apply (evaluations.other _).mp isSwitched
        intro other isOther
        obtain rfl := Option.some.inj (isLatest.symm.trans isOther)
        exact Bool.eq_false_iff.mpr chosen
    have right := (evaluations.chosen read latest set).mp isSwitched
    rw [edited_some last] at left ⊢
    have parts := composed_parts ((alters edit isIn).composes readTarget) right left
    have alone : ∀ child ∈ (edit.effect.apply node).children,
      lastEdit (setEdits environment edits) child = none := by
      intro child isChild
      obtain ⟨slot, isSlot, rfl⟩ := mem_children.mp isChild
      obtain ⟨part, isStanding, isPart⟩ := parts slot isSlot
      obtain ⟨_, _, _, childNode, _, _, _, there, _⟩ := source_slot read (mem_apply_slots isSlot)
      cases found : lastEdit (setEdits environment edits) slot.child with
      | none => rfl
      | some below =>
        exfalso
        obtain ⟨mem', isBelow⟩ := mem_of_lastEdit found
        refine evaluations.unapplied alters there found ?_ isStanding isPart
        exact operates_child (alters edit isIn) readTarget isChild
          (alters below (mem_setEdits.mp mem').1) isBelow
    constructor
    · intro other isLast
      obtain rfl := Option.some.inj (last.symm.trans isLast)
      refine ⟨latest, fun node' read' => ?_⟩
      obtain rfl := Option.some.inj (read.symm.trans read')
      exact alone
    · intro slot isSlot
      obtain ⟨part, isStanding, isPart⟩ := parts slot isSlot
      refine ⟨part, (evaluations.other ?_).mpr isStanding, isPart⟩
      exact fun _ => lastEdit_unset (alone slot.child (mem_children.mpr ⟨slot, isSlot, rfl⟩))

end
end
end Mull.Frontend
