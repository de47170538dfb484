import Mull.Frontend.Simulation

/-! Exactly which translation units have mutants that are switched as they should be. -/

namespace Mull.Frontend
open Base

/-- All mutations are performed; every switch can stand for its target, and none is in a constant; and in what
is left of a function by the mutations of one identifier, each of them is the last of its target and has none
right below it. -/
structure Switchable (isValidMutation : MutatorKind → Bool) (endOfToken : Location → Int32 × Int32)
    (unit : List DeclGroupRef) : Prop where
  performable : Performable isValidMutation endOfToken unit
  replaceable : ∀ edit, lastEdit (recordedEdits isValidMutation endOfToken unit) edit.target = some edit →
    Replaceable unit edit
  outside : ∀ edit ∈ recordedEdits isValidMutation endOfToken unit, OutsideConstants unit edit
  applied : ∀ recorded ∈ recordedEdits isValidMutation endOfToken unit, ∀ d function,
    unit.flatten[d]? = some function →
    function.isFunction = true → ∀ ref, Reaches (editedHeap (source unit)
      ((recordedEdits isValidMutation endOfToken unit).filter (·.identifier = recorded.identifier)))
        (.parsed d 0) ref →
    Applied unit (recordedEdits isValidMutation endOfToken unit)
      ((recordedEdits isValidMutation endOfToken unit).filter (·.identifier = recorded.identifier)) ref

section
variable {unit : List DeclGroupRef} {edits : List Edit} {switch : Ref → Ref}
  {context : ASTContext} {ref : Ref} {environment : Text → Bool}

theorem editedHeap_nil (heap : Heap) : editedHeap heap [] = heap := by
  funext ref
  rw [editedHeap]
  cases heap ref <;> rfl

theorem evaluates_there {D : Type} {meaning : Construct → List D → D} {heap : Heap} {value : D}
    (evaluates : Evaluates meaning environment heap ref value) : ∃ node, heap ref = some node := by
  cases evaluates with
  | construct read | paren read | conditional read | thenBlock read | elseBlock read => exact ⟨_, read⟩

/-- By induction from the children: the edited source evaluates. -/
theorem edited_total {D : Type} {meaning : Construct → List D → D} (alters : ∀ edit ∈ edits, Alters unit edit)
    (removable : Removable unit edits) : ∀ ref node, source unit ref = some node →
      ∃ value, Evaluates meaning environment (editedHeap (source unit) edits) ref value := by
  apply source_induction
  intro ref node read below
  have each : ∀ slot ∈ (edited edits ref node).slots, ∃ value,
      Evaluates meaning environment (editedHeap (source unit) edits) slot.child value :=
    fun slot mem => below slot.child (mem_children.mpr ⟨slot, mem_edited_slots mem, rfl⟩)
  obtain ⟨values, operands⟩ := exists_related each
  obtain ⟨value, isValue⟩ := composed_total (edited_composes alters read) operands
  exact ⟨value, (evaluates_edited alters removable read).mpr ⟨values, operands, isValue⟩⟩

theorem source_total {D : Type} {meaning : Construct → List D → D} {node : Node Ref}
    (read : source unit ref = some node) :
    ∃ value, Evaluates meaning environment (source unit) ref value := by
  have total := @edited_total unit [] environment D meaning (by simp)
    (by intro edit mem; cases mem) ref node read
  rwa [editedHeap_nil] at total

theorem Removable.filter (removable : Removable unit edits) (p : Edit → Bool) :
    Removable unit (edits.filter p) :=
  fun edit mem => removable edit (List.mem_filter.mp mem).1

theorem Switched.evaluations (switched : Switched (source unit) edits switch context)
    (alters : ∀ edit ∈ edits, Alters unit edit) (removable : Removable unit edits)
    (replaceable : ∀ edit, lastEdit edits edit.target = some edit → Replaceable unit edit)
    (outside : ∀ edit ∈ edits, OutsideConstants unit edit) {D : Type} (meaning : Construct → List D → D)
    (environment : Text → Bool) :
    Evaluations unit edits environment meaning (Evaluates meaning environment context.node?)
      (fun ref => Evaluates meaning environment context.node? (switch ref))
      (Evaluates meaning environment (editedHeap (source unit) (setEdits environment edits))) where
  stands_iff := by
    intro ref node value read
    rw [evaluates_parsed switched read]
    refine and_iff_right ?_
    intro slot mem
    apply (fits_switched switched alters read mem).mpr
    constructor
    · intro edit last removed
      obtain ⟨isIn, target⟩ := mem_of_lastEdit last
      exact removable edit isIn removed ref node read slot mem target.symm
    · intro constant edit isIn
      exact outside edit isIn ref node read slot mem constant
  chosen := by
    intro ref node edit value read last set
    obtain ⟨isIn, rfl⟩ := mem_of_lastEdit last
    obtain ⟨new, mutated, -, -, evaluates⟩ := evaluates_switch switched last
    rw [evaluates, set, if_pos rfl, evaluates_mutated switched (alters edit isIn) mutated read]
    exact and_iff_right fun stays => (replaceable_iff switched mutated stays).mpr (replaceable edit last)
  other := by
    intro ref value unset
    cases last : lastEdit edits ref with
    | none => rw [switched.unmoved ref last]
    | some edit =>
      obtain ⟨isIn, rfl⟩ := mem_of_lastEdit last
      obtain ⟨new, mutated, -, -, evaluates⟩ := evaluates_switch switched last
      rw [evaluates, unset edit last, if_neg Bool.false_ne_true]
      exact and_iff_right fun stays => (replaceable_iff switched mutated stays).mpr (replaceable edit last)
  target_iff := by
    intro ref node value read
    exact evaluates_edited (fun edit mem => alters edit (mem_setEdits.mp mem).1) (removable.filter _) read

theorem reaches_source {set : List Edit} {root : Ref}
    (reached : Reaches (editedHeap (source unit) set) root ref)
    {node : Node Ref} (read : source unit root = some node) : ∃ node, source unit ref = some node := by
  induction reached with
  | refl => exact ⟨node, read⟩
  | tail _ child ih =>
    obtain ⟨parent, read'⟩ := ih
    obtain ⟨parent', there, mem⟩ := child
    obtain rfl := Option.some.inj ((editedHeap_read read').symm.trans there)
    obtain ⟨slot, isSlot, rfl⟩ := mem_children.mp mem
    obtain ⟨_, _, _, childNode, _, _, _, isChild, _⟩ := source_slot read' (mem_edited_slots isSlot)
    exact ⟨childNode, isChild⟩

theorem alike_iff {d i : Nat} (switched : Switched (source unit) edits switch context)
    (alters : ∀ edit ∈ edits, Alters unit edit) (again : edits.Pairwise (Again unit))
    (removable : Removable unit edits)
    (replaceable : ∀ edit, lastEdit edits edit.target = some edit → Replaceable unit edit)
    (outside : ∀ edit ∈ edits, OutsideConstants unit edit) (unmoved : lastEdit edits (.parsed d i) = none) :
    EvaluatesAlike environment context.node? (editedHeap (source unit) (setEdits environment edits))
    (.parsed d i) ↔
      ∀ ref, Reaches (editedHeap (source unit) (setEdits environment edits)) (.parsed d i) ref →
        Applied unit edits (setEdits environment edits) ref := by
  have root : switch (.parsed d i) = .parsed d i := switched.unmoved _ unmoved
  cases read : source unit (.parsed d i) with
  | none =>
    have nowhere : editedHeap (source unit) (setEdits environment edits) (.parsed d i) = none := by
      rw [editedHeap, read]
      rfl
    constructor
    · intro _ ref reached edit last
      rcases Relation.ReflTransGen.cases_head reached with rfl | ⟨_, ⟨_, there, _⟩, _⟩
      · obtain ⟨mem, target⟩ := mem_of_lastEdit last
        exact absurd target (lastEdit_eq_none.mp unmoved edit (mem_setEdits.mp mem).1)
      · rw [nowhere] at there
        cases there
    · intro _ D meaning value
      constructor
      · intro evaluates
        obtain ⟨_, there⟩ := evaluates_there evaluates
        rw [switched.parsed, read] at there
        cases there
      · intro evaluates
        obtain ⟨_, there⟩ := evaluates_there evaluates
        rw [nowhere] at there
        cases there
  | some node =>
    constructor
    · intro alike
      have evaluations := switched.evaluations alters removable replaceable outside Term.node environment
      obtain ⟨term, isTarget⟩ := @edited_total unit (setEdits environment edits) environment Term Term.node
        (fun edit mem => alters edit (mem_setEdits.mp mem).1) (removable.filter _) _ node read
      have agrees : ∀ ref, Reaches (editedHeap (source unit) (setEdits environment edits)) (.parsed d i) ref →
          ∃ term, Evaluates Term.node environment context.node? (switch ref) term ∧
            Evaluates Term.node environment (editedHeap (source unit) (setEdits environment edits)) ref
              term := by
        intro ref reached
        induction reached with
        | refl => exact ⟨term, by rw [root]; exact (alike Term Term.node term).mpr isTarget, isTarget⟩
        | @tail parent child before step ih =>
          obtain ⟨term, isSwitched, isTarget⟩ := ih
          obtain ⟨parentNode, read'⟩ := reaches_source before read
          obtain ⟨_, there, mem⟩ := step
          obtain rfl := Option.some.inj ((editedHeap_read read').symm.trans there)
          obtain ⟨slot, isSlot, rfl⟩ := mem_children.mp mem
          exact (evaluations.agree_step alters again read' isSwitched isTarget).2 slot isSlot
      intro ref reached
      obtain ⟨node', read'⟩ := reaches_source reached read
      obtain ⟨term, isSwitched, isTarget⟩ := agrees ref reached
      exact (evaluations.agree_step alters again read' isSwitched isTarget).1
    · intro applied D meaning value
      have evaluations := switched.evaluations alters removable replaceable outside meaning environment
      obtain ⟨common, isSwitched, isTarget, -⟩ := evaluations.agree alters applied _ node read .refl
      rw [root] at isSwitched
      constructor
      · intro evaluates
        rw [evaluates.unique isSwitched]
        exact isTarget
      · intro evaluates
        rw [evaluates.unique isTarget]
        exact isSwitched

/-- By induction from the root: every node of a function that evaluates is evaluated. -/
theorem Switched.all_evaluate {d : Nat} (switched : Switched (source unit) edits switch context)
    (unset : ∀ edit ∈ edits, environment edit.identifier = false) {D : Type}
    {meaning : Construct → List D → D} (root : ∀ node, source unit (.parsed d 0) = some node →
      ∃ value, Evaluates meaning environment context.node? (.parsed d 0) value) (i : Nat) :
    ∀ node, source unit (.parsed d i) = some node → ∃ value,
      Evaluates meaning environment context.node? (.parsed d i) value := by
  induction i using Nat.strong_induction_on with
  | _ i ih =>
    intro node read
    rcases Nat.eq_zero_or_pos i with rfl | notFirst
    · exact root node read
    · obtain ⟨j, parent, parentRead, mem⟩ := exists_parent read notFirst
      obtain ⟨_, _, _, _, same, same', less, _⟩ := source_child parentRead mem
      obtain ⟨rfl, rfl⟩ := Ref.parsed.inj same
      obtain ⟨-, rfl⟩ := Ref.parsed.inj same'
      obtain ⟨value, evaluates⟩ := ih j less parent parentRead
      obtain ⟨-, values, operands, -⟩ := (evaluates_parsed switched parentRead).mp evaluates
      obtain ⟨slot, isSlot, isChild⟩ := mem_children.mp mem
      obtain ⟨part, -, operand⟩ := exists_right operands isSlot
      rw [isChild] at operand
      cases last : lastEdit edits (.parsed d i) with
      | none =>
        rw [switched.unmoved _ last] at operand
        exact ⟨part, operand⟩
      | some edit =>
        obtain ⟨new, -, -, -, chosen⟩ := evaluates_switch switched last
        have arm := ((chosen D meaning environment part).mp operand).2
        rw [unset edit (mem_of_lastEdit last).1, if_neg Bool.false_ne_true] at arm
        exact ⟨part, arm⟩

theorem evaluates_root {heap : Heap} (alike : EvaluatesAlike environment heap (source unit) ref)
    (node : Node Ref)
    (read : source unit ref = some node) : ∃ term, Evaluates Term.node environment heap ref term := by
  obtain ⟨term, evaluates⟩ := source_total read
  exact ⟨term, (alike Term Term.node term).mpr evaluates⟩

theorem reaches_declOf {below : Ref} (reached : Reaches (source unit) ref below) :
    declOf below = declOf ref := by
  induction reached with
  | refl => rfl
  | tail _ step ih =>
    obtain ⟨parent, isParent, isChild⟩ := step
    obtain ⟨d, i, j, _, rfl, rfl, -⟩ := source_child isParent isChild
    exact ih

theorem replaceable_of_alike {d j : Nat} {edit : Edit}
    (switched : Switched (source unit) edits switch context)
    (alters : ∀ edit ∈ edits, Alters unit edit) (inPlace : InPlace unit edit)
    (target : edit.target = .parsed d j) (last : lastEdit edits edit.target = some edit)
    (unset : ∀ edit ∈ edits, environment edit.identifier = false)
    (alike : EvaluatesAlike environment context.node? (source unit) (.parsed d 0)) :
      Replaceable unit edit := by
  obtain ⟨d', i, parent, parentRead, mem, -⟩ := inPlace
  obtain ⟨_, _, _, _, same, isTarget, _, _⟩ := source_child parentRead mem
  obtain ⟨rfl, rfl⟩ := Ref.parsed.inj same
  obtain ⟨rfl, -⟩ := Ref.parsed.inj (isTarget.symm.trans target)
  obtain ⟨term, evaluates⟩ := switched.all_evaluate unset (evaluates_root alike) i parent parentRead
  obtain ⟨fits, terms, operands, -⟩ := (evaluates_parsed switched parentRead).mp evaluates
  obtain ⟨new, mutated, -, -, chosen⟩ := evaluates_switch switched last
  by_cases removed : edit.effect = .removed
  · intro node _
    rw [removed]
    intro ref other otherRead slot isSlot isChild
    have isParent := parent_unique parentRead mem otherRead (mem_children.mpr ⟨slot, isSlot, isChild⟩)
    rw [← isParent] at otherRead
    obtain rfl := Option.some.inj (parentRead.symm.trans otherRead)
    exact ((fits_switched switched alters parentRead isSlot).mp (fits slot isSlot)).1 edit
      (by rw [isChild]; exact last)
      removed
  · obtain ⟨slot, isSlot, isChild⟩ := mem_children.mp mem
    obtain ⟨part, -, operand⟩ := exists_right operands isSlot
    rw [isChild] at operand
    exact (replaceable_iff switched mutated removed).mp (((chosen _ _ _ part).mp operand).1 removed)

theorem outside_of_alike {d j : Nat} {edit : Edit} (switched : Switched (source unit) edits switch context)
    (alters : ∀ edit ∈ edits, Alters unit edit) (mem : edit ∈ edits) (target : edit.target = .parsed d j)
    (unset : ∀ edit ∈ edits, environment edit.identifier = false)
    (alike : EvaluatesAlike environment context.node? (source unit) (.parsed d 0)) :
      OutsideConstants unit edit := by
  intro ref parent parentRead slot isSlot constant reached
  obtain ⟨d', i, k, child, rfl, isChild, _⟩ := source_slot parentRead isSlot
  have same := reaches_declOf reached
  rw [target, isChild] at same
  obtain rfl : d = d' := same
  obtain ⟨term, evaluates⟩ := switched.all_evaluate unset (evaluates_root alike) i parent parentRead
  obtain ⟨fits, -⟩ := (evaluates_parsed switched parentRead).mp evaluates
  exact ((fits_switched switched alters parentRead isSlot).mp (fits slot isSlot)).2 constant edit mem reached

/-- An earlier edit of a target is one of an initial value, which is not removed. -/
theorem removable_of_replaceable (inPlace : ∀ edit ∈ edits, InPlace unit edit) (once : Once unit edits)
    (replaceable : ∀ edit, lastEdit edits edit.target = some edit → Replaceable unit edit) :
      Removable unit edits := by
  intro edit mem removed ref parent parentRead slot isSlot isChild
  obtain ⟨last, isLast⟩ := exists_lastEdit mem rfl
  obtain ⟨_, _, child, childNode, _, _, _, there, _⟩ := source_slot parentRead isSlot
  rw [isChild] at there
  by_cases same : edit = last
  · subst same
    have place := replaceable edit isLast childNode there
    rw [removed] at place
    exact place ref parent parentRead slot isSlot isChild
  · exfalso
    obtain ⟨-, target⟩ := mem_of_lastEdit isLast
    have initial := lastEdit_pairwise once isLast mem rfl same target.symm
    obtain ⟨_, _, node, read, isIn, isVar⟩ := initial
    obtain ⟨_, _, node', read', isIn', place⟩ := inPlace edit mem
    rw [target] at isIn
    obtain ⟨rfl, rfl⟩ := Ref.parsed.inj (parent_unique read isIn read' isIn')
    obtain rfl := Option.some.inj (read.symm.trans read')
    rcases place with isStmt | ⟨-, stays⟩
    · rw [not_stmt_of_varDecl isVar] at isStmt
      cases isStmt
    · exact stays removed

end

section
variable {isValidMutation : MutatorKind → Bool} {endOfToken : Location → Int32 × Int32}
  {unit : List DeclGroupRef}

theorem setEdits_unset {edits : List Edit} {environment : Text → Bool}
    (unset : ∀ edit ∈ edits, environment edit.identifier = false) : setEdits environment edits = [] := by
  apply List.filter_eq_nil_iff.mpr
  intro edit mem
  rw [unset edit mem]
  exact Bool.false_ne_true

theorem setEdits_only {edits : List Edit} {environment : Text → Bool} {identifier : Text}
    (only : ∀ edit ∈ edits, environment edit.identifier = true ↔ edit.identifier = identifier) :
    setEdits environment edits = edits.filter (·.identifier = identifier) := by
  apply List.filter_congr
  intro edit mem
  exact Bool.eq_iff_iff.mpr ((only edit mem).trans decide_eq_true_iff.symm)

theorem Switchable.switchesCorrectly (switchable : Switchable isValidMutation endOfToken unit) :
    SwitchesCorrectly isValidMutation endOfToken unit := by
  obtain ⟨performable, replaceable, outside, applied⟩ := switchable
  rcases @parseAST_ends isValidMutation endOfToken unit with
    ⟨-, context, isResult, switch, switched⟩ | ⟨fails, -⟩
  · have inPlace : ∀ edit ∈ recordedEdits isValidMutation endOfToken unit, InPlace unit edit :=
      performable.good.inPlace
    have unmoved (d : Nat) : lastEdit (recordedEdits isValidMutation endOfToken unit) (.parsed d 0) = none :=
      lastEdit_eq_none.mpr fun edit mem => (inPlace edit mem).not_root d
    have removable := removable_of_replaceable inPlace performable.good.once replaceable
    refine ⟨context, isResult, ?_⟩
    intro d function found isFunction environment
    have alike := @alike_iff _ _ _ _ environment d 0 switched (fun edit => recorded_alters)
      recorded_again removable
      replaceable outside (unmoved d)
    constructor
    · intro unset
      rw [setEdits_unset unset, editedHeap_nil] at alike
      apply alike.mpr
      intro ref _ edit last
      cases last
    · intro recorded mem only
      rw [setEdits_only only] at alike
      exact alike.mpr (applied recorded mem d function found isFunction)
  · exact absurd performable fails

end

def spot (line column : Int32) : Location := .file ⟨"a.cpp".toList, line, column, false⟩

def spans (row operator first last : Int32) : NodeLocations :=
  ⟨spot row operator, spot row operator, spot row first, spot row last⟩

/-- `int f() { return 1 + 2; }` -/
def firstSum : TopLevelDecl where
  isFunction := true
  name := "f".toList
  location := spot 1 5
  nodes := [
    ⟨⟨.decl 0, .other 0, .rValue⟩, [⟨.stmt, 1⟩], spans 1 5 1 25⟩,
    ⟨⟨.compoundStmt, .void, .rValue⟩, [⟨.stmt, 2⟩], spans 1 9 9 25⟩,
    ⟨⟨.stmt 0, .void, .rValue⟩, [⟨.expr, 3⟩], spans 1 11 11 22⟩,
    ⟨⟨.binaryOperator .add, .int, .rValue⟩, [⟨.expr, 4⟩, ⟨.expr, 5⟩], spans 1 20 18 22⟩,
    ⟨⟨.literal 1, .int, .rValue⟩, [], spans 1 18 18 18⟩,
    ⟨⟨.literal 2, .int, .rValue⟩, [], spans 1 22 22 22⟩]
  headed := by decide
  shaped := by decide
  ordered := by decide
  filled := by decide
  single := by decide
  rooted := by decide

/-- `int s() { return 1 + 2; }` -/
def secondSum : TopLevelDecl where
  isFunction := true
  name := "s".toList
  location := spot 2 5
  nodes := [
    ⟨⟨.decl 0, .other 0, .rValue⟩, [⟨.stmt, 1⟩], spans 2 5 1 25⟩,
    ⟨⟨.compoundStmt, .void, .rValue⟩, [⟨.stmt, 2⟩], spans 2 9 9 25⟩,
    ⟨⟨.stmt 0, .void, .rValue⟩, [⟨.expr, 3⟩], spans 2 11 11 22⟩,
    ⟨⟨.binaryOperator .add, .int, .rValue⟩, [⟨.expr, 4⟩, ⟨.expr, 5⟩], spans 2 20 18 22⟩,
    ⟨⟨.literal 1, .int, .rValue⟩, [], spans 2 18 18 18⟩,
    ⟨⟨.literal 2, .int, .rValue⟩, [], spans 2 22 22 22⟩]
  headed := by decide
  shaped := by decide
  ordered := by decide
  filled := by decide
  single := by decide
  rooted := by decide

def endOfOperator (operator : Location) : Int32 × Int32 :=
  (operator.getExpansionLoc.line, operator.getExpansionLoc.column + 1)

end Mull.Frontend
