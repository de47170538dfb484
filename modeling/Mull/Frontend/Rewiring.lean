import Mull.Frontend.Switched

/-! Putting a switch in the place of a node: when that succeeds, and what the AST is like then. -/

namespace Mull.Frontend
open Base

theorem lastEdit_append (edits : List Edit) (edit : Edit) (ref : Ref) :
    lastEdit (edits ++ [edit]) ref = if edit.target = ref then some edit else lastEdit edits ref := by
  unfold lastEdit
  rw [List.filter_append, List.filter_singleton]
  by_cases here : edit.target = ref
  · rw [if_pos here, decide_eq_true here, cond_true, List.getLast?_append]
    rfl
  · rw [if_neg here, decide_eq_false here, cond_false, List.append_nil]

theorem lastEdit_eq_none {edits : List Edit} {ref : Ref} :
    lastEdit edits ref = none ↔ ∀ edit ∈ edits, edit.target ≠ ref := by
  unfold lastEdit
  rw [List.getLast?_eq_none_iff, List.filter_eq_nil_iff]
  simp

theorem mem_of_lastEdit {edits : List Edit} {ref : Ref} {edit : Edit}
    (last : lastEdit edits ref = some edit) :
    edit ∈ edits ∧ edit.target = ref := by
  have mem := List.mem_filter.mp (List.mem_of_getLast? last)
  exact ⟨mem.1, of_decide_eq_true mem.2⟩

theorem exists_lastEdit {edits : List Edit} {ref : Ref} {edit : Edit} (mem : edit ∈ edits)
    (target : edit.target = ref) :
    ∃ last, lastEdit edits ref = some last := by
  cases found : lastEdit edits ref with
  | none => exact absurd target (lastEdit_eq_none.mp found edit mem)
  | some last => exact ⟨last, rfl⟩

theorem lastEdit_pairwise {R : Edit → Edit → Prop} {edits : List Edit} (order : edits.Pairwise R) {ref : Ref}
    {edit last : Edit}
    (isLast : lastEdit edits ref = some last) (mem : edit ∈ edits) (target : edit.target = ref)
    (other : edit ≠ last) :
    R edit last := by
  obtain ⟨init, parts⟩ := List.getLast?_eq_some_iff.mp isLast
  have among : edit ∈ init ++ [last] := by
    rw [← parts]
    exact List.mem_filter.mpr ⟨mem, decide_eq_true target⟩
  have ordered : (init ++ [last]).Pairwise R := by
    rw [← parts]
    exact order.filter _
  rcases List.mem_append.mp among with before | here
  · exact (List.pairwise_append.mp ordered).2.2 edit before last List.mem_cons_self
  · exact absurd (List.mem_singleton.mp here) other

section
variable {environment : Text → Bool} {edits : List Edit} {ref : Ref} {edit : Edit}

theorem mem_setEdits : edit ∈ setEdits environment edits ↔ edit ∈ edits ∧
    environment edit.identifier = true :=
  List.mem_filter

theorem lastEdit_unset (none : lastEdit (setEdits environment edits) ref = none)
    (last : lastEdit edits ref = some edit) :
    environment edit.identifier = false := by
  obtain ⟨mem, target⟩ := mem_of_lastEdit last
  apply Bool.eq_false_iff.mpr
  intro set
  exact lastEdit_eq_none.mp none edit (mem_setEdits.mpr ⟨mem, set⟩) target

theorem lastEdit_set (last : lastEdit edits ref = some edit) (set : environment edit.identifier = true) :
    lastEdit (setEdits environment edits) ref = some edit := by
  obtain ⟨init, parts⟩ := List.getLast?_eq_some_iff.mp last
  unfold lastEdit setEdits
  rw [List.filter_comm, parts, List.filter_append, List.filter_singleton, set, cond_true,
    List.getLast?_concat]

end

section
variable {switch : Ref → Ref} {target ref : Ref}

theorem setChild_found {slots : List (Slot Ref)} (mem : target ∈ slots.map Slot.child)
    (single : (slots.map Slot.child).Nodup) (unmoved : switch target = target)
    (only : ∀ child, switch child = target → child = target) :
    setChild target ref (slots.map fun slot => ⟨slot.expects, switch slot.child⟩) =
      some (slots.map fun slot => ⟨slot.expects, Function.update switch target ref slot.child⟩) := by
  induction slots with
  | nil => cases mem
  | cons slot slots ih =>
    rw [List.map_cons, List.nodup_cons] at single
    rw [List.map_cons, List.map_cons, setChild]
    by_cases here : slot.child = target
    · rw [if_pos (by rw [here, unmoved]), here, Function.update_self]
      congr 2
      apply List.map_congr_left
      intro other isIn
      have different : other.child ≠ target := by
        rintro same
        rw [here, ← same] at single
        exact single.1 (List.mem_map_of_mem isIn)
      rw [Function.update_of_ne different]
    · have rest : target ∈ slots.map Slot.child := by
        rcases List.mem_cons.mp mem with same | rest
        · exact absurd same.symm here
        · exact rest
      rw [if_neg fun same => here (only slot.child same), ih rest single.2, Function.update_of_ne here]
      rfl

theorem setChild_missing {slots : List (Slot Ref)} (gone : ∀ child, switch child ≠ target) :
    setChild target ref (slots.map fun slot => ⟨slot.expects, switch slot.child⟩) = none := by
  induction slots with
  | nil => rfl
  | cons slot slots ih =>
    rw [List.map_cons, setChild, if_neg (gone slot.child), ih]
    rfl

end

def Asked (unit : List DeclGroupRef) (bound : Nat) (context : ASTContext) : Prop :=
  ∀ child parent, (context.parentMap.getD context.buildParentMap).lookup child = some parent ↔
    ∃ d i node, parent = .parsed d i ∧ d < bound ∧ source unit parent = some node ∧ child ∈ node.children

structure Performed (unit : List DeclGroupRef) (bound : Nat) (edits : List Edit)
    (context : ASTContext) : Prop where
  switched : ∃ switch, Switched (source unit) edits switch context
  asked : Asked unit bound context
  list : ∀ ref ∈ context.parsed, ∃ d i, ref = .parsed d i

/-- The parent of the target is known, and the target can be found there. -/
def Rewires (unit : List DeclGroupRef) (bound : Nat) (edits : List Edit) (edit : Edit) : Prop :=
  ∃ d i node, d < bound ∧ source unit (.parsed d i) = some node ∧ edit.target ∈ node.children ∧
    (node.kind.isStmt = true ∧ lastEdit edits edit.target = none ∨ node.kind.isVarDecl = true ∧
      edit.effect ≠ .removed)

def Outcome (unit : List DeclGroupRef) (bound : Nat) (edits : List Edit) (edit : Edit) (context : ASTContext)
    (succeeds : Prop) (result : Option ASTContext) : Prop :=
  (succeeds ∧ ∃ context', result = some context' ∧ Performed unit bound (edits ++ [edit]) context' ∧
    context'.parentMap.isSome = true ∧ context'.parsed = context.parsed) ∨
  (¬ succeeds ∧ result = none)

/-- The parent of the target is known, but is neither a statement nor a variable that can take the switch. -/
def Refuses (unit : List DeclGroupRef) (bound : Nat) (edit : Edit) : Prop :=
  ∃ d i node, d < bound ∧ source unit (.parsed d i) = some node ∧ edit.target ∈ node.children ∧
    node.kind.isStmt = false ∧ ¬ (node.kind.isVarDecl = true ∧ edit.effect ≠ .removed)

/-- A null pointer is dereferenced or asserted not to be one, or something is asserted to be implemented. -/
def PerformFailure.isNullOrNotImplemented : PerformFailure → Bool
  | nullDereference | notImplemented | errorNotImplemented | nullParentStmt => true
  | notVar | notAmongChildren | shouldNotReachHere => false

/-- What putting a switch in the place of the target comes to. -/
structure Rewired (unit : List DeclGroupRef) (bound : Nat) (edits : List Edit) (edit : Edit)
    (context : ASTContext) (result : Except PerformFailure ASTContext) : Prop where
  outcome : Outcome unit bound edits edit context (Rewires unit bound edits edit) result.toOption
  failure : ∀ failure, result = .error failure →
    (failure.isNullOrNotImplemented = true ↔ Refuses unit bound edit)

section
variable {unit : List DeclGroupRef} {bound : Nat} {edits : List Edit} {edit : Edit} {switch : Ref → Ref}
  {context context' : ASTContext} {sw : Ref}

theorem Rewires.not_refuses (rewires : Rewires unit bound edits edit) : ¬ Refuses unit bound edit := by
  rintro ⟨d', i', other, _, read', mem', noStmt, noVar⟩
  obtain ⟨d, i, node, _, read, mem, place⟩ := rewires
  obtain ⟨rfl, rfl⟩ := Ref.parsed.inj (parent_unique read mem read' mem')
  obtain rfl := Option.some.inj (read'.symm.trans read)
  rcases place with ⟨isStmt, -⟩ | isVar
  · rw [noStmt] at isStmt
    cases isStmt
  · exact noVar isVar

theorem IsSwitch.isCreated {original heap : Heap} (chooses : IsSwitch original heap edit sw) :
    ∃ n, sw = .created n := by
  cases chooses with
  | expr | stmt => exact ⟨_, rfl⟩

theorem Switched.unmoved_or_created (switched : Switched (source unit) edits switch context) (ref : Ref) :
    (lastEdit edits ref = none ∧ switch ref = ref) ∨ lastEdit edits ref ≠ none ∧ ∃ n,
    switch ref = .created n := by
  cases last : lastEdit edits ref with
  | none => exact .inl ⟨rfl, switched.unmoved ref last⟩
  | some edit => exact .inr ⟨by simp, (switched.moved ref edit last).isCreated⟩

theorem Extends.buildParentMap_eq (grows : Extends context context')
    (list : ∀ ref ∈ context.parsed, ∃ d i, ref = .parsed d i) :
      context'.buildParentMap = context.buildParentMap := by
  unfold ASTContext.buildParentMap
  rw [grows.list]
  apply List.flatMap_congr
  intro ref mem
  obtain ⟨d, i, rfl⟩ := list ref mem
  rw [grows.parsed]

theorem Performed.extend (performed : Performed unit bound edits context) (grows : Extends context context') :
    Performed unit bound edits context' where
  switched := by
    obtain ⟨switch, switched⟩ := performed.switched
    exact ⟨switch, switched.extend grows⟩
  asked := by
    unfold Asked
    rw [grows.parentMap, grows.buildParentMap_eq performed.list]
    exact performed.asked
  list := by
    rw [grows.list]
    exact performed.list

theorem Switched.write (switched : Switched (source unit) edits switch context)
    (chooses : IsSwitch (source unit) context.node? edit sw) {d i : Nat} {node : Node Ref}
    (read : source unit (.parsed d i) = some node) (mem : edit.target ∈ node.children)
    {slots : List (Slot Ref)} (rewired : slots = node.slots.map fun slot => ⟨slot.expects,
      Function.update switch edit.target sw slot.child⟩) :
    Switched (source unit) (edits ++ [edit]) (Function.update switch edit.target sw)
      (context.write (.parsed d i) slots) := by
  have created (n : Nat) : (context.write (.parsed d i) slots).node? (.created n) =
    context.node? (.created n) := by
    apply context.write_other
    intro same
    cases same
  have kept (n : Nat) (node : Node Ref) (there : context.node? (.created n) = some node) :
      (context.write (.parsed d i) slots).node? (.created n) = some node := by
    rw [created, there]
  constructor
  · intro ref last
    rw [lastEdit_append] at last
    split at last
    · cases last
    · rename_i other
      rw [Function.update_of_ne (Ne.symm other)]
      exact switched.unmoved ref last
  · intro ref edit' last
    rw [lastEdit_append] at last
    split at last
    · rename_i here
      obtain rfl := Option.some.inj last
      rw [← here, Function.update_self]
      exact chooses.mono kept
    · rename_i other
      rw [Function.update_of_ne (Ne.symm other)]
      exact (switched.moved ref edit' last).mono kept
  · intro d' i'
    by_cases here : Ref.parsed d' i' = .parsed d i
    · rw [here, context.write_self, switched.parsed, read, rewired]
      rfl
    · rw [context.write_other here, switched.parsed]
      cases other : source unit (.parsed d' i') with
      | none => rfl
      | some node' =>
        have unchanged : node'.map (Function.update switch edit.target sw) = node'.map switch := by
          unfold Node.map
          congr 1
          apply List.map_congr_left
          intro slot isSlot
          have different : slot.child ≠ edit.target := by
            intro same
            have isChild : edit.target ∈ node'.children := mem_children.mpr ⟨slot, isSlot, same⟩
            exact here (parent_unique other isChild read mem)
          rw [Function.update_of_ne different]
        rw [Option.map_some, Option.map_some, unchanged]
  · intro n above
    rw [created]
    exact switched.fresh n above

theorem Switched.only (switched : Switched (source unit) edits switch context) {d i : Nat} {child : Ref}
    (same : switch child = .parsed d i) : child = .parsed d i := by
  rcases switched.unmoved_or_created child with ⟨_, unmoved⟩ | ⟨_, n, created⟩
  · exact unmoved.symm.trans same
  · rw [created] at same
    cases same

theorem varDecl_children {node : Node Ref} {ref target : Ref} (read : source unit ref = some node)
    (isVar : node.kind.isVarDecl = true) (mem : target ∈ node.children) :
    ∃ expects, node.slots = [⟨expects, target⟩] ∧ (expects = .expr ∨ expects = .constant) := by
  have takes := source_takes read
  obtain ⟨slot, isSlot, rfl⟩ := mem_children.mp mem
  cases kind : node.kind with
  | varDecl varKind =>
    rw [kind] at takes
    cases slots : node.slots with
    | nil =>
      rw [slots] at isSlot
      cases isSlot
    | cons first rest =>
      rw [slots] at takes isSlot
      have one : (first.expects = .expr ∨ first.expects = .constant) ∧ rest = [] := by
        simp only [NodeKind.takes, List.map_cons, Bool.or_eq_true, beq_iff_eq, reduceCtorEq, List.cons.injEq,
          List.map_eq_nil_iff, false_or] at takes
        exact ⟨takes.imp And.left And.left, takes.elim And.right And.right⟩
      obtain ⟨expects, rfl⟩ := one
      obtain rfl := List.mem_singleton.mp isSlot
      exact ⟨slot.expects, rfl, expects⟩
  | _ =>
    rw [kind] at isVar
    cases isVar

/-- A switch goes where the parent is known: to a place in a statement that was not switched before, or to the
initial value of a variable. -/
theorem rewire (performed : Performed unit bound edits context)
    (chooses : IsSwitch (source unit) context.node? edit sw) :
    Rewired unit bound edits edit context
      (replaceChild context (decide (edit.effect ≠ .removed)) edit.target sw) := by
  obtain ⟨switch, switched⟩ := performed.switched
  cases found : (context.parentMap.getD context.buildParentMap).lookup edit.target with
  | none =>
    have unknown {d i : Nat} {node : Node Ref} (below : d < bound)
      (read : source unit (.parsed d i) = some node) :
        edit.target ∉ node.children := by
      intro mem
      rw [(performed.asked edit.target (.parsed d i)).mpr ⟨d, i, node, rfl, below, read, mem⟩] at found
      cases found
    rw [replaceChild_missing found]
    refine ⟨.inr ⟨?_, rfl⟩, ?_⟩
    · rintro ⟨d, i, node, below, read, mem, _⟩
      exact unknown below read mem
    · rintro _ ⟨⟩
      refine iff_of_false (by decide) ?_
      rintro ⟨d, i, node, below, read, mem, _⟩
      exact unknown below read mem
  | some parent =>
    obtain ⟨d, i, node, rfl, below, read, mem⟩ := (performed.asked edit.target parent).mp found
    have now : context.node? (.parsed d i) = some (node.map switch) := by
      rw [switched.parsed, read]
      rfl
    have only {d' i' : Nat} {other : Node Ref} (read' : source unit (.parsed d' i') = some other)
        (mem' : edit.target ∈ other.children) : other = node := by
      obtain ⟨rfl, rfl⟩ := Ref.parsed.inj (parent_unique read mem read' mem')
      exact Option.some.inj (read'.symm.trans read)
    have asked : Switched (source unit) edits switch (context.getParents edit.target).2 :=
      ⟨switched.unmoved, switched.moved, switched.parsed, switched.fresh⟩
    have done {slots : List (Slot Ref)} (rewired : slots = node.slots.map fun slot =>
        ⟨slot.expects, Function.update switch edit.target sw slot.child⟩) :
        Performed unit bound (edits ++ [edit])
          ((context.getParents edit.target).2.write (.parsed d i) slots) :=
      ⟨⟨_, asked.write chooses read mem rewired⟩, performed.asked, performed.list⟩
    obtain ⟨_, _, j, _, _, isTarget, _, _⟩ := source_child read mem
    rw [replaceChild_found found now]
    by_cases isStmt : node.kind.isStmt = true
    · rw [if_pos (by exact isStmt)]
      rcases switched.unmoved_or_created edit.target with ⟨first, unmoved⟩ | ⟨again, n, created⟩
      · have replaced : setChild edit.target sw (node.map switch).slots = some (node.slots.map fun slot =>
            ⟨slot.expects, Function.update switch edit.target sw slot.child⟩) := by
          apply setChild_found mem (nodup_children read) unmoved
          intro child same
          rw [isTarget] at same ⊢
          exact switched.only same
        rw [replaced]
        refine ⟨.inl ⟨⟨d, i, node, below, read, mem, .inl ⟨isStmt, first⟩⟩, _, rfl, done rfl, rfl, rfl⟩, ?_⟩
        rintro _ ⟨⟩
      · have missing : setChild edit.target sw (node.map switch).slots = none := by
          apply setChild_missing
          intro child same
          have isChild : child = edit.target := by
            rw [isTarget] at same ⊢
            exact switched.only same
          rw [isChild, created] at same
          rw [isTarget] at same
          cases same
        rw [missing]
        refine ⟨.inr ⟨?_, rfl⟩, ?_⟩
        · rintro ⟨d', i', other, _, read', mem', ⟨_, first⟩ | ⟨isVar, _⟩⟩
          · exact again first
          · rw [only read' mem'] at isVar
            cases kind :
              node.kind <;> simp [kind, NodeKind.isStmt, NodeKind.isDecl, NodeKind.isVarDecl] at isStmt isVar
        · rintro _ ⟨⟩
          refine iff_of_false (by decide) ?_
          rintro ⟨d', i', other, _, read', mem', noStmt, _⟩
          rw [only read' mem', isStmt] at noStmt
          cases noStmt
    · rw [if_neg (by exact isStmt)]
      by_cases isVar : edit.effect ≠ .removed ∧ node.kind.isVarDecl = true
      · obtain ⟨expects, slots, -⟩ := varDecl_children read isVar.2 mem
        rw [if_pos (by simpa using isVar)]
        refine ⟨.inl ⟨⟨d, i, node, below, read, mem, .inr isVar.symm⟩, _, rfl, done ?_, rfl, rfl⟩, ?_⟩
        · rw [Node.map, slots, List.map_singleton, List.map_singleton, List.map_singleton,
          Function.update_self]
        · rintro _ ⟨⟩
      · have refuses : Refuses unit bound edit :=
          ⟨d, i, node, below, read, mem, Bool.eq_false_iff.mpr isStmt, fun both => isVar both.symm⟩
        rw [if_neg (by simpa using isVar)]
        refine ⟨.inr ⟨fun rewires => rewires.not_refuses refuses, rfl⟩, ?_⟩
        rintro _ ⟨⟩
        refine iff_of_true ?_ refuses
        split <;> rfl

end
end Mull.Frontend
