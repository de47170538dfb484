import Mull.JunkDetection.Candidates

/-! Whether the expression that stands for a mutation is around the mutated location. -/

namespace Mull.JunkDetection
open Base

section
variable {Loc : Type} [LinearOrder Loc]

def IsInitialiserAt (decl : Decl Loc) (location : Loc) (stmt : Stmt Loc) : Prop :=
  ∃ parent declared, (parent, Node.varDecl declared) ∈ decl.nodes ∧ declared.getLocation = some location ∧
    declared.getInit = some stmt

def TiedToLocation (kind : MutatorKind) (parameters : VisitorParameters Loc) (decl : Decl Loc) : Prop :=
  ∀ stmt, findMutantExpression kind parameters decl = .ok (some stmt) →
    stmt.Contains parameters.sourceLocation ∨
      kind = .cxxInitConst ∧ IsInitialiserAt decl parameters.sourceLocation stmt

/-- Of the scalars any literal that is returned or an operand may be chosen, and by its range an expression
may be accepted that ends in another file or in a macro. Neither does harm if it is passed over. -/
def Located (kind : MutatorKind) (parameters : VisitorParameters Loc) (decl : Decl Loc) : Prop :=
  match visitorFor kind with
  | some .scalarValueVisitor =>
    PassedOver (fun _ => true) (fun _ => 0) (Stmt.Contains · parameters.sourceLocation)
      (MutantVisitor.scalarValueVisitor.candidates parameters.sourceLocation decl)
  | some .replaceCallVisitor =>
    PassedOver (accepts parameters) (extent parameters) (Stmt.Contains · parameters.sourceLocation)
      (MutantVisitor.replaceCallVisitor.candidates parameters.sourceLocation decl)
  | some .negateConditionVisitor =>
    PassedOver (accepts parameters) (extent parameters) (Stmt.Contains · parameters.sourceLocation)
      (MutantVisitor.negateConditionVisitor.candidates parameters.sourceLocation decl)
  | _ => True

theorem contains_of_binaryOperatorAt {opcode : BinaryOperatorKind} {location : Loc}
    {parent : Option (Node Loc)}
    {node : Node Loc} {stmt : Stmt Loc} (picked : binaryOperatorAt opcode location parent node = some stmt) :
    stmt.Contains location := by
  unfold binaryOperatorAt at picked
  split at picked
  · split at picked
    · split at picked
      · cases picked
      · split at picked
        · rename_i own
          rw [← Option.some.inj picked]
          exact Stmt.contains_getLoc own
        · cases picked
    · cases picked
  · cases picked

theorem contains_of_unaryOperatorAt {opcode : UnaryOperatorKind} {location : Loc} {parent : Option (Node Loc)}
    {node : Node Loc} {stmt : Stmt Loc} (picked : unaryOperatorAt opcode location parent node = some stmt) :
    stmt.Contains location := by
  unfold unaryOperatorAt at picked
  split at picked
  · split at picked
    · split at picked
      · cases picked
      · split at picked
        · rename_i own
          rw [← Option.some.inj picked]
          exact Stmt.contains_getLoc own
        · cases picked
    · cases picked
  · cases picked

theorem voidCallAt_some {type : Option TypeClass} {own stmt : Stmt Loc} {location : Option Loc}
    {sourceLocation : Loc} (valid : voidCallAt type own location sourceLocation = some stmt) :
    location = some sourceLocation ∧ own = stmt := by
  unfold voidCallAt at valid
  split at valid
  · split at valid
    · rename_i same
      exact ⟨same, Option.some.inj valid⟩
    · cases valid
  · cases valid

theorem contains_of_callBeginningAt {location : Loc} {parent : Option (Node Loc)} {node : Node Loc}
    {stmt : Stmt Loc}
    (picked : callBeginningAt location parent node = some stmt) : stmt.Contains location := by
  unfold callBeginningAt at picked
  split at picked
  · split at picked
    all_goals first
      | (obtain ⟨own, rfl⟩ := voidCallAt_some picked
         exact Stmt.contains_getBegin own)
      | cases picked
  · cases picked

theorem contains_of_callNamedAt {location : Loc} {parent : Option (Node Loc)} {node : Node Loc}
    {stmt : Stmt Loc} (picked : callNamedAt location parent node = some stmt) : stmt.Contains location := by
  unfold callNamedAt at picked
  split at picked
  · split at picked
    all_goals first
      | (obtain ⟨own, rfl⟩ := voidCallAt_some picked
         exact Stmt.contains_getLoc own)
      | cases picked
  · cases picked

theorem variableAt_some {location : Loc} {parent : Option (Node Loc)} {node : Node Loc} {stmt : Stmt Loc}
    (picked : variableAt location parent node = some stmt) :
    ∃ declared, node = .varDecl declared ∧ declared.getLocation = some location ∧
    declared.getInit = some stmt := by
  unfold variableAt at picked
  split at picked
  · rename_i declared
    split at picked
    · cases picked
    · split at picked
      · cases picked
      · split at picked
        · cases picked
        · split at picked
          · rename_i own
            exact ⟨declared, rfl, own, picked⟩
          · cases picked
  · cases picked

theorem picked_of_head {visitor : MutantVisitor} {location : Loc} {decl : Decl Loc} {stmt : Stmt Loc}
    (head : (visitor.candidates location decl).head? = some stmt) :
    ∃ parent node, (parent, node) ∈ decl.nodes ∧ visitor.pick location parent node = some stmt := by
  obtain ⟨⟨parent, node⟩, mem, picked⟩ := List.mem_filterMap.mp (List.mem_of_head? head)
  exact ⟨parent, node, mem, picked⟩

theorem kind_of_varDeclVisitor {kind : MutatorKind} (handled : visitorFor kind = some .varDeclVisitor) :
    kind = .cxxInitConst := by
  cases kind <;> first | rfl | cases handled

theorem tiedToLocation_of_choice {kind : MutatorKind} {visitor : MutantVisitor}
    {parameters : VisitorParameters Loc} {decl : Decl Loc} (handled : visitorFor kind = some visitor) :
    TiedToLocation kind parameters decl ↔
      ∀ stmt, visitor.choose parameters (visitor.candidates parameters.sourceLocation decl) = some stmt →
        stmt.Contains parameters.sourceLocation ∨
          visitor = .varDeclVisitor ∧ IsInitialiserAt decl parameters.sourceLocation stmt := by
  have init : kind = .cxxInitConst ↔ visitor = .varDeclVisitor := by
    constructor
    · rintro rfl
      exact (Option.some.inj handled).symm
    · rintro rfl
      exact kind_of_varDeclVisitor handled
  simp only [TiedToLocation, findMutantExpression_of_visitor handled, Except.ok.injEq, init]

/-- The expression found is tied to the location exactly if what is not around it is passed over. -/
theorem tiedToLocation_iff (kind : MutatorKind) (parameters : VisitorParameters Loc) (decl : Decl Loc) :
    TiedToLocation kind parameters decl ↔ Located kind parameters decl := by
  unfold Located
  cases handled : visitorFor kind with
  | none =>
    refine iff_of_true (fun stmt found => ?_) trivial
    rw [findMutantExpression, handled] at found
    cases found
  | some visitor =>
    rw [tiedToLocation_of_choice handled]
    cases visitor with
    | scalarValueVisitor =>
      refine Iff.trans ?_ (chosen_good_iff _)
      simp [MutantVisitor.choose]
    | replaceCallVisitor =>
      refine Iff.trans ?_ (chosen_good_iff _)
      simp [MutantVisitor.choose]
    | negateConditionVisitor =>
      refine Iff.trans ?_ (chosen_good_iff _)
      simp [MutantVisitor.choose]
    | removeVoidFunctionVisitor =>
      refine iff_of_true (fun stmt head => .inl ?_) trivial
      obtain ⟨parent, node, _, picked⟩ := picked_of_head head
      rcases Option.or_eq_some_iff.mp picked with begins | ⟨_, named⟩
      · exact contains_of_callBeginningAt begins
      · exact contains_of_callNamedAt named
    | binaryVisitor opcode =>
      refine iff_of_true (fun stmt head => .inl ?_) trivial
      obtain ⟨parent, node, _, picked⟩ := picked_of_head head
      exact contains_of_binaryOperatorAt picked
    | unaryVisitor opcode =>
      refine iff_of_true (fun stmt head => .inl ?_) trivial
      obtain ⟨parent, node, _, picked⟩ := picked_of_head head
      exact contains_of_unaryOperatorAt picked
    | varDeclVisitor =>
      refine iff_of_true (fun stmt head => .inr ⟨rfl, ?_⟩) trivial
      obtain ⟨parent, node, mem, picked⟩ := picked_of_head head
      obtain ⟨declared, rfl, own, init⟩ := variableAt_some picked
      exact ⟨parent, declared, mem, own, init⟩

/-- `b + 2; return 1`, the operator at 5. -/
def sumAndReturn : Decl Nat where
  getSourceRange := ⟨0, 18, by decide⟩
  hasBody := true
  children := [
    .node (.stmt ⟨.binaryOperator .add, some ⟨3, 7, by decide⟩, some 5, by simp⟩) [
      .node (.stmt ⟨.other, some ⟨3, 3, by decide⟩, none, by simp⟩) [],
      .node (.stmt ⟨.integerLiteral, some ⟨7, 7, by decide⟩, none, by simp⟩) []],
    .node (.stmt ⟨.returnStmt, some ⟨10, 17, by decide⟩, none, by simp⟩) [
      .node (.stmt ⟨.integerLiteral, some ⟨17, 17, by decide⟩, none, by simp⟩) []]]

/-- The scalar found for the sum is the one that is returned. -/
theorem not_tiedToLocation_scalar :
    ¬ TiedToLocation .scalarValueMutator ⟨singleFile, 5⟩ sumAndReturn := by
  intro tied
  have found : findMutantExpression .scalarValueMutator ⟨singleFile, 5⟩ sumAndReturn =
      .ok (some ⟨.integerLiteral, some ⟨17, 17, by decide⟩, none, by simp⟩) := rfl
  rcases tied _ found with ⟨range, own, first, _⟩ | ⟨other, _⟩
  · obtain rfl := Option.some.inj own
    exact absurd first (by decide)
  · cases other

end

end Mull.JunkDetection
