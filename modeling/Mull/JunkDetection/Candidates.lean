import Mull.JunkDetection.Visitors

/-! What each visitor finds: the first of its candidates, or the closest around the location. No visit fails. -/

namespace Mull.JunkDetection
open Base

section
variable {Loc : Type} [LinearOrder Loc]

def accepts (parameters : VisitorParameters Loc) (stmt : Stmt Loc) : Bool :=
  match stmt.getSourceRange with
  | none => false
  | some range => locationInRange parameters.sourceManager range parameters.sourceLocation

def extent (parameters : VisitorParameters Loc) (stmt : Stmt Loc) : Nat :=
  match stmt.getSourceRange with
  | none => 0
  | some range => rangeLength parameters.sourceManager range

def MutantVisitor.pick (visitor : MutantVisitor) (sourceLocation : Loc) : Pick Loc :=
  match visitor with
  | removeVoidFunctionVisitor => fun parent node =>
    (callBeginningAt sourceLocation parent node).or (callNamedAt sourceLocation parent node)
  | replaceCallVisitor => realCall
  | negateConditionVisitor => negation
  | scalarValueVisitor => mutableScalar
  | binaryVisitor opcode => binaryOperatorAt opcode sourceLocation
  | unaryVisitor opcode => unaryOperatorAt opcode sourceLocation
  | varDeclVisitor => variableAt sourceLocation

def MutantVisitor.candidates (visitor : MutantVisitor) (sourceLocation : Loc) (decl : Decl Loc) :
    List (Stmt Loc) :=
  decl.nodes.filterMap fun node => visitor.pick sourceLocation node.1 node.2

def MutantVisitor.choose (visitor : MutantVisitor) (parameters : VisitorParameters Loc)
    (candidates : List (Stmt Loc)) : Found Loc :=
  match visitor with
  | replaceCallVisitor | negateConditionVisitor =>
    candidates.foldl (closer (accepts parameters) (extent parameters)) none
  | scalarValueVisitor => candidates.foldl (closer (fun _ => true) (fun _ => 0)) none
  | _ => candidates.head?

theorem visitOnce_none (pick : Pick Loc) (parent : Option (Node Loc)) (node : Node Loc) :
    visitOnce pick parent node none =
      (pick parent node).elim (.ok (true, none)) fun stmt => .ok (false, some stmt) := by
  unfold visitOnce
  cases pick parent node <;> rfl

theorem visitVoidCall_none (sourceLocation : Loc) (parent : Option (Node Loc)) (node : Node Loc) :
    visitVoidCall sourceLocation parent node none =
      (MutantVisitor.removeVoidFunctionVisitor.pick sourceLocation parent node).elim (.ok (true, none))
        fun stmt => .ok (false, some stmt) := by
  simp only [visitVoidCall, visitOnce_none, MutantVisitor.pick]
  cases callBeginningAt sourceLocation parent node with
  | some stmt => rfl
  | none =>
    rw [Option.none_or]
    exact visitOnce_none _ parent node

/-- Only nodes with a range are kept. -/
def Ranged (best : Found Loc) : Prop := ∀ stmt ∈ best, stmt.getSourceRange.isSome

theorem closer_ranged (parameters : VisitorParameters Loc) {best : Found Loc} (ranged : Ranged best)
    (stmt : Stmt Loc) :
    Ranged (closer (accepts parameters) (extent parameters) best stmt) := by
  rw [closer.eq_def]
  by_cases ok : accepts parameters stmt
  · have own : Ranged (some stmt) := by
      intro s same
      obtain rfl := Option.some.inj same
      cases range : stmt.getSourceRange with
      | none => simp [accepts, range] at ok
      | some range => rfl
    rw [if_pos ok]
    split
    · exact own
    · split
      · exact own
      · exact ranged
  · rw [if_neg ok]
    exact ranged

theorem visitRangeWithASTExpr_eq {parameters : VisitorParameters Loc} {best : Found Loc}
    (ranged : Ranged best) (stmt : Stmt Loc) :
    visitRangeWithASTExpr parameters stmt best = .ok
      (closer (accepts parameters) (extent parameters) best stmt) := by
  unfold visitRangeWithASTExpr
  rw [closer.eq_def, accepts]
  cases range : stmt.getSourceRange with
  | none => rfl
  | some range' =>
    dsimp only
    split
    · cases best with
      | none => rfl
      | some b =>
        obtain ⟨bestRange, eq⟩ := Option.isSome_iff_exists.mp (ranged b rfl)
        simp only [extent, range, eq, isRangeSmallerThanRange]
        split
        · rename_i less
          rw [if_pos (Nat.le_of_lt less)]
          rfl
        · split
          · rename_i more
            rw [if_neg (Nat.not_le.mpr more)]
            rfl
          · rename_i _ same
            rw [if_pos (Nat.not_lt.mp same)]
            rfl
    · rfl

theorem visitRanges_eq {pick : Pick Loc} {parameters : VisitorParameters Loc} {best : Found Loc}
    (ranged : Ranged best) (parent : Option (Node Loc)) (node : Node Loc) :
    visitRanges pick parameters parent node best =
      .ok (true, (pick parent node).elim best (closer (accepts parameters) (extent parameters) best)) := by
  unfold visitRanges
  cases pick parent node with
  | none => rfl
  | some stmt =>
    dsimp only
    rw [visitRangeWithASTExpr_eq ranged]
    rfl

theorem realDerivedCall_some {parent : Option (Node Loc)} {node : Node Loc} {stmt : Stmt Loc}
    (derived : realDerivedCall parent node = some stmt) : realCall parent node = some stmt := by
  cases node with
  | stmt own =>
    simp only [realDerivedCall, realCall] at derived ⊢
    cases eq : own.stmtClass <;> rw [eq] at derived <;> first | exact derived | cases derived
  | varDecl decl => cases derived
  | decl => cases derived

/-- A call that is handled twice is chosen or not as if it were handled once. -/
theorem visitRealCall_eq {parameters : VisitorParameters Loc} {best : Found Loc} (ranged : Ranged best)
    (parent : Option (Node Loc)) (node : Node Loc) :
    visitRealCall parameters parent node best =
      .ok (true, (realCall parent node).elim best (closer (accepts parameters) (extent parameters) best)) := by
  rw [visitRealCall, visitRanges_eq ranged]
  cases derived : realDerivedCall parent node with
  | none =>
    have kept :
      Ranged ((realCall parent node).elim best (closer (accepts parameters) (extent parameters) best)) := by
      cases realCall parent node with
      | none => exact ranged
      | some stmt => exact closer_ranged parameters ranged stmt
    rw [thenVisit, visitRanges_eq kept, derived]
    rfl
  | some stmt =>
    rw [realDerivedCall_some derived]
    dsimp only [thenVisit, Option.elim]
    rw [visitRanges_eq (closer_ranged parameters ranged stmt), derived]
    dsimp only [Option.elim]
    rw [closer_again]

theorem visitScalar_eq (best : Found Loc) (parent : Option (Node Loc)) (node : Node Loc) :
    visitScalar parent node best =
      .ok (true, (mutableScalar parent node).elim best (closer (fun _ => true) (fun _ => 0) best)) := by
  unfold visitScalar
  cases mutableScalar parent node with
  | none => rfl
  | some stmt => cases best <;> rfl

theorem traverse_eq_choose (visitor : MutantVisitor) (parameters : VisitorParameters Loc) (decl : Decl Loc) :
    ∃ going, traverseAll (visitor.visit parameters) none decl.children none =
      .ok (going, visitor.choose parameters (visitor.candidates parameters.sourceLocation decl)) := by
  rw [traverseAll_eq]
  have none : Ranged (none : Found Loc) := fun _ absent => nomatch absent
  have keeps (best : Found Loc) (stmt : Stmt Loc) (ranged : Ranged best) :=
    closer_ranged parameters ranged stmt
  cases visitor with
  | removeVoidFunctionVisitor =>
    refine ⟨_, visitEach_first (fun parent node => ?_) _⟩
    exact visitVoidCall_none parameters.sourceLocation parent node
  | replaceCallVisitor =>
    refine ⟨_, visitEach_all (closer (accepts parameters) (extent parameters)) Ranged
      (fun parent node best ranged => ?_) keeps _ none⟩
    exact visitRealCall_eq ranged parent node
  | negateConditionVisitor =>
    refine ⟨_, visitEach_all (closer (accepts parameters) (extent parameters)) Ranged
      (fun parent node best ranged => ?_) keeps _ none⟩
    exact visitRanges_eq ranged parent node
  | scalarValueVisitor =>
    refine ⟨_, visitEach_all (closer (fun _ => true) (fun _ => 0)) (fun _ => True)
      (fun parent node best _ => ?_) (fun _ _ _ => trivial) _ trivial⟩
    exact visitScalar_eq best parent node
  | binaryVisitor opcode => exact ⟨_, visitEach_first (visitOnce_none _) _⟩
  | unaryVisitor opcode => exact ⟨_, visitEach_first (visitOnce_none _) _⟩
  | varDeclVisitor => exact ⟨_, visitEach_first (visitOnce_none _) _⟩

theorem findMutantExpression_of_visitor {kind : MutatorKind} {visitor : MutantVisitor}
    (handled : visitorFor kind = some visitor) (parameters : VisitorParameters Loc) (decl : Decl Loc) :
    findMutantExpression kind parameters decl =
      .ok (visitor.choose parameters (visitor.candidates parameters.sourceLocation decl)) := by
  obtain ⟨going, eq⟩ := traverse_eq_choose visitor parameters decl
  rw [findMutantExpression, handled]
  dsimp only
  rw [eq]
  rfl

theorem findMutantExpression_total (kind : MutatorKind) (parameters : VisitorParameters Loc)
    (decl : Decl Loc) :
    ∃ found, findMutantExpression kind parameters decl = .ok found := by
  cases handled : visitorFor kind with
  | none => exact ⟨none, by rw [findMutantExpression, handled]⟩
  | some visitor => exact ⟨_, findMutantExpression_of_visitor handled parameters decl⟩

end

end Mull.JunkDetection
