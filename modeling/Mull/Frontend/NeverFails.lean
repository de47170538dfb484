import Mull.Base.Related
import Mull.Frontend.ParseAST

/-! When the search passes every node of a function and `perform...` handles every point that is recorded. -/

namespace Mull.Frontend
open Base

/-- The search comes to its end, and whichever of the points before it were performed, a point neither leads to
a null pointer nor to something that is not implemented. -/
def NeverFails (isValidMutation : MutatorKind → Bool) (endOfToken : Location → Int32 × Int32)
    (unit : List DeclGroupRef) (d : Nat) (function : TopLevelDecl) : Prop :=
  ∀ context, Earlier unit d context →
    ∃ points, traverseFunctionDecl isValidMutation endOfToken context.node? (function.refs d) = some points ∧
      ∀ earlier point later, points = earlier ++ point :: later → ∀ before :
        List Point, before.Sublist earlier →
        ∀ context', before.foldlM performOrAbort context = some context' →
          ∀ failure, performMutation context' point = .error failure → failure.isNullOrNotImplemented = false

/-- Neither in the system's headers and macros nor in no file nor in those of the test framework. -/
def IsRecorded (location : Location) : Prop :=
  location.isInSystemHeader = false ∧ location.isInSystemMacro = false ∧
    (if location.isMacroID then location.getSpellingLoc else location).getFilename ≠ [] ∧
    ¬ "include/gtest".toList <:+:
      (if location.isMacroID then location.getSpellingLoc else location).getFilename

/-- Where initial values are mutated, every numeric variable has one, and that of a recorded variable proper is
numeric as well. -/
def Initialised (isValidMutation : MutatorKind → Bool) (unit : List DeclGroupRef) (d : Nat) : Prop :=
  isValidMutation .cxxInitConst = true → ∀ i node varKind, source unit (.parsed d i) = some node →
    node.kind = .varDecl varKind → varKind ≠ .parmVar → node.type.isNumeric = true →
      ∃ init initNode, node.children[0]? = some init ∧ source unit init = some initNode ∧
        (IsRecorded initNode.locations.exprLoc → varKind = .var → initNode.type.isNumeric = true)

/-- The node is an operator or a call of which an expression is made. -/
def IsReplaced (isValidMutation : MutatorKind → Bool) (ref : Ref) (node : Node Ref) : Prop :=
  (∃ opcode found, node.kind = .unaryOperator opcode ∧ unaryMutation ref opcode = some found ∧
    isValidMutation found.1 = true ∧ IsRecorded node.locations.operatorLoc) ∨
  (∃ mutation ∈ BinaryMutations, node.kind.hasBinaryOpcode mutation.1 ∧ isValidMutation mutation.2.1 = true ∧
    IsRecorded node.locations.operatorLoc) ∨
  (node.kind = .callExpr ∧ node.type = .int ∧ isValidMutation .cxxReplaceScalarCall = true ∧
    IsRecorded node.locations.beginLoc)

def IsRemoved (isValidMutation : MutatorKind → Bool) (node : Node Ref) : Prop :=
  node.kind = .callExpr ∧ node.type = .void ∧ isValidMutation .cxxRemoveVoidCall = true ∧
    IsRecorded node.locations.beginLoc

/-- What is replaced stands in a statement or is the initial value of a variable, and what is removed stands in a
statement. -/
def Placed (isValidMutation : MutatorKind → Bool) (unit : List DeclGroupRef) (d : Nat) : Prop :=
  ∀ i p node parent, source unit (.parsed d i) = some node → source unit (.parsed d p) = some parent →
    .parsed d i ∈ parent.children →
      (IsReplaced isValidMutation (.parsed d i) node → parent.kind.isStmt = true ∨
        parent.kind.isVarDecl = true) ∧
      (IsRemoved isValidMutation node → parent.kind.isStmt = true)

section
variable {isValidMutation : MutatorKind → Bool} {endOfToken : Location → Int32 × Int32}
  {unit : List DeclGroupRef} {d : Nat} {function : TopLevelDecl}

theorem record_isRecorded {finding : Finding StmtMutation} :
    (recordMutationPoint endOfToken finding).isSome = true ↔ IsRecorded finding.mutationLocation := by
  have begins : (getBeginEndMutationLocation endOfToken finding).1 =
      if finding.mutationLocation.isMacroID then finding.mutationLocation.getSpellingLoc
      else finding.mutationLocation := by
    unfold getBeginEndMutationLocation
    cases finding.mutationLocation.isMacroID <;> rfl
  unfold recordMutationPoint IsRecorded
  dsimp only
  rw [begins]
  generalize (if finding.mutationLocation.isMacroID then finding.mutationLocation.getSpellingLoc
    else finding.mutationLocation).getFilename = file
  by_cases header : finding.mutationLocation.isInSystemHeader = true
  · rw [if_pos header, header]
    simp
  by_cases systemMacro : finding.mutationLocation.isInSystemMacro = true
  · rw [if_neg header, if_pos systemMacro, systemMacro]
    simp
  rw [if_neg header, if_neg systemMacro, Bool.eq_false_iff.mpr header, Bool.eq_false_iff.mpr systemMacro]
  by_cases nowhere : file = []
  · rw [if_pos nowhere]
    simp [nowhere]
  by_cases framework : "include/gtest".toList <:+: file
  · rw [if_neg nowhere, if_pos framework]
    exact iff_of_false (by simp) fun all => all.2.2.2 framework
  · rw [if_neg nowhere, if_neg framework]
    exact iff_of_true rfl ⟨rfl, rfl, nowhere, framework⟩

theorem visit_isSome {ref : Ref} {node : Node Ref} (noVar : ∀ kind, node.kind ≠ .varDecl kind) :
    (visit isValidMutation (source unit) ref node).isSome = true := by
  unfold visit
  split
  · rfl
  · rfl
  · rfl
  · rfl
  · rename_i kind isVar
    exact absurd isVar (noVar kind)
  · rfl

theorem visitVarDecl_isSome {ref : Ref} {node : Node Ref} {kind : VarKind}
    (read : source unit ref = some node) :
    (visitVarDecl isValidMutation (source unit) ref node kind).isSome = true ↔
      (isValidMutation .cxxInitConst = true → kind ≠ .parmVar → node.type.isNumeric = true →
        ∃ init initNode, node.children[0]? = some init ∧ source unit init = some initNode) := by
  unfold visitVarDecl
  by_cases parameter : kind = .parmVar
  · simp [parameter]
  · rw [if_neg parameter]
    by_cases mutable : isValidMutation .cxxInitConst = true ∧ node.type.isNumeric = true
    · rw [if_pos mutable]
      cases child : node.children[0]? with
      | none => simp [parameter, mutable.1, mutable.2]
      | some init =>
        obtain ⟨_, _, _, initNode, _, _, _, there⟩ := source_child read (List.mem_of_getElem? child)
        simp [there]
    · rw [if_neg mutable]
      refine iff_of_true rfl ?_
      intro valid _ numeric
      exact absurd ⟨valid, numeric⟩ mutable

theorem traverse_isSome (found : unit.flatten[d]? = some function) :
    (traverseFunctionDecl isValidMutation endOfToken (source unit) (function.refs d)).isSome = true ↔
      ∀ i node, source unit (.parsed d i) = some node →
        (visit isValidMutation (source unit) (.parsed d i) node).isSome = true := by
  constructor
  · intro searched i node read
    obtain ⟨points, traversed⟩ := Option.isSome_iff_exists.mp searched
    obtain ⟨findings, all, -⟩ := Option.bind_eq_some_iff.mp traversed
    obtain ⟨_, _, decl, parsed, same, isDecl, isNode, -⟩ := source_eq_some.mp read
    obtain ⟨rfl, rfl⟩ := Ref.parsed.inj same
    obtain rfl := Option.some.inj (found.symm.trans isDecl)
    have inside : i < function.nodes.length := (List.getElem?_eq_some_iff.mp isNode).1
    have mem : Ref.parsed d i ∈ function.refs d := List.mem_map.mpr ⟨i, List.mem_range.mpr inside, rfl⟩
    obtain ⟨result, -, visited⟩ := exists_right (mapM_some_iff.mp all) mem
    rw [read, Option.bind_eq_bind, Option.bind_some] at visited
    rw [visited]
    rfl
  · intro each
    have visited : ∀ ref ∈ function.refs d, ∃ findings,
        (source unit ref >>= visit isValidMutation (source unit) ref) = some findings := by
      intro ref mem
      obtain ⟨i, inside, rfl⟩ := List.mem_map.mp mem
      have isNode := List.getElem?_eq_getElem (List.mem_range.mp inside)
      have read := source_eq_some.mpr ⟨d, i, function, _, rfl, found, isNode, rfl⟩
      rw [read, Option.bind_eq_bind, Option.bind_some]
      exact Option.isSome_iff_exists.mp (each i _ read)
    obtain ⟨findings, all⟩ := mapM_total visited
    unfold traverseFunctionDecl
    rw [all]
    rfl

theorem mem_traverse {n : Nat} {points : List Point}
    (traversed : traverseFunctionDecl isValidMutation endOfToken (source unit)
      ((List.range n).map (Ref.parsed d)) =
      some points) {point : Point} :
    point ∈ points ↔ ∃ i node findings finding, i < n ∧ source unit (.parsed d i) = some node ∧
      visit isValidMutation (source unit) (.parsed d i) node = some findings ∧ finding ∈ findings ∧
      recordMutationPoint endOfToken finding = some point := by
  obtain ⟨results, all, recorded⟩ := Option.bind_eq_some_iff.mp traversed
  obtain rfl := Option.some.inj recorded
  have each := mapM_some_iff.mp all
  rw [List.mem_filterMap]
  constructor
  · rintro ⟨finding, mem, isPoint⟩
    obtain ⟨findings, isResult, mem⟩ := List.mem_flatten.mp mem
    obtain ⟨ref, isRef, visited⟩ := exists_left each isResult
    obtain ⟨i, inside, rfl⟩ := List.mem_map.mp isRef
    obtain ⟨node, read, visited⟩ := Option.bind_eq_some_iff.mp visited
    exact ⟨i, node, findings, finding, List.mem_range.mp inside, read, visited, mem, isPoint⟩
  · rintro ⟨i, node, findings, finding, inside, read, visited, mem, isPoint⟩
    have isRef : Ref.parsed d i ∈ (List.range n).map (Ref.parsed d) :=
      List.mem_map.mpr ⟨i, List.mem_range.mpr inside, rfl⟩
    obtain ⟨result, isResult, visited'⟩ := exists_right each isRef
    rw [read, Option.bind_eq_bind, Option.bind_some, visited] at visited'
    obtain rfl := Option.some.inj visited'
    exact ⟨finding, List.mem_flatten.mpr ⟨findings, isResult, mem⟩, isPoint⟩

theorem SearchedIn.sublist {points points' : List Point} (searched : SearchedIn unit d points)
    (part : points'.Sublist points) : SearchedIn unit d points' where
  finds point mem := searched.finds point (part.subset mem)
  order := searched.order.sublist part

theorem performMutation_after {bound : Nat} {edits : List Edit} {context context' : ASTContext}
    {earlier later before : List Point} {point : Point}
    (searched : SearchedIn unit d (earlier ++ point :: later))
    (part : before.Sublist earlier) (performed : Performed unit bound edits context) (once : Once unit edits)
    (inside : ∀ edit ∈ edits, declOf edit.target < d)
    (ran : before.foldlM performOrAbort context = some context') :
    ∃ edits' edit, editOf? (source unit) point = some edit ∧
      PerformedAs unit bound edits' edit context' point.mutation (performMutation context' point) := by
  have first : SearchedIn unit d before := searched.sublist (part.trans (List.sublist_append_left _ _))
  rcases performPoints first performed once (first.leaveAlone inside) with
    ⟨-, _, isResult, performed', -⟩ | ⟨-, failed⟩
  · obtain rfl := Option.some.inj (ran.symm.trans isResult)
    have mem : point ∈ earlier ++ point :: later := by simp
    obtain ⟨i, node, read, finds⟩ := searched.finds point mem
    obtain ⟨edit, -, isEdit, -⟩ := searched.exists_edit mem
    refine ⟨_, edit, isEdit, performMutation_spec performed' read finds isEdit ?_⟩
    intro child isChild
    apply lastEdit_eq_none.mpr
    rintro other isIn rfl
    have here : source unit point.mutation.visited = some node := by rw [finds.visited, read]
    rcases List.mem_append.mp isIn with isIn | isIn
    · exact searched.leaveAlone inside other isIn point mem node here isChild
    · obtain ⟨sooner, isSooner, isOther⟩ := mem_editsOf.mp isIn
      have leaves := (List.pairwise_append.mp searched.order).2.2 sooner
        (part.subset isSooner) point (by simp)
      exact leavesAlone_edit leaves isOther here isChild
  · rw [failed] at ran
    cases ran

theorem performedAs_never {bound : Nat} {edits : List Edit} {edit : Edit} {context : ASTContext}
    {mutation : StmtMutation} {performed : Except PerformFailure ASTContext}
    (spec : PerformedAs unit bound edits edit context mutation performed) :
    (∀ failure, performed = .error failure → failure.isNullOrNotImplemented = false) ↔
      (OfVar unit mutation → Typed unit mutation) ∧ (Typed unit mutation → ¬ Refuses unit bound edit) := by
  rcases spec with ⟨typed, outcome, classified⟩ | ⟨untyped, ofVar, rfl⟩ | ⟨untyped, notVar, rfl⟩
  · constructor
    · intro never
      refine ⟨fun _ => typed, fun _ refuses => ?_⟩
      rcases outcome with ⟨rewires, -⟩ | ⟨-, failed⟩
      · exact rewires.not_refuses refuses
      · cases performed with
        | ok => cases failed
        | error failure =>
          have counted := (classified failure rfl).mpr refuses
          rw [never failure rfl] at counted
          cases counted
    · rintro ⟨-, accepts⟩ failure failed
      exact Bool.eq_false_iff.mpr fun counted => accepts typed ((classified failure failed).mp counted)
  · exact iff_of_false (fun never => Bool.noConfusion (never _ rfl)) fun all => untyped (all.1 ofVar)
  · refine iff_of_true ?_ ⟨fun ofVar => absurd ofVar notVar, fun typed => absurd typed untyped⟩
    rintro _ ⟨⟩
    rfl

theorem earlier_source (unit : List DeclGroupRef) (d : Nat) :
    Earlier unit d ⟨source unit, refsBelow unit (d + 1), 0, none⟩ :=
  ⟨d + 1, [], performed_source rfl rfl rfl, List.Pairwise.nil, by simp⟩

theorem Earlier.traverse_eq {context : ASTContext} (sooner : Earlier unit d context) :
    traverseFunctionDecl isValidMutation endOfToken context.node? (function.refs d) =
      traverseFunctionDecl isValidMutation endOfToken (source unit) (function.refs d) := by
  obtain ⟨bound, edits, performed, -, inside⟩ := sooner
  obtain ⟨switch, switched⟩ := performed.switched
  refine traverse_congr ?_ (switched.same inside)
  intro ref mem
  obtain ⟨i, -, rfl⟩ := List.mem_map.mp mem
  exact ⟨i, rfl⟩

theorem Refuses.mono {bound bound' : Nat} {edit : Edit} (refuses : Refuses unit bound edit)
    (below : declOf edit.target < bound') : Refuses unit bound' edit := by
  obtain ⟨d, i, node, -, read, mem, place⟩ := refuses
  obtain ⟨_, _, _, _, isRef, isTarget, -⟩ := source_child read mem
  obtain ⟨rfl, -⟩ := Ref.parsed.inj isRef
  rw [isTarget] at below
  exact ⟨d, i, node, below, read, mem, place⟩

/-- What is to be known of a point in the AST as it was parsed. -/
def Accepted (unit : List DeclGroupRef) (d : Nat) (point : Point) : Prop :=
  (OfVar unit point.mutation → Typed unit point.mutation) ∧
  (Typed unit point.mutation → ∀ edit, editOf? (source unit) point = some edit → ¬ Refuses unit (d + 1) edit)

theorem neverFails_iff_searched : NeverFails isValidMutation endOfToken unit d function ↔
    ∃ points, traverseFunctionDecl isValidMutation endOfToken (source unit) (function.refs d) = some points ∧
      ∀ point ∈ points, Accepted unit d point := by
  constructor
  · intro never
    obtain ⟨points, searched, each⟩ := never _ (earlier_source unit d)
    refine ⟨points, searched, ?_⟩
    intro point mem
    obtain ⟨earlier, later, rfl⟩ := List.append_of_mem mem
    have start : Performed unit (d + 1) [] ⟨source unit, refsBelow unit (d + 1), 0, none⟩ :=
      performed_source rfl rfl rfl
    obtain ⟨edits, edit, isEdit, spec⟩ := performMutation_after (traverse_searchedIn searched)
      (List.nil_sublist earlier) start List.Pairwise.nil (by simp) rfl
    obtain ⟨same, accepts⟩ :=
      (performedAs_never spec).mp (each earlier point later rfl [] (List.nil_sublist earlier) _ rfl)
    refine ⟨same, fun typed edit' isEdit' => ?_⟩
    obtain rfl := Option.some.inj (isEdit.symm.trans isEdit')
    exact accepts typed
  · rintro ⟨points, searched, each⟩ context sooner
    refine ⟨points, sooner.traverse_eq.trans searched, ?_⟩
    rintro earlier point later rfl before part context' ran
    have searchedIn := traverse_searchedIn searched
    obtain ⟨bound, edits, performed, once, inside⟩ := sooner
    obtain ⟨edits', edit, isEdit, spec⟩ := performMutation_after searchedIn part performed once inside ran
    obtain ⟨same, accepts⟩ := each point (by simp)
    refine (performedAs_never spec).mpr ⟨same, fun typed refuses =>
      accepts typed edit isEdit (refuses.mono ?_)⟩
    obtain ⟨_, _, isEdit', target⟩ := @SearchedIn.exists_edit unit d _ searchedIn point (by simp)
    obtain rfl := Option.some.inj (isEdit.symm.trans isEdit')
    rw [target]
    exact Nat.lt_succ_self d

def initialFinding (ref init : Ref) (initNode : Node Ref) : Finding StmtMutation :=
  ⟨.cxxInitConst, ⟨.replaceNumericInitAssignmentMutation ref, init⟩, initNode.locations.exprLoc,
    initNode.locations.endLoc, true⟩

theorem mem_visitVarDecl {ref : Ref} {node : Node Ref} {kind : VarKind}
    {findings : List (Finding StmtMutation)}
    (visited : visitVarDecl isValidMutation (source unit) ref node kind = some findings)
    {finding : Finding StmtMutation} : finding ∈ findings ↔
      kind ≠ .parmVar ∧ isValidMutation .cxxInitConst = true ∧ node.type.isNumeric = true ∧ ∃ init initNode,
        node.children[0]? = some init ∧ source unit init = some initNode ∧
        finding = initialFinding ref init initNode := by
  unfold visitVarDecl at visited
  by_cases parameter : kind = .parmVar
  · rw [if_pos parameter] at visited
    obtain rfl := Option.some.inj visited
    exact iff_of_false (by simp) fun all => all.1 parameter
  rw [if_neg parameter] at visited
  by_cases mutable : isValidMutation .cxxInitConst = true ∧ node.type.isNumeric = true
  · rw [if_pos mutable] at visited
    obtain ⟨init, child, visited⟩ := Option.bind_eq_some_iff.mp visited
    obtain ⟨initNode, there, visited⟩ := Option.bind_eq_some_iff.mp visited
    obtain rfl := Option.some.inj visited
    rw [List.mem_singleton]
    constructor
    · rintro rfl
      exact ⟨parameter, mutable.1, mutable.2, init, initNode, child, there, rfl⟩
    · rintro ⟨-, -, -, _, _, child', there', rfl⟩
      obtain rfl := Option.some.inj (child.symm.trans child')
      obtain rfl := Option.some.inj (there.symm.trans there')
      rfl
  · rw [if_neg mutable] at visited
    obtain rfl := Option.some.inj visited
    exact iff_of_false (by simp) fun all => mutable ⟨all.2.1, all.2.2.1⟩

/-- By the way in which the point was found; only an initial value can be of another type. -/
theorem typed_of_initialised (initialised : Initialised isValidMutation unit d) {i : Nat} {node : Node Ref}
    (read : source unit (.parsed d i) = some node) {findings : List (Finding StmtMutation)}
    (visited : visit isValidMutation (source unit) (.parsed d i) node = some findings)
    {finding : Finding StmtMutation}
    (mem : finding ∈ findings) (recorded : IsRecorded finding.mutationLocation)
    (ofVar : OfVar unit finding.mutation) :
    Typed unit finding.mutation := by
  have finds := visit_finds visited mem
  generalize isMutation : finding.mutation = mutation at finds ofVar ⊢
  cases finds with
  | opcode | removal | binary | call | scalar | assigned => exact typed_of_ne (by simp)
  | @initial varKind init initNode kind child there =>
    rw [visit, kind] at visited
    obtain ⟨parameter, valid, numeric, _, _, child', there', rfl⟩ := (mem_visitVarDecl visited).mp mem
    obtain rfl := Option.some.inj (child.symm.trans child')
    obtain rfl := Option.some.inj (there.symm.trans there')
    obtain ⟨_, _, child', there', same⟩ := initialised valid i node varKind read kind parameter numeric
    obtain rfl := Option.some.inj (child.symm.trans child')
    obtain rfl := Option.some.inj (there.symm.trans there')
    have isVar := (ofVar_initial read kind).mp ofVar
    exact (typed_initial read kind child there).mpr ⟨isVar, same recorded isVar⟩

theorem searched_of_initialised (found : unit.flatten[d]? = some function)
    (initialised : Initialised isValidMutation unit d) :
    ∃ points, traverseFunctionDecl isValidMutation endOfToken (source unit) (function.refs d) = some points ∧
      ∀ point ∈ points, OfVar unit point.mutation → Typed unit point.mutation := by
  have passes : ∀ i node, source unit (.parsed d i) = some node →
      (visit isValidMutation (source unit) (.parsed d i) node).isSome = true := by
    intro i node read
    by_cases isVar : ∃ kind, node.kind = .varDecl kind
    · obtain ⟨kind, isVar⟩ := isVar
      rw [visit, isVar]
      apply (visitVarDecl_isSome read).mpr
      intro valid parameter numeric
      obtain ⟨init, initNode, child, there, -⟩ := initialised valid i node kind read isVar parameter numeric
      exact ⟨init, initNode, child, there⟩
    · exact visit_isSome fun kind same => isVar ⟨kind, same⟩
  obtain ⟨points, searched⟩ := Option.isSome_iff_exists.mp ((traverse_isSome found).mpr passes)
  refine ⟨points, searched, ?_⟩
  intro point mem ofVar
  obtain ⟨i, node, findings, finding, -, read, visited, isFinding, isPoint⟩ := (mem_traverse searched).mp mem
  rw [recorded_mutation isPoint] at ofVar ⊢
  have recorded := record_isRecorded.mp (Option.isSome_iff_exists.mpr ⟨point, isPoint⟩)
  exact typed_of_initialised initialised read visited isFinding recorded ofVar

theorem initialised_of_searched (found : unit.flatten[d]? = some function) {points : List Point}
    (searched : traverseFunctionDecl isValidMutation endOfToken (source unit) (function.refs d) = some points)
    (each : ∀ point ∈ points, OfVar unit point.mutation → Typed unit point.mutation) :
    Initialised isValidMutation unit d := by
  intro valid i node varKind read kind parameter numeric
  have passes := (traverse_isSome found).mp (Option.isSome_iff_exists.mpr ⟨points, searched⟩) i node read
  obtain ⟨findings, visited⟩ := Option.isSome_iff_exists.mp passes
  rw [visit, kind] at passes
  obtain ⟨init, initNode, child, there⟩ := (visitVarDecl_isSome read).mp passes valid parameter numeric
  refine ⟨init, initNode, child, there, ?_⟩
  rintro recorded rfl
  obtain ⟨point, isPoint⟩ := Option.isSome_iff_exists.mp
    (@record_isRecorded endOfToken (initialFinding (.parsed d i) init initNode) |>.mpr recorded)
  obtain ⟨_, _, decl, _, same, isDecl, isNode, -⟩ := source_eq_some.mp read
  obtain ⟨rfl, rfl⟩ := Ref.parsed.inj same
  obtain rfl := Option.some.inj (found.symm.trans isDecl)
  have isVisited := visited
  rw [visit, kind] at isVisited
  have mem : point ∈ points := (mem_traverse searched).mpr
    ⟨i, node, findings, _, (List.getElem?_eq_some_iff.mp isNode).1, read, visited,
      (mem_visitVarDecl isVisited).mpr ⟨parameter, valid, numeric, init, initNode, child, there, rfl⟩,
      isPoint⟩
  have typed := each point mem
  rw [recorded_mutation isPoint] at typed
  exact ((typed_initial read kind child there).mp (typed ((ofVar_initial read kind).mpr rfl))).2

theorem unaryMutation_edit? {ref : Ref} {opcode : UnaryOpcode} {found : MutatorKind × ASTMutation}
    (isFound : unaryMutation ref opcode = some found) (heap : Heap) :
    ∃ effect, StmtMutation.edit? heap ⟨found.2, ref⟩ = some (ref, effect) ∧ effect ≠ .removed := by
  cases opcode <;> cases isFound
  case lNot | minus | not => exact ⟨.operand, rfl, by simp⟩
  all_goals exact ⟨.operator _, rfl, by simp⟩

/-- What is found at a node is for the node itself or, as a new value, for a child of it. -/
def EditedAt (isValidMutation : MutatorKind → Bool) (ref : Ref) (node : Node Ref) (target : Ref)
    (effect : Effect) : Prop :=
  (target = ref ∧ (effect ≠ .removed ∧ IsReplaced isValidMutation ref node ∨
    effect = .removed ∧ IsRemoved isValidMutation node)) ∨
  (target ∈ node.children ∧ effect ≠ .removed ∧ (node.kind.isStmt = true ∨ node.kind.isVarDecl = true))

theorem visitBinaryOperator_edit {ref : Ref} {node : Node Ref} (read : source unit ref = some node)
    {opcode : BinaryOpcode} (kind : node.kind.hasBinaryOpcode opcode) {finding : Finding StmtMutation}
    (mem : finding ∈ visitBinaryOperator isValidMutation (source unit) ref node opcode)
    (recorded : IsRecorded finding.mutationLocation) :
    ∃ target effect, finding.mutation.edit? (source unit) = some (target, effect) ∧
      EditedAt isValidMutation ref node target effect := by
  unfold visitBinaryOperator at mem
  split at mem
  · split at mem
    · cases mem
    · rename_i rhs found
      obtain ⟨child, isChild, -⟩ := Option.bind_eq_some_iff.mp found
      split at mem
      · obtain rfl := List.mem_singleton.mp mem
        refine ⟨child, .literal, edit?_assigned read isChild,
          .inr ⟨List.mem_of_getElem? isChild, by simp, .inl ?_⟩⟩
        rcases kind with kind | ⟨_, _, kind⟩ <;> rw [kind] <;> rfl
      · cases mem
  · obtain ⟨mutation, listed, rfl⟩ := List.mem_map.mp mem
    obtain ⟨isIn, filtered⟩ := List.mem_filter.mp listed
    obtain ⟨rfl, valid⟩ := of_decide_eq_true filtered
    exact ⟨ref, _, edit?_binary read mutation.2.2,
      .inl ⟨rfl, .inl ⟨by simp, .inr (.inl ⟨mutation, isIn, kind, valid, recorded⟩)⟩⟩⟩

theorem visit_edit {ref : Ref} {node : Node Ref} (read : source unit ref = some node)
    {findings : List (Finding StmtMutation)}
    (visited : visit isValidMutation (source unit) ref node = some findings)
    {finding : Finding StmtMutation} (mem : finding ∈ findings)
    (recorded : IsRecorded finding.mutationLocation) :
    ∃ target effect, finding.mutation.edit? (source unit) = some (target, effect) ∧
      EditedAt isValidMutation ref node target effect := by
  unfold visit at visited
  split at visited
  · rename_i opcode kind
    obtain rfl := Option.some.inj visited
    unfold visitUnaryOperator at mem
    split at mem
    · cases mem
    · rename_i found isFound
      split at mem
      · rename_i valid
        obtain rfl := List.mem_singleton.mp mem
        obtain ⟨effect, isEdit, stays⟩ := unaryMutation_edit? isFound (source unit)
        exact ⟨ref, effect, isEdit,
          .inl ⟨rfl, .inl ⟨stays, .inl ⟨opcode, _, kind, isFound, valid, recorded⟩⟩⟩⟩
      · cases mem
  · rename_i opcode kind
    obtain rfl := Option.some.inj visited
    exact visitBinaryOperator_edit read (.inl kind) mem recorded
  · rename_i opcode lhsType resultType kind
    obtain rfl := Option.some.inj visited
    exact visitBinaryOperator_edit read (.inr ⟨lhsType, resultType, kind⟩) mem recorded
  · rename_i kind
    obtain rfl := Option.some.inj visited
    rcases List.mem_append.mp mem with mem | mem
    · split at mem
      · rename_i removed
        obtain rfl := List.mem_singleton.mp mem
        exact ⟨ref, .removed, rfl, .inl ⟨rfl, .inr ⟨rfl, kind, removed.1, removed.2, recorded⟩⟩⟩
      · cases mem
    · split at mem
      · rename_i scalar
        obtain rfl := List.mem_singleton.mp mem
        exact ⟨ref, .literal, rfl,
          .inl ⟨rfl, .inl ⟨by simp, .inr (.inr ⟨kind, scalar.1, scalar.2, recorded⟩)⟩⟩⟩
      · cases mem
  · rename_i kind isVar
    obtain ⟨_, _, _, init, initNode, child, _, rfl⟩ := (mem_visitVarDecl visited).mp mem
    refine ⟨init, .literal, edit?_initial read child, .inr ⟨List.mem_of_getElem? child, by simp, .inr ?_⟩⟩
    rw [isVar]
    rfl
  · obtain rfl := Option.some.inj visited
    cases mem

def FoundAt (isValidMutation : MutatorKind → Bool) (unit : List DeclGroupRef) (ref : Ref) (node : Node Ref)
    (effect : Effect) : Prop :=
  ∃ findings finding, visit isValidMutation (source unit) ref node = some findings ∧ finding ∈ findings ∧
    IsRecorded finding.mutationLocation ∧
    (∀ varDecl, finding.mutation.mutation ≠ .replaceNumericInitAssignmentMutation varDecl) ∧
    finding.mutation.edit? (source unit) = some (ref, effect)

theorem found_of_replaced {ref : Ref} {node : Node Ref} (read : source unit ref = some node)
    (replaced : IsReplaced isValidMutation ref node) :
    ∃ effect, FoundAt isValidMutation unit ref node effect ∧ effect ≠ .removed := by
  rcases replaced with ⟨opcode, found, kind, isFound, valid, recorded⟩ |
    ⟨⟨opcode, mutatorKind, replacement⟩, isIn, kind, valid, recorded⟩ | ⟨kind, type, valid, recorded⟩
  · obtain ⟨effect, isEdit, stays⟩ := unaryMutation_edit? isFound (source unit)
    have visited : visit isValidMutation (source unit) ref node =
        some [⟨found.1, ⟨found.2, ref⟩, node.locations.operatorLoc, node.locations.endLoc, false⟩] := by
      unfold visit visitUnaryOperator
      rw [kind]
      dsimp only
      rw [isFound]
      dsimp only
      rw [if_pos valid]
    refine ⟨effect, ⟨_, _, visited, List.mem_singleton_self _, recorded, ?_, isEdit⟩, stays⟩
    intro varDecl same
    cases opcode <;> cases isFound <;> cases same
  · have listed : (opcode, mutatorKind, replacement) ∈
        BinaryMutations.filter fun mutation => mutation.1 = opcode ∧ isValidMutation mutation.2.1 :=
      List.mem_filter.mpr ⟨isIn, decide_eq_true ⟨rfl, valid⟩⟩
    have visited : visit isValidMutation (source unit) ref node =
        some (visitBinaryOperator isValidMutation (source unit) ref node opcode) := by
      unfold visit
      rcases kind with kind | ⟨_, _, kind⟩ <;> rw [kind]
    refine ⟨.operator (node.kind.withBinaryOpcode replacement),
      ⟨_, ⟨mutatorKind, ⟨.binaryMutation replacement, ref⟩, node.locations.operatorLoc,
        node.locations.endLoc, false⟩,
        visited, ?_, recorded, by simp, edit?_binary read replacement⟩, by simp⟩
    unfold visitBinaryOperator
    rw [if_neg fun assigns => (binaryMutations_spec _ isIn).2 assigns.1]
    exact List.mem_map.mpr ⟨_, listed, rfl⟩
  · have visited : visit isValidMutation (source unit) ref node =
      some (visitCallExpr isValidMutation ref node) := by
      unfold visit
      rw [kind]
    refine ⟨.literal,
      ⟨_, ⟨.cxxReplaceScalarCall, ⟨.replaceScalarCallMutation ref, ref⟩, node.locations.beginLoc,
      node.locations.endLoc, true⟩, visited, ?_, recorded, by simp, rfl⟩, by simp⟩
    simp [visitCallExpr, type, valid]

theorem found_of_removed {ref : Ref} {node : Node Ref} (removed : IsRemoved isValidMutation node) :
    FoundAt isValidMutation unit ref node .removed := by
  obtain ⟨kind, type, valid, recorded⟩ := removed
  have visited : visit isValidMutation (source unit) ref node =
    some (visitCallExpr isValidMutation ref node) := by
    unfold visit
    rw [kind]
  refine ⟨_, ⟨.cxxRemoveVoidCall, ⟨.removeVoidMutation, ref⟩, node.locations.beginLoc,
    node.locations.endLoc, true⟩, visited, ?_, recorded, by simp, rfl⟩
  simp [visitCallExpr, type, valid]

theorem not_refuses_of_found (found : unit.flatten[d]? = some function) {points : List Point}
    (searched : traverseFunctionDecl isValidMutation endOfToken (source unit) (function.refs d) = some points)
    (each : ∀ point ∈ points, Accepted unit d point) {i : Nat} {node : Node Ref}
    (read : source unit (.parsed d i) = some node) {effect : Effect}
    (isFound : FoundAt isValidMutation unit (.parsed d i) node effect) :
    ∃ identifier, ¬ Refuses unit (d + 1) ⟨.parsed d i, effect, identifier⟩ := by
  obtain ⟨findings, finding, visited, mem, recorded, other, isEdit⟩ := isFound
  obtain ⟨point, isPoint⟩ := Option.isSome_iff_exists.mp
    (@record_isRecorded endOfToken finding |>.mpr recorded)
  obtain ⟨_, _, decl, _, same, isDecl, isNode, -⟩ := source_eq_some.mp read
  obtain ⟨rfl, rfl⟩ := Ref.parsed.inj same
  obtain rfl := Option.some.inj (found.symm.trans isDecl)
  have isIn : point ∈ points := (mem_traverse searched).mpr
    ⟨i, node, findings, finding, (List.getElem?_eq_some_iff.mp isNode).1, read, visited, mem, isPoint⟩
  have isMutation := recorded_mutation isPoint
  refine ⟨point.mutationIdentifier, (each point isIn).2 (typed_of_ne ?_) _ ?_⟩
  · rw [isMutation]
    exact other
  · rw [editOf?, isMutation, isEdit]
    rfl

theorem placed_of_searched (found : unit.flatten[d]? = some function) {points : List Point}
    (searched : traverseFunctionDecl isValidMutation endOfToken (source unit) (function.refs d) = some points)
    (each : ∀ point ∈ points, Accepted unit d point) : Placed isValidMutation unit d := by
  intro i p node parent read isParent isChild
  have refuses {effect : Effect} {identifier : Text} (noStmt : ¬ parent.kind.isStmt = true)
      (noVar : ¬ (parent.kind.isVarDecl = true ∧ effect ≠ .removed)) :
      Refuses unit (d + 1) ⟨.parsed d i, effect, identifier⟩ :=
    ⟨d, p, parent, Nat.lt_succ_self d, isParent, isChild, Bool.eq_false_iff.mpr noStmt, noVar⟩
  constructor
  · intro replaced
    obtain ⟨effect, isFound, stays⟩ := found_of_replaced read replaced
    obtain ⟨identifier, accepts⟩ := not_refuses_of_found found searched each read isFound
    by_contra nowhere
    rw [not_or] at nowhere
    exact accepts (refuses nowhere.1 fun both => nowhere.2 both.1)
  · intro removed
    obtain ⟨identifier, accepts⟩ := not_refuses_of_found found searched each read (found_of_removed removed)
    by_contra noStmt
    exact accepts (refuses noStmt fun both => both.2 rfl)

theorem not_refuses_of_placed (placed : Placed isValidMutation unit d) {i : Nat} {node : Node Ref}
    (read : source unit (.parsed d i) = some node) {findings : List (Finding StmtMutation)}
    (visited : visit isValidMutation (source unit) (.parsed d i) node = some findings)
    {finding : Finding StmtMutation}
    (mem : finding ∈ findings) (recorded : IsRecorded finding.mutationLocation) {edit : Edit}
    (isEdit : finding.mutation.edit? (source unit) = some (edit.target, edit.effect)) :
      ¬ Refuses unit (d + 1) edit := by
  rintro ⟨d', p, parent, -, isParent, isChild, noStmt, noVar⟩
  obtain ⟨target, effect, isEdit', place⟩ := visit_edit read visited mem recorded
  obtain ⟨isTarget, isEffect⟩ := Prod.mk.inj (Option.some.inj (isEdit'.symm.trans isEdit))
  rcases place with ⟨own, kind⟩ | ⟨below, stays, kind⟩
  · rw [← isTarget, own] at isChild
    obtain ⟨_, _, _, _, isRef, same, -⟩ := source_child isParent isChild
    obtain ⟨rfl, -⟩ := Ref.parsed.inj isRef
    obtain ⟨rfl, -⟩ := Ref.parsed.inj same
    obtain ⟨replaced, removed⟩ := placed i p node parent read isParent isChild
    rcases kind with ⟨stays, isReplaced⟩ | ⟨-, isRemoved⟩
    · rcases replaced isReplaced with isStmt | isVar
      · rw [noStmt] at isStmt
        cases isStmt
      · exact noVar ⟨isVar, by rwa [← isEffect]⟩
    · have isStmt := removed isRemoved
      rw [noStmt] at isStmt
      cases isStmt
  · rw [isTarget] at below
    obtain ⟨rfl, rfl⟩ := Ref.parsed.inj (parent_unique read below isParent isChild)
    obtain rfl := Option.some.inj (read.symm.trans isParent)
    rcases kind with isStmt | isVar
    · rw [noStmt] at isStmt
      cases isStmt
    · exact noVar ⟨isVar, by rwa [← isEffect]⟩

theorem neverFails_iff (found : unit.flatten[d]? = some function) :
    NeverFails isValidMutation endOfToken unit d function ↔
      Initialised isValidMutation unit d ∧ Placed isValidMutation unit d := by
  rw [neverFails_iff_searched]
  constructor
  · rintro ⟨points, searched, each⟩
    exact ⟨initialised_of_searched found searched fun point mem => (each point mem).1,
      placed_of_searched found searched each⟩
  · rintro ⟨initialised, placed⟩
    obtain ⟨points, searched, typed⟩ := searched_of_initialised found initialised
    refine ⟨points, searched, fun point mem => ⟨typed point mem, fun _ edit isEdit => ?_⟩⟩
    obtain ⟨i, node, findings, finding, -, read, visited, isFinding, isPoint⟩ :=
      (mem_traverse searched).mp mem
    have recorded := record_isRecorded.mp (Option.isSome_iff_exists.mpr ⟨point, isPoint⟩)
    apply not_refuses_of_placed placed read visited isFinding recorded
    rw [← recorded_mutation isPoint]
    obtain ⟨_, isFound, same⟩ := Option.bind_eq_some_iff.mp isEdit
    obtain rfl := Option.some.inj same
    exact isFound

end

def place (column : Int32) : Location := .file ⟨"a.cpp".toList, 1, column, false⟩

/-- `void f() { int x = 1 + 2; }` -/
def withInitialValue : TopLevelDecl where
  isFunction := true
  name := "f".toList
  location := place 6
  nodes := [
    ⟨⟨.decl 0, .other 0, .rValue⟩, [⟨.stmt, 1⟩], ⟨place 6, place 6, place 1, place 27⟩⟩,
    ⟨⟨.compoundStmt, .void, .rValue⟩, [⟨.stmt, 2⟩], ⟨place 10, place 10, place 10, place 27⟩⟩,
    ⟨⟨.stmt 0, .void, .rValue⟩, [⟨.decl, 3⟩], ⟨place 12, place 12, place 12, place 25⟩⟩,
    ⟨⟨.varDecl .var, .int, .lValue⟩, [⟨.expr, 4⟩], ⟨place 16, place 16, place 12, place 24⟩⟩,
    ⟨⟨.binaryOperator .add, .int, .rValue⟩, [⟨.expr, 5⟩, ⟨.expr, 6⟩],
      ⟨place 22, place 22, place 20, place 24⟩⟩,
    ⟨⟨.literal 1, .int, .rValue⟩, [], ⟨place 20, place 20, place 20, place 20⟩⟩,
    ⟨⟨.literal 2, .int, .rValue⟩, [], ⟨place 24, place 24, place 24, place 24⟩⟩]
  headed := by decide
  shaped := by decide
  ordered := by decide
  filled := by decide
  single := by decide
  rooted := by decide

def initAndAdd (kind : MutatorKind) : Bool := kind == .cxxInitConst || kind == .cxxAddToSub

theorem neverFails_iff_sum :
    NeverFails initAndAdd (fun _ => (1, 25)) [[withInitialValue]] 0 withInitialValue := by
  have each {i : Nat} {node : Node Ref} (read : source [[withInitialValue]] (.parsed 0 i) = some node) :
      i = 3 ∧ node.kind = .varDecl .var ∨ i = 4 ∧ node.kind = .binaryOperator .add ∨
        (∀ varKind, node.kind ≠ .varDecl varKind) ∧ ¬ IsReplaced initAndAdd (.parsed 0 i) node := by
    obtain ⟨_, _, decl, parsed, same, isDecl, isNode, rfl⟩ := source_eq_some.mp read
    obtain ⟨rfl, rfl⟩ := Ref.parsed.inj same
    obtain rfl := Option.some.inj isDecl
    have inside : i < 7 := (List.getElem?_eq_some_iff.mp isNode).1
    rcases (by omega : i = 0 ∨ i = 1 ∨ i = 2 ∨ i = 3 ∨ i = 4 ∨ i = 5 ∨ i = 6) with
      rfl | rfl | rfl | rfl | rfl | rfl | rfl <;> obtain rfl := Option.some.inj isNode
    case inr.inr.inr.inl => exact .inl ⟨rfl, rfl⟩
    case inr.inr.inr.inr.inl => exact .inr (.inl ⟨rfl, rfl⟩)
    all_goals
      refine .inr (.inr ⟨by simp, ?_⟩)
      rintro (⟨_, _, ⟨⟩, _⟩ | ⟨_, _, ⟨⟨⟩⟩ | ⟨_, _, ⟨⟩⟩, _⟩ | ⟨⟨⟩, _⟩)
  have initialised : Initialised initAndAdd [[withInitialValue]] 0 := by
    intro _ i node varKind read kind _ _
    rcases each read with ⟨rfl, _⟩ | ⟨_, sum⟩ | ⟨noVar, _⟩
    · obtain rfl := Option.some.inj read
      exact ⟨.parsed 0 4, _, rfl, rfl, fun _ _ => rfl⟩
    · rw [sum] at kind
      cases kind
    · exact absurd kind (noVar varKind)
  have placed : Placed initAndAdd [[withInitialValue]] 0 := by
    intro i p node parent read isParent isChild
    refine ⟨fun replaced => .inr ?_, fun removed => ?_⟩
    · rcases each read with ⟨rfl, isVar⟩ | ⟨rfl, sum⟩ | ⟨_, other⟩
      · rcases replaced with ⟨_, _, kind, _⟩ | ⟨_, _, kind | ⟨_, _, kind⟩, _⟩ | ⟨kind, _⟩ <;>
        rw [isVar] at kind <;>
          cases kind
      · have isInitial : ∃ node, source [[withInitialValue]] (.parsed 0 3) = some node ∧
          .parsed 0 4 ∈ node.children :=
          ⟨_, rfl, List.mem_singleton_self _⟩
        obtain ⟨_, isVar, child⟩ := isInitial
        obtain ⟨-, rfl⟩ := Ref.parsed.inj (parent_unique isParent isChild isVar child)
        obtain rfl := Option.some.inj isParent
        rfl
      · exact absurd replaced other
    · cases removed.2.2.1
  exact (neverFails_iff rfl).mpr ⟨initialised, placed⟩

/-- `void f() { int x; }` -/
def withoutInitialValue : TopLevelDecl where
  isFunction := true
  name := "f".toList
  location := place 6
  nodes := [
    ⟨⟨.decl 0, .other 0, .rValue⟩, [⟨.stmt, 1⟩], ⟨place 6, place 6, place 1, place 19⟩⟩,
    ⟨⟨.compoundStmt, .void, .rValue⟩, [⟨.stmt, 2⟩], ⟨place 10, place 10, place 10, place 19⟩⟩,
    ⟨⟨.stmt 0, .void, .rValue⟩, [⟨.decl, 3⟩], ⟨place 12, place 12, place 12, place 17⟩⟩,
    ⟨⟨.varDecl .var, .int, .lValue⟩, [], ⟨place 16, place 16, place 12, place 16⟩⟩]
  headed := by decide
  shaped := by decide
  ordered := by decide
  filled := by decide
  single := by decide
  rooted := by decide

theorem not_neverFails_uninitialised : ¬ ∀ (isValidMutation : MutatorKind → Bool)
    (endOfToken : Location → Int32 × Int32) (unit : List DeclGroupRef) (d : Nat) (function : TopLevelDecl),
    unit.flatten[d]? = some function → NeverFails isValidMutation endOfToken unit d function := by
  intro all
  obtain ⟨points, searched, -⟩ := all (· == .cxxInitConst) (fun _ => (1, 17)) [[withoutInitialValue]] 0
    withoutInitialValue rfl _ (earlier_source _ _)
  have fails : traverseFunctionDecl (· == .cxxInitConst) (fun _ => (1, 17)) (source [[withoutInitialValue]])
      (withoutInitialValue.refs 0) = none := by rfl
  rw [fails] at searched
  cases searched

end Mull.Frontend
