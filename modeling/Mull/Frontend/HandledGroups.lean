import Mull.Frontend.SearchedPoints

/-! When all mutations of a translation unit are performed, and what the AST is like then. -/

namespace Mull.Frontend
open Base

def declOf : Ref → Nat
  | .parsed d _ => d
  | .created _ => 0

/-- The target stands in a statement or is the initial value of a variable. -/
def InPlace (unit : List DeclGroupRef) (edit : Edit) : Prop :=
  ∃ d i node, source unit (.parsed d i) = some node ∧ edit.target ∈ node.children ∧
    (node.kind.isStmt = true ∨ node.kind.isVarDecl = true ∧ edit.effect ≠ .removed)

def IsInitial (unit : List DeclGroupRef) (ref : Ref) : Prop :=
  ∃ d i node, source unit (.parsed d i) = some node ∧ ref ∈ node.children ∧ node.kind.isVarDecl = true

/-- Only the initial value of a variable is the target of several edits. -/
def Once (unit : List DeclGroupRef) (edits : List Edit) : Prop :=
  edits.Pairwise fun earlier later => earlier.target = later.target → IsInitial unit later.target

def editsOf (unit : List DeclGroupRef) (points : List Point) :
    List Edit := points.filterMap (editOf? (source unit))

/-- What the points must be like to be performed after the edits. -/
structure Good (unit : List DeclGroupRef) (bound : Nat) (edits : List Edit) (points : List Point) : Prop where
  typed : ∀ point ∈ points, Typed unit point.mutation
  inPlace : ∀ edit ∈ editsOf unit points, InPlace unit edit
  within : ∀ edit ∈ editsOf unit points, declOf edit.target < bound
  once : Once unit (edits ++ editsOf unit points)

def Outcomes (unit : List DeclGroupRef) (bound : Nat) (edits new : List Edit) (context : ASTContext)
    (succeeds : Prop) (result : Option ASTContext) : Prop :=
  (succeeds ∧ ∃ context', result = some context' ∧ Performed unit bound (edits ++ new) context' ∧
    (new = [] → context' = context) ∧ (new ≠ [] → context'.parentMap.isSome = true) ∧
    context'.parsed = context.parsed) ∨
  (¬ succeeds ∧ result = none)

section
variable {unit : List DeclGroupRef} {bound : Nat} {edits new new' : List Edit} {edit : Edit}
  {context : ASTContext} {succeeds succeeds' : Prop} {result : Option ASTContext}

theorem not_stmt_of_varDecl {kind : NodeKind} (isVar : kind.isVarDecl = true) : kind.isStmt = false := by
  cases kind <;> cases isVar
  rfl

theorem rewires_iff : Rewires unit bound edits edit ↔ InPlace unit edit ∧ declOf edit.target < bound ∧
    ∀ earlier ∈ edits, earlier.target = edit.target → IsInitial unit edit.target := by
  constructor
  · rintro ⟨d, i, node, below, read, mem, place⟩
    obtain ⟨_, _, j, _, isRef, isTarget, _, _⟩ := source_child read mem
    obtain ⟨rfl, _⟩ := Ref.parsed.inj isRef
    refine ⟨⟨d, i, node, read, mem, place.imp And.left id⟩, ?_, ?_⟩
    · rw [isTarget]
      exact below
    · intro earlier isIn same
      rcases place with ⟨_, first⟩ | ⟨isVar, _⟩
      · exact absurd same (lastEdit_eq_none.mp first earlier isIn)
      · exact ⟨d, i, node, read, mem, isVar⟩
  · rintro ⟨⟨d, i, node, read, mem, place⟩, within, again⟩
    obtain ⟨_, _, j, _, isRef, isTarget, _, _⟩ := source_child read mem
    obtain ⟨rfl, _⟩ := Ref.parsed.inj isRef
    rw [isTarget] at within
    refine ⟨d, i, node, within, read, mem, ?_⟩
    rcases place with isStmt | isVar
    · refine .inl ⟨isStmt, lastEdit_eq_none.mpr fun earlier isIn same => ?_⟩
      obtain ⟨d', i', node', read', mem', isVar⟩ := again earlier isIn same
      obtain ⟨rfl, rfl⟩ := Ref.parsed.inj (parent_unique read mem read' mem')
      obtain rfl := Option.some.inj (read.symm.trans read')
      rw [not_stmt_of_varDecl isVar] at isStmt
      cases isStmt
    · exact .inr isVar

theorem Outcomes.congr (same : succeeds ↔ succeeds')
    (outcome : Outcomes unit bound edits new context succeeds result) :
    Outcomes unit bound edits new context succeeds' result := by
  rcases outcome with ⟨ok, rest⟩ | ⟨fails, isResult⟩
  · exact .inl ⟨same.mp ok, rest⟩
  · exact .inr ⟨fun ok => fails (same.mpr ok), isResult⟩

theorem Outcome.outcomes (outcome : Outcome unit bound edits edit context succeeds result) :
    Outcomes unit bound edits [edit] context succeeds result := by
  rcases outcome with ⟨ok, context', isResult, performed, asked, list⟩ | failed
  · exact .inl ⟨ok, context', isResult, performed, by simp, fun _ => asked, list⟩
  · exact .inr failed

/-- One after the other. -/
theorem Outcomes.bind {next : ASTContext → Option ASTContext}
    (first : Outcomes unit bound edits new context succeeds result)
    (second : succeeds → ∀ context', Performed unit bound (edits ++ new) context' →
      Outcomes unit bound (edits ++ new) new' context' succeeds' (next context')) :
    Outcomes unit bound edits (new ++ new') context (succeeds ∧ succeeds') (result >>= next) := by
  rcases first with ⟨ok, context', rfl, performed, unchanged, asked, list⟩ | ⟨fails, rfl⟩
  · rcases second ok context' performed with
      ⟨ok', context'', isResult, performed', unchanged', asked', list'⟩ | ⟨fails, isResult⟩
    · refine .inl ⟨⟨ok, ok'⟩, context'', isResult, ?_, ?_, ?_, list'.trans list⟩
      · rw [← List.append_assoc]
        exact performed'
      · intro none
        obtain ⟨rfl, rfl⟩ := List.append_eq_nil_iff.mp none
        exact (unchanged' rfl).trans (unchanged rfl)
      · intro some
        by_cases last : new' = []
        · rw [unchanged' last]
          apply asked
          rintro rfl
          exact some (by rw [last]; rfl)
        · exact asked' last
    · exact .inr ⟨fun both => fails both.2, isResult⟩
  · exact .inr ⟨fun both => fails both.1, rfl⟩

theorem Good.append_iff {points points' : List Point} :
    Good unit bound edits (points ++ points') ↔
      Good unit bound edits points ∧ Good unit bound (edits ++ editsOf unit points) points' := by
  have split : editsOf unit (points ++ points') = editsOf unit points ++ editsOf unit points' :=
    List.filterMap_append
  constructor
  · intro good
    have once := good.once
    rw [split, ← List.append_assoc] at once
    constructor
    · refine ⟨fun p mem => good.typed p (List.mem_append_left _ mem), fun e mem => good.inPlace e ?_,
        fun e mem => good.within e ?_, (List.pairwise_append.mp once).1⟩ <;> rw [split] <;>
        exact List.mem_append_left _ mem
    · refine ⟨fun p mem => good.typed p (List.mem_append_right _ mem), fun e mem => good.inPlace e ?_,
        fun e mem => good.within e ?_, once⟩ <;> rw [split] <;> exact List.mem_append_right _ mem
  · rintro ⟨first, second⟩
    constructor
    · intro p mem
      exact (List.mem_append.mp mem).elim (first.typed p) (second.typed p)
    · intro e mem
      rw [split] at mem
      exact (List.mem_append.mp mem).elim (first.inPlace e) (second.inPlace e)
    · intro e mem
      rw [split] at mem
      exact (List.mem_append.mp mem).elim (first.within e) (second.within e)
    · rw [split, ← List.append_assoc]
      exact second.once

theorem good_singleton {point : Point} (isEdit : editOf? (source unit) point = some edit)
    (once : Once unit edits) :
    Good unit bound edits [point] ↔ Typed unit point.mutation ∧ Rewires unit bound edits edit := by
  have only : editsOf unit [point] = [edit] := by simp [editsOf, isEdit]
  rw [rewires_iff]
  constructor
  · intro good
    have once := good.once
    rw [only] at once
    refine ⟨good.typed point (by simp), good.inPlace edit (by simp [only]),
      good.within edit (by simp [only]), ?_⟩
    intro earlier mem
    exact (List.pairwise_append.mp once).2.2 earlier mem edit (by simp)
  · rintro ⟨typed, inPlace, within, again⟩
    constructor
    · intro p mem
      obtain rfl := List.mem_singleton.mp mem
      exact typed
    · rw [only]
      intro e mem
      obtain rfl := List.mem_singleton.mp mem
      exact inPlace
    · rw [only]
      intro e mem
      obtain rfl := List.mem_singleton.mp mem
      exact within
    · rw [only]
      refine List.pairwise_append.mpr ⟨once, List.pairwise_singleton .., fun earlier mem e mem' => ?_⟩
      obtain rfl := List.mem_singleton.mp mem'
      exact again earlier mem

theorem SearchedIn.exists_edit {d : Nat} {points : List Point}
    (searched : SearchedIn unit d points) {point : Point}
    (mem : point ∈ points) : ∃ edit j, editOf? (source unit) point = some edit ∧
    edit.target = .parsed d j := by
  obtain ⟨i, node, read, finds⟩ := searched.finds point mem
  obtain ⟨target, effect, found, place⟩ := finds.edit? read
  have isEdit : editOf? (source unit) point = some ⟨target, effect, point.mutationIdentifier⟩ := by
    rw [editOf?, found]
    rfl
  rcases place with rfl | ⟨below, _⟩
  · exact ⟨_, i, isEdit, rfl⟩
  · obtain ⟨_, _, j, _, isRef, isTarget, _⟩ := source_child read below
    obtain ⟨rfl, rfl⟩ := Ref.parsed.inj isRef
    exact ⟨_, j, isEdit, isTarget⟩

theorem mem_editsOf {points : List Point} :
    edit ∈ editsOf unit points ↔ ∃ point ∈ points, editOf? (source unit) point = some edit :=
      List.mem_filterMap

/-- The edits are not for children of what the points are found at. -/
def LeaveAlone (unit : List DeclGroupRef) (edits : List Edit) (points : List Point) : Prop :=
  ∀ edit ∈ edits, ∀ point ∈ points, ∀ node, source unit point.mutation.visited = some node →
    edit.target ∉ node.children

theorem SearchedIn.leaveAlone {d : Nat} {points : List Point} (searched : SearchedIn unit d points)
    (before : ∀ edit ∈ edits, declOf edit.target < d) : LeaveAlone unit edits points := by
  intro edit mem point isPoint node read isChild
  obtain ⟨i, _, _, finds⟩ := searched.finds point isPoint
  rw [finds.visited] at read
  obtain ⟨_, _, _, _, isRef, isTarget, _⟩ := source_child read isChild
  obtain ⟨rfl, _⟩ := Ref.parsed.inj isRef
  have less := before edit mem
  rw [isTarget] at less
  exact Nat.lt_irrefl _ less

theorem leavesAlone_edit {earlier later : Point} (leaves : LeavesAlone unit earlier.mutation later.mutation)
    (isEdit : editOf? (source unit) earlier = some edit) {node : Node Ref}
    (read : source unit later.mutation.visited = some node) : edit.target ∉ node.children := by
  obtain ⟨⟨target, effect⟩, found, same⟩ := Option.bind_eq_some_iff.mp isEdit
  obtain rfl := Option.some.inj same
  exact leaves target effect node found read

/-- By induction on the points: each finds the AST as its search has left it. -/
theorem performPoints {d : Nat} {points : List Point} (searched : SearchedIn unit d points)
    (performed : Performed unit bound edits context) (once : Once unit edits)
    (leave : LeaveAlone unit edits points) :
    Outcomes unit bound edits (editsOf unit points) context (Good unit bound edits points)
      (points.foldlM performOrAbort context) := by
  induction points generalizing edits context with
  | nil =>
    refine .inl ⟨⟨by simp, by simp [editsOf], by simp [editsOf], ?_⟩, context, rfl, ?_, fun _ => rfl,
      by simp [editsOf], rfl⟩
    · rw [show editsOf unit [] = [] from rfl, List.append_nil]
      exact once
    · rw [show editsOf unit [] = [] from rfl, List.append_nil]
      exact performed
  | cons point points ih =>
    obtain ⟨edit, j, isEdit, _⟩ := searched.exists_edit (List.mem_cons_self ..)
    obtain ⟨i, node, read, finds⟩ := searched.finds point (by simp)
    have only : editsOf unit [point] = [edit] := by simp [editsOf, isEdit]
    have cons : editsOf unit (point :: points) = [edit] ++ editsOf unit points := by simp [editsOf, isEdit]
    have below : ∀ child ∈ node.children, lastEdit edits child = none := by
      intro child mem
      apply lastEdit_eq_none.mpr
      rintro earlier isIn rfl
      exact leave earlier isIn point (by simp) node (by rw [finds.visited, read]) mem
    have first := (performMutation_outcome performed read finds isEdit below).outcomes
    have order := List.pairwise_cons.mp searched.order
    have rest : SearchedIn unit d points :=
      ⟨fun p mem => searched.finds p (List.mem_cons_of_mem _ mem), order.2⟩
    have good : Good unit bound edits (point :: points) ↔
        (Typed unit point.mutation ∧ Rewires unit bound edits edit) ∧
        Good unit bound (edits ++ [edit]) points := by
      rw [← List.singleton_append, Good.append_iff, only, good_singleton isEdit once]
    rw [cons, List.foldlM_cons]
    refine (first.bind fun ok context' performed' => ih rest performed' ?_ ?_).congr good.symm
    · refine List.pairwise_append.mpr ⟨once, List.pairwise_singleton .., fun earlier mem later mem' => ?_⟩
      obtain rfl := List.mem_singleton.mp mem'
      exact (rewires_iff.mp ok.2).2.2 earlier mem
    · intro earlier mem later mem' node' read' isChild
      rcases List.mem_append.mp mem with mem | mem
      · exact leave earlier mem later (List.mem_cons_of_mem _ mem') node' read' isChild
      · obtain rfl := List.mem_singleton.mp mem
        exact leavesAlone_edit (order.1 later mem') isEdit read' isChild

/-- The declarations can be searched, and their points performed. -/
structure GoodDecls (isValidMutation : MutatorKind → Bool) (endOfToken : Location → Int32 × Int32)
    (unit : List DeclGroupRef) (bound : Nat) (edits : List Edit)
    (decls : List (TopLevelDecl × Nat)) : Prop where
  searched : ∀ numbered ∈ decls, (declPoints isValidMutation endOfToken unit numbered).isSome = true
  good : Good unit bound edits (decls.flatMap fun numbered =>
    (declPoints isValidMutation endOfToken unit numbered).getD [])

theorem Switched.same {switch : Ref → Ref} {d : Nat} (switched : Switched (source unit) edits switch context)
    (before : ∀ edit ∈ edits, declOf edit.target < d) (i : Nat) :
      context.node? (.parsed d i) = source unit (.parsed d i) := by
  rw [switched.parsed]
  cases read : source unit (.parsed d i) with
  | none => rfl
  | some node =>
    have unmoved : node.map switch = node.map id := by
      unfold Node.map
      congr 1
      apply List.map_congr_left
      intro slot mem
      have last : lastEdit edits slot.child = none := by
        apply lastEdit_eq_none.mpr
        intro edit isIn same
        obtain ⟨_, _, _, _, isRef, isChild, _⟩ := source_slot read mem
        obtain ⟨rfl, _⟩ := Ref.parsed.inj isRef
        have less := before edit isIn
        rw [same, isChild] at less
        exact Nat.lt_irrefl _ less
      rw [switched.unmoved _ last]
      rfl
    rw [Option.map_some, unmoved]
    exact congrArg some (by simp [Node.map])

section
variable {isValidMutation : MutatorKind → Bool} {endOfToken : Location → Int32 × Int32}

def editsIn (isValidMutation : MutatorKind → Bool) (endOfToken : Location → Int32 × Int32)
    (unit : List DeclGroupRef) (decls : List (TopLevelDecl × Nat)) : List Edit :=
  editsOf unit (decls.flatMap fun numbered => (declPoints isValidMutation endOfToken unit numbered).getD [])

theorem editsIn_singleton (numbered : TopLevelDecl × Nat) :
    editsIn isValidMutation endOfToken unit [numbered] =
    editsOf unit ((declPoints isValidMutation endOfToken unit numbered).getD []) := by
  rw [editsIn, List.flatMap_singleton]

theorem handleDecl_outcomes {numbered : TopLevelDecl × Nat} (performed : Performed unit bound edits context)
    (once : Once unit edits) (before : ∀ edit ∈ edits, declOf edit.target < numbered.2) :
    Outcomes unit bound edits (editsIn isValidMutation endOfToken unit [numbered]) context
      (GoodDecls isValidMutation endOfToken unit bound edits [numbered])
      (handleDecl isValidMutation endOfToken context numbered) := by
  obtain ⟨switch, switched⟩ := performed.switched
  have traversed : handleDecl isValidMutation endOfToken context numbered =
      declPoints isValidMutation endOfToken unit numbered >>= fun points =>
        points.foldlM performOrAbort context := by
    unfold handleDecl declPoints
    split
    · rw [traverse_congr _ (switched.same before)]
      intro ref mem
      obtain ⟨i, _, rfl⟩ := List.mem_map.mp mem
      exact ⟨i, rfl⟩
    · rfl
  rw [traversed, editsIn_singleton]
  cases points? : declPoints isValidMutation endOfToken unit numbered with
  | none =>
    refine .inr ⟨fun good => ?_, rfl⟩
    have found := good.searched numbered (by simp)
    rw [points?] at found
    cases found
  | some points =>
    have searched := declPoints_searchedIn points?
    refine (performPoints searched performed once (searched.leaveAlone before)).congr ?_
    constructor
    · intro good
      refine ⟨?_, ?_⟩
      · intro other mem
        rw [List.mem_singleton.mp mem, points?]
        rfl
      · simpa [points?] using good
    · intro good
      simpa [points?] using good.good

theorem GoodDecls.append_iff {decls decls' : List (TopLevelDecl × Nat)} :
    GoodDecls isValidMutation endOfToken unit bound edits (decls ++ decls') ↔
      GoodDecls isValidMutation endOfToken unit bound edits decls ∧
      GoodDecls isValidMutation endOfToken unit bound
        (edits ++ editsIn isValidMutation endOfToken unit decls) decls' := by
  constructor
  · rintro ⟨searched, good⟩
    rw [List.flatMap_append, Good.append_iff] at good
    exact ⟨⟨fun n mem => searched n (List.mem_append_left _ mem), good.1⟩,
      fun n mem => searched n (List.mem_append_right _ mem), good.2⟩
  · rintro ⟨first, second⟩
    refine ⟨fun n mem => (List.mem_append.mp mem).elim (first.searched n) (second.searched n), ?_⟩
    rw [List.flatMap_append, Good.append_iff]
    exact ⟨first.good, second.good⟩

theorem declOf_edit {numbered : TopLevelDecl × Nat}
    (mem : edit ∈ editsOf unit ((declPoints isValidMutation endOfToken unit numbered).getD [])) :
    declOf edit.target = numbered.2 := by
  cases points? : declPoints isValidMutation endOfToken unit numbered with
  | none =>
    rw [points?] at mem
    cases mem
  | some points =>
    rw [points?] at mem
    obtain ⟨point, isPoint, isEdit⟩ := mem_editsOf.mp mem
    obtain ⟨edit', j, isEdit', target⟩ := (declPoints_searchedIn points?).exists_edit isPoint
    obtain rfl := Option.some.inj (isEdit.symm.trans isEdit')
    rw [target]
    rfl

theorem editsIn_append (decls decls' : List (TopLevelDecl × Nat)) :
    editsIn isValidMutation endOfToken unit (decls ++ decls') =
      editsIn isValidMutation endOfToken unit decls ++ editsIn isValidMutation endOfToken unit decls' := by
  unfold editsIn editsOf
  rw [List.flatMap_append, List.filterMap_append]

theorem declOf_editsIn {decls : List (TopLevelDecl × Nat)}
    (mem : edit ∈ editsIn isValidMutation endOfToken unit decls) :
    ∃ numbered ∈ decls, declOf edit.target = numbered.2 := by
  obtain ⟨point, isPoint, isEdit⟩ := mem_editsOf.mp mem
  obtain ⟨numbered, isIn, isPoint⟩ := List.mem_flatMap.mp isPoint
  exact ⟨numbered, isIn, declOf_edit (mem_editsOf.mpr ⟨point, isPoint, isEdit⟩)⟩

theorem handleDecls_outcomes {decls : List (TopLevelDecl × Nat)}
    (order : decls.Pairwise fun earlier later => earlier.2 < later.2)
    (performed : Performed unit bound edits context) (once : Once unit edits)
    (before : ∀ edit ∈ edits, ∀ numbered ∈ decls, declOf edit.target < numbered.2) :
    Outcomes unit bound edits (editsIn isValidMutation endOfToken unit decls) context
      (GoodDecls isValidMutation endOfToken unit bound edits decls)
      (decls.foldlM (handleDecl isValidMutation endOfToken) context) := by
  induction decls generalizing edits context with
  | nil =>
    have same : edits ++ editsIn isValidMutation endOfToken unit [] = edits := List.append_nil _
    refine .inl ⟨⟨by simp, by simp, ?_, ?_, ?_⟩, context, rfl, ?_, fun _ => rfl,
      fun some => absurd rfl some, rfl⟩
    · intro edit mem
      cases mem
    · intro edit mem
      cases mem
    · exact same.symm ▸ once
    · rw [same]
      exact performed
  | cons numbered decls ih =>
    obtain ⟨first, rest⟩ := List.pairwise_cons.mp order
    have here : ∀ edit ∈ edits, declOf edit.target < numbered.2 :=
      fun edit mem => before edit mem numbered (by simp)
    rw [← List.singleton_append, editsIn_append, List.singleton_append, List.foldlM_cons]
    refine ((handleDecl_outcomes performed once here).bind fun ok context' performed' =>
      ih rest performed' ok.good.once ?_).congr
      GoodDecls.append_iff.symm
    intro edit mem other isIn
    rcases List.mem_append.mp mem with mem | mem
    · exact before edit mem other (List.mem_cons_of_mem _ isIn)
    · obtain ⟨_, isHere, same⟩ := declOf_editsIn mem
      obtain rfl := List.mem_singleton.mp isHere
      rw [same]
      exact first other isIn

end
end
end Mull.Frontend
