import Mull.Frontend.ParsedGroups

/-! When `parseAST` performs all mutations of a translation unit. -/

namespace Mull.Frontend
open Base

/-- The number of declarations that are parsed once the group of a declaration is. -/
def groupEnd : List DeclGroupRef → Nat → Nat → Nat
  | [], first, _ => first
  | DG :: groups, first, d =>
    if d < first + DG.length then first + DG.length else groupEnd groups (first + DG.length) d

/-- The number of declarations that are in the parent map when it is built, for the first of the edits. -/
def mappedBy (groups : List DeclGroupRef) (first : Nat) (edits : List Edit) : Nat :=
  match edits with
  | [] => 0
  | edit :: _ => groupEnd groups first (declOf edit.target)

def Ends (unit : List DeclGroupRef) (edits : List Edit) (succeeds : Prop)
    (result : Option ASTContext) : Prop :=
  (succeeds ∧ ∃ context, result = some context ∧ ∃ switch, Switched (source unit) edits switch context) ∨
  (¬ succeeds ∧ result = none)

section
variable {isValidMutation : MutatorKind → Bool} {endOfToken : Location → Int32 × Int32}
  {unit : List DeclGroupRef}
  {bound first : Nat} {edits : List Edit} {context : ASTContext} {succeeds succeeds' : Prop}
  {result : Option ASTContext}

theorem Ends.congr (same : succeeds ↔ succeeds') (ends : Ends unit edits succeeds result) :
    Ends unit edits succeeds' result := by
  rcases ends with ⟨ok, rest⟩ | ⟨fails, isResult⟩
  · exact .inl ⟨same.mp ok, rest⟩
  · exact .inr ⟨fun ok => fails (same.mpr ok), isResult⟩

theorem zipIdx_order (decls : List TopLevelDecl) (first : Nat) :
    (decls.zipIdx first).Pairwise fun earlier later => earlier.2 < later.2 := by
  apply List.pairwise_iff_getElem.mpr
  intro i j bound bound' less
  rw [List.getElem_zipIdx, List.getElem_zipIdx]
  exact Nat.add_lt_add_left less first

theorem le_of_mem_zipIdx {decls : List TopLevelDecl} {numbered : TopLevelDecl × Nat}
    (mem : numbered ∈ decls.zipIdx first) : first ≤ numbered.2 ∧ numbered.2 < first + decls.length := by
  obtain ⟨i, inside, rfl⟩ := List.getElem_of_mem mem
  rw [List.length_zipIdx] at inside
  rw [List.getElem_zipIdx]
  exact ⟨Nat.le_add_right first i, Nat.add_lt_add_left inside first⟩

/-- Once it is built, the parent map stays as it is when further groups are parsed. -/
theorem Performed.parse (performed : Performed unit bound edits context)
    (built : context.parentMap.isSome = true)
    {refs : List Ref} (parsed : ∀ ref ∈ refs, ∃ d i, ref = .parsed d i) :
    Performed unit bound edits { context with parsed := context.parsed ++ refs } where
  switched := by
    obtain ⟨switch, switched⟩ := performed.switched
    exact ⟨switch, switched.unmoved, switched.moved, switched.parsed, switched.fresh⟩
  asked := by
    obtain ⟨parentMap, isMap⟩ := Option.isSome_iff_exists.mp built
    have asked := performed.asked
    unfold Asked at asked ⊢
    rw [isMap] at asked
    dsimp only
    rw [isMap]
    exact asked
  list := by
    intro ref mem
    rcases List.mem_append.mp mem with mem | mem
    · exact performed.list ref mem
    · exact parsed ref mem

theorem groupRefs_parsed (DG : DeclGroupRef) (first : Nat) :
    ∀ ref ∈ (DG.zipIdx first).flatMap fun numbered => numbered.1.refs numbered.2, ∃ d i,
    ref = .parsed d i := by
  intro ref mem
  obtain ⟨numbered, -, mem⟩ := List.mem_flatMap.mp mem
  obtain ⟨i, -, rfl⟩ := List.mem_map.mp mem
  exact ⟨numbered.2, i, rfl⟩

theorem GoodDecls.nil (once : Once unit edits) :
    GoodDecls isValidMutation endOfToken unit bound edits [] where
  searched := by simp
  good := by
    refine ⟨by simp, ?_, ?_, ?_⟩
    · intro edit mem
      cases mem
    · intro edit mem
      cases mem
    · exact (List.append_nil edits).symm ▸ once

theorem refsBelow_append {before DG after : List TopLevelDecl}
    (whole : unit.flatten = before ++ (DG ++ after)) :
    refsBelow unit (before ++ DG).length =
      refsBelow unit before.length ++ (DG.zipIdx before.length).flatMap fun numbered =>
        numbered.1.refs numbered.2 := by
  unfold refsBelow
  rw [← List.flatMap_append, whole, ← List.append_assoc, List.zipIdx_append, List.zipIdx_append, Nat.zero_add]
  congr 1
  have size : (before ++ DG).length = (before.zipIdx ++ DG.zipIdx before.length).length := by simp
  rw [size, List.take_left, List.append_assoc]
  have size : before.length = before.zipIdx.length := by simp
  rw [size, List.take_left]

theorem GoodDecls.of_none {bound' : Nat} {decls : List (TopLevelDecl × Nat)}
    (none : editsIn isValidMutation endOfToken unit decls = [])
    (good : GoodDecls isValidMutation endOfToken unit bound edits decls) :
    GoodDecls isValidMutation endOfToken unit bound' edits decls where
  searched := good.searched
  good := by
    refine ⟨good.good.typed, good.good.inPlace, ?_, good.good.once⟩
    intro edit mem
    rw [show editsOf unit _ = [] from none] at mem
    cases mem

theorem mappedBy_later {DG : DeclGroupRef} {groups : List DeclGroupRef}
    (later : ∀ edit ∈ edits, first + DG.length ≤ declOf edit.target) :
    mappedBy (DG :: groups) first edits = mappedBy groups (first + DG.length) edits := by
  cases edits with
  | nil => rfl
  | cons edit edits => exact if_neg (Nat.not_lt.mpr (later edit List.mem_cons_self))

theorem mappedBy_here {DG : DeclGroupRef} {groups : List DeclGroupRef} {new : List Edit} (some : edits ≠ [])
    (here : ∀ edit ∈ edits, declOf edit.target < first + DG.length) :
    mappedBy (DG :: groups) first (edits ++ new) = first + DG.length := by
  cases edits with
  | nil => exact absurd rfl some
  | cons edit edits => exact if_pos (here edit List.mem_cons_self)

/-- The AST between two groups: as it was parsed, or with the parent map that the first mutation asked for. -/
inductive Handled (unit : List DeclGroupRef) (first : Nat) : Option Nat → List Edit → ASTContext → Prop
  | fresh {context : ASTContext} (heap : context.node? = source unit)
  (parsed : context.parsed = refsBelow unit first)
      (notAsked : context.parentMap = none) : Handled unit first none [] context
  | mapped {bound : Nat} {edits : List Edit} {context : ASTContext}
      (performed : Performed unit bound edits context)
      (built : context.parentMap.isSome = true) (once : Once unit edits)
      (before : ∀ edit ∈ edits, declOf edit.target < first) : Handled unit first (some bound) edits context

def ASTContext.parse (context : ASTContext) (first : Nat) (DG : DeclGroupRef) : ASTContext :=
  { context with parsed := context.parsed ++ (DG.zipIdx first).flatMap fun numbered => numbered.1.refs numbered.2 }

end

section
variable {isValidMutation : MutatorKind → Bool} {endOfToken : Location → Int32 × Int32}
  {unit : List DeclGroupRef}
  {map : Option Nat} {edits : List Edit} {context context' : ASTContext} {before after DG : List TopLevelDecl}

theorem Handled.once {first : Nat} (handled : Handled unit first map edits context) :
    Once unit edits ∧ ∀ edit ∈ edits, declOf edit.target < first := by
  cases handled with
  | fresh => exact ⟨List.Pairwise.nil, by simp⟩
  | mapped _ _ once inside => exact ⟨once, inside⟩

theorem Handled.switched {first : Nat} (handled : Handled unit first map edits context) :
    ∃ switch, Switched (source unit) edits switch context := by
  cases handled with
  | fresh heap parsed notAsked => exact (performed_source heap parsed notAsked).switched
  | mapped performed => exact performed.switched

theorem Handled.parse (handled : Handled unit before.length map edits context)
    (whole : unit.flatten = before ++ (DG ++ after)) :
    Performed unit (map.getD (before ++ DG).length) edits (context.parse before.length DG) := by
  cases handled with
  | fresh heap parsed notAsked =>
    refine @performed_source unit (before ++ DG).length (context.parse before.length DG) heap ?_ notAsked
    rw [ASTContext.parse, parsed, refsBelow_append whole]
  | mapped performed built => exact performed.parse built (groupRefs_parsed DG _)

theorem Handled.unchanged (handled : Handled unit before.length map edits context)
    (whole : unit.flatten = before ++ (DG ++ after)) :
    Handled unit (before ++ DG).length map edits (context.parse before.length DG) := by
  cases handled with
  | fresh heap parsed notAsked =>
    refine .fresh heap ?_ notAsked
    rw [ASTContext.parse, parsed, refsBelow_append whole]
  | mapped performed built once inside =>
    refine .mapped (performed.parse built (groupRefs_parsed DG _)) built once ?_
    intro edit mem
    rw [List.length_append]
    exact Nat.lt_of_lt_of_le (inside edit mem) (Nat.le_add_right _ _)

theorem declOf_group {edit : Edit}
    (mem : edit ∈ editsIn isValidMutation endOfToken unit (DG.zipIdx before.length)) :
    before.length ≤ declOf edit.target ∧ declOf edit.target < before.length + DG.length := by
  obtain ⟨numbered, isIn, same⟩ := declOf_editsIn mem
  rw [same]
  exact le_of_mem_zipIdx isIn

theorem Handled.group (handled : Handled unit before.length map edits context)
    (whole : unit.flatten = before ++ (DG ++ after)) :
    (GoodDecls isValidMutation endOfToken unit (map.getD (before ++ DG).length) edits
      (DG.zipIdx before.length) ∧
      ∃ context' map',
        handleTopLevelDecl isValidMutation endOfToken context before.length DG = some context' ∧
        Handled unit (before ++ DG).length map'
          (edits ++ editsIn isValidMutation endOfToken unit (DG.zipIdx before.length)) context' ∧
        (editsIn isValidMutation endOfToken unit (DG.zipIdx before.length) = [] → map' = map) ∧
        (editsIn isValidMutation endOfToken unit (DG.zipIdx before.length) ≠ [] →
          map' = some (map.getD (before ++ DG).length))) ∨
    (¬ GoodDecls isValidMutation endOfToken unit (map.getD (before ++ DG).length) edits
      (DG.zipIdx before.length) ∧
      handleTopLevelDecl isValidMutation endOfToken context before.length DG = none) := by
  obtain ⟨once, inside⟩ := handled.once
  have later : ∀ edit ∈ edits, ∀ numbered ∈ DG.zipIdx before.length, declOf edit.target < numbered.2 :=
    fun edit mem numbered isIn => Nat.lt_of_lt_of_le (inside edit mem) (le_of_mem_zipIdx isIn).1
  rcases @handleDecls_outcomes _ _ _ _ isValidMutation endOfToken _ (zipIdx_order DG before.length)
    (handled.parse whole) once
    later with ⟨good, context', isResult, performed', unchanged, asked, -⟩ | failed
  · left
    refine ⟨good, context', ?_⟩
    by_cases none : editsIn isValidMutation endOfToken unit (DG.zipIdx before.length) = []
    · refine ⟨map, isResult, ?_, fun _ => rfl, fun some => absurd none some⟩
      rw [none, List.append_nil, unchanged none]
      exact handled.unchanged whole
    · refine ⟨_, isResult, .mapped performed' (asked none) good.good.once ?_,
        fun nothing => absurd nothing none, fun _ => rfl⟩
      intro edit mem
      rw [List.length_append]
      rcases List.mem_append.mp mem with mem | mem
      · exact Nat.lt_of_lt_of_le (inside edit mem) (Nat.le_add_right _ _)
      · exact (declOf_group mem).2
  · exact .inr failed

/-- By induction on the groups: the parent map is built in the first that has a mutation. -/
theorem Handled.groups {groups : List DeclGroupRef} (handled : Handled unit before.length map edits context)
    (whole : unit.flatten = before ++ groups.flatten) :
    Ends unit (edits ++ editsIn isValidMutation endOfToken unit (groups.flatten.zipIdx before.length))
      (GoodDecls isValidMutation endOfToken unit (map.getD (mappedBy groups before.length
        (editsIn isValidMutation endOfToken unit (groups.flatten.zipIdx before.length)))) edits
        (groups.flatten.zipIdx before.length))
      (handleGroups isValidMutation endOfToken context before.length groups) := by
  induction groups generalizing before map edits context with
  | nil =>
    refine .inl ⟨.nil handled.once.1, context, rfl, ?_⟩
    exact (List.append_nil edits).symm ▸ handled.switched
  | cons DG groups ih =>
    rw [List.flatten_cons] at whole ⊢
    rw [List.zipIdx_append, editsIn_append, ← List.append_assoc]
    have size : (before ++ DG).length = before.length + DG.length := List.length_append
    have bound : GoodDecls isValidMutation endOfToken unit (map.getD (before ++ DG).length) edits
      (DG.zipIdx before.length) ↔
        GoodDecls isValidMutation endOfToken unit (map.getD (mappedBy (DG :: groups) before.length
          (editsIn isValidMutation endOfToken unit (DG.zipIdx before.length) ++
            editsIn isValidMutation endOfToken unit (groups.flatten.zipIdx (before.length + DG.length)))))
              edits
          (DG.zipIdx before.length) := by
      by_cases none : editsIn isValidMutation endOfToken unit (DG.zipIdx before.length) = []
      · exact ⟨GoodDecls.of_none none, GoodDecls.of_none none⟩
      · rw [mappedBy_here none fun edit mem => (declOf_group mem).2, size]
    refine Ends.congr GoodDecls.append_iff.symm ?_
    unfold handleGroups
    rcases handled.group whole with
      ⟨good, context', map', isResult, handled', same, asked⟩ | ⟨fails, isResult⟩
    · rw [isResult]
      refine Ends.congr (and_iff_right (bound.mp good)).symm ?_
      have rest := @ih map' _ context' (before ++ DG) handled' (by rw [whole, List.append_assoc])
      rw [size] at rest
      by_cases none : editsIn isValidMutation endOfToken unit (DG.zipIdx before.length) = []
      · rw [none, List.nil_append, mappedBy_later, ← same none, ← none]
        · exact rest
        · intro edit mem
          obtain ⟨numbered, isIn, place⟩ := declOf_editsIn mem
          rw [place]
          exact (le_of_mem_zipIdx isIn).1
      · rw [mappedBy_here none fun edit mem => (declOf_group mem).2, ← size]
        rw [asked none] at rest
        rw [size] at rest ⊢
        exact rest
    · rw [isResult]
      exact .inr ⟨fun both => fails (bound.mpr both.1), rfl⟩

/-- Every declaration can be searched, and every point be performed with the parent map of the first. -/
def Performable (isValidMutation : MutatorKind → Bool) (endOfToken : Location → Int32 × Int32)
    (unit : List DeclGroupRef) : Prop :=
  GoodDecls isValidMutation endOfToken unit (mappedBy unit 0 (recordedEdits isValidMutation endOfToken unit))
    []
    unit.flatten.zipIdx

theorem parseAST_ends : Ends unit (recordedEdits isValidMutation endOfToken unit)
    (Performable isValidMutation endOfToken unit) (parseAST isValidMutation endOfToken unit) :=
  @Handled.groups isValidMutation endOfToken unit none [] ⟨source unit, [], 0, none⟩ [] unit
    (.fresh rfl rfl rfl) rfl

/-- What the plugin makes of the AST before it comes to a declaration. -/
def Earlier (unit : List DeclGroupRef) (d : Nat) (context : ASTContext) : Prop :=
  ∃ bound edits, Performed unit bound edits context ∧ Once unit edits ∧ ∀ edit ∈ edits, declOf edit.target < d

theorem Handled.run {groups : List DeclGroupRef} (handled : Handled unit before.length map edits context)
    (whole : unit.flatten = before ++ (groups.flatten ++ after))
    (ran : handleGroups isValidMutation endOfToken context before.length groups = some context') :
    ∃ map' edits', Handled unit (before ++ groups.flatten).length map' edits' context' := by
  induction groups generalizing before map edits context with
  | nil =>
    obtain rfl := Option.some.inj ran
    rw [List.flatten_nil, List.append_nil]
    exact ⟨map, edits, handled⟩
  | cons DG groups ih =>
    rw [List.flatten_cons, List.append_assoc] at whole
    obtain ⟨between, isGroup, rest⟩ := Option.bind_eq_some_iff.mp ran
    rcases @Handled.group isValidMutation endOfToken _ _ _ _ _ _ _ handled whole with
      ⟨_, _, map', isResult, handled', _⟩ | ⟨_, failed⟩
    · obtain rfl := Option.some.inj (isGroup.symm.trans isResult)
      rw [← List.length_append] at rest
      have done := ih handled' (by rw [whole, List.append_assoc]) rest
      rwa [List.append_assoc] at done
    · rw [failed] at isGroup
      cases isGroup

theorem Handled.earlier (handled : Handled unit before.length map edits context)
    (whole : unit.flatten = before ++ (DG ++ after)) {done todo : List (TopLevelDecl × Nat)}
    (parts : DG.zipIdx before.length = done ++ todo)
    (ran : done.foldlM (handleDecl isValidMutation endOfToken) (context.parse before.length DG) =
      some context') :
    Earlier unit (before.length + done.length) context' := by
  obtain ⟨once, inside⟩ := handled.once
  have numbers {i : Nat} {numbered : TopLevelDecl × Nat} (there : done[i]? = some numbered) :
      i < done.length ∧ numbered.2 = before.length + i := by
    obtain ⟨bound, -⟩ := List.getElem?_eq_some_iff.mp there
    rw [← @List.getElem?_append_left _ done todo i bound, ← parts, List.getElem?_zipIdx] at there
    obtain ⟨_, -, rfl⟩ := Option.map_eq_some_iff.mp there
    exact ⟨bound, rfl⟩
  have order := zipIdx_order DG before.length
  rw [parts] at order
  have behind : ∀ edit ∈ edits, ∀ numbered ∈ done, declOf edit.target < numbered.2 := by
    intro edit mem numbered isIn
    obtain ⟨i, there⟩ := List.getElem?_of_mem isIn
    rw [(numbers there).2]
    exact Nat.lt_of_lt_of_le (inside edit mem) (Nat.le_add_right _ _)
  rcases handleDecls_outcomes (List.pairwise_append.mp order).1 (handled.parse whole) once behind with
    ⟨good, _, isResult, performed, -⟩ | ⟨-, failed⟩
  · obtain rfl := Option.some.inj (ran.symm.trans isResult)
    refine ⟨_, _, performed, good.good.once, ?_⟩
    intro edit mem
    rcases List.mem_append.mp mem with mem | mem
    · exact Nat.lt_of_lt_of_le (inside edit mem) (Nat.le_add_right _ _)
    · obtain ⟨numbered, isIn, same⟩ := declOf_editsIn mem
      obtain ⟨i, there⟩ := List.getElem?_of_mem isIn
      obtain ⟨bound, place⟩ := numbers there
      rw [same, place]
      exact Nat.add_lt_add_left bound _
  · rw [failed] at ran
    cases ran

/-- On the way of `parseAST`: the groups before are handled, and the declarations before in the group. -/
theorem reached_earlier {groups later : List DeclGroupRef} (whole : unit = groups ++ DG :: later)
    (ran : handleGroups isValidMutation endOfToken ⟨source unit, [], 0, none⟩ 0 groups = some context)
    {done todo : List (TopLevelDecl × Nat)} (parts : DG.zipIdx groups.flatten.length = done ++ todo)
    (ran' : done.foldlM (handleDecl isValidMutation endOfToken) (context.parse groups.flatten.length DG) =
      some context') :
    Earlier unit (groups.flatten.length + done.length) context' := by
  have decls : unit.flatten = groups.flatten ++ (DG ++ later.flatten) := by
    rw [whole, List.flatten_append, List.flatten_cons]
  obtain ⟨map, edits, handled⟩ :=
    @Handled.run isValidMutation endOfToken unit none [] _ _ [] _ groups (.fresh rfl rfl rfl) decls ran
  exact handled.earlier decls parts ran'

end
end Mull.Frontend
