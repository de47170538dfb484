import Mull.Driver.FilterMutations
import Mull.Driver.FindMutationPoints
import Mull.Filters.FilePathFilter
import Mull.JunkDetection.Answers
import Mull.Parallelization.FilterPipeline

/-! The filters that `mull-cxx` sets up, with the caches that their workers share, against filters without
caches. -/

namespace Mull.Filters
open Base LLVM JunkDetection Parallelization Driver

section
variable {Loc : Type} [LinearOrder Loc]

/-- The `cache` of the file path filter and the ASTs behind the junk filter. -/
structure FilterState (Loc : Type) [LinearOrder Loc] where
  cache : FileMap Bool := ∅
  astUnits : ASTUnits Loc := ∅

/-- Both hold what they would be asked for again; without junk detection there is no loader. -/
def FilterState.InOrder (filePath : FilePathFilter) (loader : Option (Loader Loc))
    (state : FilterState Loc) : Prop :=
  filePath.Cached state.cache ∧ ∀ own, loader = some own → JunkDetection.Cached own state.astUnits

abbrev FunctionPass (Loc : Type) [LinearOrder Loc] := SharedFilter (FilterState Loc) Failure FunctionUnderTest
abbrev MutationPass (Loc : Type) [LinearOrder Loc] := SharedFilter (FilterState Loc) Failure MutationPoint

namespace NoDebugInfoFilter

def shouldSkip (location : SourceLocation) : Bool := location.isNull

def functionPass : FunctionPass Loc := fun f state =>
  .ok ((shouldSkip (SourceLocation.locationFromFunction f.function), f), state)

def mutationPass : MutationPass Loc := fun point state => .ok
    ((shouldSkip point.sourceLocation, point), state)

end NoDebugInfoFilter

namespace FilePathFilter

def functionPass (filter : FilePathFilter) : FunctionPass Loc := fun f state =>
  (filter.shouldSkip (SourceLocation.locationFromFunction f.function) state.cache).map fun answer =>
    ((answer.1, f), { state with cache := answer.2 })

def mutationPass (filter : FilePathFilter) : MutationPass Loc := fun point state =>
  (filter.shouldSkip point.sourceLocation state.cache).map fun answer =>
    ((answer.1, point), { state with cache := answer.2 })

end FilePathFilter

namespace JunkMutationFilter

def mutationPass (loader : Loader Loc) : MutationPass Loc := fun point state =>
  (isJunk loader point state.astUnits).map fun answer => (answer.1, { state with astUnits := answer.2 })

/-- What `isJunk` says when nothing is loaded yet. -/
def judgement (loader : Loader Loc) (point : MutationPoint) : Except Failure (Bool × MutationPoint) :=
  (isJunk loader point ∅).map Prod.fst

def filter (loader : Loader Loc) : MutationFilter where
  shouldSkip point :=
    match judgement loader point with
    | .ok answer => answer.1
    | .error _ => true
  endLocation point :=
    match judgement loader point with
    | .ok (false, left) => some (left.endLocation.line, left.endLocation.column)
    | _ => none

variable {loader : Loader Loc} {astUnits : ASTUnits Loc} {point left : MutationPoint} {junk : Bool}

theorem isJunk_judgement (cached : JunkDetection.Cached loader astUnits) (point : MutationPoint) :
    (isJunk loader point astUnits).map Prod.fst = judgement loader point := by
  obtain ⟨unit, -⟩ := findAST_cached cached point.sourceLocation
  obtain ⟨unit', -⟩ := findAST_cached (cached_empty loader) point.sourceLocation
  unfold judgement isJunk
  cases point.sourceLocation.isNull with
  | true => rfl
  | false =>
    generalize loader.findAST point.sourceLocation astUnits = answer at unit
    generalize loader.findAST point.sourceLocation ∅ = answer' at unit'
    obtain ⟨ast, kept⟩ := answer
    obtain ⟨ast', kept'⟩ := answer'
    obtain rfl : ast = ast' := unit.trans unit'.symm
    cases ast with
    | none => rfl
    | some ast =>
      show Except.map Prod.fst (isJunkIn ast point >>= _) = Except.map Prod.fst (isJunkIn ast point >>= _)
      cases isJunkIn ast point <;> rfl

theorem isJunkIn_leaves {ast : ThreadSafeASTUnit Loc} (ok : isJunkIn ast point = .ok (junk, left)) :
    (junk = true ∧ left = point) ∨ (junk = false ∧ ∃ line column, left = point.setEndLocation line column) := by
  obtain ⟨location, -, ok⟩ := bind_ok ok
  obtain ⟨unit, -, ok⟩ := bind_ok ok
  obtain ⟨header, -, ok⟩ := bind_ok ok
  split at ok
  · cases ok
    exact .inl ⟨rfl, rfl⟩
  · obtain ⟨decl, -, ok⟩ := bind_ok ok
    split at ok
    · cases ok
      exact .inl ⟨rfl, rfl⟩
    · obtain ⟨mutantExpression, -, ok⟩ := bind_ok ok
      split at ok
      · cases ok
        exact .inl ⟨rfl, rfl⟩
      · cases ok
        exact .inr ⟨rfl, _, _, rfl⟩

theorem judgement_leaves (ok : judgement loader point = .ok (junk, left)) :
    (junk = true ∧ left = point) ∨ (junk = false ∧ ∃ line column, left = point.setEndLocation line column) := by
  unfold judgement isJunk at ok
  split at ok
  · cases ok
    exact .inl ⟨rfl, rfl⟩
  · split at ok
    · cases ok
      exact .inl ⟨rfl, rfl⟩
    · rename_i ast kept _
      cases judged : isJunkIn ast point with
      | error failure =>
        rw [judged] at ok
        cases ok
      | ok answer =>
        rw [judged] at ok
        cases ok
        exact isJunkIn_leaves judged

theorem filter_plain (ok : judgement loader point = .ok (junk, left)) :
    (filter loader).plain point = (junk, left) := by
  have skips : (filter loader).shouldSkip point = junk := by
    unfold filter
    dsimp only
    rw [ok]
  have leaves : (filter loader).leave point = left := by
    unfold MutationFilter.leave filter
    dsimp only
    rw [ok]
    rcases judgement_leaves ok with ⟨rfl, rfl⟩ | ⟨rfl, line, column, rfl⟩
    · rfl
    · rfl
  unfold MutationFilter.plain
  rw [skips, leaves]

theorem mutationPass_answers {filePath : FilePathFilter} {state : FilterState Loc}
    (answerable : Answerable loader point)
    (inOrder : state.InOrder filePath (some loader)) : ∃ state', mutationPass loader point state =
      .ok ((filter loader).plain point, state') ∧ state'.InOrder filePath (some loader) := by
  obtain ⟨paths, each⟩ := inOrder
  have units := each loader rfl
  obtain ⟨⟨⟨junk, left⟩, kept⟩, answer⟩ := (isJunk_succeeds_iff units point).mpr answerable
  have same := isJunk_judgement units point
  rw [answer] at same
  refine ⟨{ state with astUnits := kept }, ?_, paths, fun own isOwn => ?_⟩
  rotate_left
  · obtain rfl := Option.some.inj isOwn
    exact (isJunk_ok units answer).1
  unfold mutationPass
  rw [answer, filter_plain same.symm]
  rfl

end JunkMutationFilter

/-! ### The filters of `main` -/

def functionPasses (filePath : FilePathFilter) : List (FunctionPass Loc) :=
  [NoDebugInfoFilter.functionPass, filePath.functionPass]

def plainFunctionFilter (filter : FunctionFilter) :
    PlainFilter FunctionUnderTest := fun f => (filter f.function, f)

theorem filterFunctions_eq (workers : Nat) (filters : List FunctionFilter)
    (functions result : List FunctionUnderTest) :
    FilterFunctions workers filters functions result ↔
      FilterAll workers (filters.map plainFunctionFilter) functions result := by
  induction filters generalizing functions with
  | nil => exact Iff.rfl
  | cons filter filters ih =>
    exact exists_congr fun moved => exists_congr fun tmp => and_congr_right fun _ => ih tmp

def mutationPasses (filePath : FilePathFilter) (loader : Option (Loader Loc)) : List (MutationPass Loc) :=
  [NoDebugInfoFilter.mutationPass, filePath.mutationPass] ++
    (loader.map JunkMutationFilter.mutationPass).toList

def functionFilters (filePath : FilePathFilter) : List FunctionFilter :=
  [fun f => (SourceLocation.locationFromFunction f).isNull,
    fun f => !filePath.allow (SourceLocation.locationFromFunction f).filePath]

def mutationFilters (filePath : FilePathFilter) (loader : Option (Loader Loc)) : List MutationFilter :=
  [{ shouldSkip point := point.sourceLocation.isNull },
    { shouldSkip point := !filePath.allow point.sourceLocation.filePath }] ++
      (loader.map JunkMutationFilter.filter).toList

section
variable {filePath : FilePathFilter} {loader : Option (Loader Loc)} {state : FilterState Loc}

theorem inOrder_empty (filePath : FilePathFilter) (loader : Option (Loader Loc)) :
    ({} : FilterState Loc).InOrder filePath loader :=
  ⟨filePath.cached_empty, fun own _ => cached_empty own⟩

theorem shouldSkip_answers {α : Type} {pass : SharedFilter (FilterState Loc) Failure α}
    (location : α → SourceLocation)
    (isPass : ∀ x state, pass x state = (filePath.shouldSkip (location x) state.cache).map fun answer =>
      ((answer.1, x), { state with cache := answer.2 })) (x : α) (present : (location x).isNull = false)
    (inOrder : state.InOrder filePath loader) : ∃ state', pass x state =
      .ok ((!filePath.allow (location x).filePath, x), state') ∧ state'.InOrder filePath loader := by
  obtain ⟨cache, answer, cached⟩ := FilePathFilter.shouldSkip_cached inOrder.1 present
  refine ⟨{ state with cache := cache }, ?_, cached, inOrder.2⟩
  rw [isPass, answer]
  rfl

theorem functionPasses_agree (filePath : FilePathFilter) (loader : Option (Loader Loc)) :
    Agree (FilterState.InOrder filePath loader) (fun _ => True) (functionPasses filePath)
      ((functionFilters filePath).map plainFunctionFilter) := by
  have second : Agree (FilterState.InOrder filePath loader)
      (fun f => (SourceLocation.locationFromFunction f.function).isNull = false) [filePath.functionPass]
      [plainFunctionFilter fun f => !filePath.allow (SourceLocation.locationFromFunction f).filePath] :=
    .cons (fun f present state inOrder => shouldSkip_answers
        (fun f : FunctionUnderTest => SourceLocation.locationFromFunction f.function) (fun _ _ => rfl) f
          present inOrder)
      (fun _ _ _ => trivial) (.nil fun _ => True)
  exact .cons (fun f _ state inOrder => ⟨state, rfl, inOrder⟩) (fun _ _ present => present) second

/-- The junk filter is asked about points with debug information in files that the patterns allow. -/
theorem mutationPasses_agree (filePath : FilePathFilter) (loader : Option (Loader Loc)) :
    Agree (FilterState.InOrder filePath loader)
      (fun point => point.sourceLocation.isNull = false →
        filePath.allow point.sourceLocation.filePath = true →
        ∀ own, loader = some own → Answerable own point)
      (mutationPasses filePath loader) ((mutationFilters filePath loader).map MutationFilter.plain) := by
  have third : Agree (FilterState.InOrder filePath loader)
    (fun point => ∀ own, loader = some own → Answerable own point)
      (loader.map JunkMutationFilter.mutationPass).toList
      ((loader.map JunkMutationFilter.filter).toList.map MutationFilter.plain) := by
    cases loader with
    | none => exact .nil _
    | some own =>
      exact .cons (fun point answerable state inOrder =>
        JunkMutationFilter.mutationPass_answers (answerable own rfl) inOrder) (fun _ _ _ => trivial)
          (.nil fun _ => True)
  have second : Agree (FilterState.InOrder filePath loader)
      (fun point => point.sourceLocation.isNull = false ∧
        (filePath.allow point.sourceLocation.filePath = true →
        ∀ own, loader = some own → Answerable own point))
      (filePath.mutationPass :: (loader.map JunkMutationFilter.mutationPass).toList)
      (({ shouldSkip point := !filePath.allow point.sourceLocation.filePath } :: (loader.map
        JunkMutationFilter.filter).toList : List MutationFilter).map MutationFilter.plain) := by
    refine .cons (fun point present state inOrder => shouldSkip_answers MutationPoint.sourceLocation
        (fun _ _ => rfl) point present.1 inOrder)
      (fun point present allowed => present.2 ?_) third
    exact (Bool.not_eq_false' _).mp allowed
  exact .cons (fun point _ state inOrder => ⟨state, rfl, inOrder⟩)
    (fun point answerable present => ⟨present, answerable present⟩) second

end

end

end Mull.Filters
