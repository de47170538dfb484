import Mull.Base.Fallible
import Mull.JunkDetection.CXXJunkDetector
import Mull.JunkDetection.Candidates
import Mull.JunkDetection.PosixPath

/-! When every call of `isJunk` returns, whatever the calls before it left in the storage. -/

namespace Mull.JunkDetection
open Base

section
variable {Loc : Type} [LinearOrder Loc]

namespace Loader

def load (loader : Loader Loc) (sourceFile : Text) : Option (ASTUnit Loc) :=
  loader.LoadFromCommandLine (loader.args sourceFile)

/-- The file that the unit of a location is loaded from, if it is loaded at all. -/
def unitFile (loader : Loader Loc) (sourceLocation : SourceLocation) : Option Text :=
  if loader.fileExists sourceLocation.unitFilePath then some sourceLocation.unitFilePath
  else if sourceLocation.unitFilePath = "/in-memory-file.cc".toList then some sourceLocation.filePath
  else none

def unitAST (loader : Loader Loc) (sourceLocation : SourceLocation) : Option (ASTUnit Loc) :=
  (loader.unitFile sourceLocation).bind loader.load

end Loader

/-- The AST has the file of the location, or else that of the unit, and the line in it. -/
def ASTUnit.Locates (ast : ASTUnit Loc) (sourceLocation : SourceLocation) : Prop :=
  ∃ file,
    (ast.fileinfo.find? fun file => ThreadSafeASTUnit.currentSourceFilePath file ==
      sourceLocation.filePath).or
      (ast.fileinfo.find? fun file => ThreadSafeASTUnit.currentSourceFilePath file ==
        sourceLocation.unitFilePath) =
        some file ∧
    file.isValid = true ∧ (ast.getLocation file sourceLocation.line sourceLocation.column).isSome = true

/-- Nothing is loaded for the point, or its unit has an AST that knows its location. -/
def Answerable (loader : Loader Loc) (point : MutationPoint) : Prop :=
  point.sourceLocation.isNull = true ∨ loader.unitFile point.sourceLocation = none ∨
    ∃ ast, loader.unitAST point.sourceLocation = some ast ∧ ast.Locates point.sourceLocation

/-- Every call returns, and a point whose unit has no AST is junk. -/
def Answers (loader : Loader Loc) (points : List MutationPoint) : Prop :=
  ∃ verdicts astUnits, isJunkEach loader points ∅ = .ok (verdicts, astUnits) ∧
    List.Forall₂ (fun point verdict => loader.unitAST point.sourceLocation = none →
      verdict.1 = true) points verdicts

def Cached (loader : Loader Loc) (astUnits : ASTUnits Loc) : Prop :=
  ∀ sourceFile unit, astUnits.lookup sourceFile = some unit →
    unit = ThreadSafeASTUnit.create (loader.load sourceFile)

theorem cached_empty (loader : Loader Loc) : Cached loader ∅ := by
  intro sourceFile unit found
  cases found

theorem findASTOfFile_cached {loader : Loader Loc} {astUnits : ASTUnits Loc} (cached : Cached loader astUnits)
    (sourceFile : Text) :
    (loader.findASTOfFile sourceFile astUnits).1 = ThreadSafeASTUnit.create (loader.load sourceFile) ∧
      Cached loader (loader.findASTOfFile sourceFile astUnits).2 := by
  unfold Loader.findASTOfFile
  cases found : astUnits.lookup sourceFile with
  | some unit => exact ⟨cached sourceFile unit found, cached⟩
  | none =>
    refine ⟨rfl, fun file unit read => ?_⟩
    by_cases same : file = sourceFile
    · subst same
      rw [AList.lookup_insert] at read
      exact (Option.some.inj read).symm
    · rw [AList.lookup_insert_ne same] at read
      exact cached file unit read

theorem findAST_cached {loader : Loader Loc} {astUnits : ASTUnits Loc} (cached : Cached loader astUnits)
    (sourceLocation : SourceLocation) :
    (loader.findAST sourceLocation astUnits).1 =
        (loader.unitFile sourceLocation).map (fun file => ThreadSafeASTUnit.create (loader.load file)) ∧
      Cached loader (loader.findAST sourceLocation astUnits).2 := by
  unfold Loader.findAST Loader.unitFile
  dsimp only
  split
  · obtain ⟨unit, kept⟩ := findASTOfFile_cached cached sourceLocation.unitFilePath
    exact ⟨congrArg some unit, kept⟩
  · split
    · obtain ⟨unit, kept⟩ := findASTOfFile_cached cached sourceLocation.filePath
      exact ⟨congrArg some unit, kept⟩
    · exact ⟨rfl, cached⟩

theorem findFileEntry_loaded {ast : ASTUnit Loc} {sourceLocation : SourceLocation}
    (present : sourceLocation.isNull = false) :
    (ThreadSafeASTUnit.create (some ast)).findFileEntry sourceLocation =
      .ok ((ast.fileinfo.find? fun file => ThreadSafeASTUnit.currentSourceFilePath file ==
        sourceLocation.filePath).or
        (ast.fileinfo.find? fun file =>
          ThreadSafeASTUnit.currentSourceFilePath file == sourceLocation.unitFilePath)) := by
  unfold ThreadSafeASTUnit.findFileEntry ThreadSafeASTUnit.findFileEntryByPath
  rw [present]
  cases own : ast.fileinfo.find? fun file =>
    ThreadSafeASTUnit.currentSourceFilePath file == sourceLocation.filePath with
  | none =>
    simp [ThreadSafeASTUnit.create, ThreadSafeASTUnit.dereference, own, bind, Except.bind, pure, Except.pure]
  | some file =>
    simp [ThreadSafeASTUnit.create, ThreadSafeASTUnit.dereference, own, bind, Except.bind, pure, Except.pure]

theorem getLocation_succeeds_iff {ast : ASTUnit Loc} {sourceLocation : SourceLocation}
    (present : sourceLocation.isNull = false) :
    Succeeds ((ThreadSafeASTUnit.create (some ast)).getLocation sourceLocation) ↔
    ast.Locates sourceLocation := by
  unfold Succeeds ThreadSafeASTUnit.getLocation ASTUnit.Locates
  rw [findFileEntry_loaded present, present]
  cases entry : (ast.fileinfo.find? fun file =>
      ThreadSafeASTUnit.currentSourceFilePath file == sourceLocation.filePath).or
      (ast.fileinfo.find? fun file =>
        ThreadSafeASTUnit.currentSourceFilePath file == sourceLocation.unitFilePath) with
  | none => simp [bind, Except.bind, throw, throwThe, MonadExceptOf.throw]
  | some file =>
    cases valid : file.isValid with
    | false => simp [valid, bind, Except.bind, throw, throwThe, MonadExceptOf.throw]
    | true =>
      cases found : ast.getLocation file sourceLocation.line sourceLocation.column with
      | none =>
        simp [valid, found, ThreadSafeASTUnit.create, ThreadSafeASTUnit.dereference, bind, Except.bind, throw,
          throwThe, MonadExceptOf.throw]
      | some location =>
        simp [valid, found, ThreadSafeASTUnit.create, ThreadSafeASTUnit.dereference, bind, Except.bind, pure,
          Except.pure]

theorem getLocation_unloaded {sourceLocation : SourceLocation} (present : sourceLocation.isNull = false) :
    (ThreadSafeASTUnit.create (none : Option (ASTUnit Loc))).getLocation sourceLocation =
      .error .nullDereference := by
  unfold ThreadSafeASTUnit.getLocation ThreadSafeASTUnit.findFileEntry
  rw [present]
  rfl

theorem getDecl_succeeds (ast : ASTUnit Loc) (location : Loc) :
    Succeeds ((ThreadSafeASTUnit.create (some ast)).getDecl location) := by
  unfold ThreadSafeASTUnit.getDecl
  split
  · exact ⟨none, rfl⟩
  · refine .bind ⟨ast, rfl⟩ fun _ _ => ?_
    dsimp only
    split
    · exact ⟨none, rfl⟩
    · split <;> exact ⟨_, rfl⟩

theorem isJunkIn_succeeds_iff {ast : ASTUnit Loc} {point : MutationPoint}
    (present : point.sourceLocation.isNull = false) :
    Succeeds (isJunkIn (ThreadSafeASTUnit.create (some ast)) point) ↔ ast.Locates point.sourceLocation := by
  rw [← getLocation_succeeds_iff present]
  constructor
  · rintro ⟨verdict, ok⟩
    obtain ⟨location, located, _⟩ := bind_ok ok
    exact ⟨location, located⟩
  · intro located
    refine .bind located fun location _ => ?_
    refine .bind ⟨ast, rfl⟩ fun _ _ => ?_
    refine .bind ⟨ast.getSourceManager.isInSystemHeader location, rfl⟩ fun header _ => ?_
    split
    · exact ⟨_, rfl⟩
    · refine .bind (getDecl_succeeds ast location) fun decl _ => ?_
      cases decl with
      | none => exact ⟨_, rfl⟩
      | some decl =>
        refine .bind (findMutantExpression_total _ _ decl) fun found _ => ?_
        cases found <;> exact ⟨_, rfl⟩

theorem isJunkIn_unloaded {point : MutationPoint} (present : point.sourceLocation.isNull = false) :
    ¬ Succeeds (isJunkIn (ThreadSafeASTUnit.create (none : Option (ASTUnit Loc))) point) := by
  rintro ⟨verdict, ok⟩
  obtain ⟨location, located, _⟩ := bind_ok ok
  rw [getLocation_unloaded present] at located
  cases located

section
variable {loader : Loader Loc} {astUnits : ASTUnits Loc}

/-- One call: it returns exactly for the points that can be answered, and keeps the storage as loaded. -/
theorem isJunk_succeeds_iff (cached : Cached loader astUnits) (point : MutationPoint) :
    Succeeds (isJunk loader point astUnits) ↔ Answerable loader point := by
  obtain ⟨unit, _⟩ := findAST_cached cached point.sourceLocation
  unfold isJunk Answerable
  cases null : point.sourceLocation.isNull with
  | true => exact iff_of_true ⟨_, rfl⟩ (.inl rfl)
  | false =>
    rw [if_neg (by simp)]
    generalize loader.findAST point.sourceLocation astUnits = answer at unit
    obtain ⟨ast, kept⟩ := answer
    cases file : loader.unitFile point.sourceLocation with
    | none =>
      rw [file] at unit
      obtain rfl : ast = none := unit
      exact iff_of_true ⟨_, rfl⟩ (.inr (.inl rfl))
    | some file' =>
      rw [file] at unit
      obtain rfl : ast = some (ThreadSafeASTUnit.create (loader.load file')) := unit
      have judged : Succeeds (isJunkIn (ThreadSafeASTUnit.create (loader.load file')) point) ↔
          ∃ ast, loader.load file' = some ast ∧ ast.Locates point.sourceLocation := by
        cases loader.load file' with
        | none => exact iff_of_false (isJunkIn_unloaded null) (by simp)
        | some ast => simpa using isJunkIn_succeeds_iff null
      have unloaded : loader.unitAST point.sourceLocation = loader.load file' := by
        rw [Loader.unitAST, file]
        rfl
      rw [unloaded]
      constructor
      · rintro ⟨answer, ok⟩
        obtain ⟨verdict, ok, _⟩ := bind_ok ok
        exact .inr (.inr (judged.mp ⟨verdict, ok⟩))
      · intro answerable
        rcases answerable with absurd_ | absurd_ | located
        · cases absurd_
        · cases absurd_
        · exact .bind (judged.mpr located) fun _ _ => ⟨_, rfl⟩

theorem isJunk_ok (cached : Cached loader astUnits) {point : MutationPoint} {verdict : Bool × MutationPoint}
    {kept : ASTUnits Loc} (ok : isJunk loader point astUnits = .ok (verdict, kept)) :
    Cached loader kept ∧ (loader.unitAST point.sourceLocation = none → verdict.1 = true) := by
  obtain ⟨unit, keeps⟩ := findAST_cached cached point.sourceLocation
  unfold isJunk at ok
  split at ok
  · cases ok
    exact ⟨cached, fun _ => rfl⟩
  · rename_i present
    generalize loader.findAST point.sourceLocation astUnits = answer at unit keeps ok
    obtain ⟨ast, after⟩ := answer
    cases ast with
    | none =>
      cases ok
      exact ⟨keeps, fun _ => rfl⟩
    | some ast =>
      obtain ⟨judged, judgedOk, same⟩ := bind_ok ok
      cases same
      refine ⟨keeps, fun unloaded => ?_⟩
      obtain ⟨file, isFile, created⟩ := Option.map_eq_some_iff.mp unit.symm
      rw [Loader.unitAST, isFile, Option.bind_some] at unloaded
      rw [← created, unloaded] at judgedOk
      exact absurd ⟨_, judgedOk⟩ (isJunkIn_unloaded (Bool.eq_false_iff.mpr present))

theorem answers_from (cached : Cached loader astUnits) (points : List MutationPoint) :
    (∃ verdicts kept, isJunkEach loader points astUnits = .ok (verdicts, kept) ∧
      List.Forall₂ (fun point verdict => loader.unitAST point.sourceLocation = none → verdict.1 = true) points
        verdicts) ↔ ∀ point ∈ points, Answerable loader point := by
  induction points generalizing astUnits with
  | nil => exact iff_of_true ⟨[], astUnits, rfl, .nil⟩ (by simp)
  | cons point points ih =>
    rw [List.forall_mem_cons]
    constructor
    · rintro ⟨verdicts, last, ok, junk⟩
      obtain ⟨⟨verdict, after⟩, first, ok'⟩ := bind_ok ok
      obtain ⟨⟨rest, last'⟩, next, same⟩ := bind_ok ok'
      cases same
      obtain ⟨kept, _⟩ := isJunk_ok cached first
      exact ⟨(isJunk_succeeds_iff cached point).mp ⟨_, first⟩,
        (ih kept).mp ⟨rest, last, next, (List.forall₂_cons.mp junk).2⟩⟩
    · rintro ⟨answerable, others⟩
      obtain ⟨⟨verdict, after⟩, first⟩ := (isJunk_succeeds_iff cached point).mpr answerable
      obtain ⟨kept, junk⟩ := isJunk_ok cached first
      obtain ⟨verdicts, last, next, rest⟩ := (ih kept).mpr others
      refine ⟨verdict :: verdicts, last, ?_, .cons junk rest⟩
      rw [isJunkEach, first]
      dsimp only [bind, Except.bind]
      rw [next]
      rfl

end

/-- Every call returns exactly if every point can be answered on its own. -/
theorem answers_iff (loader : Loader Loc) (points : List MutationPoint) :
    Answers loader points ↔ ∀ point ∈ points, Answerable loader point :=
  answers_from (cached_empty loader) points

end

def brokenFile : Loader Nat where
  fileExists _ := true
  path := posix
  compilationDatabase := ⟨[], ∅, ∅⟩
  LoadFromCommandLine _ := none

def pointInFile : MutationPoint where
  mutator := .addToSub
  irMutator := none
  address := ⟨0, 0, 0⟩
  bitcode := 0
  originalFunction := 0
  mutatedFunction := none
  sourceLocation := ⟨[], ['/', 'a'], [], ['/', 'a'], 3, 5⟩
  endLocation := ⟨[], ['/', 'a'], [], ['/', 'a'], 3, 5⟩
  covered := true

/-- The wrapper is not null, what it wraps is. -/
theorem not_answers_unloaded : ¬ Answers brokenFile [pointInFile] := by
  rintro ⟨verdicts, astUnits, ok, _⟩
  have code : isJunkEach brokenFile [pointInFile] ∅ = .error .nullDereference := rfl
  rw [code] at ok
  cases ok

end Mull.JunkDetection
