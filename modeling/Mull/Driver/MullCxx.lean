import Mull.Driver.Run
import Mull.Driver.SelectInstructions
import Mull.Filters.SharedFilters
import Mull.JunkDetection.EnclosingDecl

/-! `mull-cxx` from its command line and the bitcode in the executable to the driver's outcome, with everything that
threads share on the way. -/

namespace Mull.Driver
open Base LLVM Parallelization JunkDetection Preparation Toolchain Runner Mull.Filters

/-- What `main` reads for the driver of a command line without `-strict`. -/
structure Options where
  inputFile : Text
  outputFile : Text := []
  workers : UInt32 := 0
  timeout : UInt32 := 3000
  mutators : List Mutator
  excludePaths : List Text := []
  includePaths : List Text := []
  gitDiffRef : Text := []
  gitProjectRoot : Text := []
  disableJunkDetection : Bool := false
  compilationFlags : Text := []
  linker : Text := "clang".toList
  linkerFlags : Text := []
  linkerTimeout : UInt32 := 30000
  includeNotCovered : Bool := false
  dryRun : Bool := false
  mutateOnly : Bool := false
  keepObjectFiles : Bool := false
  keepExecutable : Bool := false
  noTestOutput : Bool := false
  noMutantOutput : Bool := false
  noOutput : Bool := false

/-- What `main` finds around it besides what the driver does: files, the regular expressions of the standard
library, LLVM's and Clang's readers. -/
structure Inputs (Loc : Type) [LinearOrder Loc] where
  fileSystem : FileSystem
  hardwareConcurrency : UInt32
  embeddedFiles : List Text
  parseBitcodeFile : Text → Option (Module × List DICompileUnit)
  coverage : Option (List FunctionRecord) := none
  regex : Text → Option (Text → Bool)
  realDirectory : Text → Option Text
  fileExists : Text → Bool
  path : PathLibrary
  compilationDatabase : Option (List CompileCommand) := none
  LoadFromCommandLine : List Text → Option (ASTUnit Loc)

def loadBitcodeTurn (parseBitcodeFile : Text → Option (Module × List DICompileUnit)) :
    SharedTurn Unit Failure Text (Module × List DICompileUnit) := fun buffer _ =>
  if buffer = [] then .error (.assertion "size") else .ok ((buffer, (parseBitcodeFile buffer).toList), ())

/-- Where `git` fails there is a warning and an empty diff. -/
def readGitDiff (process : Request → Process) (gitRepoPath gitBranch : Text) : Except Exit GitDiffInfo := do
  let result ← runProgram process "git".toList ["diff".toList, "-U0".toList, gitBranch] [] 5000 true
    (some gitRepoPath)
  if result.exitStatus ≠ 0 then pure ∅ else orCrash (parseDiffContent gitRepoPath result.stdoutOutput)

section
variable {Loc : Type} [LinearOrder Loc]

/-- `normalize`, and the conversion to `int`. -/
def Options.tasks (options : Options) (hardwareConcurrency : UInt32) : Nat :=
  let workers := if options.workers = 0 then max hardwareConcurrency 1 else options.workers
  (Int32.ofNat workers.toNat).toInt.toNat

namespace Inputs
variable (inputs : Inputs Loc) (around : Surroundings) (options : Options)

def filePathFilter : Option FilePathFilter := do
  let excludeFilters ← options.excludePaths.mapM inputs.regex
  let includeFilters ← options.includePaths.mapM inputs.regex
  some ⟨includeFilters, excludeFilters⟩

/-- A diff is read where a reference and a directory are given. -/
def gitDiff : Except Exit (Option GitDiffInfo) :=
  if options.gitDiffRef = [] ∨ options.gitProjectRoot = [] then .ok none
  else
    match inputs.realDirectory options.gitProjectRoot with
    | none => .ok none
    | some gitProjectRoot =>
      (readGitDiff (around.processes .gitDiff) gitProjectRoot options.gitDiffRef).map some

def loader (units : List (List DICompileUnit)) : Option (Loader Loc) :=
  if options.disableJunkDetection then none
  else some {
    fileExists := inputs.fileExists
    path := inputs.path
    compilationDatabase := createFromClangCompDB inputs.compilationDatabase options.compilationFlags
      (getCompilationDatabase units)
    LoadFromCommandLine := inputs.LoadFromCommandLine }

def configuration (inputFile : Text) (filePath : FilePathFilter) (gitDiff : Option GitDiffInfo)
    (loader : Option (Loader Loc)) : RunConfiguration where
  coverage := inputs.coverage
  includeNotCovered := options.includeNotCovered
  workers := options.tasks inputs.hardwareConcurrency
  filters := ⟨functionFilters filePath, instructionFilters gitDiff⟩
  mutators := options.mutators
  mutationFilters := mutationFilters filePath loader
  runner := {
    timeout := .ofNat options.timeout.toNat
    captureMutantOutput := !(options.noMutantOutput || options.noOutput)
    mutantExecutionWorkers := options.tasks inputs.hardwareConcurrency }
  dryRunEnabled := options.dryRun
  captureTestOutput := !(options.noTestOutput || options.noOutput)
  skipSanityCheckRun := options.mutateOnly
  keepObjectFiles := options.keepObjectFiles
  keepExecutable := options.keepExecutable
  mutateOnly := options.mutateOnly
  executable := inputFile
  outputFile := options.outputFile
  linker := options.linker
  linkerFlags := flagsFromString options.linkerFlags
  linkerTimeout := options.linkerTimeout

def loaded : List (Module × List DICompileUnit) := inputs.embeddedFiles.filterMap inputs.parseBitcodeFile

def program : List Module := inputs.loaded.map Prod.fst

def units : List (List DICompileUnit) := inputs.loaded.map Prod.snd

end Inputs

section
variable (inputs : Inputs Loc) (around : Surroundings) (config : RunConfiguration) (filePath : FilePathFilter)
  (gitDiff : Option GitDiffInfo) (loader : Option (Loader Loc)) (program : List Module)

/-- `findMutationPoints` with the filters of `main`, from caches that are empty. -/
def SharedFindMutationPoints (points : List MutationPoint) (state : FilterState Loc) : Prop :=
  ∃ filteredFunctions selectedFunctions nothing searched,
    SharedFilterAll config.workers (functionPasses filePath)
      (getFunctionsUnderTest config.coverage config.includeNotCovered program) {} filteredFunctions state ∧
    SharedExecutes (instructionSelectionTurn (instructionPasses gitDiff)) config.workers filteredFunctions ()
      selectedFunctions nothing () ∧
    Executes (searchMutationPointsTask around.canMutate config.mutators) config.workers
      selectedFunctions searched points

/-- The driver with the filters of `main`. -/
def SharedRun (outcome : Outcome) : Prop :=
  ∃ points state filtered state',
    SanityCheck around config ∧ CoverageCheck around config ∧
    SharedFindMutationPoints around config filePath gitDiff program points state ∧
    SharedFilterAll config.workers (mutationPasses filePath loader) points state filtered state' ∧
    RunFiltered around config program filtered outcome

/-- No assertion and no overflow of the filters ends the driver, in any interleaving. -/
structure FiltersNeverFail : Prop where
  functions : FilteringNeverFails config.workers (functionPasses filePath : List (FunctionPass Loc))
    (getFunctionsUnderTest config.coverage config.includeNotCovered program) {}
  instructions : ∀ functions, NeverFails (instructionSelectionTurn (instructionPasses gitDiff))
    config.workers functions ()
  mutations : ∀ points state, SharedFindMutationPoints around config filePath gitDiff program points state →
    FilteringNeverFails config.workers (mutationPasses filePath loader) points state

end

/-- `main` can get this outcome from the driver. -/
def MullCxx (inputs : Inputs Loc) (around : Surroundings) (options : Options) (outcome : Outcome) : Prop :=
  ∃ inputFile moved loaded filePath gitDiff,
    validateInputFile inputs.fileSystem options.inputFile = .ok inputFile ∧
    SharedExecutes (loadBitcodeTurn inputs.parseBitcodeFile) (options.tasks inputs.hardwareConcurrency)
      inputs.embeddedFiles () moved loaded () ∧
    inputs.filePathFilter options = some filePath ∧
    inputs.gitDiff around options = .ok gitDiff ∧
    SharedRun around
      (inputs.configuration options inputFile filePath gitDiff (inputs.loader options (loaded.map Prod.snd)))
        filePath
      gitDiff (inputs.loader options (loaded.map Prod.snd)) (loaded.map Prod.fst) outcome

section
variable {around : Surroundings} {config : RunConfiguration} {filePath : FilePathFilter}
  {gitDiff : Option GitDiffInfo}
  {loader : Option (Loader Loc)} {program : List Module} {outcome : Outcome} {points : List MutationPoint}
  {state : FilterState Loc}

/-- The configuration has the filters of `main`. -/
structure Configured (config : RunConfiguration) (filePath : FilePathFilter) (gitDiff : Option GitDiffInfo)
    (loader : Option (Loader Loc)) : Prop where
  workers : 1 ≤ config.workers
  filters : config.filters = ⟨functionFilters filePath, instructionFilters gitDiff⟩
  mutations : config.mutationFilters = mutationFilters filePath loader

theorem sharedFind_find (configured : Configured config filePath gitDiff loader)
    (ranges : ∀ info, gitDiff = some info → RangesFit info)
    (found : SharedFindMutationPoints around config filePath gitDiff program points state) :
    FindMutationPoints around.canMutate config.toConfiguration program points ∧
    state.InOrder filePath loader := by
  obtain ⟨filteredFunctions, selectedFunctions, nothing, searched, filtering, selection, search⟩ := found
  obtain ⟨filtered, inOrder⟩ := filtering.filterAll configured.workers (functionPasses_agree filePath loader)
    (fun _ _ => trivial) (inOrder_empty filePath loader)
  obtain ⟨selected, -⟩ := selection.executes (instructionSelection_answers ranges filteredFunctions) trivial
  unfold FindMutationPoints
  rw [configured.filters]
  exact ⟨⟨_, _, _, _, (filterFunctions_eq ..).mpr filtered, selected, search⟩, inOrder⟩

theorem find_sharedFind (configured : Configured config filePath gitDiff loader)
    (ranges : ∀ info, gitDiff = some info → RangesFit info)
    (found : FindMutationPoints around.canMutate config.toConfiguration program points) :
    ∃ state : FilterState Loc, SharedFindMutationPoints around config filePath gitDiff program
      points state := by
  unfold FindMutationPoints at found
  rw [configured.filters] at found
  obtain ⟨filteredFunctions, selectedFunctions, nothing, searched, filtering, selection, search⟩ := found
  obtain ⟨state, filtered⟩ := ((filterFunctions_eq ..).mp filtering).sharedFilterAll configured.workers
    (functionPasses_agree filePath loader) (fun _ _ => trivial) (inOrder_empty filePath loader)
  obtain ⟨_, selected⟩ := selection.sharedExecutes
    (instructionSelection_answers ranges filteredFunctions) trivial
  exact ⟨state, _, _, _, _, filtered, selected, search⟩

/-- Clang can tell for every point that gets to the junk filter. -/
def AnswerablePoints (filePath : FilePathFilter) (loader : Option (Loader Loc))
    (points : List MutationPoint) : Prop :=
  ∀ point ∈ points, point.sourceLocation.isNull = false →
    filePath.allow point.sourceLocation.filePath = true →
    ∀ own, loader = some own → Answerable own point

theorem filters_neverFail (configured : Configured config filePath gitDiff loader)
    (ranges : ∀ info, gitDiff = some info → RangesFit info)
    (answerable : AnswerablePoints filePath loader
      (foundPoints around.canMutate config.toConfiguration program)) :
    FiltersNeverFail around config filePath gitDiff loader program where
  functions := filtering_neverFails configured.workers (functionPasses_agree filePath loader)
    (fun _ _ => trivial) (inOrder_empty filePath loader)
  instructions functions := neverFails_of_answers (instructionSelection_answers ranges functions) trivial
  mutations := by
    intro points state found
    obtain ⟨found, inOrder⟩ := sharedFind_find configured ranges found
    obtain rfl := findMutationPoints_result configured.workers found
    exact filtering_neverFails configured.workers (mutationPasses_agree filePath loader) answerable inOrder

theorem sharedRun_iff (configured : Configured config filePath gitDiff loader)
    (ranges : ∀ info, gitDiff = some info → RangesFit info)
    (answerable : AnswerablePoints filePath loader
      (foundPoints around.canMutate config.toConfiguration program)) :
    SharedRun around config filePath gitDiff loader program outcome ↔ Run around config program outcome := by
  unfold Run
  simp only [filterMutations_eq, configured.mutations]
  constructor
  · intro run
    obtain ⟨points, state, filtered, state', checked, covered, found, filtering, rest⟩ := run
    obtain ⟨found, inOrder⟩ := sharedFind_find configured ranges found
    obtain rfl := findMutationPoints_result configured.workers found
    obtain ⟨filtering, -⟩ := filtering.filterAll configured.workers (mutationPasses_agree filePath loader)
      answerable inOrder
    exact ⟨_, filtered, checked, covered, found, filtering, rest⟩
  · intro run
    obtain ⟨points, filtered, checked, covered, found, filtering, rest⟩ := run
    obtain ⟨state, shared⟩ := find_sharedFind configured ranges found
    obtain ⟨-, inOrder⟩ := sharedFind_find configured ranges shared
    obtain rfl := findMutationPoints_result configured.workers found
    obtain ⟨state', filtering⟩ := filtering.sharedFilterAll configured.workers
      (mutationPasses_agree filePath loader)
      answerable inOrder
    exact ⟨_, state, filtered, state', checked, covered, shared, filtering, rest⟩

end

/-! ### The whole tool -/

def loadBitcodeTask (parseBitcodeFile : Text → Option (Module × List DICompileUnit)) :
    Task Text (Module × List DICompileUnit) where
  element := id
  outputs buffer := (parseBitcodeFile buffer).toList

section
variable {inputs : Inputs Loc} {around : Surroundings} {options : Options} {inputFile : Text}
  {filePath : FilePathFilter} {gitDiff : Option GitDiffInfo} {outcome : Outcome}

theorem loadBitcode_answers (parseBitcodeFile : Text → Option (Module × List DICompileUnit))
    {buffers : List Text} (filled : ∀ buffer ∈ buffers, buffer ≠ []) :
    AnswersAs (loadBitcodeTurn parseBitcodeFile) (fun _ => True) (loadBitcodeTask parseBitcodeFile) buffers := by
  intro buffer mem _ _
  refine ⟨(), ?_, trivial⟩
  unfold loadBitcodeTurn
  rw [if_neg (filled buffer mem)]
  rfl

theorem loadBitcode_loaded (inputs : Inputs Loc) :
    inputs.embeddedFiles.flatMap (loadBitcodeTask inputs.parseBitcodeFile).outputs = inputs.loaded :=
  (List.filterMap_eq_flatMap_toList _ _).symm

/-- What the command line asks for: an input file, patterns that can be read and a diff. -/
structure Asked (inputs : Inputs Loc) (around : Surroundings) (options : Options) (inputFile : Text)
    (filePath : FilePathFilter) (gitDiff : Option GitDiffInfo) : Prop where
  input : validateInputFile inputs.fileSystem options.inputFile = .ok inputFile
  workers : 1 ≤ options.tasks inputs.hardwareConcurrency
  patterns : inputs.filePathFilter options = some filePath
  diff : inputs.gitDiff around options = .ok gitDiff

def Inputs.runConfiguration (inputs : Inputs Loc) (options : Options) (inputFile : Text)
    (filePath : FilePathFilter) (gitDiff : Option GitDiffInfo) : RunConfiguration :=
  inputs.configuration options inputFile filePath gitDiff (inputs.loader options inputs.units)

/-- `mull-cxx` with its caches, assertions and shared filters is the driver over filters that look nothing up
and never fail, and no interleaving of its threads ends in a failed assertion or an overflow. -/
theorem mullCxx_iff (asked : Asked inputs around options inputFile filePath gitDiff)
    (filled : ∀ buffer ∈ inputs.embeddedFiles, buffer ≠ [])
    (ranges : ∀ info, gitDiff = some info → RangesFit info)
    (answerable : AnswerablePoints filePath (inputs.loader options inputs.units) (foundPoints around.canMutate
      (inputs.runConfiguration options inputFile filePath gitDiff).toConfiguration inputs.program)) :
    (MullCxx inputs around options outcome ↔
      CanSplit (options.tasks inputs.hardwareConcurrency) inputs.embeddedFiles.length ∧
        Run around (inputs.runConfiguration options inputFile filePath gitDiff) inputs.program outcome) ∧
    NeverFails (loadBitcodeTurn inputs.parseBitcodeFile) (options.tasks inputs.hardwareConcurrency)
      inputs.embeddedFiles () ∧
    FiltersNeverFail around (inputs.runConfiguration options inputFile filePath gitDiff) filePath gitDiff
      (inputs.loader options inputs.units) inputs.program := by
  have configured : Configured (inputs.runConfiguration options inputFile filePath gitDiff) filePath gitDiff
      (inputs.loader options inputs.units) := ⟨asked.workers, rfl, rfl⟩
  have loads := loadBitcode_answers inputs.parseBitcodeFile filled
  refine ⟨?_, neverFails_of_answers loads trivial, filters_neverFail configured ranges answerable⟩
  rw [← sharedRun_iff configured ranges answerable]
  constructor
  · intro run
    obtain ⟨inputFile', moved, loaded, filePath', gitDiff', input, loading, patterns, diff, run⟩ := run
    obtain rfl := Except.ok.inj (input.symm.trans asked.input)
    obtain rfl := Option.some.inj (patterns.symm.trans asked.patterns)
    obtain rfl := Except.ok.inj (diff.symm.trans asked.diff)
    have executed := (loading.executes loads trivial).1
    obtain ⟨-, rfl⟩ := executes_result asked.workers executed
    rw [loadBitcode_loaded] at run
    refine ⟨?_, run⟩
    by_contra unfit
    exact not_executes asked.workers unfit executed
  · intro run
    obtain ⟨embedded, run⟩ := run
    have loading : Executes (loadBitcodeTask inputs.parseBitcodeFile) (options.tasks inputs.hardwareConcurrency)
        inputs.embeddedFiles (inputs.embeddedFiles.map id) inputs.loaded :=
      (executes_iff asked.workers embedded).mpr ⟨rfl, (loadBitcode_loaded inputs).symm⟩
    obtain ⟨_, loading⟩ := loading.sharedExecutes loads trivial
    exact ⟨inputFile, _, _, filePath, gitDiff, asked.input, loading, asked.patterns, asked.diff, run⟩

end

end

def incrementDecl : Decl Nat where
  getSourceRange := ⟨101, 221, by decide⟩
  hasBody := true
  children := [.node (.stmt ⟨.returnStmt, some ⟨203, 218, by decide⟩, none, by simp⟩) [
    .node (.stmt ⟨.binaryOperator .add, some ⟨210, 218, by decide⟩, some 216, by simp⟩) []]]

/-- A location is a hundred times its line and its column; all that is behind these lines is from a system
header. -/
def incrementManager : SourceManager Nat := { singleFile with
  isInSystemHeader loc := decide (300 ≤ loc)
  getExpansionLineNumber loc := .ofNat (loc / 100)
  getExpansionColumnNumber loc := .ofNat (loc % 100) }

def incrementUnit (filePath : Text) : ASTUnit Nat where
  getSourceManager := incrementManager
  fileinfo := [⟨filePath, filePath, true⟩]
  getLocation _ line column := some (line.toInt.toNat * 100 + column.toInt.toNat)
  functions := [incrementDecl]

def incrementInputs : Inputs Nat where
  fileSystem := ⟨fun _ => true, fun path => some ("/src/".toList ++ path)⟩
  hardwareConcurrency := 8
  embeddedFiles := [['c'], ['x'], ['i'], ['t']]
  parseBitcodeFile buffer :=
    if buffer = ['c'] then some (countModule, [⟨"/src".toList, "count.c".toList, "cc -c count.c".toList⟩])
    else if buffer = ['i'] then some (idleModule, [])
    else if buffer = ['t'] then some (tallyModule, [])
    else none
  coverage := some incrementRecords
  regex pattern := some fun path => decide (pattern <:+: path)
  realDirectory _ := some "/src".toList
  fileExists path := path ∈ ["/src/count.c".toList, "/src/idle.c".toList, "/src/tally.c".toList]
  path := posix
  LoadFromCommandLine args := args.getLast?.map incrementUnit

def incrementOptions : Options where
  inputFile := "tests".toList
  workers := 2
  mutators := [.addToSub]
  excludePaths := ["gtest".toList]
  gitDiffRef := "main".toList
  gitProjectRoot := ".".toList
  includeNotCovered := true

def incrementFilter : FilePathFilter := ⟨[], [fun path => decide ("gtest".toList <:+: path)]⟩

def incrementDiff : GitDiffInfo := (parseDiffContent "/src".toList changedLines).getD ∅

theorem parse_changedLines : parseDiffContent "/src".toList changedLines = some incrementDiff := by
  unfold incrementDiff
  cases read : parseDiffContent "/src".toList changedLines with
  | some info => rfl
  | none => exact absurd (congrArg Option.isSome read) (by decide +kernel)

theorem readGitDiff_increment :
    readGitDiff (sampleSurroundings.processes .gitDiff) "/src".toList "main".toList =
    .ok incrementDiff := by
  have ran : runProgram (sampleSurroundings.processes .gitDiff) "git".toList
      ["diff".toList, "-U0".toList, "main".toList] [] 5000 true (some "/src".toList) =
        .ok { status := .passed, stdoutOutput := changedLines } := by
    simp only [runProgram, incrementSurroundings, request, judge, if_true]
    rfl
  unfold readGitDiff
  rw [ran]
  simp only [bind, Except.bind]
  rw [if_neg (by decide), parse_changedLines]
  rfl

theorem asked_increment :
    Asked incrementInputs sampleSurroundings incrementOptions "/src/tests".toList incrementFilter
    (some incrementDiff) := by
  refine ⟨rfl, by decide, rfl, ?_⟩
  unfold Inputs.gitDiff
  rw [if_neg (by decide)]
  exact congrArg (Except.map some) readGitDiff_increment

def incrementRun : RunConfiguration :=
  incrementInputs.runConfiguration incrementOptions "/src/tests".toList incrementFilter (some incrementDiff)

def hiddenPoint : MutationPoint :=
  { incrementPoint 0 "/src/count.c".toList true with
    address := ⟨1, 0, 0⟩, originalFunction := 2, endLocation := .nullSourceLocation
    sourceLocation := ⟨"/src".toList, "/src/count.c".toList, "/src".toList, "/src/count.c".toList, 5, 16⟩ }

/-- The addition in the first function of a file, before anyone has looked where it ends. -/
def freshPoint (bitcode : Nat) (filePath : Text) (covered : Bool) : MutationPoint :=
  { incrementPoint bitcode filePath covered with endLocation := .nullSourceLocation }

theorem foundPoints_increment :
    foundPoints sampleSurroundings.canMutate incrementRun.toConfiguration incrementProgram =
    [freshPoint 0 "/src/count.c".toList true, hiddenPoint, freshPoint 1 "/src/idle.c".toList false,
      freshPoint 2 "/src/tally.c".toList true] := by
  decide +kernel

theorem create_increment (filePath : Text) : ThreadSafeASTUnit.create (some (incrementUnit filePath)) =
    ⟨some (incrementUnit filePath), [incrementDecl]⟩ := by
  show (⟨some (incrementUnit filePath), unique UniqueLocationComparator
    (sortBy SortLocationComparator [incrementDecl])⟩ : ThreadSafeASTUnit Nat) = _
  unfold sortBy
  rw [List.mergeSort_singleton]
  rfl

theorem ranges_increment : RangesFit incrementDiff := by
  have each : (incrementDiff.entries.all fun entry => entry.2.all fun range =>
      (narrow (range.1.toInt + range.2.toInt)).any fun sum => (narrow (sum.toInt - 1)).isSome) = true := by
    decide +kernel
  intro path range mem
  cases found : incrementDiff.lookup path with
  | none =>
    rw [found] at mem
    cases mem
  | some ranges =>
    rw [found] at mem
    have entry := List.all_eq_true.mp each ⟨path, ranges⟩ (AList.mem_lookup_iff.mp found)
    exact (Option.any_eq_true _ _).mp (List.all_eq_true.mp entry range mem)

def incrementLoader : Loader Nat where
  fileExists := incrementInputs.fileExists
  path := posix
  compilationDatabase := createFromClangCompDB none [] (getCompilationDatabase incrementInputs.units)
  LoadFromCommandLine := incrementInputs.LoadFromCommandLine

theorem unitAST_increment {location : SourceLocation}
    (here : incrementInputs.fileExists location.unitFilePath = true) :
    incrementLoader.unitAST location = some (incrementUnit location.unitFilePath) := by
  have file : incrementLoader.unitFile location = some location.unitFilePath := if_pos here
  unfold Loader.unitAST
  rw [file, Option.bind_some]
  have last : (incrementLoader.args location.unitFilePath).getLast? = some location.unitFilePath := by
    unfold Loader.args
    exact List.getLast?_concat
  exact congrArg (Option.map incrementUnit) last

theorem judgement_increment {point : MutationPoint} (present : point.sourceLocation.isNull = false)
    (here : incrementInputs.fileExists point.sourceLocation.unitFilePath = true) :
    JunkMutationFilter.judgement incrementLoader point =
      isJunkIn ⟨some (incrementUnit point.sourceLocation.unitFilePath), [incrementDecl]⟩ point := by
  obtain ⟨unit, -⟩ := findAST_cached (cached_empty incrementLoader) point.sourceLocation
  have file : incrementLoader.unitFile point.sourceLocation =
    some point.sourceLocation.unitFilePath := if_pos here
  have loaded := unitAST_increment here
  unfold Loader.unitAST at loaded
  rw [file, Option.bind_some] at loaded
  rw [file, Option.map_some, loaded, create_increment] at unit
  unfold JunkMutationFilter.judgement isJunk
  rw [if_neg (by rw [present]; exact Bool.false_ne_true)]
  generalize incrementLoader.findAST point.sourceLocation ∅ = answer at unit
  obtain ⟨ast, kept⟩ := answer
  obtain rfl : ast = _ := unit
  show Except.map Prod.fst (isJunkIn _ point >>= _) = _
  cases isJunkIn (⟨some (incrementUnit point.sourceLocation.unitFilePath), [incrementDecl]⟩ :
    ThreadSafeASTUnit Nat) point <;> rfl


theorem keptPoint_increment {point left : MutationPoint} {junk : Bool}
    (present : point.sourceLocation.isNull = false)
    (allowed : incrementFilter.allow point.sourceLocation.filePath = true)
    (judged : JunkMutationFilter.judgement incrementLoader point = .ok (junk, left)) :
    keptPoint (mutationFilters incrementFilter (some incrementLoader)) point =
      if junk then none else some left := by
  have plain := JunkMutationFilter.filter_plain judged
  obtain ⟨skips, leaves⟩ := Prod.mk.inj plain
  have third : (JunkMutationFilter.filter incrementLoader).keep point = if junk then none else some left := by
    unfold MutationFilter.keep
    rw [skips, leaves]
  have rest : keptPoint [JunkMutationFilter.filter incrementLoader] point =
    if junk then none else some left := by
    rw [← third]
    exact Option.bind_fun_some _
  show (if point.sourceLocation.isNull then none else some point).bind (fun first =>
    (if !incrementFilter.allow first.sourceLocation.filePath then none else some first).bind
      (keptPoint [JunkMutationFilter.filter incrementLoader])) = _
  rw [present, if_neg Bool.false_ne_true, Option.bind_some, allowed, Bool.not_true, if_neg Bool.false_ne_true,
    Option.bind_some, rest]


theorem getDecl_incrementDecl (filePath : Text) :
    (⟨some (incrementUnit filePath), [incrementDecl]⟩ : ThreadSafeASTUnit Nat).getDecl 216 =
      .ok (some incrementDecl) := by
  rw [@getDecl_eq Nat _ ⟨some (incrementUnit filePath), [incrementDecl]⟩ _ rfl (List.pairwise_singleton _ _)]
  rfl

def countPlusOne : Stmt Nat := ⟨.binaryOperator .add, some ⟨210, 218, by decide⟩, some 216, by simp⟩

theorem isJunkIn_increment {bitcode : Nat} {filePath : Text} {covered : Bool}
    (located : (⟨some (incrementUnit filePath), [incrementDecl]⟩ : ThreadSafeASTUnit Nat).getLocation
      (freshPoint bitcode filePath covered).sourceLocation = .ok 216) :
    isJunkIn ⟨some (incrementUnit filePath), [incrementDecl]⟩ (freshPoint bitcode filePath covered) =
      .ok (false, incrementPoint bitcode filePath covered) := by
  have found : findMutantExpression (freshPoint bitcode filePath covered).mutator.mutatorKind
    ⟨incrementManager, 216⟩
      incrementDecl = .ok (some countPlusOne) := rfl
  have ends : endLocation incrementManager countPlusOne 216 = (2, 17) := by decide
  have manager : (incrementUnit filePath).getSourceManager = incrementManager := rfl
  have header : incrementManager.isInSystemHeader 216 = false := rfl
  simp only [isJunkIn, located, ThreadSafeASTUnit.isInSystemHeader, ThreadSafeASTUnit.dereference, bind,
    Except.bind, pure,
    Except.pure, manager, header, getDecl_incrementDecl, found, ends, Bool.false_eq_true, if_false]
  rfl

theorem keptPoint_fresh {bitcode : Nat} {filePath : Text} {covered : Bool}
    (here : filePath ∈ ["/src/count.c".toList, "/src/idle.c".toList, "/src/tally.c".toList]) :
    keptPoint (mutationFilters incrementFilter (some incrementLoader)) (freshPoint bitcode filePath covered) =
      some (incrementPoint bitcode filePath covered) := by
  refine @keptPoint_increment _ _ false rfl ?_ ((judgement_increment rfl (decide_eq_true here)).trans ?_)
  · have allowed : ∀ path ∈ ["/src/count.c".toList, "/src/idle.c".toList, "/src/tally.c".toList],
        incrementFilter.allow path = true := by decide +kernel
    exact allowed filePath here
  · simp only [List.mem_cons, List.not_mem_nil, or_false] at here
    rcases here with rfl | rfl | rfl <;> exact isJunkIn_increment rfl

theorem filteredPoints_incrementRun :
    filteredPoints sampleSurroundings incrementRun incrementProgram = incrementPoints := by
  unfold filteredPoints
  rw [foundPoints_increment]
  show List.filterMap (keptPoint (mutationFilters incrementFilter (some incrementLoader))) _ = _
  have hidden : keptPoint (mutationFilters incrementFilter (some incrementLoader)) hiddenPoint = none := by
    refine @keptPoint_increment _ hiddenPoint true rfl (by decide +kernel)
      ((judgement_increment rfl (by decide +kernel)).trans ?_)
    rfl
  simp only [List.filterMap_cons, List.filterMap_nil, keptPoint_fresh, hidden, List.mem_cons,
    true_or, or_true]
  rfl

theorem answerable_increment : AnswerablePoints incrementFilter
    (incrementInputs.loader incrementOptions incrementInputs.units)
      (foundPoints sampleSurroundings.canMutate incrementRun.toConfiguration incrementProgram) := by
  rw [foundPoints_increment]
  intro point mem _ _ own same
  obtain rfl : incrementLoader = own := Option.some.inj same
  refine .inr (.inr ?_)
  simp only [List.mem_cons, List.not_mem_nil, or_false] at mem
  rcases mem with rfl | rfl | rfl | rfl <;>
    exact ⟨_, unitAST_increment (by decide +kernel), _, rfl, rfl, rfl⟩

theorem mullCxx_iff_increment : MullCxx incrementInputs sampleSurroundings incrementOptions
      (incrementOutcome .zeros "/tmp/".toList incrementRun) ∧
    (incrementOutcome .zeros "/tmp/".toList incrementRun).mutants = incrementMutants ∧
    (incrementOutcome .zeros "/tmp/".toList incrementRun).mutationResults.map
      (fun result => result.result.status) =
      [.failed, .notCovered, .passed] := by
  have points := filteredPoints_incrementRun
  have workers : 1 ≤ incrementRun.workers := by decide
  have mutantWorkers : 1 ≤ incrementRun.runner.mutantExecutionWorkers := by decide
  have fits : Fits sampleSurroundings incrementRun incrementProgram := by
    refine fits_increment points rfl (canSplit_of_lt (show 6 < 2 ^ 30 by decide)) (canSplit_of_lt ?_)
    rw [foundPoints_increment]
    decide
  obtain ⟨finals, compiled⟩ := compiled_increment points workers rfl
  have completes := completes_increment points workers rfl rfl compiled
  have run := run_returns workers mutantWorkers fits (.inr ⟨_, rfl, fun _ => rfl⟩) nofun rfl rfl
    compiled completes
  refine ⟨(mullCxx_iff asked_increment (by decide) ?_ answerable_increment).1.mpr
    ⟨canSplit_of_lt (by decide), run⟩,
    reportedMutants_increment points, reportedResults_increment points rfl rfl⟩
  intro info same
  obtain rfl := Option.some.inj same
  exact ranges_increment

end Mull.Driver
