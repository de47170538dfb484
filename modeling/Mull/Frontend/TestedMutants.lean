import Mull.Base.Grouping
import Mull.Frontend.Records
import Mull.Frontend.SwitchesCorrectly
import Mull.Runner.MullRunner

/-! From the sources to the verdicts: what `mull-runner` says of a program whose translation units were compiled
with the plugin. -/

namespace Mull.Frontend
open Base Parallelization Toolchain Runner Reporters

structure Compilation where
  args : List Text
  endOfToken : Location → Int32 × Int32
  unit : List DeclGroupRef

namespace Compilation
variable (compilation : Compilation)

/-- `none` where an assertion fails or an error was reported. -/
def compile : Option Instrumented := do
  let parsed ← parseArgs compilation.args
  if parsed.reported then none
  else instrument parsed.mutationMap.isValidMutation compilation.endOfToken compilation.unit

def isValidMutation (mutatorKind : MutatorKind) : Bool :=
  (parseArgs compilation.args).any (·.mutationMap.isValidMutation mutatorKind)

def points : List Point := unitPoints compilation.isValidMutation compilation.endOfToken compilation.unit

def edits : List Edit := recordedEdits compilation.isValidMutation compilation.endOfToken compilation.unit

/-- Every mutation is the last of its target, and its switch can stand for the target. -/
structure Testable : Prop where
  last : ∀ edit ∈ compilation.edits, lastEdit compilation.edits edit.target = some edit
  replaceable : ∀ edit ∈ compilation.edits, Replaceable compilation.unit edit
  outside : ∀ edit ∈ compilation.edits, OutsideConstants compilation.unit edit

/-- Under this environment the functions of the object file do what the source does with these edits. -/
def Computes (object : Instrumented) (environment : Text → Bool) (edits : List Edit) : Prop :=
  ∀ d function, compilation.unit.flatten[d]? = some function → function.isFunction = true →
    EvaluatesAlike environment object.context.node? (editedHeap (source compilation.unit) edits) (.parsed d 0)

end Compilation

/-- What is set in a process: what the runner has set itself, and what it was asked to add. -/
def environmentOf (inherited : Text → Bool) (r : Request) (name : Text) : Bool :=
  inherited name || (r.extraEnvironment.map Prod.fst).elem name

/-- Every recorded mutation is a mutant, and its process runs the program with just this mutation. -/
structure TestsMutations (compilations : List Compilation) (objects : List Instrumented)
    (processes : Processes) (config : Configuration) (executable : Text) (extraArgs : List Text)
    (result : Result) : Prop where
  mutants : result.mutants.Perm ((compilations.flatMap Compilation.points).map ASTMutationPoint.mutant)
  identifiers : (result.mutants.map Mutant.identifier).Nodup
  single : ∀ mutant ∈ result.mutants, ∃ edit,
    (compilations.flatMap Compilation.edits).filter (·.identifier = mutant.identifier) = [edit]
  results : result.mutationResults = (result.mutants.zipIdx).map fun pair => ⟨judge config.captureMutantOutput
    (processes (.mutant pair.2) (mutantRequest processes config executable extraArgs pair.1)), pair.2⟩
  baseline : ∀ inherited : Text → Bool, (∀ mutant ∈ result.mutants, inherited mutant.identifier = false) →
    ∀ pair ∈ compilations.zip objects,
      pair.1.Computes pair.2 (environmentOf inherited (baselineRequest config executable extraArgs)) []
  tested : ∀ inherited : Text → Bool, (∀ mutant ∈ result.mutants, inherited mutant.identifier = false) →
    ∀ mutant ∈ result.mutants, ∀ pair ∈ compilations.zip objects,
      pair.1.Computes pair.2
        (environmentOf inherited (mutantRequest processes config executable extraArgs mutant))
        (pair.1.edits.filter (·.identifier = mutant.identifier))

section
variable {compilation : Compilation} {object : Instrumented}

/-! ### One translation unit -/

theorem Compilation.instrument_of_compile (compiled : compilation.compile = some object) :
    instrument compilation.isValidMutation compilation.endOfToken compilation.unit = some object := by
  obtain ⟨parsed, isParsed, rest⟩ := Option.bind_eq_some_iff.mp compiled
  split at rest
  · cases rest
  · have same : compilation.isValidMutation = parsed.mutationMap.isValidMutation := by
      funext kind
      rw [isValidMutation, isParsed]
      rfl
    rw [same]
    exact rest

theorem Compilation.records (compiled : compilation.compile = some object) :
    object.records = compilation.points.map ASTMutationPoint.recordDecl :=
  (instrument_records (instrument_of_compile compiled)).2

theorem Compilation.isValidMutation_mapped {kind : MutatorKind}
    (valid : compilation.isValidMutation kind = true) :
    ∃ entry ∈ MUTATIONS_MAP, entry.2 = kind := by
  obtain ⟨parsed, isParsed, used⟩ := Option.any_eq_true _ _ |>.mp valid
  exact parseArgs_mapped isParsed kind (List.elem_iff.mp used)

theorem Compilation.points_recorded {point : Point} (mem : point ∈ compilation.points)
    (path : Recordable point.sourceFilePath) : Recorded point := by
  obtain ⟨numbered, -, points, searched, isIn⟩ := mem_unitPoints.mp mem
  obtain ⟨valid, identifier, somewhere⟩ := declPoints_valid searched isIn
  exact ⟨isValidMutation_mapped valid, identifier, somewhere, path⟩

theorem Compilation.edits_identifiers :
    compilation.edits.map Edit.identifier = compilation.points.map ASTMutationPoint.mutationIdentifier := by
  have each : ∀ point ∈ compilation.points,
      (editOf? (source compilation.unit) point).map Edit.identifier = some point.mutationIdentifier := by
    intro point mem
    obtain ⟨numbered, -, points, searched, isIn⟩ := mem_unitPoints.mp mem
    obtain ⟨edit, j, isEdit, -⟩ := (declPoints_searchedIn searched).exists_edit isIn
    obtain ⟨_, -, built⟩ := Option.bind_eq_some_iff.mp isEdit
    rw [isEdit, ← Option.some.inj built]
    rfl
  have edits : compilation.edits = compilation.points.filterMap (editOf? (source compilation.unit)) := rfl
  rw [edits, List.map_filterMap, List.filterMap_congr each, List.filterMap_eq_map']

theorem Compilation.edits_apart (apart : (compilation.points.map ASTMutationPoint.mutationIdentifier).Nodup)
    {edit : Edit} (mem : edit ∈ compilation.edits) :
      compilation.edits.filter (·.identifier = edit.identifier) = [edit] := by
  rw [← edits_identifiers] at apart
  exact filter_key apart mem

theorem Compilation.performable (compiled : compilation.compile = some object) :
    Performable compilation.isValidMutation compilation.endOfToken compilation.unit := by
  have parsed := (instrument_records (instrument_of_compile compiled)).1
  rcases @parseAST_ends compilation.isValidMutation compilation.endOfToken compilation.unit with
    ⟨performable, -⟩ | ⟨-, failed⟩
  · exact performable
  · rw [failed] at parsed
    cases parsed

/-- Where no two edits share an identifier, none of them can be in the way of another. -/
theorem Compilation.Testable.switchable (testable : compilation.Testable)
    (compiled : compilation.compile = some object)
    (apart : (compilation.points.map ASTMutationPoint.mutationIdentifier).Nodup) :
    Switchable compilation.isValidMutation compilation.endOfToken compilation.unit where
  performable := performable compiled
  replaceable edit last := testable.replaceable edit (mem_of_lastEdit last).1
  outside := testable.outside
  applied := by
    intro recorded mem d function found isFunction ref reached edit last
    have only : (recordedEdits compilation.isValidMutation compilation.endOfToken compilation.unit).filter
        (·.identifier = recorded.identifier) = [recorded] := edits_apart apart mem
    rw [only] at last ⊢
    obtain ⟨isIn, rfl⟩ := mem_of_lastEdit last
    obtain rfl := List.mem_singleton.mp isIn
    refine ⟨testable.last edit mem, ?_⟩
    intro node read child isChild
    apply lastEdit_eq_none.mpr
    intro other isOther target
    obtain rfl := List.mem_singleton.mp isOther
    obtain ⟨slot, isSlot, rfl⟩ := mem_children.mp isChild
    obtain ⟨_, _, _, _, isRef, isTarget, less, _⟩ := source_slot read (mem_apply_slots isSlot)
    obtain ⟨-, same⟩ := Ref.parsed.inj (isRef.symm.trans (target.trans isTarget))
    omega

theorem Compilation.computes (compiled : compilation.compile = some object)
    (switchable : Switchable compilation.isValidMutation compilation.endOfToken compilation.unit)
    {environment : Text → Bool} {identifier : Text}
    (only : ∀ edit ∈ compilation.edits, environment edit.identifier = true ↔ edit.identifier = identifier) :
    compilation.Computes object environment (compilation.edits.filter (·.identifier = identifier)) := by
  obtain ⟨context, isResult, correct⟩ := switchable.switchesCorrectly
  obtain rfl := Option.some.inj (isResult.symm.trans (instrument_records (instrument_of_compile compiled)).1)
  intro d function found isFunction
  obtain ⟨unset, set⟩ := correct d function found isFunction environment
  by_cases recorded : ∃ edit ∈ compilation.edits, edit.identifier = identifier
  · obtain ⟨edit, mem, rfl⟩ := recorded
    exact set edit mem only
  · have none : compilation.edits.filter (·.identifier = identifier) = [] := by
      apply List.filter_eq_nil_iff.mpr
      intro edit mem same
      exact recorded ⟨edit, mem, of_decide_eq_true same⟩
    rw [none, editedHeap_nil]
    apply unset
    intro edit mem
    apply Bool.eq_false_iff.mpr
    intro isSet
    exact recorded ⟨edit, mem, (only edit mem).mp isSet⟩

theorem Compilation.computes_source (compiled : compilation.compile = some object)
    (switchable : Switchable compilation.isValidMutation compilation.endOfToken compilation.unit)
    {environment : Text → Bool} (unset : ∀ edit ∈ compilation.edits, environment edit.identifier = false) :
    compilation.Computes object environment [] := by
  obtain ⟨context, isResult, correct⟩ := switchable.switchesCorrectly
  obtain rfl := Option.some.inj (isResult.symm.trans (instrument_records (instrument_of_compile compiled)).1)
  intro d function found isFunction
  rw [editedHeap_nil]
  exact (correct d function found isFunction environment).1 unset

end

section
variable {compilations : List Compilation} {objects : List Instrumented} {executable : Executable}

/-! ### The program -/

theorem program_records
    (compiled : List.Forall₂ (fun c object => c.compile = some object) compilations objects) :
    objects.flatMap Instrumented.records =
      (compilations.flatMap Compilation.points).map ASTMutationPoint.recordDecl := by
  induction compiled with
  | nil => rfl
  | cons first _ ih =>
    rw [List.flatMap_cons, List.flatMap_cons, List.map_append, ih, Compilation.records first]

theorem Links.identifiers (links : Links objects executable) {points : List Point}
    (records : objects.flatMap Instrumented.records = points.map ASTMutationPoint.recordDecl)
    (recorded : ∀ point ∈ points, Recorded point) :
      (points.map ASTMutationPoint.mutationIdentifier).Nodup := by
  have names := links.names
  rw [records, List.map_map] at names
  unfold List.Nodup at names ⊢
  rw [List.pairwise_map] at names ⊢
  apply names.imp_of_mem
  intro point point' mem mem' apart same
  have positions := position_of_identifier (recorded point mem) (recorded point' mem') same
  exact apart
    ((recordDecl_name point).trans ((recordName_inj.mpr positions).trans (recordDecl_name point').symm))

theorem environmentOf_request {inherited : Text → Bool} {program : Text} {args names : List Text}
    {timeout : Int64} {directory : Option Text} {name : Text} (unset : inherited name = false) :
    environmentOf inherited (request program args names timeout directory) name = true ↔ name ∈ names := by
  have set : (request program args names timeout directory).extraEnvironment.map Prod.fst = names := by
    simp [request, Function.comp_def]
  rw [environmentOf, set, unset, Bool.false_or, List.elem_iff]

theorem linked_mutants
    (compiled : List.Forall₂ (fun c object => c.compile = some object) compilations objects)
    (links : Links objects executable)
    (recordable : ∀ c ∈ compilations, ∀ point ∈ c.points, Recordable point.sourceFilePath ∧ HasRoom point) :
    ∃ order : List Point, order.Perm (compilations.flatMap Compilation.points) ∧
      extractMutants executable = .ok (order.map ASTMutationPoint.mutant) ∧
      (order.map ASTMutationPoint.mutationIdentifier).Nodup := by
  have records := program_records compiled
  have each : ∀ point ∈ compilations.flatMap Compilation.points, Recorded point ∧ HasRoom point := by
    intro point mem
    obtain ⟨c, isIn, isPoint⟩ := List.mem_flatMap.mp mem
    obtain ⟨path, room⟩ := recordable c isIn point isPoint
    exact ⟨Compilation.points_recorded isPoint path, room⟩
  have apart := links.identifiers records fun point mem => (each point mem).1
  obtain ⟨order, moved, read⟩ := links.extract records each
  exact ⟨order, moved, read, (moved.map _).nodup_iff.mpr apart⟩

theorem program_identifiers : (compilations.flatMap Compilation.edits).map Edit.identifier =
    (compilations.flatMap Compilation.points).map ASTMutationPoint.mutationIdentifier := by
  rw [List.map_flatMap, List.map_flatMap]
  exact congrArg List.flatten (List.map_congr_left fun c _ => Compilation.edits_identifiers)

/-- Every unit with its object file; that all identifiers of the program differ is more than each unit asks for. -/
theorem program_switchable
    (compiled : List.Forall₂ (fun c object => c.compile = some object) compilations objects)
    (testable : ∀ c ∈ compilations, c.Testable)
    (distinct : ((compilations.flatMap Compilation.edits).map Edit.identifier).Nodup) :
    ∀ pair ∈ compilations.zip objects, pair.1 ∈ compilations ∧ pair.1.compile = some pair.2 ∧
      Switchable pair.1.isValidMutation pair.1.endOfToken pair.1.unit := by
  intro pair mem
  have isIn := (List.of_mem_zip mem).1
  have isObject := (List.forall₂_iff_zip.mp compiled).2 mem
  refine ⟨isIn, isObject, (testable _ isIn).switchable isObject ?_⟩
  rw [program_identifiers, List.map_flatMap] at distinct
  exact (List.nodup_flatMap.mp distinct).1 _ isIn

end

def inline (column : Int32) : Location := .file ⟨"b.cpp".toList, 4, column, false⟩

/-- `int negate(int n) { log(); return -n; }` -/
def negate : TopLevelDecl where
  isFunction := true
  name := "negate".toList
  location := inline 5
  nodes := [
    ⟨⟨.decl 0, .other 0, .rValue⟩, [⟨.decl, 1⟩, ⟨.stmt, 2⟩], ⟨inline 5, inline 5, inline 1, inline 39⟩⟩,
    ⟨⟨.varDecl .parmVar, .int, .lValue⟩, [], ⟨inline 16, inline 16, inline 12, inline 16⟩⟩,
    ⟨⟨.compoundStmt, .void, .rValue⟩, [⟨.stmt, 3⟩, ⟨.stmt, 5⟩], ⟨inline 19, inline 19, inline 19, inline 39⟩⟩,
    ⟨⟨.callExpr, .void, .rValue⟩, [⟨.expr, 4⟩], ⟨inline 21, inline 21, inline 21, inline 25⟩⟩,
    ⟨⟨.expr 0, .other 1, .rValue⟩, [], ⟨inline 21, inline 21, inline 21, inline 21⟩⟩,
    ⟨⟨.stmt 0, .void, .rValue⟩, [⟨.expr, 6⟩], ⟨inline 28, inline 28, inline 28, inline 36⟩⟩,
    ⟨⟨.unaryOperator .minus, .int, .rValue⟩, [⟨.expr, 7⟩], ⟨inline 35, inline 35, inline 35, inline 36⟩⟩,
    ⟨⟨.expr 1, .int, .rValue⟩, [], ⟨inline 36, inline 36, inline 36, inline 36⟩⟩]
  headed := by decide
  shaped := by decide
  ordered := by decide
  filled := by decide
  single := by decide
  rooted := by decide

def sampleCompilations : List Compilation := [
  ⟨["mutators=cxx_add_to_sub".toList], endOfOperator, [[firstSum]]⟩,
  ⟨[], endOfOperator, [[negate]]⟩]

theorem compiles_sample : ∃ objects,
    List.Forall₂ (fun c object => Compilation.compile c = some object) sampleCompilations objects := by
  have first : ((sampleCompilations.get ⟨0, by decide⟩).compile).isSome = true := by rfl
  have second : ((sampleCompilations.get ⟨1, by decide⟩).compile).isSome = true := by rfl
  obtain ⟨object, isObject⟩ := Option.isSome_iff_exists.mp first
  obtain ⟨object', isObject'⟩ := Option.isSome_iff_exists.mp second
  exact ⟨[object, object'], .cons isObject (.cons isObject' .nil)⟩

theorem outside_of_none {unit : List DeclGroupRef}
    (none : ∀ decl ∈ unit.flatten, ∀ node ∈ decl.nodes, ∀ slot ∈ node.slots,
      slot.expects ≠ .constant) (edit : Edit) :
    OutsideConstants unit edit := by
  intro ref parent read slot mem constant
  obtain ⟨d, i, decl, node, -, isDecl, isNode, rfl⟩ := source_eq_some.mp read
  obtain ⟨inner, isInner, rfl⟩ := List.mem_map.mp mem
  exact absurd constant
    (none decl (List.mem_of_getElem? isDecl) node (List.mem_of_getElem? isNode) inner isInner)

theorem replaceable_negate : ∀ edit ∈ (sampleCompilations.get ⟨1, by decide⟩).edits,
    Replaceable [[negate]] edit := by
  have edits : (sampleCompilations.get ⟨1, by decide⟩).edits =
      [⟨.parsed 0 3, .removed, "cxx_remove_void_call:b.cpp:4:21".toList⟩,
        ⟨.parsed 0 6, .operand, "cxx_minus_to_noop:b.cpp:4:35".toList⟩] := by rfl
  rw [edits]
  intro edit mem node read
  rcases List.mem_cons.mp mem with rfl | mem
  · intro ref parent parentRead slot isSlot isTarget
    obtain ⟨d, i, decl, parsed, -, isDecl, isNode, rfl⟩ := source_eq_some.mp parentRead
    obtain ⟨inner, isInner, rfl⟩ := List.mem_map.mp isSlot
    have places : ∀ decl ∈ [[negate]].flatten, ∀ node ∈ decl.nodes, ∀ slot ∈ node.slots,
        slot.child = 3 → slot.expects = .stmt := by decide
    exact places decl (List.mem_of_getElem? isDecl) parsed (List.mem_of_getElem? isNode) inner isInner
      (Ref.parsed.inj isTarget).2
  · obtain rfl := List.mem_singleton.mp mem
    obtain rfl := Option.some.inj read
    intro operand isOperand other there
    obtain rfl := List.mem_singleton.mp isOperand
    obtain rfl := Option.some.inj there
    exact ⟨rfl, rfl⟩

theorem testable_sample : ∀ c ∈ sampleCompilations, c.Testable := by
  intro c mem
  rcases List.mem_cons.mp mem with rfl | mem
  · refine ⟨by decide +kernel, ?_, fun edit _ => outside_of_none (by decide) edit⟩
    intro edit isEdit node _
    obtain rfl := List.mem_singleton.mp isEdit
    trivial
  · obtain rfl := List.mem_singleton.mp mem
    exact ⟨by decide +kernel, replaceable_negate, fun edit _ => outside_of_none (by decide) edit⟩

def sampleProcesses : Processes := fun _ r =>
  { status := if ("cxx_minus_to_noop:b.cpp:4:35".toList, "1".toList) ∈ r.extraEnvironment then 1 else 0 }

def sampleOptions : RunnerOptions where
  inputFile := "a.out".toList
  runnerArgs := ["-q".toList]
  configuration := { timeout := 3000, mutantExecutionWorkers := 2 }

def buildDirectory : FileSystem := ⟨fun _ => true, fun path => some ("/build/".toList ++ path)⟩

end Mull.Frontend
