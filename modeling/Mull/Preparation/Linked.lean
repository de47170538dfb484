import Mull.Preparation.Meaning
import Mull.Preparation.PrepareMutations

/-! Programs of several modules that call each other by name, before and after all their modules are prepared. -/

namespace LLVM
open Base

/-- What calling a function by its name can do. -/
abbrev Behaviour (δ σ : Type) := Text → List (Datum δ) → σ → Option (Datum δ) → σ → Prop

/-- Where the linker finds the functions that modules define for each other: the module and the function in it. -/
abbrev Symbols := Text → Option (Nat × FunctionRef)

/-- What the modules define for each other; of several definitions the first is taken. -/
def definedSymbols (program : List Module) : Symbols := fun name =>
  program.zipIdx.findSome? fun (module, b) =>
    (module.functions.find? fun f => f.name = name ∧ f.blocks ≠ [] ∧ f.isInternal = false).map
      fun f => (b, f.ref)

theorem definedSymbols_some {program : List Module} {name : Text} {b : Nat} {ref : FunctionRef}
    (resolved : definedSymbols program name = some (b, ref)) :
    ∃ module, program[b]? = some module ∧ ∃ f ∈ module.functions, f.name = name ∧ f.ref = ref := by
  obtain ⟨⟨module, b'⟩, listed, found⟩ := List.exists_of_findSome?_eq_some resolved
  obtain ⟨f, defines, same⟩ := Option.map_eq_some_iff.mp found
  obtain ⟨rfl, rfl⟩ := Prod.mk.inj same
  have named : f.name = name ∧ f.blocks ≠ [] ∧ f.isInternal = false := by
    simpa only [decide_eq_true_eq] using List.find?_some defines
  exact ⟨module, List.mem_zipIdx_iff_getElem?.mp listed, f, List.mem_of_find?_eq_some defines, named.1, rfl⟩

section
variable {δ σ : Type} [DecidableEq δ]

/-- Names that the linker resolves lead to the other modules, which call back by name only. -/
def Semantics.linked (semantics : Semantics δ σ) (symbols : Symbols) (others : Behaviour δ σ) :
    Semantics δ σ where
  body := semantics.body
  external name arguments m events value m' :=
    if (symbols name).isSome then events = [] ∧ others name arguments m value m'
    else semantics.external name arguments m events value m'
  follows := semantics.follows
  followed := semantics.followed

/-- A call by name into the program that returns, with at most this many calls from module to module inside each
other. The semantics of each module may have its own notion of a function's number. -/
def Linked (semantics : Nat → Semantics δ σ) (symbols : Symbols) (addressed : Nat → FunctionRef → Prop)
    (program : List Module) : Nat → Behaviour δ σ
  | 0, _, _, _, _, _ => False
  | depth + 1, name, arguments, m, value, m' => ∃ b ref module, symbols name = some (b, ref) ∧
      program[b]? = some module ∧
      Evaluates ((semantics b).linked symbols (Linked semantics symbols addressed program depth))
        (addressed b) module ref arguments m value m'

theorem linked_congr {semantics : Nat → Semantics δ σ} {symbols : Symbols}
    {addressed : Nat → FunctionRef → Prop}
    {program program' : List Module} (length : program.length = program'.length)
    (modules : ∀ b ref name (module module' : Module), symbols name = some (b, ref) →
      program[b]? = some module →
      program'[b]? = some module' → ∀ others arguments m value m',
        Evaluates ((semantics b).linked symbols others) (addressed b) module ref arguments m value m' ↔
          Evaluates ((semantics b).linked symbols others) (addressed b) module' ref arguments m value m')
            (depth : Nat) :
    Linked semantics symbols addressed program depth = Linked semantics symbols addressed program' depth := by
  induction depth with
  | zero => rfl
  | succ depth ih =>
    funext name arguments m value m'
    refine propext ?_
    unfold Linked
    rw [ih]
    constructor
    · intro calls
      obtain ⟨b, ref, module, resolved, here, evaluates⟩ := calls
      have inside : b < program'.length := length ▸ (List.getElem?_eq_some_iff.mp here).1
      exact ⟨b, ref, _, resolved, List.getElem?_eq_getElem inside,
        (modules b ref name _ _ resolved here (List.getElem?_eq_getElem inside) _ _ _ _ _).mp evaluates⟩
    · intro calls
      obtain ⟨b, ref, module', resolved, here, evaluates⟩ := calls
      have inside : b < program.length := length ▸ (List.getElem?_eq_some_iff.mp here).1
      exact ⟨b, ref, _, resolved, List.getElem?_eq_getElem inside,
        (modules b ref name _ _ resolved (List.getElem?_eq_getElem inside) here _ _ _ _ _).mpr evaluates⟩

end

end LLVM

namespace Mull.Preparation
open LLVM MutationPoint Base Parallelization

def pointsIn (points : List MutationPoint) (b : Nat) :
    List MutationPoint := points.filter fun point => point.bitcode = b

/-- The program with the mutations of these identifiers made in place. -/
def mutatedProgram (irm : LowLevelMutations) (points : List MutationPoint) (isSet : Text → Bool)
    (program : List Module) :
    List Module :=
  program.mapIdx fun b module => mutateWith irm (pointsIn points b) isSet module

/-- Every point is in a function of its module. -/
def KnownIn (points : List MutationPoint) (program : List Module) : Prop :=
  ∀ point ∈ points, ∃ module, program[point.bitcode]? = some module ∧
    point.originalFunction ∈ module.functions.map Function.ref

/-- Nothing gets in the way of the trampolines of a program, and its functions are found where they are. -/
structure RunnableProgram (irm : LowLevelMutations) (points : List MutationPoint) (isSet : Text → Bool)
    (symbols : Symbols) (program : List Module) : Prop where
  free : ∀ module ∈ program, ∀ f ∈ module.functions, ∀ g ∈ module.functions,
    g.name ≠ getOriginalFunctionName f.name
  runnable : ∀ b (module : Module), program[b]? = some module →
    Runnable irm (pointsIn points b) (groups MutationPoint.originalFunction (pointsIn points b)) isSet module
  outside : symbols "getenv".toList = none
  resolved : ∀ name b ref (module : Module), symbols name = some (b, ref) → program[b]? = some module →
    ref ∈ module.functions.map Function.ref

def publicIn (program : List Module) (b : Nat) (ref : FunctionRef) : Prop :=
  ∃ module, program[b]? = some module ∧ Public module ref

theorem publicIn_eq {program : List Module} {b : Nat} {module : Module} (here : program[b]? = some module) :
    publicIn program b = Public module := by
  funext ref
  refine propext ⟨fun found => ?_, fun found => ⟨module, here, found⟩⟩
  obtain ⟨other, there, found⟩ := found
  obtain rfl := Option.some.inj (here.symm.trans there)
  exact found

theorem mem_coveredFunctions {points : List MutationPoint} {map : MutationPoints}
    (grouped : Grouped MutationPoint.originalFunction points map) {ref : FunctionRef} :
    ref ∈ coveredFunctions map ↔ ∃ point ∈ points, point.originalFunction = ref ∧ point.covered = true := by
  constructor
  · intro covered
    by_contra none
    obtain ⟨pair, listed, rfl⟩ := List.mem_map.mp covered
    obtain ⟨listed, active⟩ := List.mem_filter.mp listed
    obtain ⟨point, inside, active⟩ := List.any_eq_true.mp active
    rw [grouped.group_eq pair listed] at inside
    obtain ⟨mem, own⟩ := List.mem_filter.mp inside
    exact none ⟨point, mem, of_decide_eq_true own, active⟩
  · intro known
    obtain ⟨point, mem, own, active⟩ := known
    by_contra uncovered
    rw [uncovered_points grouped uncovered mem own] at active
    cases active

section
variable {points : List MutationPoint} {modules : List Module} {program : List Bitcode}

theorem AddMutations.grouped (added : AddMutations points modules program) {b : Nat} {bitcode : Bitcode}
    (present : program[b]? = some bitcode) :
    Grouped MutationPoint.originalFunction (pointsIn points b) bitcode.getMutationPointsMap := by
  have tagged := (groups_grouped _).perm (added.2 b bitcode present)
  have read : Grouped MutationPoint.originalFunction ((points.zipIdx.filter fun pointer =>
      pointer.1.bitcode = b).map Prod.fst) bitcode.getMutationPointsMap := tagged.map fun _ => rfl
  have own : (points.zipIdx.filter fun pointer => pointer.1.bitcode = b).map Prod.fst =
    pointsIn points b := by
    unfold pointsIn
    conv_rhs => rw [← List.zipIdx_map_fst 0 points, List.filter_map]
    rfl
  rw [own] at read
  exact read

theorem Runnable.regroup {irm : LowLevelMutations} {map map' : MutationPoints} {isSet : Text → Bool}
    {module : Module} (runnable : Runnable irm points map isSet module)
    (grouped : Grouped MutationPoint.originalFunction points map)
    (grouped' : Grouped MutationPoint.originalFunction points map') :
      Runnable irm points map' isSet module := by
  have same (ref : FunctionRef) : ref ∈ coveredFunctions map' ↔ ref ∈ coveredFunctions map := by
    rw [mem_coveredFunctions grouped', mem_coveredFunctions grouped]
  obtain ⟨closed, fixed, body, getenv, declared⟩ := runnable
  refine ⟨closed, fun f mem covered => fixed f mem ((same f.ref).mp covered),
    fun f mem covered => body f mem ((same f.ref).mp covered), fun f mem name => ?_, declared⟩
  rw [same]
  exact getenv f mem name

variable {δ σ : Type} [DecidableEq δ] {semantics : Nat → Semantics δ σ} {symbols : Symbols}
  {lookup : Text → Datum δ}
  {irm : LowLevelMutations} {naming : Naming} {workers : Nat} {finals : List Module}

theorem linked_looksUp {one : Semantics δ σ} (looksUp : LooksUp one lookup)
    (outside : symbols "getenv".toList = none)
    (others : Behaviour δ σ) : LooksUp (one.linked symbols others) lookup := by
  intro identifier m events value m'
  unfold Semantics.linked
  dsimp only
  rw [outside]
  exact looksUp identifier m events value m'

/-- The prepared program and the one with the mutations made in place have the same behaviour. -/
theorem linked_prepared (positive : 1 ≤ workers) (added : AddMutations points modules program)
    (known : KnownIn points modules)
    (prepared : PrepareMutations irm naming workers points.length program finals)
    (looksUp : ∀ b, LooksUp (semantics b) lookup)
    (runnable : RunnableProgram irm points (fun identifier => lookup identifier ≠ .null) symbols modules)
    (depth : Nat) :
    Linked semantics symbols (publicIn modules) finals depth = Linked semantics symbols (publicIn modules)
      (mutatedProgram irm points (fun identifier => lookup identifier ≠ .null) modules) depth := by
  have within : ∀ point ∈ points, point.bitcode < modules.length := by
    intro point mem
    obtain ⟨_, here, -⟩ := known point mem
    exact (List.getElem?_eq_some_iff.mp here).1
  obtain ⟨length, each⟩ := prepared.modulewise positive added within
  refine linked_congr ?_ ?_ depth
  · unfold mutatedProgram
    rw [length, List.length_mapIdx]
  · intro b ref name final meant resolved here there others arguments m value m'
    unfold mutatedProgram at there
    rw [List.getElem?_mapIdx] at there
    obtain ⟨module, original, rfl⟩ := Option.map_eq_some_iff.mp there
    have own := original
    have inside : ∀ point ∈ pointsIn points b, point.originalFunction ∈ module.functions.map
      Function.ref := by
      intro point mem
      obtain ⟨mem, at_b⟩ := List.mem_filter.mp mem
      obtain ⟨other, there, found⟩ := known point mem
      rw [of_decide_eq_true at_b, own] at there
      cases there
      exact found
    rw [← added.1, List.getElem?_map] at original
    obtain ⟨bitcode, present, rfl⟩ := Option.map_eq_some_iff.mp original
    have run := (each b bitcode present).trans here
    have grouped := added.grouped present
    rw [publicIn_eq own]
    exact evaluates_prepared_iff grouped inside (runnable.free _ (List.mem_of_getElem? own)) run
      (linked_looksUp (looksUp b) runnable.outside others)
      ((runnable.runnable b _ own).regroup (groups_grouped _) grouped)
      (runnable.resolved name b ref _ resolved own)

/-- Whatever identifiers are set, a prepared program does what the program does with the mutations of these
identifiers made in place. -/
theorem linked_prepared_iff (positive : 1 ≤ workers) (added : AddMutations points modules program)
    (known : KnownIn points modules)
    (prepared : PrepareMutations irm naming workers points.length program finals)
    (looksUp : ∀ b, LooksUp (semantics b) lookup)
    (runnable : RunnableProgram irm points (fun identifier => lookup identifier ≠ .null) symbols modules)
    {depth : Nat} {name : Text} {arguments : List (Datum δ)} {m m' : σ} {value : Option (Datum δ)} :
    Linked semantics symbols (publicIn modules) finals depth name arguments m value m' ↔
      Linked semantics symbols (publicIn modules)
        (mutatedProgram irm points (fun identifier => lookup identifier ≠ .null) modules) depth name arguments
          m value m' := by
  rw [linked_prepared positive added known prepared looksUp runnable]

end

section
variable {irm : LowLevelMutations} {naming : Naming} {workers : Nat} {points : List MutationPoint}
  {modules : List Module}

theorem exists_addMutations (points : List MutationPoint) (modules : List Module) :
    ∃ program, AddMutations points modules program := by
  refine ⟨modules.mapIdx fun b module => ⟨module, groups (fun pointer => pointer.1.originalFunction)
    (points.zipIdx.filter fun pointer => pointer.1.bitcode = b)⟩, ?_, fun b bitcode present => ?_⟩
  · refine List.ext_getElem? fun b => ?_
    rw [List.getElem?_map, List.getElem?_mapIdx, Option.map_map]
    exact Option.map_id'
  · rw [List.getElem?_mapIdx] at present
    obtain ⟨module, -, rfl⟩ := Option.map_eq_some_iff.mp present
    exact .refl _

/-- Preparation comes to its end where every mutation is defined on its function and the copies get their names. -/
theorem exists_prepared (positive : 1 ≤ workers) (fits : CanSplit workers modules.length)
    (known : KnownIn points modules)
    (free : ∀ module ∈ modules, ∀ f ∈ module.functions, ∀ g ∈ module.functions,
      g.name ≠ getOriginalFunctionName f.name)
    (defined : ∀ point ∈ points, point.covered = true → ∀ module ∈ modules[point.bitcode]?,
      ∀ f ∈ module.functions, f.ref = point.originalFunction → (point.mutateFunction irm f).isSome = true ∧
        getOriginalFunctionName f.name ∉ module.globals.map Global.name) :
    ∃ program finals, AddMutations points modules program ∧
      PrepareMutations irm naming workers points.length program finals := by
  obtain ⟨program, added⟩ := exists_addMutations points modules
  have within : ∀ point ∈ points, point.bitcode < modules.length := by
    intro point mem
    obtain ⟨module, here, -⟩ := known point mem
    exact (List.getElem?_eq_some_iff.mp here).1
  have each : ∀ bitcode ∈ program, ∃ final,
      prepare irm naming (pointerOrder bitcode.pointers) bitcode.getMutationPointsMap bitcode.module =
        some final := by
    intro bitcode mem
    obtain ⟨b, present⟩ := List.mem_iff_getElem?.mp mem
    have here : modules[b]? = some bitcode.module := by
      rw [← added.1, List.getElem?_map, present, Option.map_some]
    have grouped := added.grouped present
    have own {point : MutationPoint} (inside : point ∈ pointsIn points b) :
      point ∈ points ∧ point.bitcode = b :=
      (List.mem_filter.mp inside).imp_right of_decide_eq_true
    have pairs := known_functions grouped fun point inside => by
      obtain ⟨mem, at_b⟩ := own inside
      obtain ⟨module, there, found⟩ := known point mem
      rw [at_b, here] at there
      cases there
      exact found
    have made {point : MutationPoint} (inside : point ∈ pointsIn points b)
      (active : point.covered = true) {f : Function}
        (mem_f : f ∈ bitcode.module.functions) (same : f.ref = point.originalFunction) := by
      obtain ⟨mem, at_b⟩ := own inside
      exact defined point mem active bitcode.module (by rw [at_b]; exact here) f mem_f same
    refine Option.isSome_iff_exists.mp ((prepare_isSome irm naming _ grouped.keys_nodup pairs
      (fun f mem _ => free _ (List.mem_of_getElem? here) f mem)).mpr ⟨?_, ?_⟩)
    · intro f mem_f group listed point inside active
      have group_eq : group = _ := grouped.group_eq _ listed
      rw [group_eq] at inside
      obtain ⟨inside, same⟩ := List.mem_filter.mp inside
      exact (made inside active mem_f (of_decide_eq_true same).symm).1
    · intro f mem_f covered
      obtain ⟨point, inside, same, active⟩ := (mem_coveredFunctions grouped).mp covered
      exact (made inside active mem_f same.symm).2
  obtain ⟨finals, related⟩ := exists_related each
  have length : finals.length = modules.length := by
    rw [← related.length_eq, ← added.1, List.length_map]
  refine ⟨program, finals, added, prepareMutations_of_modulewise positive fits added within length
    fun b bitcode present => ?_⟩
  obtain ⟨inside, rfl⟩ := List.getElem?_eq_some_iff.mp present
  have inside' : b < finals.length := related.length_eq ▸ inside
  rw [List.getElem?_eq_getElem inside']
  exact (List.forall₂_iff_get.mp related).2 b inside inside'

end

def NamesNone (blocks : List BasicBlock) : Prop :=
  blocks ≠ [] ∧ ∀ block ∈ blocks, ∀ value ∈ block.values, value.callee? = none

instance (blocks : List BasicBlock) : Decidable (NamesNone blocks) := inferInstanceAs (Decidable (_ ∧ _))

theorem runnable_namesNone {irm : LowLevelMutations} {points : List MutationPoint} {program : List Module}
    (free : ∀ module ∈ program, ∀ f ∈ module.functions, ∀ g ∈ module.functions,
      g.name ≠ getOriginalFunctionName f.name)
    (plain : ∀ module ∈ program, ∀ f ∈ module.functions, f.name ≠ "getenv".toList ∧ f.type.isVarArg = false ∧
      NamesNone f.blocks ∧ ∀ point ∈ points, ∀ mutated ∈ point.mutateFunction irm f, NamesNone mutated.blocks)
    (declared : ∀ module ∈ program, "getenv".toList ∉ module.globals.map Global.name) (isSet : Text → Bool) :
    RunnableProgram irm points isSet (definedSymbols program) program := by
  have selected {b : Nat} {module : Module} (mem : module ∈ program) {f : Function}
    (mem_f : f ∈ module.functions) :
      NamesNone (selectedBody irm (pointsIn points b) isSet f).blocks := by
    obtain ⟨-, -, own, mutated⟩ := plain module mem f mem_f
    rcases selectedBody_cases irm (pointsIn points b) isSet f with same | ⟨point, inside, made⟩
    · rw [same]
      exact own
    · exact mutated point (List.mem_of_mem_filter inside) _ made
  refine ⟨free, fun b module here => ?_, ?_, fun name b ref module resolved here => ?_⟩
  · have mem := List.mem_of_getElem? here
    refine ⟨fun f mem_f ref mentioned => ?_, fun f mem_f _ => (plain module mem f mem_f).2.1,
      fun f mem_f _ => (selected mem mem_f).1, fun f mem_f name => absurd name (plain module mem f mem_f).1,
      declared module mem⟩
    obtain ⟨original, mem_original, rfl⟩ := List.mem_map.mp mem_f
    obtain ⟨block, mem_block, value, mem_value, named⟩ := mentioned
    rw [(selected mem mem_original).2 block mem_block value mem_value] at named
    cases named
  · by_contra resolved
    obtain ⟨⟨b, ref⟩, found⟩ := Option.ne_none_iff_exists'.mp resolved
    obtain ⟨module, here, f, mem_f, name, -⟩ := definedSymbols_some found
    exact (plain module (List.mem_of_getElem? here) f mem_f).1 name
  · obtain ⟨module', there, f, mem_f, -, rfl⟩ := definedSymbols_some resolved
    obtain rfl := Option.some.inj (here.symm.trans there)
    exact List.mem_map_of_mem mem_f

/-- What the first instruction of a body computes from its argument and one. -/
def computed (blocks : List BasicBlock) (argument : Int) : Option Int :=
  match blocks.head?.bind fun block => block.body.head?.map Instruction.operation with
  | some (.binary 13 _ _) => some (argument + 1)
  | some (.binary 15 _ _) => some (argument - 1)
  | _ => none

/-- Contained bodies run as they must, others compute a number; only `getenv` is outside. -/
def arithmetic (lookup : Text → Datum Int) : Semantics Int Unit where
  body blocks arguments m events value m' := if Contained blocks then
      Follows blocks (events.map Event.answer) arguments (events.map Event.call) value ∧
        Event.Threaded m events m'
    else ∃ argument, arguments = [.data argument] ∧ events = [] ∧ value = (computed blocks argument).map .data
  external name arguments m events value m' := name = "getenv".toList ∧
    ∃ identifier, arguments = [.string identifier] ∧ events = [] ∧ value = some (lookup identifier) ∧ m' = m
  follows blocks arguments m events value m' contained follows threaded := by
    rw [if_pos contained]
    exact ⟨follows, threaded⟩
  followed blocks arguments m events value m' calls value' contained runs follows := by
    rw [if_pos contained] at runs
    obtain ⟨calls_eq, value_eq⟩ := follows_unique runs.1 follows
    exact ⟨calls_eq, value_eq, runs.2⟩

theorem arithmetic_computes (lookup : Text → Datum Int) (symbols : Symbols) (others : Behaviour Int Unit)
    (addressed : FunctionRef → Prop) {module : Module} {ref : FunctionRef} {f : Function}
    (found : module.function? ref = some f) (plain : ¬ Contained f.blocks)
    (type : f.type = ⟨[.int 32], false, .int 32⟩)
    {argument result : Int} (computes : computed f.blocks argument = some result) :
    Evaluates ((arithmetic lookup).linked symbols others) addressed module ref [.data argument] ()
      (some (.data result)) () := by
  have runs : (arithmetic lookup).body f.blocks [.data argument] () [] (some (.data result)) () := by
    dsimp only [arithmetic]
    rw [if_neg plain]
    exact ⟨argument, rfl, rfl, by rw [computes]; rfl⟩
  have body : f.blocks ≠ [] := by
    intro none
    rw [none] at computes
    cases computes
  refine .defined found body ?_ runs ?_ nofun nofun
  · rw [type]
    exact rfl
  · rw [type]
    exact ⟨nofun, nofun⟩

theorem arithmetic_looksUp (lookup : Text → Datum Int) : LooksUp (arithmetic lookup) lookup := by
  intro identifier m events value m'
  constructor
  · intro external
    obtain ⟨-, _, same, empty, found, kept⟩ := external
    obtain rfl := Datum.string.inj (List.cons.inj same).1
    exact ⟨empty, found, kept⟩
  · intro found
    obtain ⟨empty, found, kept⟩ := found
    exact ⟨rfl, identifier, rfl, empty, found, kept⟩

theorem runnable_sum (isSet : Text → Bool) :
    RunnableProgram .simple [sumPoint false] isSet (definedSymbols [sumModule false]) [sumModule false] :=
  runnable_namesNone (by decide) (by decide) (by decide) isSet

theorem knownIn_sum : KnownIn [sumPoint false] [sumModule false] := by
  intro point mem
  obtain rfl := List.mem_singleton.mp mem
  exact ⟨_, rfl, List.mem_singleton_self _⟩

/-- Every identifier is set, and `sum(1)` is 0. -/
theorem linked_prepared_sum : ∃ finals, PrepareMutations .simple .zeros 2 1 [sumBitcode] finals ∧
    Linked (fun _ => arithmetic fun _ => .bool true) (definedSymbols [sumModule false])
    (publicIn [sumModule false]) finals 1 "sum".toList
      [.data 1] () (some (.data 0)) () := by
  obtain ⟨finals, prepared⟩ := @prepareMutations_sum 2 (by decide)
  exact ⟨finals, prepared, (linked_prepared_iff (by decide) addMutations_sum knownIn_sum prepared
    (fun _ => arithmetic_looksUp _) (runnable_sum _)).mpr
      ⟨0, 7, _, rfl, rfl, arithmetic_computes _ _ _ _ rfl (by decide) rfl rfl⟩⟩

end Mull.Preparation
