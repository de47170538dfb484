import Mull.Base.Grouping
import Mull.Preparation.Prepared
import Mull.Preparation.Trampoline

/-! Calls of a prepared function under an environment: where they end up. -/

namespace LLVM

/-- The number of arguments that a call may have. -/
def FunctionType.Accepts (type : FunctionType) (count : Nat) : Prop :=
  if type.isVarArg then type.parameters.length ≤ count else count = type.parameters.length

instance (type : FunctionType) (count : Nat) : Decidable (type.Accepts count) :=
  inferInstanceAs
    (Decidable (if type.isVarArg then type.parameters.length ≤ count else count = type.parameters.length))

theorem FunctionType.Accepts.enough {type : FunctionType} {count : Nat} (accepts : type.Accepts count) :
    type.parameters.length ≤ count := by
  unfold Accepts at accepts
  split at accepts
  · exact accepts
  · exact accepts.ge

end LLVM

namespace Mull.Preparation
open LLVM MutationPoint Base

section
variable {δ : Type} [DecidableEq δ]

/-- `getenv` finds exactly the identifiers that are set. Of a `getenv` with a trampoline of its own, which looks its
identifiers up with itself, nothing is known. -/
def Environment (map : MutationPoints) (final : Module) (isSet : Text → Prop) (answer : Answer δ) : Prop :=
  ∀ getenv, final.callee? "getenv".toList = some getenv → getenv ∉ coveredFunctions map →
    ∀ pair ∈ map, ∀ point ∈ pair.2,
      answer getenv [.string point.getUserIdentifier] ≠ .null ↔ isSet point.getUserIdentifier

/-- Calls of `getenv`. -/
def Lookups (final : Module) (calls : List (Call δ)) : Prop :=
  ∀ call ∈ calls, final.callee? "getenv".toList = some call.1

/-- What the module calls `getenv`, if anything, is a function without a trampoline or an alias of one. -/
def CallsGetenv (module : Module) (map : MutationPoints) : Prop :=
  "getenv".toList ∈ module.names → ∃ getenv, module.callee? "getenv".toList = some getenv ∧
    getenv ∉ coveredFunctions map

theorem Getenv.callsGetenv_iff {module prepared : Module} {map : MutationPoints} {getenv : Value}
    (looked_up : Getenv module map prepared getenv) :
    CallsGetenv module map ↔ ∃ lookup, getenv.callee? = some lookup ∧ lookup ∉ coveredFunctions map := by
  unfold CallsGetenv
  by_cases named : "getenv".toList ∈ module.names
  · simp only [named, true_imp_iff, looked_up.known named]
  · simp only [named, false_imp_iff, true_iff]
    exact looked_up.declared named

/-- A call of the function runs the target with the same arguments and returns its result. -/
def Forwards (final : Module) (answer : Answer δ) (arguments : List (Datum δ)) (f target : Function) : Prop :=
  ∃ lookups, Lookups final lookups ∧ f.Runs answer arguments (lookups ++ [(target.ref, arguments)])
    (if f.type.returnType = .void then none else some (answer target.ref arguments))

/-- A call of the function runs the target. -/
def Enters (final : Module) (answer : Answer δ) (arguments : List (Datum δ)) (f target : Function) : Prop :=
  ∃ lookups passed value, Lookups final lookups ∧ f.Runs answer arguments
    (lookups ++ [(target.ref, passed)]) value

theorem callee_eq (answer : Answer δ) (getenv copy : FunctionRef) (checks : List Check) :
    callee answer getenv copy checks =
      (((checks.filter fun check => answer getenv [.string check.1] ≠ .null).getLast?).map Prod.snd).getD
        copy := by
  induction checks using List.reverseRecOn with
  | nil => rfl
  | append_singleton checks check ih =>
    unfold callee at ih ⊢
    rw [List.foldl_append, List.filter_append, List.foldl_cons, List.foldl_nil, ih]
    by_cases unset : answer getenv [.string check.1] = .null
    · rw [if_pos unset, List.filter_cons_of_neg (by simp [unset]), List.filter_nil, List.append_nil]
    · rw [if_neg unset, List.filter_cons_of_pos (by simp [unset]), List.filter_nil, List.getLast?_append]
      rfl

section
variable {irm : LowLevelMutations} {final : Module} {getenv : Value} {f copy : Function}
  {points : List MutationPoint} {cs : List Check} (redirects : Redirects irm final getenv f points copy cs)
  (answer : Answer δ) {arguments : List (Datum δ)}
include redirects

theorem Redirects.not_enters (active : hasCoveredMutants points = true) {name : Text}
    (missing : getenv = .global name none)
    (target : Function) : ¬ ∃ g, final.function? f.ref = some g ∧ Enters final answer arguments g target := by
  rintro ⟨g, found, lookups, passed, value, -, runs⟩
  obtain rfl := Option.some.inj (redirects.body.symm.trans found)
  have some_check : cs ≠ [] := by
    rintro rfl
    obtain ⟨point, inside, active⟩ := List.any_eq_true.mp active
    have none_left := List.forall₂_nil_right_iff.mp redirects.mutants
    exact List.filter_eq_nil_iff.mp none_left point inside active
  have blocks : (trampoline (dropAllReferences f) getenv copy.ref cs).blocks =
      trampolineBlocks 0 (dropAllReferences f) getenv copy.ref cs := rfl
  exact trampoline_stuck answer arguments missing some_check blocks runs

variable {lookup : FunctionRef} (reaches : getenv.callee? = some lookup)
  (known : final.callee? "getenv".toList = some lookup) (enough : f.type.parameters.length ≤ arguments.length)
include reaches known enough

theorem Redirects.runs : ∃ g, final.function? f.ref = some g ∧ g.type = f.type ∧ ∃ lookups,
    Lookups final lookups ∧
    g.Runs answer arguments
      (lookups ++ [(callee answer lookup copy.ref cs, arguments.take f.type.parameters.length)])
      (if f.type.returnType = .void then none
        else some (answer (callee answer lookup copy.ref cs) (arguments.take f.type.parameters.length))) := by
  have blocks : (trampoline (dropAllReferences f) getenv copy.ref cs).blocks =
      trampolineBlocks 0 (dropAllReferences f) getenv copy.ref cs := rfl
  obtain ⟨lookups, all, runs⟩ := trampoline_runs answer arguments reaches blocks enough
  exact ⟨_, redirects.body, rfl, lookups, fun call mem => by rw [known, all call mem], runs⟩

theorem Redirects.enters_iff (target : Function) :
    (∃ g, final.function? f.ref = some g ∧ Enters final answer arguments g target) ↔
      callee answer lookup copy.ref cs = target.ref := by
  obtain ⟨g, found, -, lookups, all, runs⟩ := redirects.runs answer reaches known enough
  constructor
  · rintro ⟨g', found', lookups', passed, value, -, runs'⟩
    obtain rfl := Option.some.inj (found.symm.trans found')
    have last := congrArg List.getLast? (Function.runs_unique runs runs').1
    rw [List.getLast?_concat, List.getLast?_concat] at last
    exact congrArg Prod.fst (Option.some.inj last)
  · intro same
    rw [same] at runs
    exact ⟨g, found, lookups, _, _, all, runs⟩

theorem Redirects.forwards_iff (target : Function) :
    (∃ g, final.function? f.ref = some g ∧ Forwards final answer arguments g target) ↔
      callee answer lookup copy.ref cs = target.ref ∧ arguments.length = f.type.parameters.length := by
  obtain ⟨g, found, type, lookups, all, runs⟩ := redirects.runs answer reaches known enough
  constructor
  · rintro ⟨g', found', lookups', -, runs'⟩
    obtain rfl := Option.some.inj (found.symm.trans found')
    have last := congrArg List.getLast? (Function.runs_unique runs runs').1
    rw [List.getLast?_concat, List.getLast?_concat] at last
    obtain ⟨same, passed⟩ := Prod.mk.inj (Option.some.inj last)
    exact ⟨same, le_antisymm (List.take_eq_self_iff _ |>.mp passed) enough⟩
  · rintro ⟨same, exact_count⟩
    rw [same, List.take_of_length_le exact_count.le, ← type] at runs
    exact ⟨g, found, lookups, all, runs⟩

end

theorem Forwards.enters {final : Module} {answer : Answer δ} {arguments : List (Datum δ)}
    {f target : Function}
    (forwards : Forwards final answer arguments f target) : Enters final answer arguments f target := by
  obtain ⟨lookups, all, runs⟩ := forwards
  exact ⟨lookups, arguments, _, all, runs⟩

/-- Without a check that fires the copy is called, else the clone of the last point whose check fires. -/
theorem Redirects.callee_cases {irm : LowLevelMutations} {final : Module} {getenv : Value} {f copy : Function}
    {points : List MutationPoint} {cs : List Check} (redirects : Redirects irm final getenv f points copy cs)
    (answer : Answer δ) {lookup : FunctionRef} (fires : MutationPoint → Bool)
    (fired : ∀ point ∈ points, answer lookup [.string point.getUserIdentifier] ≠ .null ↔ fires point = true) :
    ((points.filter MutationPoint.covered).filter fires = [] ∧ callee answer lookup copy.ref cs = copy.ref) ∨
      ∃ point, ((points.filter MutationPoint.covered).filter fires).getLast? = some point ∧
        ∃ mutant ∈ final.functions, callee answer lookup copy.ref cs = mutant.ref ∧ mutant.ref ≠ copy.ref ∧
          (∃ suffix, mutant.name = point.getUserIdentifier ++ suffix) ∧ MutantOf irm f point mutant := by
  have filtered : (points.filter MutationPoint.covered).filter fires =
    (points.filter MutationPoint.covered).filter
      fun point => answer lookup [.string point.getUserIdentifier] ≠ .null := by
    refine List.filter_congr fun point mem => ?_
    rw [Bool.eq_iff_iff, ← fired point (List.mem_filter.mp mem).1, decide_eq_true_iff]
  have related := filter_related (q := fun check => answer lookup [.string check.1] ≠ .null) redirects.mutants
    fun point check same => by rw [same.1]
  rw [← filtered] at related
  rw [callee_eq]
  rcases getLast?_related related with
    ⟨none, none'⟩ | ⟨point, check, last, last', -, mutant, mem, ref, name, made⟩
  · refine .inl ⟨none, ?_⟩
    rw [none']
    rfl
  · refine .inr ⟨point, last, mutant, mem, ?_, ?_, name, made⟩
    · rw [last', ref]
      rfl
    · rw [ref]
      exact redirects.apart check (List.mem_filter.mp (List.mem_of_getLast? last')).1

end

theorem known_functions {module : Module} {points : List MutationPoint} {map : MutationPoints}
    (grouped : Grouped MutationPoint.originalFunction points map)
    (known : ∀ point ∈ points, point.originalFunction ∈ module.functions.map Function.ref) :
    ∀ pair ∈ map, ∃ f ∈ module.functions, f.ref = pair.1 := by
  intro pair mem
  obtain ⟨point, inside, same⟩ := List.mem_map.mp ((grouped.mem_keys pair.1).mp (List.mem_map_of_mem mem))
  rw [← same]
  exact List.mem_map.mp (known point inside)

end Mull.Preparation
