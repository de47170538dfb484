import Mull.Mutators.Mutations
import Mull.Preparation.Calls

/-! When instrumentation is transparent: with no mutant enabled, calls run the original body with their
arguments. -/

namespace Mull.Preparation
open LLVM MutationPoint Base

section
variable {δ : Type} [DecidableEq δ]

/-- With no identifier set, a call of the function runs its original body with exactly the arguments and returns its
result; a function without a covered point is left as it is. -/
def Transparent (irm : LowLevelMutations) (naming : Naming) (arrangement : Arrangement) (map : MutationPoints)
    (module : Module) (f : Function) (arguments : List (Datum δ)) : Prop :=
  ∃ final, prepare irm naming arrangement map module = some final ∧
    (f.ref ∉ coveredFunctions map → final.function? f.ref = some f) ∧
    (f.ref ∈ coveredFunctions map → ∃ copy ∈ final.functions,
      copy = { f with ref := copy.ref, name := getOriginalFunctionName f.name } ∧
        ∀ answer, Environment map final (fun _ => False) answer →
          ∃ g, final.function? f.ref = some g ∧ Forwards final answer arguments g copy)

section
variable {irm : LowLevelMutations} {naming : Naming} {arrangement : Arrangement} {module : Module}
  {map : MutationPoints} (distinct : (map.map Prod.fst).Nodup)
  (known : ∀ pair ∈ map, ∃ f ∈ module.functions, f.ref = pair.1)
  (free : ∀ f ∈ module.functions, f.ref ∈ map.map Prod.fst → ∀ g ∈ module.functions,
    g.name ≠ getOriginalFunctionName f.name)
include distinct known free

theorem transparent_uncovered {f : Function} (mem : f ∈ module.functions)
    (uncovered : f.ref ∉ coveredFunctions map) (arguments : List (Datum δ)) :
    Transparent irm naming arrangement map module f arguments ↔ Preparable irm module map := by
  rw [← prepare_isSome irm naming arrangement distinct known free, Option.isSome_iff_exists]
  constructor
  · rintro ⟨final, run, -⟩
    exact ⟨final, run⟩
  · rintro ⟨final, run⟩
    obtain ⟨kept, -⟩ := prepare_spec irm naming arrangement distinct known free run
    exact ⟨final, run, kept f mem, fun covered => absurd covered uncovered⟩

theorem transparent_covered {f : Function} (mem : f ∈ module.functions)
    (covered : f.ref ∈ coveredFunctions map)
    {arguments : List (Datum δ)} (accepts : f.type.Accepts arguments.length) :
    Transparent irm naming arrangement map module f arguments ↔
      Preparable irm module map ∧ arguments.length = f.type.parameters.length ∧ CallsGetenv module map := by
  obtain ⟨pair, listed, same⟩ := List.mem_map.mp covered
  obtain ⟨listed, active⟩ := List.mem_filter.mp listed
  have listed : (f.ref, pair.2) ∈ map := same ▸ listed
  rw [← prepare_isSome irm naming arrangement distinct known free, Option.isSome_iff_exists]
  constructor
  · rintro ⟨final, run, -, forwarding⟩
    obtain ⟨-, getenv, looked_up, redirected⟩ := prepare_spec irm naming arrangement distinct known free run
    obtain ⟨copy, cs, redirects⟩ := redirected f mem pair.2 listed active
    obtain ⟨copy', mem_copy, eq, forwards⟩ := forwarding covered
    have name : copy'.name = copy.name := by rw [eq, redirects.named]
    obtain rfl := List.inj_on_of_nodup_map final.names_distinct mem_copy redirects.present name
    have unset : Environment map final (fun _ => False) fun _ _ => (.null : Datum δ) :=
      fun _ _ _ _ _ _ _ => by simp
    obtain ⟨lookup, reaches⟩ : ∃ lookup, getenv.callee? = some lookup := by
      refine Option.ne_none_iff_exists'.mp fun missing => ?_
      obtain ⟨g, found, forwards⟩ := forwards _ unset
      exact redirects.not_enters _ active (looked_up.missing missing) copy' ⟨g, found, forwards.enters⟩
    have called {answer : Answer δ} (environment : Environment map final (fun _ => False) answer) :=
      (redirects.forwards_iff answer reaches (looked_up.callee.trans reaches) accepts.enough copy').mp
        (forwards answer environment)
    refine ⟨⟨final, run⟩, (called unset).2, looked_up.callsGetenv_iff.mpr
      ⟨lookup, reaches, fun covered_lookup => ?_⟩⟩
    -- where getenv is covered too, it may answer that every mutant is enabled
    have environment : Environment map final (fun _ => False) fun _ _ => (.bool true : Datum δ) := by
      intro getenv found uncovered
      obtain rfl := Option.some.inj (found.symm.trans (looked_up.callee.trans reaches))
      exact absurd covered_lookup uncovered
    have at_copy := (called environment).1
    rcases redirects.callee_cases (fun _ _ => (.bool true : Datum δ)) (fun _ => true)
      (fun point _ => by simp) with ⟨none, -⟩ | ⟨point, -, mutant, -, called, apart, -⟩
    · obtain ⟨point, inside, active⟩ := List.any_eq_true.mp active
      rw [List.filter_true] at none
      exact List.filter_eq_nil_iff.mp none point inside active
    · exact apart (called.symm.trans at_copy)
  · rintro ⟨⟨final, run⟩, exact_count, calls_getenv⟩
    obtain ⟨-, getenv, looked_up, redirected⟩ := prepare_spec irm naming arrangement distinct known free run
    obtain ⟨copy, cs, redirects⟩ := redirected f mem pair.2 listed active
    obtain ⟨lookup, reaches, uncovered⟩ := looked_up.callsGetenv_iff.mp calls_getenv
    refine ⟨final, run, fun outside => absurd covered outside, fun _ => ⟨copy, redirects.present, ?_, ?_⟩⟩
    · rw [← redirects.named]
      exact redirects.copied
    · intro answer environment
      have named := looked_up.callee.trans reaches
      refine (redirects.forwards_iff answer reaches named accepts.enough copy).mpr ⟨?_, exact_count⟩
      rcases redirects.callee_cases answer (fun _ => false) (fun point inside => by
        simpa using environment lookup named uncovered _ listed point inside) with ⟨-,
          called⟩ | ⟨point, last, -⟩
      · exact called
      · rw [List.filter_false] at last
        cases last

end

/-- With functions to mutate from the module, none of them named like a copy. -/
theorem transparent_iff {irm : LowLevelMutations} {naming : Naming} {arrangement : Arrangement}
    {module : Module} {points : List MutationPoint} {map : MutationPoints}
    (grouped : Grouped MutationPoint.originalFunction points map)
    (known : ∀ point ∈ points, point.originalFunction ∈ module.functions.map Function.ref)
    (free : ∀ f ∈ module.functions, ∀ g ∈ module.functions,
      g.name ≠ getOriginalFunctionName f.name) {f : Function}
    (mem : f ∈ module.functions) {arguments : List (Datum δ)} (accepts : f.type.Accepts arguments.length) :
    Transparent irm naming arrangement map module f arguments ↔
      Preparable irm module map ∧ (f.ref ∈ coveredFunctions map →
        arguments.length = f.type.parameters.length ∧ CallsGetenv module map) := by
  have known_pairs := known_functions grouped known
  by_cases covered : f.ref ∈ coveredFunctions map
  · rw [transparent_covered grouped.keys_nodup known_pairs (fun f mem _ => free f mem) mem covered accepts]
    simp only [covered, true_imp_iff]
  · rw [transparent_uncovered grouped.keys_nodup known_pairs (fun f mem _ => free f mem) mem covered]
    simp only [covered, false_imp_iff, and_true]

end

def sumInstruction : Instruction where
  result := 1
  operation := .binary 13 (.argument 0) (.constantInt 32 1)
  debugLoc := some ⟨"/src".toList, "sum.c".toList, 3, 16, some ("/src".toList, "sum.c".toList)⟩

def sumBlock : BasicBlock where
  ref := 0
  body := [sumInstruction]
  terminator := .ret (some (.register 1))

/-- `int sum(int count, ...)`, or without the dots, returning `count + 1`. -/
def sum (isVarArg : Bool) : Function where
  ref := 7
  name := "sum".toList
  type := ⟨[.int 32], isVarArg, .int 32⟩
  blocks := [sumBlock]
  distinct := by decide

def sumModule (isVarArg : Bool) : Module where
  functions := [sum isVarArg]
  globals := []
  distinct := List.nodup_singleton _
  named := List.nodup_singleton _

def sumPoint (isVarArg : Bool) : MutationPoint :=
  .create .addToSub (some .addToSub) ⟨sum isVarArg, sumBlock, 0, 0, .plain sumInstruction⟩
    ⟨0, sumModule isVarArg⟩

/-- The call `sum(1, 2)` loses its second argument. -/
theorem not_transparent_variadic :
    ¬ Transparent .simple .zeros .inOrder [(7, [sumPoint true])] (sumModule true)
    (sum true) [(.data 1 : Datum Int), .data 2] := by
  rw [transparent_covered (by decide) (by decide) (by decide) (by decide) (by decide) (by decide)]
  rintro ⟨-, exact_count, -⟩
  cases exact_count

theorem transparent_sum : Transparent .simple .zeros .inOrder [(7, [sumPoint false])] (sumModule false)
    (sum false) [(.data 1 : Datum Int)] := by
  have grouped : Grouped MutationPoint.originalFunction [sumPoint false] [(7, [sumPoint false])] :=
    groups_grouped [sumPoint false]
  have mutates : ((sumPoint false).mutateFunction .simple (sum false)).isSome = true := by decide
  refine (transparent_iff grouped (by decide) (by decide) (by decide) (by decide)).mpr
    ⟨⟨?_, by decide⟩, fun _ => ⟨rfl, fun named => absurd named (by decide)⟩⟩
  intro f mem points listed point inside _
  obtain rfl := List.mem_singleton.mp mem
  obtain ⟨-, rfl⟩ := Prod.mk.inj (List.mem_singleton.mp listed)
  obtain rfl := List.mem_singleton.mp inside
  exact mutates

end Mull.Preparation
