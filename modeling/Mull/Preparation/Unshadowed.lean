import Mull.Preparation.Transparent

/-! When no mutation is shadowed: with the identifier of a covered point set, its function runs that point's
mutation. -/

namespace Mull.Preparation
open LLVM MutationPoint Base

/-- The covered points of a function that the identifier switches on. -/
def enabled (points : List MutationPoint) (identifier : Text) : List MutationPoint :=
  (points.filter MutationPoint.covered).filter fun point => point.getUserIdentifier = identifier

section
variable (δ : Type) [DecidableEq δ]

/-- With exactly the point's identifier set, calls of the point's function run a body with the point's mutation, and
calls of a function without a point of that identifier run its original body. -/
def Unshadowed (irm : LowLevelMutations) (naming : Naming) (arrangement : Arrangement) (map : MutationPoints)
    (module : Module) (f : Function) (point : MutationPoint) : Prop :=
  ∃ final, prepare irm naming arrangement map module = some final ∧
    ∀ answer : Answer δ, Environment map final (· = point.getUserIdentifier) answer →
      (∀ arguments : List (Datum δ), f.type.Accepts arguments.length →
        ∃ mutant ∈ final.functions, (∃ suffix, mutant.name = point.getUserIdentifier ++ suffix) ∧
          MutantOf irm f point mutant ∧
            ∃ g, final.function? f.ref = some g ∧ Enters final answer arguments g mutant) ∧
      ∀ h ∈ module.functions,
        (∀ pair ∈ map, pair.1 = h.ref → ∀ q ∈ pair.2, q.getUserIdentifier ≠ point.getUserIdentifier) →
        (h.ref ∉ coveredFunctions map → final.function? h.ref = some h) ∧
        (h.ref ∈ coveredFunctions map → ∃ copy ∈ final.functions, copy.name = getOriginalFunctionName h.name ∧
          copy.blocks = h.blocks ∧ ∀ arguments : List (Datum δ), h.type.Accepts arguments.length →
            ∃ g, final.function? h.ref = some g ∧ Enters final answer arguments g copy)

end

section
variable {δ : Type} [DecidableEq δ] {irm : LowLevelMutations} {naming : Naming} {arrangement : Arrangement}
  {module : Module} {map : MutationPoints} (distinct : (map.map Prod.fst).Nodup)
  (known : ∀ pair ∈ map, ∃ f ∈ module.functions, f.ref = pair.1)
  (free : ∀ f ∈ module.functions, f.ref ∈ map.map Prod.fst → ∀ g ∈ module.functions,
    g.name ≠ getOriginalFunctionName f.name)
include distinct known free

theorem others_run {final : Module} (run : prepare irm naming arrangement map module = some final)
    (calls_getenv : CallsGetenv module map) {identifier : Text}
    {answer : Answer δ} (environment : Environment map final (· = identifier) answer) {h : Function}
    (mem : h ∈ module.functions)
    (other : ∀ pair ∈ map, pair.1 = h.ref → ∀ q ∈ pair.2, q.getUserIdentifier ≠ identifier) :
    (h.ref ∉ coveredFunctions map → final.function? h.ref = some h) ∧
    (h.ref ∈ coveredFunctions map → ∃ copy ∈ final.functions, copy.name = getOriginalFunctionName h.name ∧
      copy.blocks = h.blocks ∧ ∀ arguments : List (Datum δ), h.type.Accepts arguments.length →
        ∃ g, final.function? h.ref = some g ∧ Enters final answer arguments g copy) := by
  obtain ⟨kept, getenv, looked_up, redirected⟩ := prepare_spec irm naming arrangement distinct known free run
  refine ⟨kept h mem, fun covered => ?_⟩
  obtain ⟨pair, listed, same⟩ := List.mem_map.mp covered
  obtain ⟨listed, active⟩ := List.mem_filter.mp listed
  have listed' : (h.ref, pair.2) ∈ map := same ▸ listed
  obtain ⟨copy, cs, redirects⟩ := redirected h mem pair.2 listed' active
  obtain ⟨lookup, reaches, plain⟩ := looked_up.callsGetenv_iff.mp calls_getenv
  have named := looked_up.callee.trans reaches
  have body : copy.blocks = h.blocks := by rw [redirects.copied]
  refine ⟨copy, redirects.present, redirects.named, body, fun arguments accepts => ?_⟩
  refine (redirects.enters_iff answer reaches named accepts.enough copy).mpr ?_
  have unset (point : MutationPoint) (inside : point ∈ pair.2) :
      answer lookup [.string point.getUserIdentifier] ≠ .null ↔ false = true := by
    rw [environment lookup named plain pair listed point inside]
    exact ⟨fun same' => absurd same' (other pair listed same point inside), nofun⟩
  rcases redirects.callee_cases answer _ unset with ⟨-, called⟩ | ⟨point, last, -⟩
  · exact called
  · rw [List.filter_false] at last
    cases last

theorem unshadowed_of_pair {f : Function} (mem : f ∈ module.functions) {points : List MutationPoint}
    (listed : (f.ref, points) ∈ map) {point : MutationPoint} (inside : point ∈ points)
    (active : point.covered = true) :
    Unshadowed δ irm naming arrangement map module f point ↔ Preparable irm module map ∧
      CallsGetenv module map ∧
        ∀ last ∈ (enabled points point.getUserIdentifier).getLast?,
          (last.mutateFunction irm f).map Function.blocks =
            (point.mutateFunction irm f).map Function.blocks := by
  have some_covered : hasCoveredMutants points = true := List.any_eq_true.mpr ⟨point, inside, active⟩
  have own : point ∈ enabled points point.getUserIdentifier :=
    List.mem_filter.mpr ⟨List.mem_filter.mpr ⟨inside, active⟩, decide_eq_true rfl⟩
  rw [← prepare_isSome irm naming arrangement distinct known free, Option.isSome_iff_exists]
  constructor
  · rintro ⟨final, run, runs⟩
    obtain ⟨-, getenv, looked_up, redirected⟩ := prepare_spec irm naming arrangement distinct known free run
    obtain ⟨copy, cs, redirects⟩ := redirected f mem points listed some_covered
    have accepts : f.type.Accepts (List.replicate f.type.parameters.length (.null : Datum δ)).length := by
      rw [List.length_replicate]
      unfold FunctionType.Accepts
      split <;> rfl
    have looked (identifier : Text) :
      (if [(.string identifier : Datum δ)] = [.string point.getUserIdentifier] then
        (.bool true : Datum δ) else .null) ≠ .null ↔ identifier = point.getUserIdentifier := by
      simp
    have only : Environment map final (· = point.getUserIdentifier) fun _ arguments =>
        if arguments = [.string point.getUserIdentifier] then (.bool true : Datum δ) else .null :=
      fun _ _ _ _ _ q _ => looked q.getUserIdentifier
    obtain ⟨lookup, reaches⟩ : ∃ lookup, getenv.callee? = some lookup := by
      refine Option.ne_none_iff_exists'.mp fun missing => ?_
      obtain ⟨mutant, -, -, -, entered⟩ := (runs _ only).1 _ accepts
      exact redirects.not_enters _ some_covered (looked_up.missing missing) mutant entered
    have enters {answer : Answer δ}
      (environment : Environment map final (· = point.getUserIdentifier) answer) :
        ∃ mutant ∈ final.functions, (∃ suffix, mutant.name = point.getUserIdentifier ++ suffix) ∧
          MutantOf irm f point mutant ∧ callee answer lookup copy.ref cs = mutant.ref := by
      obtain ⟨mutant, mem_mutant, name, made, entered⟩ := (runs answer environment).1 _ accepts
      exact ⟨mutant, mem_mutant, name, made,
        (redirects.enters_iff answer reaches (looked_up.callee.trans reaches) accepts.enough mutant).mp
          entered⟩
    refine ⟨⟨final, run⟩, looked_up.callsGetenv_iff.mpr ⟨lookup, reaches, fun covered_lookup => ?_⟩,
      fun last at_end => ?_⟩
    · -- where getenv is covered too, it may answer that no mutant is enabled
      have environment : Environment map final (· = point.getUserIdentifier) fun _ _ =>
        (.null : Datum δ) := by
        intro getenv found uncovered
        obtain rfl := Option.some.inj (found.symm.trans (looked_up.callee.trans reaches))
        exact absurd covered_lookup uncovered
      obtain ⟨mutant, mem_mutant, ⟨suffix, name⟩, -, called⟩ := enters environment
      rcases redirects.callee_cases (fun _ _ => (.null : Datum δ)) (fun _ => false)
        (fun point _ => by simp) with ⟨-, called'⟩ | ⟨point, last, -⟩
      · obtain rfl := List.inj_on_of_nodup_map final.distinct mem_mutant redirects.present
          (called.symm.trans called')
        exact clone_name (name.symm.trans redirects.named)
      · rw [List.filter_false] at last
        cases last
    · obtain ⟨mutant, mem_mutant, -, made, called⟩ := enters only
      rcases redirects.callee_cases
        (fun _ arguments => if arguments = [.string point.getUserIdentifier] then
          (.bool true : Datum δ) else .null)
        (fun q => q.getUserIdentifier = point.getUserIdentifier)
        (fun q _ => by rw [looked, decide_eq_true_iff]) with ⟨none, -⟩ | ⟨q, at_end', mutant', mem',
          called', -, -, made'⟩
      · unfold enabled at own
        rw [none] at own
        cases own
      · obtain rfl := List.inj_on_of_nodup_map final.distinct mem_mutant mem' (called.symm.trans called')
        obtain rfl := Option.some.inj (at_end'.symm.trans at_end)
        rw [mutantOf_iff.mp made, mutantOf_iff.mp made']
  · rintro ⟨⟨final, run⟩, calls_getenv, same⟩
    obtain ⟨-, getenv, looked_up, redirected⟩ := prepare_spec irm naming arrangement distinct known free run
    obtain ⟨copy, cs, redirects⟩ := redirected f mem points listed some_covered
    obtain ⟨lookup, reaches, plain⟩ := looked_up.callsGetenv_iff.mp calls_getenv
    have named := looked_up.callee.trans reaches
    refine ⟨final, run, fun answer environment => ⟨fun arguments accepts => ?_, fun h mem_h other =>
      others_run distinct known free run calls_getenv environment mem_h other⟩⟩
    rcases redirects.callee_cases answer (fun q => q.getUserIdentifier = point.getUserIdentifier)
      (fun q inside => by rw [environment lookup named plain _ listed q inside, decide_eq_true_iff])
      with ⟨none, -⟩ | ⟨q, at_end, mutant, mem_mutant, called, -, ⟨suffix, name⟩, made⟩
    · unfold enabled at own
      rw [none] at own
      cases own
    · have identifier := of_decide_eq_true (List.mem_filter.mp (List.mem_of_getLast? at_end)).2
      rw [identifier] at name
      refine ⟨mutant, mem_mutant, ⟨suffix, name⟩, ?_, ?_⟩
      · rw [mutantOf_iff, ← same q at_end]
        exact mutantOf_iff.mp made
      · exact (redirects.enters_iff answer reaches named accepts.enough mutant).mpr called

end

/-- With functions to mutate from the module, none of them named like a copy. -/
theorem unshadowed_iff {δ : Type} [DecidableEq δ] {irm : LowLevelMutations} {naming : Naming}
    {arrangement : Arrangement} {module : Module} {points : List MutationPoint} {map : MutationPoints}
    (grouped : Grouped MutationPoint.originalFunction points map)
    (known : ∀ point ∈ points, point.originalFunction ∈ module.functions.map Function.ref)
    (free : ∀ f ∈ module.functions, ∀ g ∈ module.functions,
      g.name ≠ getOriginalFunctionName f.name) {f : Function}
    (mem : f ∈ module.functions) {point : MutationPoint} (inside : point ∈ points)
    (own : point.originalFunction = f.ref) (active : point.covered = true) :
    Unshadowed δ irm naming arrangement map module f point ↔ Preparable irm module map ∧
      CallsGetenv module map ∧
        ∀ last ∈ (enabled (points.filter fun q => q.originalFunction = f.ref)
          point.getUserIdentifier).getLast?, (last.mutateFunction irm f).map Function.blocks =
            (point.mutateFunction irm f).map Function.blocks := by
  have key : f.ref ∈ map.map Prod.fst := (grouped.mem_keys f.ref).mpr (own ▸ List.mem_map_of_mem inside)
  obtain ⟨pair, listed, same⟩ := List.mem_map.mp key
  have group := grouped.group_eq pair listed
  rw [same] at group
  rw [← group]
  refine unshadowed_of_pair grouped.keys_nodup (known_functions grouped known) (fun f mem _ => free f mem) mem
    (same ▸ listed) ?_ active
  rw [group]
  exact List.mem_filter.mpr ⟨inside, decide_eq_true own⟩

def callInstruction : Instruction where
  result := 1
  operation := .call (.function 8) [.constantInt 32 1, .constantInt 32 2]
    ⟨[.int 32, .int 32], false, .void⟩ 0 0
  debugLoc := some ⟨"/src".toList, "area.c".toList, 4, 3, some ("/src".toList, "area.c".toList)⟩

def areaBlock : BasicBlock where
  ref := 0
  body := [callInstruction]
  terminator := .ret none

/-- `void area() { draw(1, 2); }` -/
def area : Function where
  ref := 3
  name := "area".toList
  type := ⟨[], false, .void⟩
  blocks := [areaBlock]
  distinct := by decide

def draw : Function where
  ref := 8
  name := "draw".toList
  type := ⟨[.int 32, .int 32], false, .void⟩
  blocks := []
  distinct := List.nodup_nil

def areaModule : Module where
  functions := [area, draw]
  distinct := by decide
  named := by decide

def canReplaceArgument : IRMutation → Place → Bool
  | .constIntReplacement _ operand, ⟨_, _, _, _, .plain ⟨_, .call _ arguments _ _ _, _⟩⟩ =>
    match arguments[operand]? with
    | some (.constantInt _ _) => true
    | _ => false
  | _, _ => false

def areaPoints : List MutationPoint :=
  Mutator.scalarValueMutator.getMutations canReplaceArgument ⟨area, ⟨0, areaModule⟩, true, area.instructions⟩

def areaPoint (operand : Nat) : MutationPoint :=
  .create .scalarValueMutator (some (.constIntReplacement 42 operand))
    ⟨area, areaBlock, 0, 0, .plain callInstruction⟩ ⟨0, areaModule⟩

/-- The mutation of the first argument is never run. -/
theorem not_unshadowed_firstArgument : areaPoint 0 ∈ areaPoints ∧
    ¬ Unshadowed Int .simple .zeros .inOrder [(3, areaPoints)] areaModule area (areaPoint 0) := by
  refine ⟨by decide, fun unshadowed => ?_⟩
  obtain ⟨-, -, same⟩ := (unshadowed_of_pair (by decide) (by decide) (by decide) (f := area) (by decide)
    List.mem_cons_self (by decide) rfl).mp unshadowed
  have last : areaPoint 1 ∈ (enabled areaPoints (areaPoint 0).getUserIdentifier).getLast? := by decide
  exact absurd (same _ last) (by decide)

theorem preparable_area : Preparable .simple areaModule [(3, areaPoints)] := by
  have mutates : ∀ point ∈ areaPoints, (point.mutateFunction .simple area).isSome = true := by decide
  refine ⟨?_, by decide⟩
  intro f mem points listed point inside _
  obtain ⟨ref, rfl⟩ := Prod.mk.inj (List.mem_singleton.mp listed)
  obtain rfl : f = area := by
    rcases List.mem_cons.mp mem with same | mem
    · exact same
    · rw [List.mem_singleton.mp mem] at ref
      cases ref
  exact mutates point inside

theorem unshadowed_secondArgument :
    Unshadowed Int .simple .zeros .inOrder [(3, areaPoints)] areaModule area (areaPoint 1) := by
  have grouped : Grouped MutationPoint.originalFunction areaPoints [(3, areaPoints)] :=
    groups_grouped areaPoints
  exact (unshadowed_iff grouped (by decide) (by decide) (by decide) (by decide) rfl rfl).mpr
    ⟨preparable_area, fun named => absurd named (by decide), by decide⟩

end Mull.Preparation
