import Mull.Preparation.Lookups
import Mull.Preparation.Targets
import Mull.Preparation.Transparent

/-! What a prepared program means: whatever identifiers the environment has, calls do what they do in the program
with the mutations of these identifiers made. -/

namespace Mull.Preparation
open LLVM MutationPoint Base

/-! ### Trampolines keep their slot to themselves and name what they call -/

section
variable {original : Function} {getenv : FunctionRef} {asked : Value} {copy : FunctionRef} {cs : List Check}

theorem slotRegisters_checkBlocks (base k : Nat) : slotRegisters (checkBlocks base asked k cs) = [] := by
  induction cs generalizing k with
  | nil => rfl
  | cons check rest ih =>
    unfold slotRegisters at ih ⊢
    rw [checkBlocks, List.flatMap_cons, List.flatMap_cons, ih (k + 1)]
    rfl

theorem slotRegisters_trampoline : slotRegisters (trampolineBlocks 0 original asked copy cs) = [0] := by
  have checks := @slotRegisters_checkBlocks asked cs 0 0
  unfold slotRegisters at checks ⊢
  rw [trampolineBlocks, List.flatMap_cons, List.flatMap_cons, List.flatMap_cons, checks]
  rfl

theorem mem_checkBlocks_cases {base k : Nat} {block : BasicBlock}
    (mem : block ∈ checkBlocks base asked k cs) :
    ∃ j, ∃ check ∈ cs, block = mutationCheckBlock base asked j check ∨
    block = mutationBlock base j check := by
  induction cs generalizing k with
  | nil => cases mem
  | cons first rest ih =>
    rcases List.mem_cons.mp mem with rfl | mem
    · exact ⟨k, first, List.mem_cons_self, .inl rfl⟩
    · rcases List.mem_cons.mp mem with rfl | mem
      · exact ⟨k, first, List.mem_cons_self, .inr rfl⟩
      · obtain ⟨j, check, mem, either⟩ := ih mem
        exact ⟨j, check, List.mem_cons_of_mem _ mem, either⟩

theorem contained_trampoline : Contained (trampolineBlocks 0 original (.function getenv) copy cs) := by
  unfold Contained
  rw [slotRegisters_trampoline]
  simp only [List.any_cons, List.any_nil, Bool.or_false]
  have other {j : Nat} : (Value.register (j + 1) = .register 0) ↔ False := by simp
  intro block mem
  unfold trampolineBlocks at mem
  rcases List.mem_cons.mp mem with rfl | mem
  · exact ⟨rfl, by simp [Operation.keepsSlots], rfl⟩
  rcases List.mem_cons.mp mem with rfl | mem
  · exact ⟨rfl, by simp [Operation.keepsSlots], rfl⟩
  rcases List.mem_cons.mp mem with rfl | mem
  · refine ⟨rfl, by simp [Operation.keepsSlots], ?_⟩
    by_cases void : original.type.returnType = .void
    · rw [if_pos void]
      rfl
    · rw [if_neg void]
      rfl
  obtain ⟨j, check, -, rfl | rfl⟩ := mem_checkBlocks_cases mem
  · exact ⟨rfl,
      by simp [mutationCheckBlock, Operation.keepsSlots], by simp [mutationCheckBlock, Terminator.keepsSlots]⟩
  · exact ⟨rfl, by simp [mutationBlock, Operation.keepsSlots], rfl⟩

theorem mentions_copy : Mentions (trampolineBlocks 0 original asked copy cs) copy :=
  ⟨_, List.mem_cons_of_mem _ List.mem_cons_self, _, List.mem_cons_self, rfl⟩

theorem mentions_check {check : Check} (mem : check ∈ cs) :
    Mentions (trampolineBlocks 0 original (.function getenv) copy cs) getenv ∧
      Mentions (trampolineBlocks 0 original (.function getenv) copy cs) check.2 := by
  obtain ⟨i, present⟩ := List.mem_iff_getElem?.mp mem
  obtain ⟨mem_check, mem_mutation⟩ := mem_checkBlocks 0 (.function getenv) present 0
  have placed {block : BasicBlock} (mem : block ∈ checkBlocks 0 (.function getenv) 0 cs) :
      block ∈ trampolineBlocks 0 original (.function getenv) copy cs :=
    List.mem_cons_of_mem _ (List.mem_cons_of_mem _ (List.mem_cons_of_mem _ mem))
  exact ⟨⟨_, placed mem_check, _, List.mem_cons_self, rfl⟩,
    ⟨_, placed mem_mutation, _, List.mem_cons_self, rfl⟩⟩

end

/-! ### The program with the enabled mutations made -/

def selectedBody (irm : LowLevelMutations) (points : List MutationPoint) (isSet : Text → Bool)
    (f : Function) :
    Function :=
  let own := points.filter fun point => point.originalFunction = f.ref
  let enabled := (own.filter MutationPoint.covered).filter fun point => isSet point.getUserIdentifier
  (enabled.getLast?.bind fun point => point.mutateFunction irm f).getD f

/-- The module with the mutations of these identifiers made in place, where several are to be made in one function
the last of them only. -/
def mutateWith (irm : LowLevelMutations) (points : List MutationPoint) (isSet : Text → Bool)
    (module : Module) :
    Module where
  functions := module.functions.map fun f => f.withBody (selectedBody irm points isSet f)
  globals := module.globals
  distinct := by
    rw [List.map_map]
    exact module.distinct
  named := by
    rw [List.map_map]
    exact module.named
  aliased := by
    rw [List.map_map]
    exact module.aliased

section
variable {irm : LowLevelMutations} {points : List MutationPoint} {isSet : Text → Bool} {module : Module}

theorem selectedBody_cases (irm : LowLevelMutations) (points : List MutationPoint) (isSet : Text → Bool)
    (f : Function) :
    selectedBody irm points isSet f = f ∨
      ∃ point ∈ points, point.mutateFunction irm f = some (selectedBody irm points isSet f) := by
  unfold selectedBody
  dsimp only
  cases last : (List.filter (fun point => isSet point.getUserIdentifier) (List.filter MutationPoint.covered
      (points.filter fun point => point.originalFunction = f.ref))).getLast? with
  | none => exact .inl rfl
  | some point =>
    rw [Option.bind_some]
    cases mutated : point.mutateFunction irm f with
    | none => exact .inl rfl
    | some g =>
      have mem := List.mem_of_mem_filter (List.mem_of_mem_filter (List.mem_of_getLast? last))
      exact .inr ⟨point, List.mem_of_mem_filter mem, mutated⟩

theorem selectedBody_uncovered {f : Function}
    (uncovered : ∀ point ∈ points, point.originalFunction = f.ref → point.covered = false) :
    selectedBody irm points isSet f = f := by
  have none :
    ((points.filter fun point => point.originalFunction = f.ref).filter MutationPoint.covered) = [] := by
    refine List.filter_eq_nil_iff.mpr fun point mem => ?_
    obtain ⟨mem, own⟩ := List.mem_filter.mp mem
    rw [uncovered point mem (of_decide_eq_true own)]
    exact Bool.false_ne_true
  unfold selectedBody
  simp only [none]
  rfl

end

/-! ### Calls of trampolines -/

section
variable {δ : Type} [DecidableEq δ]

def lookedUp (lookup : Text → Datum δ) : List Check → List Text
  | [] => []
  | check :: rest => if lookup check.1 = .null then check.1 :: lookedUp lookup rest else [check.1]

def dispatched (lookup : Text → Datum δ) (copy : FunctionRef) (cs : List Check) : FunctionRef :=
  ((cs.reverse.find? fun check => lookup check.1 ≠ .null).map Prod.snd).getD copy

theorem scan_lookedUp (lookup : Text → Datum δ) (getenv : FunctionRef) (before after : List (Datum δ))
    (cs : List Check) :
    scan getenv (before ++ (lookedUp lookup cs).map lookup ++ after) before.length cs =
      ((lookedUp lookup cs).map fun identifier => (getenv, [.string identifier]),
        (cs.find? fun check => lookup check.1 ≠ .null).map Prod.snd) := by
  induction cs generalizing before with
  | nil => rfl
  | cons check rest ih =>
    rw [List.find?_cons, lookedUp]
    by_cases unset : lookup check.1 = .null
    · have first : (before ++ (check.1 :: lookedUp lookup rest).map lookup ++ after).getD before.length
        .null = .null := by
        simp [unset]
      have rest_scan := ih (before ++ [lookup check.1])
      rw [List.length_append, List.length_singleton, List.append_assoc before,
        List.singleton_append] at rest_scan
      rw [if_pos unset, scan, if_pos first, decide_eq_false (not_not.mpr unset), List.map_cons, rest_scan]
      rfl
    · have first : (before ++ [check.1].map lookup ++ after).getD before.length .null ≠ .null := by
        simpa using unset
      rw [if_neg unset, scan, if_neg first, decide_eq_true unset]
      rfl

variable {σ : Type}

/-- `getenv` finds these values and leaves memory as it is. -/
def LooksUp (semantics : Semantics δ σ) (lookup : Text → Datum δ) : Prop :=
  ∀ identifier m events value m', semantics.external "getenv".toList [.string identifier] m events value m' ↔
    events = [] ∧ value = some (lookup identifier) ∧ m' = m

/-- A `getenv` that trampolines can call. -/
structure Lookup (final : Module) (getenv : Function) : Prop where
  found : final.function? getenv.ref = some getenv
  name : getenv.name = "getenv".toList
  body : getenv.blocks = []
  accepts : getenv.type.Accepts 1
  returns : getenv.type.returnType ≠ .void

/-- A trampoline stands for the function and leads to its body. -/
structure Dispatches (final : Module) (lookup : Text → Datum δ) (f g original getenv : Function)
    (copy : FunctionRef) (cs : List Check) (target : Function) : Prop where
  found : final.function? f.ref = some g
  blocks : g.blocks = trampolineBlocks 0 original (.function getenv.ref) copy cs
  type : g.type = f.type
  original : original.type = f.type
  getenv : Lookup final getenv
  fixed : f.type.isVarArg = false
  body : f.blocks ≠ []
  reached : final.function? (dispatched lookup copy cs) = some target
  target_blocks : target.blocks = f.blocks
  target_type : target.type = f.type

def Stands (final : Module) (lookup : Text → Datum δ) (f : Function) : Prop :=
  final.function? f.ref = some f ∨
    ∃ g original getenv copy cs target, Dispatches final lookup f g original getenv copy cs target


section
variable {semantics : Semantics δ σ} {lookup : Text → Datum δ} (looksUp : LooksUp semantics lookup)
  {final : Module} {addressed : FunctionRef → Prop}
include looksUp

theorem Lookup.inv {getenv : Function} (known : Lookup final getenv) {identifier : Text} {m m' : σ}
    {value : Option (Datum δ)}
    (evaluates : Evaluates semantics addressed final getenv.ref [.string identifier] m value m') :
    value = some (lookup identifier) ∧ m' = m := by
  cases evaluates with
  | defined found body =>
    obtain rfl := Option.some.inj (known.found.symm.trans found)
    exact absurd known.body body
  | declared found body accepts runs =>
    obtain rfl := Option.some.inj (known.found.symm.trans found)
    rw [known.name] at runs
    exact ((looksUp _ _ _ _ _).mp runs).2

theorem Lookup.evaluates {getenv : Function} (known : Lookup final getenv) (identifier : Text) (m : σ) :
    Evaluates semantics addressed final getenv.ref [.string identifier] m (some (lookup identifier)) m := by
  have answers : semantics.external getenv.name [.string identifier] m [] (some (lookup identifier)) m := by
    rw [known.name]
    exact (looksUp _ _ _ _ _).mpr ⟨rfl, rfl, rfl⟩
  refine .declared known.found known.body known.accepts answers ?_ nofun nofun
  unfold FunctionType.Returns
  simp [known.returns]

theorem Lookup.threaded {getenv : Function} (known : Lookup final getenv) {events : List (Event δ σ)}
    {event : Event δ σ} {m m' : σ}
    (lookups : ∀ event ∈ events, event.callee = getenv.ref ∧ ∃ identifier,
      event.arguments = [.string identifier])
    (calls : ∀ event ∈ events,
      Evaluates semantics addressed final event.callee event.arguments event.before event.value event.after)
    (threaded : Event.Threaded m (events ++ [event]) m') : event.before = m ∧ event.after = m' := by
  induction events generalizing m with
  | nil =>
    obtain ⟨before, after⟩ := threaded
    exact ⟨before, after.symm⟩
  | cons first rest ih =>
    obtain ⟨before, threaded⟩ := threaded
    obtain ⟨callee, identifier, arguments⟩ := lookups first List.mem_cons_self
    have evaluates := calls first List.mem_cons_self
    rw [callee, arguments] at evaluates
    obtain ⟨-, kept⟩ := known.inv looksUp evaluates
    rw [kept, before] at threaded
    exact ih (fun event mem => lookups event (List.mem_cons_of_mem _ mem))
      (fun event mem => calls event (List.mem_cons_of_mem _ mem)) threaded

end

def RunsBody (semantics : Semantics δ σ) (addressed : FunctionRef → Prop) (module : Module)
    (blocks : List BasicBlock)
    (type : FunctionType) (arguments : List (Datum δ)) (m : σ) (value : Option (Datum δ)) (m' : σ) : Prop :=
  ∃ events, type.Accepts arguments.length ∧ semantics.body blocks arguments m events value m' ∧
    type.Returns value ∧
    (∀ event ∈ events, addressed event.callee ∨ Mentions blocks event.callee) ∧
    ∀ event ∈ events,
      Evaluates semantics addressed module event.callee event.arguments event.before event.value event.after

theorem evaluates_of_body {semantics : Semantics δ σ} {addressed : FunctionRef → Prop}
    {module : Module} {f : Function}
    (found : module.function? f.ref = some f) (body : f.blocks ≠ []) {arguments : List (Datum δ)} {m m' : σ}
    {value : Option (Datum δ)} (runs : RunsBody semantics addressed module f.blocks f.type
      arguments m value m') :
    Evaluates semantics addressed module f.ref arguments m value m' := by
  obtain ⟨events, accepts, runs, returns, visible, calls⟩ := runs
  exact .defined found body accepts runs returns visible calls


section
variable {semantics : Semantics δ σ} {lookup : Text → Datum δ} {meant final : Module}
  {f g original getenv target : Function} {copy : FunctionRef} {cs : List Check}
  {arguments : List (Datum δ)} {m m' : σ} {value : Option (Datum δ)}

theorem Dispatches.last (dispatches : Dispatches final lookup f g original getenv copy cs target)
    (looksUp : LooksUp semantics lookup) {addressed : FunctionRef → Prop} {events : List (Event δ σ)}
    (accepts : g.type.Accepts arguments.length) (runs : semantics.body g.blocks arguments m events value m')
    (calls : ∀ event ∈ events,
      Evaluates semantics addressed final event.callee event.arguments event.before event.value event.after) :
    ∃ event ∈ events, event.callee = target.ref ∧ event.arguments = arguments ∧ event.before = m ∧
      event.after = m' ∧
      value = if f.type.returnType = .void then none else some event.answer := by
  have count : arguments.length = original.type.parameters.length := by
    unfold FunctionType.Accepts at accepts
    rw [dispatches.type, dispatches.fixed, if_neg Bool.false_ne_true] at accepts
    rw [dispatches.original, accepts]
  have contained : Contained g.blocks := by
    rw [dispatches.blocks]
    exact contained_trampoline
  have follows := trampoline_follows (events.map Event.answer) arguments dispatches.blocks count.ge
  rw [List.take_of_length_le count.le] at follows
  obtain ⟨made, returned, threaded⟩ := semantics.followed _ _ _ _ _ _ _ _ contained runs follows
  obtain ⟨before, last, rfl, made_before, made_last⟩ := List.map_eq_append_iff.mp made
  obtain ⟨event, rfl, call⟩ := List.map_eq_singleton_iff.mp made_last
  have lookups : ∀ event ∈ before, event.callee = getenv.ref ∧ ∃ identifier,
    event.arguments = [.string identifier] := by
    intro event mem
    have scanned := List.mem_map_of_mem (f := Event.call) mem
    rw [made_before] at scanned
    obtain ⟨identifier, same⟩ := mem_scan scanned
    exact ⟨congrArg Prod.fst same, identifier, congrArg Prod.snd same⟩
  have scanned := @scan_eq δ _ getenv.ref ((before ++ [event]).map Event.answer) lookup cs.reverse 0 <| by
    intro j identifier asked
    rw [← made_before, List.getElem?_map] at asked
    obtain ⟨first, at_j, same⟩ := Option.map_eq_some_iff.mp asked
    have evaluates := calls first (List.mem_append_left _ (List.mem_of_getElem? at_j))
    obtain ⟨callee, found⟩ := Prod.mk.inj same
    rw [callee, found] at evaluates
    obtain ⟨answered, -⟩ := dispatches.getenv.inv looksUp evaluates
    have inside : j < before.length := (List.getElem?_eq_some_iff.mp at_j).1
    rw [Nat.zero_add, List.getD_eq_getElem?_getD, List.getElem?_map, List.getElem?_append_left inside, at_j]
    unfold Event.answer
    rw [Option.map_some, Option.getD_some, answered, Option.getD_some]
  obtain ⟨before_eq, after_eq⟩ := dispatches.getenv.threaded looksUp lookups
    (fun event mem => calls event (List.mem_append_left _ mem)) threaded
  refine ⟨event, List.mem_append_right _ (List.mem_singleton_self _), ?_, congrArg Prod.snd call,
    before_eq, after_eq, ?_⟩
  · rw [(Module.mem_of_function? dispatches.reached).2]
    unfold dispatched
    rw [← scanned]
    exact congrArg Prod.fst call
  · rw [returned, dispatches.original, ← made_before, List.length_map, List.map_append]
    congr 2
    rw [List.getD_eq_getElem?_getD, List.getElem?_append_right (List.length_map _).le,
      List.length_map, Nat.sub_self]
    rfl


def lookupEvents (getenv : FunctionRef) (lookup : Text → Datum δ) (m : σ) (cs : List Check) :
    List (Event δ σ) :=
  (lookedUp lookup cs).map fun identifier => ⟨getenv, [.string identifier], m, some (lookup identifier), m⟩

theorem lookedUp_mem {identifier : Text} (mem : identifier ∈ lookedUp lookup cs) :
    ∃ check ∈ cs, check.1 = identifier := by
  induction cs with
  | nil => cases mem
  | cons check rest ih =>
    unfold lookedUp at mem
    split at mem
    · rcases List.mem_cons.mp mem with rfl | mem
      · exact ⟨check, List.mem_cons_self, rfl⟩
      · obtain ⟨other, mem, same⟩ := ih mem
        exact ⟨other, List.mem_cons_of_mem _ mem, same⟩
    · exact ⟨check, List.mem_cons_self, (List.mem_singleton.mp mem).symm⟩

theorem mentions_dispatched :
    Mentions (trampolineBlocks 0 original (.function getenv.ref) copy cs) (dispatched lookup copy cs) := by
  unfold dispatched
  cases fires : cs.reverse.find? fun check => lookup check.1 ≠ .null with
  | none => exact mentions_copy
  | some check => exact (mentions_check (List.mem_reverse.mp (List.mem_of_find?_eq_some fires))).2

theorem threaded_lookups (getenv : FunctionRef) (event : Event δ σ) (cs : List Check)
    (before : event.before = m) :
    Event.Threaded m (lookupEvents getenv lookup m cs ++ [event]) event.after := by
  unfold lookupEvents
  induction lookedUp lookup cs with
  | nil => exact ⟨before, rfl⟩
  | cons identifier rest ih => exact ⟨rfl, ih⟩

theorem Dispatches.evaluates (dispatches : Dispatches final lookup f g original getenv copy cs target)
    (looksUp : LooksUp semantics lookup) {addressed : FunctionRef → Prop}
    (accepts : f.type.Accepts arguments.length)
    (returns : f.type.Returns value) (inner : Evaluates semantics addressed final target.ref
      arguments m value m') :
    Evaluates semantics addressed final f.ref arguments m value m' := by
  have reached := (Module.mem_of_function? dispatches.reached).2
  have count : arguments.length = original.type.parameters.length := by
    unfold FunctionType.Accepts at accepts
    rw [dispatches.fixed, if_neg Bool.false_ne_true] at accepts
    rw [dispatches.original, accepts]
  have some_body : g.blocks ≠ [] := by
    rw [dispatches.blocks]
    exact List.cons_ne_nil _ _
  have contained : Contained g.blocks := by
    rw [dispatches.blocks]
    exact contained_trampoline
  let lookups := lookupEvents getenv.ref lookup m cs.reverse
  let last : Event δ σ := ⟨target.ref, arguments, m, value, m'⟩
  have answers : (lookups ++ [last]).map Event.answer = [] ++ (lookedUp lookup cs.reverse).map lookup ++
    [last.answer] := by
    rw [List.map_append, List.nil_append]
    congr 1
    exact List.map_map
  have follows := trampoline_follows ((lookups ++ [last]).map Event.answer) arguments
    dispatches.blocks count.ge
  have scanned := scan_lookedUp lookup getenv.ref [] [last.answer] cs.reverse
  rw [← answers, List.length_nil] at scanned
  have returned : (if original.type.returnType = .void then none
      else some (((lookups ++ [last]).map Event.answer).getD (lookedUp lookup cs.reverse).length .null)) =
        value := by
    rw [answers, List.nil_append, List.getD_eq_getElem?_getD,
      List.getElem?_append_right (List.length_map _).le, List.length_map, Nat.sub_self, dispatches.original]
    unfold FunctionType.Returns at returns
    by_cases void : f.type.returnType = .void
    · rw [if_pos void, returns.mpr void]
    · rw [if_neg void]
      cases value with
      | none => exact absurd (returns.mp rfl) void
      | some datum => rfl
  have made : (lookups ++ [last]).map Event.call = (lookedUp lookup cs.reverse).map
      (fun identifier => (getenv.ref, [.string identifier])) ++ [(dispatched lookup copy cs, arguments)] := by
    rw [List.map_append, List.map_singleton, ← reached]
    congr 1
    exact List.map_map
  rw [scanned, List.take_of_length_le count.le, List.length_map, returned] at follows
  have runs := semantics.follows g.blocks arguments m (lookups ++ [last]) value m' contained (made ▸ follows)
    (threaded_lookups getenv.ref last cs.reverse rfl)
  refine .defined dispatches.found some_body (dispatches.type ▸ accepts) runs
    (dispatches.type ▸ returns) ?_ ?_
  · intro event mem
    refine .inr ?_
    rw [dispatches.blocks]
    rcases List.mem_append.mp mem with mem | mem
    · obtain ⟨identifier, asked, rfl⟩ := List.mem_map.mp mem
      obtain ⟨check, mem_check, -⟩ := lookedUp_mem asked
      exact (mentions_check (List.mem_reverse.mp mem_check)).1
    · rw [List.mem_singleton.mp mem]
      show Mentions _ target.ref
      rw [reached]
      exact mentions_dispatched
  · intro event mem
    rcases List.mem_append.mp mem with mem | mem
    · obtain ⟨identifier, -, rfl⟩ := List.mem_map.mp mem
      exact dispatches.getenv.evaluates looksUp identifier m
    · rw [List.mem_singleton.mp mem]
      exact inner

def Public (module : Module) (ref : FunctionRef) : Prop := ref ∈ module.functions.map Function.ref

section
variable (looksUp : LooksUp semantics lookup) (stands : ∀ f ∈ meant.functions, Stands final lookup f)
include looksUp stands

/-- A call in the prepared program: what it does in the program that is meant, and, for a function that only names
public ones, what its body does there. -/
theorem evaluates_meant (closed : ∀ f ∈ meant.functions, ∀ ref, Mentions f.blocks ref → Public meant ref)
    {ref : FunctionRef} (evaluates : Evaluates semantics (Public meant) final ref arguments m value m') :
    (Public meant ref → Evaluates semantics (Public meant) meant ref arguments m value m') ∧
      ∀ h, final.function? ref = some h → h.blocks ≠ [] → (∀ r, Mentions h.blocks r → Public meant r) →
        RunsBody semantics (Public meant) meant h.blocks h.type arguments m value m' := by
  induction evaluates with
  | @defined ref g arguments m m' events value found body accepts runs returns visible calls ih =>
    have same_body (names : ∀ r, Mentions g.blocks r → Public meant r) :
        RunsBody semantics (Public meant) meant g.blocks g.type arguments m value m' :=
      ⟨events, accepts, runs, returns, visible, fun event mem =>
        (ih event mem).1 ((visible event mem).elim id (names event.callee))⟩
    refine ⟨fun known => ?_, fun h found' _ names => ?_⟩
    · obtain ⟨f, mem, rfl⟩ := List.mem_map.mp known
      have present := Module.function?_of_mem mem
      rcases stands f mem with kept | ⟨g', original, getenv, copy, cs, target, dispatches⟩
      · obtain rfl := Option.some.inj (kept.symm.trans found)
        exact evaluates_of_body present body (same_body (closed f mem))
      · obtain rfl := Option.some.inj (dispatches.found.symm.trans found)
        obtain ⟨event, mem_event, callee, passed, before, after, returned⟩ :=
          dispatches.last looksUp accepts runs calls
        have target_names : ∀ r, Mentions target.blocks r → Public meant r := by
          rw [dispatches.target_blocks]
          exact closed f mem
        have inner := (ih event mem_event).2 target (callee ▸ (Module.mem_of_function? dispatches.reached).2 ▸
          dispatches.reached) (dispatches.target_blocks ▸ dispatches.body) target_names
        rw [dispatches.target_blocks, dispatches.target_type, passed, before, after] at inner
        have answered : event.value = value := by
          obtain ⟨-, -, -, returns_event, -⟩ := inner
          unfold FunctionType.Returns at returns_event
          rw [returned]
          unfold Event.answer
          by_cases void : f.type.returnType = .void
          · rw [if_pos void, returns_event.mpr void]
          · rw [if_neg void]
            cases given : event.value with
            | none => exact absurd (returns_event.mp given) void
            | some datum => rfl
        rw [answered] at inner
        exact evaluates_of_body present dispatches.body inner
    · obtain rfl := Option.some.inj (found.symm.trans found')
      exact same_body names
  | @declared ref g arguments m m' events value found body accepts runs returns visible calls ih =>
    refine ⟨fun known => ?_, fun h found' some_body _ => ?_⟩
    · obtain ⟨f, mem, rfl⟩ := List.mem_map.mp known
      rcases stands f mem with kept | ⟨g', original, getenv, copy, cs, target, dispatches⟩
      · obtain rfl := Option.some.inj (kept.symm.trans found)
        exact .declared (Module.function?_of_mem mem) body accepts runs returns visible fun event mem =>
          (ih event mem).1 (visible event mem)
      · obtain rfl := Option.some.inj (dispatches.found.symm.trans found)
        rw [dispatches.blocks] at body
        cases body
    · obtain rfl := Option.some.inj (found.symm.trans found')
      exact absurd body some_body

theorem evaluates_prepared {ref : FunctionRef}
    (evaluates : Evaluates semantics (Public meant) meant ref arguments m value m') :
    Evaluates semantics (Public meant) final ref arguments m value m' := by
  induction evaluates with
  | @declared ref f arguments m m' events value found body accepts runs returns visible calls ih =>
    obtain ⟨mem, rfl⟩ := Module.mem_of_function? found
    rcases stands f mem with kept | ⟨g, original, getenv, copy, cs, target, dispatches⟩
    · exact .declared kept body accepts runs returns visible ih
    · exact absurd body dispatches.body
  | @defined ref f arguments m m' events value found body accepts runs returns visible calls ih =>
    obtain ⟨mem, rfl⟩ := Module.mem_of_function? found
    rcases stands f mem with kept | ⟨g, original, getenv, copy, cs, target, dispatches⟩
    · exact .defined kept body accepts runs returns visible ih
    · have inner : Evaluates semantics (Public meant) final target.ref arguments m value m' := by
        refine evaluates_of_body ?_ (dispatches.target_blocks ▸ body) ⟨events, ?_⟩
        · rw [(Module.mem_of_function? dispatches.reached).2]
          exact dispatches.reached
        · rw [dispatches.target_blocks, dispatches.target_type]
          exact ⟨accepts, runs, returns, visible, ih⟩
      exact dispatches.evaluates looksUp accepts returns inner

end
end
end

/-! ### The passes -/

section
variable {δ : Type} [DecidableEq δ]

/-- Nothing of the program gets in the way of its trampolines. -/
structure Runnable (irm : LowLevelMutations) (points : List MutationPoint) (map : MutationPoints)
    (isSet : Text → Bool) (module : Module) : Prop where
  closed : ∀ f ∈ (mutateWith irm points isSet module).functions, ∀ ref, Mentions f.blocks ref →
    Public module ref
  fixed : ∀ f ∈ module.functions, f.ref ∈ coveredFunctions map → f.type.isVarArg = false
  body : ∀ f ∈ module.functions, f.ref ∈ coveredFunctions map → (selectedBody irm points isSet f).blocks ≠ []
  getenv : ∀ f ∈ module.functions, f.name = "getenv".toList →
    f.blocks = [] ∧ f.type.Accepts 1 ∧ f.type.returnType ≠ .void ∧ f.ref ∉ coveredFunctions map
  declared : "getenv".toList ∉ module.globals.map Global.name

variable {irm : LowLevelMutations} {naming : Naming} {arrangement : Arrangement} {points : List MutationPoint}
  {map : MutationPoints} {module final : Module}

theorem public_mutateWith {isSet : Text → Bool} :
    Public (mutateWith irm points isSet module) = Public module := by
  funext ref
  unfold Public mutateWith
  rw [List.map_map]
  rfl

theorem uncovered_points (grouped : Grouped MutationPoint.originalFunction points map) {ref : FunctionRef}
    (uncovered : ref ∉ coveredFunctions map) {point : MutationPoint} (mem : point ∈ points)
    (own : point.originalFunction = ref) : point.covered = false := by
  by_contra active
  have key : ref ∈ map.map Prod.fst := (grouped.mem_keys ref).mpr (own ▸ List.mem_map_of_mem mem)
  obtain ⟨pair, listed, same⟩ := List.mem_map.mp key
  have inside : point ∈ pair.2 := by
    rw [grouped.group_eq pair listed]
    exact List.mem_filter.mpr ⟨mem, decide_eq_true (own.trans same.symm)⟩
  refine uncovered (List.mem_map.mpr ⟨pair, List.mem_filter.mpr ⟨listed, ?_⟩, same⟩)
  exact List.any_eq_true.mpr ⟨point, inside, eq_true_of_ne_false active⟩

theorem Redirects.reaches {getenv : Value} {f copy : Function} {group : List MutationPoint} {cs : List Check}
    (redirects : Redirects irm final getenv f group copy cs)
    (clones : ∀ check ∈ cs, ∃ g, final.function? check.2 = some g ∧ g.type = f.type)
    (own : group = points.filter fun point => point.originalFunction = f.ref) (lookup : Text → Datum δ) :
    ∃ target, final.function? (dispatched lookup copy.ref cs) = some target ∧
      target.blocks = (selectedBody irm points (fun identifier => lookup identifier ≠ .null) f).blocks ∧
        target.type = f.type := by
  unfold dispatched selectedBody
  simp only [← own, ← List.getLast?_filter]
  have related := filter_related (q := fun check : Check => lookup check.1 ≠ .null) redirects.mutants
    fun point check same => by rw [same.1]
  rcases getLast?_related related with
    ⟨none, none'⟩ | ⟨point, check, last, last', -, g, mem, ref, -, mutated, applied, same⟩
  · rw [none, none']
    have blocks := congrArg Function.blocks redirects.copied
    have type := congrArg Function.type redirects.copied
    exact ⟨copy, Module.function?_of_mem redirects.present, blocks, type⟩
  · rw [last, last']
    obtain ⟨g', found, type⟩ := clones check (List.mem_filter.mp (List.mem_of_getLast? last')).1
    have found_g := Module.function?_of_mem mem
    rw [ref] at found_g
    obtain rfl := Option.some.inj (found_g.symm.trans found)
    refine ⟨g, found, ?_, type⟩
    rw [same, Option.bind_some, applied, Option.getD_some]

section
variable (grouped : Grouped MutationPoint.originalFunction points map)
  (known : ∀ point ∈ points, point.originalFunction ∈ module.functions.map Function.ref)
  (free : ∀ f ∈ module.functions, ∀ g ∈ module.functions, g.name ≠ getOriginalFunctionName f.name)
  (run : prepare irm naming arrangement map module = some final)
include grouped known free run

theorem prepare_lookup {getenv : Function} (mem : getenv ∈ final.functions)
    (name : getenv.name = "getenv".toList) (plain : ∀ f ∈ module.functions, f.name = "getenv".toList →
      f.blocks = [] ∧ f.type.Accepts 1 ∧ f.type.returnType ≠ .void ∧ f.ref ∉ coveredFunctions map) :
    Lookup final getenv := by
  have found := Module.function?_of_mem mem
  have pairs := known_functions grouped known
  rcases prepare_getenv grouped.keys_nodup pairs (fun f mem _ => free f mem) run mem name with
    ⟨f, mem_f, ref, name_f⟩ | ⟨body, type⟩
  · obtain ⟨body, accepts, returns, uncovered⟩ := plain f mem_f name_f
    have kept :=
      (prepare_spec irm naming arrangement grouped.keys_nodup pairs (fun f mem _ => free f mem) run).1 f mem_f
      uncovered
    rw [ref] at kept
    obtain rfl := Option.some.inj (found.symm.trans kept)
    exact ⟨found, name, body, accepts, returns⟩
  · refine ⟨found, name, body, ?_, ?_⟩
    · rw [type]
      decide
    · rw [type]
      decide

theorem prepare_stands {lookup : Text → Datum δ}
    (runnable : Runnable irm points map (fun identifier => lookup identifier ≠ .null) module) :
    ∀ f ∈ (mutateWith irm points (fun identifier => lookup identifier ≠ .null) module).functions,
      Stands final lookup f := by
  have pairs := known_functions grouped known
  obtain ⟨kept, getenv, looked_up, redirected⟩ :=
    prepare_spec irm naming arrangement grouped.keys_nodup pairs (fun f mem _ => free f mem) run
  obtain ⟨lookup_function, mem_getenv, name, rfl⟩ := looked_up.function runnable.declared
  intro f₁ mem₁
  obtain ⟨f, mem, rfl⟩ := List.mem_map.mp mem₁
  by_cases covered : f.ref ∈ coveredFunctions map
  · obtain ⟨pair, listed, same⟩ := List.mem_map.mp covered
    obtain ⟨listed, active⟩ := List.mem_filter.mp listed
    have group := grouped.group_eq pair listed
    rw [same] at group
    have listed' : (f.ref, pair.2) ∈ map := same ▸ listed
    obtain ⟨copy, cs, redirects⟩ := redirected f mem pair.2 listed' active
    have clones := prepare_clones grouped.keys_nodup pairs (fun f mem _ => free f mem) run mem listed' active
      redirects.body
    obtain ⟨target, reached, blocks, type⟩ := redirects.reaches clones group lookup
    exact .inr ⟨_, dropAllReferences f, lookup_function, copy.ref, cs, target, redirects.body, rfl, rfl, rfl,
      prepare_lookup grouped known free run mem_getenv name runnable.getenv, runnable.fixed f mem covered,
      runnable.body f mem covered, reached, blocks, type⟩
  · rw [selectedBody_uncovered fun point mem own => uncovered_points grouped covered mem own]
    exact .inl (kept f mem covered)

/-- A prepared program does what the program does with the mutations of the set identifiers made in place. -/
theorem evaluates_prepared_iff {σ : Type} {semantics : Semantics δ σ} {lookup : Text → Datum δ}
    (looksUp : LooksUp semantics lookup)
    (runnable : Runnable irm points map (fun identifier => lookup identifier ≠ .null) module)
    {ref : FunctionRef}
    (here : ref ∈ module.functions.map Function.ref) {arguments : List (Datum δ)} {m m' : σ}
    {value : Option (Datum δ)} :
    Evaluates semantics (Public module) final ref arguments m value m' ↔ Evaluates semantics (Public module)
      (mutateWith irm points (fun identifier => lookup identifier ≠ .null) module) ref arguments
        m value m' := by
  have stands := prepare_stands grouped known free run runnable
  have same : Public (mutateWith irm points (fun identifier => lookup identifier ≠ .null) module) =
    Public module :=
    public_mutateWith
  rw [← same]
  constructor
  · intro evaluates
    refine (evaluates_meant looksUp stands (fun f mem ref mentioned => ?_) evaluates).1 ?_
    · rw [same]
      exact runnable.closed f mem ref mentioned
    · rw [same]
      exact here
  · exact evaluates_prepared looksUp stands

end
end

end Mull.Preparation
