import Mull.Base.LocalFold
import Mull.Preparation.Cloning

/-! What emptying the originals leaves behind: a copy of each original that has a covered point, under the name
that the trampoline looks up. -/

namespace Mull.Preparation
open LLVM MutationPoint Base

def coveredPairs (map : MutationPoints) : MutationPoints := map.filter fun pair => hasCoveredMutants pair.2

def coveredFunctions (map : MutationPoints) : List FunctionRef := (coveredPairs map).map Prod.fst

def emptied (keys : List FunctionRef) (f : Function) :
    Function := if f.ref ∈ keys then dropAllReferences f else f

/-- A name that was changed because it was taken. -/
def Numbered (name changed : Text) : Prop :=
  ∃ digits, digits ≠ [] ∧ (∀ c ∈ digits, c.isDigit = true) ∧ changed = name ++ '.' :: digits

/-- The function is the copy of an original, under its name unless a variable or an alias has that name. -/
def CopyFor (globals : List Global) (f g : Function) : Prop :=
  g = { f with ref := g.ref, name := g.name } ∧
    (g.name = getOriginalFunctionName f.name ∨ Numbered (getOriginalFunctionName f.name) g.name) ∧
    (getOriginalFunctionName f.name ∉ globals.map Global.name → g.name = getOriginalFunctionName f.name)

theorem emptied_ref (keys : List FunctionRef) (f : Function) : (emptied keys f).ref = f.ref := by
  unfold emptied
  split <;> rfl

theorem emptied_name (keys : List FunctionRef) (f : Function) : (emptied keys f).name = f.name := by
  unfold emptied
  split <;> rfl

theorem getOriginalFunctionName_inj {name name' : Text}
    (same : getOriginalFunctionName name = getOriginalFunctionName name') : name = name' := by
  unfold getOriginalFunctionName at same
  rw [List.append_assoc, List.append_assoc, List.append_cancel_left_eq, List.append_cancel_right_eq] at same
  exact same

theorem not_numbered {name name' : Text} : ¬ Numbered name (getOriginalFunctionName name') := by
  rintro ⟨digits, nonempty, digit, same⟩
  have last := congrArg List.getLast? same
  unfold getOriginalFunctionName at last
  rw [List.getLast?_append_of_ne_nil _ (by decide), List.getLast?_append_of_ne_nil _ (List.cons_ne_nil _ _),
    List.getLast?_cons_of_ne_nil nonempty] at last
  have mem := List.mem_of_getLast? last.symm
  exact absurd (digit _ mem) (by decide)

theorem choose_numbered (naming : Naming) (names : List Text) (name : Text) :
    naming.choose names name = name ∨ Numbered name (naming.choose names name) := by
  unfold Naming.choose
  split
  · exact .inr (naming.numbered names name)
  · exact .inl rfl

theorem emptied_congr {keys keys' : List FunctionRef} (same : ∀ ref, ref ∈ keys ↔ ref ∈ keys') :
    emptied keys = emptied keys' := by
  funext f
  unfold emptied
  simp only [same]

section
variable (naming : Naming) {module₁ : Module}

/-- One original is emptied after the others in `keys`. -/
theorem deleteFunction_covered {module : Module} {keys : List FunctionRef}
    {copies : List Function} {f : Function}
    {points : List MutationPoint} (covered : hasCoveredMutants points = true) (mem : f ∈ module₁.functions)
    (new : f.ref ∉ keys) (functions : module.functions = module₁.functions.map (emptied keys) ++ copies) :
    ∃ module', deleteFunction naming module (f.ref, points) = some module' ∧
    module'.globals = module.globals ∧
      module'.functions = module₁.functions.map (emptied (f.ref :: keys)) ++
        (copies ++ [Module.added naming module (getOriginalFunctionName f.name) f]) := by
  have listed : f ∈ module₁.functions.map (emptied keys) := by
    refine List.mem_map.mpr ⟨f, mem, ?_⟩
    unfold emptied
    rw [if_neg new]
  have present : f ∈ module.functions := by
    rw [functions]
    exact List.mem_append_left _ listed
  have found := Module.function?_of_mem present
  refine ⟨(module.insert naming (getOriginalFunctionName f.name) f).setBody f.ref
    (dropAllReferences f), ?_, rfl, ?_⟩
  · unfold deleteFunction
    rw [if_pos covered]
    show (module.function? f.ref).bind _ = _
    rw [found]
    rfl
  · show (module.functions ++ [Module.added naming module (getOriginalFunctionName f.name) f]).map _ = _
    have refs : ((module.functions ++ [Module.added naming module (getOriginalFunctionName f.name) f]).map
        Function.ref).Nodup := (module.insert naming (getOriginalFunctionName f.name) f).distinct
    rw [functions, List.append_assoc, List.map_append, List.nodup_append] at refs
    rw [functions, List.append_assoc, List.map_append, List.map_map]
    congr 1
    · refine List.map_congr_left fun g mem_g => ?_
      simp only [Function.comp_apply, emptied_ref]
      by_cases here : g.ref = f.ref
      · obtain rfl := List.inj_on_of_nodup_map module₁.distinct mem_g mem here
        unfold emptied
        rw [if_neg new, if_pos rfl, if_pos List.mem_cons_self]
        rfl
      · unfold emptied
        simp only [here, if_false, List.mem_cons, false_or]
    · refine (List.map_congr_left fun g mem_g => ?_).trans (List.map_id _)
      rw [if_neg, id]
      exact (refs.2.2 _ (List.mem_map_of_mem listed) _ (List.mem_map_of_mem mem_g)).symm

theorem copy_name_ne {f : Function} {before copies : List Function} {globals : List Global}
    (earlier : List.Forall₂ (CopyFor globals) before copies)
    (other : ∀ g ∈ before, g.name ≠ f.name) {g : Function}
    (mem : g ∈ copies) : g.name ≠ getOriginalFunctionName f.name := by
  induction earlier with
  | nil => cases mem
  | cons copy _ ih =>
    rcases List.mem_cons.mp mem with rfl | mem
    · intro same
      rcases copy.2.1 with exact_name | numbered
      · exact other _ List.mem_cons_self (getOriginalFunctionName_inj (exact_name.symm.trans same))
      · rw [same] at numbered
        exact not_numbered numbered
    · exact ih (fun g mem => other g (List.mem_cons_of_mem _ mem)) mem

theorem deleteFunctions_covered {pairs : MutationPoints}
    (covered : ∀ pair ∈ pairs, hasCoveredMutants pair.2 = true)
    (distinct : (pairs.map Prod.fst).Nodup) {fs : List Function} (inside : fs ⊆ module₁.functions)
    (free : ∀ f ∈ fs, ∀ g ∈ module₁.functions, g.name ≠ getOriginalFunctionName f.name)
    (known : ∀ pair ∈ pairs, ∃ f ∈ fs, f.ref = pair.1) {keys : List FunctionRef}
    {before copies : List Function}
    (new : ∀ pair ∈ pairs, pair.1 ∉ keys) {module : Module} (globals : module.globals = module₁.globals)
    (functions : module.functions = module₁.functions.map (emptied keys) ++ copies)
    (earlier : List.Forall₂ (CopyFor module₁.globals) before copies)
    (done : ∀ f ∈ before, f ∈ fs ∧ f.ref ∈ keys) :
    ∃ module₂ later copies', deleteFunctions naming pairs module = some module₂ ∧
    module₂.globals = module₁.globals ∧
      module₂.functions = module₁.functions.map (emptied (pairs.map Prod.fst ++ keys)) ++
        (copies ++ copies') ∧
      List.Forall₂ (CopyFor module₁.globals) later copies' ∧ later.map Function.ref = pairs.map Prod.fst ∧
      later ⊆ fs := by
  induction pairs generalizing keys before copies module with
  | nil =>
    exact ⟨module, [], [], rfl, globals,
      by rw [List.append_nil]; exact functions, .nil, rfl, List.nil_subset _⟩
  | cons pair rest ih =>
    obtain ⟨key, points⟩ := pair
    obtain ⟨f, mem, rfl⟩ := known (key, points) List.mem_cons_self
    rw [List.map_cons, List.nodup_cons] at distinct
    have outside := new (f.ref, points) List.mem_cons_self
    obtain ⟨module', step, globals', functions'⟩ := deleteFunction_covered naming
      (covered _ List.mem_cons_self) (inside mem) outside functions
    have copy : CopyFor module₁.globals f (Module.added naming module (getOriginalFunctionName f.name) f) := by
      refine ⟨rfl, choose_numbered naming module.names _, fun untaken => if_neg ?_⟩
      unfold Module.names
      rw [List.mem_append, globals, functions]
      rintro (taken | taken)
      · obtain ⟨g, mem_g, same⟩ := List.mem_map.mp taken
        rcases List.mem_append.mp mem_g with old | mem_copy
        · obtain ⟨g₁, mem₁, rfl⟩ := List.mem_map.mp old
          rw [emptied_name] at same
          exact free f mem g₁ mem₁ same
        · refine copy_name_ne earlier (fun g mem_before same_name => ?_) mem_copy same
          obtain ⟨mem_fs, processed⟩ := done g mem_before
          rw [List.inj_on_of_nodup_map module₁.names_distinct (inside mem_fs) (inside mem)
            same_name] at processed
          exact outside processed
      · exact untaken taken
    have others : ∀ pair ∈ rest, pair.1 ∉ f.ref :: keys := by
      intro pair mem_pair
      rw [List.mem_cons, not_or]
      refine ⟨fun same => distinct.1 ?_, new pair (List.mem_cons_of_mem _ mem_pair)⟩
      have listed := List.mem_map_of_mem (f := Prod.fst) mem_pair
      rwa [same] at listed
    have processed : ∀ g ∈ before ++ [f], g ∈ fs ∧ g.ref ∈ f.ref :: keys := by
      intro g mem_g
      rcases List.mem_append.mp mem_g with old | last
      · obtain ⟨mem_fs, earlier⟩ := done g old
        exact ⟨mem_fs, List.mem_cons_of_mem _ earlier⟩
      · obtain rfl := List.mem_singleton.mp last
        exact ⟨mem, List.mem_cons_self⟩
    obtain ⟨module₂, later, copies', run, globals₂, functions₂, copied, refs, sub⟩ := ih
      (fun pair mem => covered pair (List.mem_cons_of_mem _ mem)) distinct.2
      (fun pair mem => known pair (List.mem_cons_of_mem _ mem)) others (globals'.trans globals) functions'
      (List.rel_append earlier (.cons copy .nil)) processed
    refine ⟨module₂, f :: later, _ :: copies', ?_, globals₂, ?_, .cons copy copied, ?_,
      List.cons_subset.mpr ⟨mem, sub⟩⟩
    · unfold deleteFunctions
      rw [List.foldlM_cons, step]
      exact run
    · rw [functions₂, List.append_assoc]
      refine congrArg (List.map · module₁.functions ++ _) (emptied_congr fun ref => ?_)
      simp only [List.map_cons, List.cons_append, List.mem_append, List.mem_cons]
      tauto
    · rw [List.map_cons, refs]
      rfl

theorem deleteFunctions_spec {map : MutationPoints} (distinct : (map.map Prod.fst).Nodup) {fs : List Function}
    (inside : fs ⊆ module₁.functions)
    (free : ∀ f ∈ fs, ∀ g ∈ module₁.functions, g.name ≠ getOriginalFunctionName f.name)
    (known : ∀ pair ∈ map, ∃ f ∈ fs, f.ref = pair.1) :
    ∃ module₂ originals copies, deleteFunctions naming map module₁ = some module₂ ∧
      module₂.globals = module₁.globals ∧
      module₂.functions = module₁.functions.map (emptied (coveredFunctions map)) ++ copies ∧
      List.Forall₂ (CopyFor module₁.globals) originals copies ∧
      originals.map Function.ref = coveredFunctions map ∧
      originals ⊆ fs := by
  have idle (module : Module) (pair : FunctionRef × List MutationPoint)
    (none : hasCoveredMutants pair.2 = false) :
      deleteFunction naming module pair = some module := by
    unfold deleteFunction
    rw [none, if_neg Bool.false_ne_true]
  have start : module₁.functions = module₁.functions.map (emptied []) ++ [] := by
    rw [List.append_nil]
    exact (List.map_id _).symm
  have filtered : deleteFunctions naming map module₁ = deleteFunctions naming (coveredPairs map) module₁ :=
    foldlM_filter idle map module₁
  obtain ⟨module₂, originals, copies, run, globals, functions, rest⟩ := deleteFunctions_covered naming
    (fun pair mem => (List.mem_filter.mp mem).2)
    (distinct.sublist (List.Sublist.map _ (List.filter_sublist ..))) inside free
    (fun pair mem => known pair (List.mem_filter.mp mem).1) (fun _ _ => List.not_mem_nil) rfl start .nil nofun
  refine ⟨module₂, originals, copies, filtered.trans run, globals, ?_, rest⟩
  rw [functions, List.append_nil, List.nil_append]
  rfl

end

end Mull.Preparation
