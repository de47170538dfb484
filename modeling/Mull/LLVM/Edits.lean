import Mathlib.Algebra.Order.BigOperators.Group.List
import Mathlib.Algebra.Order.Ring.Nat
import Mull.LLVM.Module

/-! Adding functions to a module and giving functions another body. -/

namespace LLVM
open Base

/-- How the symbol table changes a name that is taken: it appends a dot and a number. -/
structure Naming where
  unique : List Text → Text → Text
  fresh : ∀ names name, unique names name ∉ names
  numbered : ∀ names name, ∃ digits, digits ≠ [] ∧ (∀ c ∈ digits, c.isDigit = true) ∧
    unique names name = name ++ '.' :: digits

/-- The digit often enough to be longer than any name. -/
def Naming.repeating (digit : Char) (isDigit : digit.isDigit = true) : Naming where
  unique names name := name ++ '.' :: List.replicate ((names.map List.length).sum + 1) digit
  fresh names name mem := by
    have short := List.le_sum_of_mem (List.mem_map_of_mem (f := List.length) mem)
    rw [List.length_append, List.length_cons, List.length_replicate] at short
    omega
  numbered names name := by
    refine ⟨_, List.cons_ne_nil digit _, fun c mem => ?_, rfl⟩
    rw [List.eq_of_mem_replicate (n := (names.map List.length).sum + 1) mem]
    exact isDigit

def Naming.zeros : Naming := .repeating '0' rfl

def Naming.choose (naming : Naming) (names : List Text) (name : Text) : Text :=
  if name ∈ names then naming.unique names name else name

theorem Naming.choose_fresh (naming : Naming) (names : List Text) (name : Text) :
    naming.choose names name ∉ names := by
  unfold Naming.choose
  split
  · exact naming.fresh names name
  · assumption

def Function.withBody (f body : Function) : Function :=
  { f with blocks := body.blocks, distinct := body.distinct }

namespace Module

def names (module : Module) :
    List Text := module.functions.map Function.name ++ module.globals.map Global.name

def function? (module : Module) (ref : FunctionRef) :
    Option Function := module.functions.find? fun f => f.ref = ref

def getFunction (module : Module) (name : Text) :
    Option Function := module.functions.find? fun f => f.name = name

/-- The function that calls of a name reach: one of that name, or the one that an alias is for. -/
def callee? (module : Module) (name : Text) : Option FunctionRef :=
  match module.getFunction name with
  | some f => some f.ref
  | none => (module.globals.find? fun global => global.name = name).bind Global.aliasee

def freshRef (module : Module) : FunctionRef := (module.functions.map Function.ref).sum + 1

theorem freshRef_fresh (module : Module) : module.freshRef ∉ module.functions.map Function.ref := by
  intro mem
  exact absurd (List.le_sum_of_mem mem) (Nat.not_succ_le_self _)

/-- A new function under a reference of its own; its name is changed if it is taken. -/
def insert (naming : Naming) (module : Module) (name : Text) (f : Function) : Module where
  functions :=
    module.functions ++ [{ f with ref := module.freshRef, name := naming.choose module.names name }]
  globals := module.globals
  distinct := by
    rw [List.map_append, List.nodup_append]
    refine ⟨module.distinct, List.nodup_singleton _, ?_⟩
    rintro _ old ref new rfl
    rw [List.map_singleton, List.mem_singleton] at new
    rw [new] at old
    exact module.freshRef_fresh old
  named := by
    rw [List.map_append, List.append_assoc, List.map_singleton, List.singleton_append,
      List.perm_middle.nodup_iff, List.nodup_cons]
    exact ⟨naming.choose_fresh module.names name, module.named⟩
  aliased global mem ref known := by
    rw [List.map_append]
    exact List.mem_append_left _ (module.aliased global mem ref known)

/-- A new variable; its name is changed if it is taken. -/
def insertGlobal (naming : Naming) (module : Module) (name : Text) : Module where
  functions := module.functions
  globals := module.globals ++ [{ name := naming.choose module.names name }]
  distinct := module.distinct
  named := by
    rw [List.map_append, ← List.append_assoc, List.nodup_append]
    refine ⟨module.named, List.nodup_singleton _, ?_⟩
    rintro _ old _ new rfl
    rw [List.mem_singleton.mp new] at old
    exact naming.choose_fresh module.names name old
  aliased global mem ref known := by
    rcases List.mem_append.mp mem with mem | mem
    · exact module.aliased global mem ref known
    · rw [List.mem_singleton.mp mem] at known
      cases known

theorem map_withBody {α : Type} (read : Function → α)
    (kept : ∀ f body : Function, read (f.withBody body) = read f)
    (functions : List Function) (ref : FunctionRef) (body : Function) :
    (functions.map fun f => if f.ref = ref then f.withBody body else f).map read = functions.map read := by
  rw [List.map_map]
  refine List.map_congr_left fun f _ => ?_
  simp only [Function.comp_apply]
  split
  · exact kept f body
  · rfl

def setBody (module : Module) (ref : FunctionRef) (body : Function) : Module where
  functions := module.functions.map fun f => if f.ref = ref then f.withBody body else f
  globals := module.globals
  distinct := by
    rw [map_withBody Function.ref fun _ _ => rfl]
    exact module.distinct
  named := by
    rw [map_withBody Function.name fun _ _ => rfl]
    exact module.named
  aliased := by
    rw [map_withBody Function.ref fun _ _ => rfl]
    exact module.aliased

section
variable {module : Module} {naming : Naming}

theorem function?_of_mem {f : Function} (mem : f ∈ module.functions) : module.function? f.ref = some f := by
  have known : (module.function? f.ref).isSome := by
    unfold function?
    rw [List.find?_isSome]
    exact ⟨f, mem, by simp⟩
  obtain ⟨g, found⟩ := Option.isSome_iff_exists.mp known
  have ref := List.find?_some found
  rw [found, List.inj_on_of_nodup_map module.distinct (List.mem_of_find?_eq_some found) mem
    (of_decide_eq_true ref)]

theorem mem_of_function? {ref : FunctionRef} {f : Function} (found : module.function? ref = some f) :
    f ∈ module.functions ∧ f.ref = ref :=
  ⟨List.mem_of_find?_eq_some found, by simpa using List.find?_some found⟩

theorem names_distinct (module : Module) : (module.functions.map Function.name).Nodup :=
  (List.nodup_append.mp module.named).1

theorem getFunction_of_mem {f : Function} (mem : f ∈ module.functions) :
    module.getFunction f.name = some f := by
  have known : (module.getFunction f.name).isSome := by
    unfold getFunction
    rw [List.find?_isSome]
    exact ⟨f, mem, by simp⟩
  obtain ⟨g, found⟩ := Option.isSome_iff_exists.mp known
  have name := List.find?_some found
  rw [found, List.inj_on_of_nodup_map module.names_distinct (List.mem_of_find?_eq_some found) mem
    (of_decide_eq_true name)]

theorem mem_of_getFunction {name : Text} {f : Function} (found : module.getFunction name = some f) :
    f ∈ module.functions ∧ f.name = name :=
  ⟨List.mem_of_find?_eq_some found, by simpa using List.find?_some found⟩

theorem getFunction_isSome {name : Text} :
    (module.getFunction name).isSome = true ↔ name ∈ module.functions.map Function.name := by
  unfold getFunction
  simp only [List.find?_isSome, decide_eq_true_eq, List.mem_map]

/-- The function that `insert` adds. -/
def added (naming : Naming) (module : Module) (name : Text) (f : Function) : Function :=
  { f with ref := module.freshRef, name := naming.choose module.names name }

theorem mem_insert {name : Text} {f g : Function} : g ∈ (module.insert naming name f).functions ↔
    g ∈ module.functions ∨ g = added naming module name f := by
  show g ∈ module.functions ++ [_] ↔ _
  rw [List.mem_append, List.mem_singleton]
  rfl

theorem function?_insertGlobal {name : Text} {ref : FunctionRef} :
    (module.insertGlobal naming name).function? ref = module.function? ref := rfl

theorem function?_setBody {body : Function} {changed ref : FunctionRef} :
    (module.setBody changed body).function? ref =
      (module.function? ref).map fun f => if ref = changed then f.withBody body else f := by
  unfold function? setBody
  rw [List.find?_map]
  have same : ((fun f : Function => decide (f.ref = ref)) ∘ fun f =>
      if f.ref = changed then f.withBody body else f) = fun f => decide (f.ref = ref) := by
    funext f
    simp only [Function.comp_apply]
    split <;> rfl
  rw [same]
  refine Option.map_congr fun f found => ?_
  have ref := List.find?_some found
  rw [of_decide_eq_true ref]

end

end Module
end LLVM
