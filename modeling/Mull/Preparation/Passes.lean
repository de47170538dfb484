import Mull.Base.Grouping
import Mull.LLVM.Edits
import Mull.MutationPoint
import Mull.Mutators.LogicalMutators

/-! The passes that prepare a module: mutated functions are cloned, originals emptied, trampolines put in their
place and the mutations applied to the clones. -/

namespace Mull
open Base LLVM

namespace MutationPoint

def setMutatedFunction (point : MutationPoint) (function : FunctionRef) : MutationPoint :=
  { point with mutatedFunction := some function }

/-- `getOriginalFunctionName`, from the name of the original function. -/
def getOriginalFunctionName (name : Text) : Text := "mull_".toList ++ name ++ "_original".toList

/-- `applyMutation` of the point's mutator. -/
def mutateFunction (irm : LowLevelMutations) (point : MutationPoint) (f : Function) : Option Function :=
  match point.mutator with
  | .logicalOrToAnd =>
    LogicalMutator.orToAnd.applyMutation f point.address.basicBlockIndex point.address.instructionIndex
  | .logicalAndToOr =>
    LogicalMutator.andToOr.applyMutation f point.address.basicBlockIndex point.address.instructionIndex
  | _ => point.irMutator.bind fun irMutator =>
    irm.mutate irMutator f point.address.basicBlockIndex point.address.instructionIndex

end MutationPoint

namespace Preparation
open MutationPoint

/-- `mutationPointsMap`. -/
abbrev MutationPoints := List (FunctionRef × List MutationPoint)

def hasCoveredMutants (points : List MutationPoint) : Bool := points.any MutationPoint.covered

/-! ### Cloning -/

def setInternalLinkage (f : Function) : Function := { f with isInternal := true }

/-- The points of one function, each covered one with a clone of its own. -/
def clonePoints (naming : Naming) (original : Function) :
    List MutationPoint → Module → List MutationPoint × Module
  | [], module => ([], module)
  | point :: rest, module =>
    if !point.covered then
      let (rest, module) := clonePoints naming original rest module
      (point :: rest, module)
    else
      let mutatedFunction := module.freshRef
      let (rest, module) := clonePoints naming original rest
        (module.insert naming point.getUserIdentifier (setInternalLinkage original))
      (point.setMutatedFunction mutatedFunction :: rest, module)

def cloneFunctions (naming : Naming) : MutationPoints → Module → Option (MutationPoints × Module)
  | [], module => some ([], module)
  | (function, points) :: rest, module => do
    let original ← module.function? function
    let (points, module) := clonePoints naming original points module
    let (rest, module) ← cloneFunctions naming rest module
    some ((function, points) :: rest, module)

/-! ### Emptying the originals -/

def dropAllReferences (f : Function) : Function := { f with blocks := [], distinct := List.nodup_nil }

def deleteFunction (naming : Naming) (module : Module) (pair : FunctionRef × List MutationPoint) :
    Option Module :=
  if hasCoveredMutants pair.2 then do
    let original ← module.function? pair.1
    some ((module.insert naming (getOriginalFunctionName original.name) original).setBody pair.1
      (dropAllReferences original))
  else some module

def deleteFunctions (naming : Naming) (map : MutationPoints) (module : Module) : Option Module :=
  map.foldlM (deleteFunction naming) module

/-! ### Trampolines -/

def getEnvType : FunctionType := ⟨[.pointer], false, .pointer⟩

/-- What has the name already is returned, whatever it is; a cast to the type does not show here. -/
def getOrInsertFunction (naming : Naming) (module : Module) (name : Text) (type : FunctionType) :
    Value × Module :=
  match module.getFunction name, module.globals.find? fun global => global.name = name with
  | some f, _ => (.function f.ref, module)
  | none, some global => (.global global.name global.aliasee, module)
  | none, none => (.function module.freshRef, module.insert naming name
      { ref := 0, name := name, type := type, blocks := [], distinct := List.nodup_nil })

/-- An identifier to look up and the clone to call if it is set. -/
abbrev Check := Text × FunctionRef

/-- `none` is a null pointer in place of a clone. -/
def checks (points : List MutationPoint) : Option (List Check) :=
  (points.filter MutationPoint.covered).mapM fun point =>
    point.mutatedFunction.map fun mutated => (point.getUserIdentifier, mutated)

/-! New blocks are numbered in the order of their creation from `base`: `entry`, `original`, `trampoline_call`,
and for each check its own block and the mutation's. The trampoline's slot is register 0. -/

def mutationCheckBlock (base : Nat) (getenv : Value) (k : Nat) (check : Check) : BasicBlock where
  ref := 2 * k + 3 + base
  body := [⟨2 * k + 3, .call getenv [.string check.1] getEnvType 0 0, none⟩,
    ⟨2 * k + 4, .icmp .ne (.register (2 * k + 3)) .null, none⟩]
  terminator := .condBr (.register (2 * k + 4)) (2 * k + 4 + base) (2 * k + 1 + base)

def mutationBlock (base : Nat) (k : Nat) (check : Check) : BasicBlock where
  ref := 2 * k + 4 + base
  body := [⟨0, .store (.function check.2) (.register 0), none⟩]
  terminator := .br (2 + base)

/-- A check that fails goes on to the head so far, so the last one comes first. -/
def checkBlocks (base : Nat) (getenv : Value) : Nat → List Check → List BasicBlock
  | _, [] => []
  | k, check :: rest =>
    mutationCheckBlock base getenv k check :: mutationBlock base k check :: checkBlocks base
      getenv (k + 1) rest

def trampolineBlocks (base : Nat) (original : Function) (getenv : Value) (copy : FunctionRef)
    (checks : List Check) :
    List BasicBlock :=
  { ref := 0 + base, body := [⟨0, .alloca .pointer, none⟩], terminator := .br (2 * checks.length + 1 + base) } ::
  { ref := 1 + base, body := [⟨0, .store (.function copy) (.register 0), none⟩], terminator := .br (2 + base) } ::
  { ref := 2 + base
    body := [⟨1, .load (.register 0), none⟩,
      ⟨2, .call (.register 1) ((List.range original.type.parameters.length).map .argument) original.type
        original.attributes original.callingConv, none⟩]
    terminator := .ret (if original.type.returnType = .void then none else some (.register 2)) } ::
  checkBlocks base getenv 0 checks

/-- A number above those of all blocks. -/
def freshBlock (f : Function) : Nat := (f.blocks.map fun block => block.ref + 1).sum

theorem lt_freshBlock {f : Function} {block : BasicBlock} (mem : block ∈ f.blocks) :
    block.ref < freshBlock f :=
  List.le_sum_of_mem (List.mem_map_of_mem (f := fun block : BasicBlock => block.ref + 1) mem)

theorem checkBlocks_refs (base : Nat) (getenv : Value) (k : Nat) (checks : List Check) :
    (checkBlocks base getenv k checks).map BasicBlock.ref =
      List.range' (2 * k + 3 + base) (2 * checks.length) := by
  induction checks generalizing k with
  | nil => rfl
  | cons check rest ih =>
    have next : 2 * (k + 1) + 3 + base = 2 * k + 3 + base + 1 + 1 := by omega
    rw [checkBlocks, List.map_cons, List.map_cons, ih, next, List.length_cons, Nat.mul_succ, List.range'_succ,
      List.range'_succ]
    congr 2
    show 2 * k + 4 + base = _
    omega

theorem trampolineBlocks_refs (base : Nat) (original : Function) (getenv : Value) (copy : FunctionRef)
    (checks : List Check) :
    (trampolineBlocks base original getenv copy checks).map BasicBlock.ref =
      List.range' base (2 * checks.length + 3) := by
  have first : List.range' base (2 * checks.length + 3) =
      base :: (base + 1) :: (base + 2) :: List.range' (base + 3) (2 * checks.length) := by
    rw [List.range'_succ, List.range'_succ, List.range'_succ]
  rw [first, trampolineBlocks, List.map_cons, List.map_cons, List.map_cons, checkBlocks_refs, Nat.zero_add,
    Nat.add_comm 1, Nat.add_comm 2, Nat.mul_zero, Nat.zero_add, Nat.add_comm 3]

def trampoline (original : Function) (getenv : Value) (copy : FunctionRef) (checks : List Check) : Function :=
  { original with
    blocks := original.blocks ++ trampolineBlocks (freshBlock original) original getenv copy checks
    distinct := by
      rw [List.map_append, trampolineBlocks_refs, List.nodup_append]
      refine ⟨original.distinct, List.nodup_range', ?_⟩
      rintro _ old ref new rfl
      obtain ⟨block, mem, rfl⟩ := List.mem_map.mp old
      have below := lt_freshBlock mem
      have above := (List.mem_range'_1.mp new).1
      omega }

def insertTrampoline (getenv : Value) (module : Module) (pair : FunctionRef × List MutationPoint) :
    Option Module :=
  if hasCoveredMutants pair.2 then do
    let original ← module.function? pair.1
    let copy ← module.getFunction (getOriginalFunctionName original.name)
    let checks ← checks pair.2
    some (module.setBody pair.1 (trampoline original getenv copy.ref checks))
  else some module

def insertTrampolines (naming : Naming) (map : MutationPoints) (module : Module) : Option Module :=
  let (getenv, module) := getOrInsertFunction naming module "getenv".toList getEnvType
  map.foldlM (insertTrampoline getenv) module

/-! ### Mutations -/

section
variable (irm : LowLevelMutations)

def applyMutation (module : Module) (point : MutationPoint) : Option Module := do
  let mutatedFunction ← point.mutatedFunction
  let function ← module.function? mutatedFunction
  let mutated ← point.mutateFunction irm function
  some (module.setBody mutatedFunction mutated)

/-- `ApplyMutationTask`: every point is recorded in a variable, covered ones are applied. -/
def applyMutationTask (naming : Naming) (module : Module) (point : MutationPoint) : Option Module :=
  let module := module.insertGlobal naming point.getUserIdentifier
  if point.covered then applyMutation irm module point else some module

def applyMutations (naming : Naming) (points : List MutationPoint) (module : Module) : Option Module :=
  points.foldlM (applyMutationTask irm naming) module

/-- An order in which the points of a module are applied. -/
structure Arrangement where
  arrange : List MutationPoint → List MutationPoint
  perm : ∀ points, (arrange points).Perm points

def Arrangement.inOrder : Arrangement := ⟨id, fun points => .refl points⟩

/-- `prepareMutations`, for one order of the map and one of the applied points. -/
def prepare (naming : Naming) (arrangement : Arrangement) (map : MutationPoints) (module : Module) :
    Option Module := do
  let (map, module) ← cloneFunctions naming map module
  let module ← deleteFunctions naming map module
  let module ← insertTrampolines naming map module
  applyMutations irm naming (arrangement.arrange (map.flatMap Prod.snd)) module

end

end Preparation
end Mull
