import Mathlib.Data.List.Nodup
import Mull.Base.Decimal

/-! The part of LLVM's intermediate representation that instrumentation reads and writes. Functions,
blocks and registers are known by number; a number stays the same while what it refers to changes. -/

namespace LLVM
open Base

abbrev FunctionRef := Nat
abbrev Register := Nat

inductive Ty
  | void
  | int (bits : Nat)
  | float
  | double
  | pointer
  | aggregate (name : Text)
deriving DecidableEq

structure FunctionType where
  parameters : List Ty
  isVarArg : Bool
  returnType : Ty
deriving DecidableEq

inductive ICmp
  | eq | ne | slt | ult | sle | ule | sgt | ugt | sge | uge
deriving DecidableEq

inductive FCmp
  | oeq | ueq | one | une | olt | ult | ole | ule | ogt | ugt | oge | uge
deriving DecidableEq

/-- A floating point constant is an integer times a power of two; `global` is a variable or an alias, with the
function that the alias is for; `string` points to a constant global. -/
inductive Value
  | constantInt (bits : Nat) (value : Int)
  | constantFP (mantissa exponent : Int)
  | null
  | register (name : Register)
  | argument (index : Nat)
  | function (callee : FunctionRef)
  | global (name : Text) (aliasee : Option FunctionRef)
  | string (content : Text)
deriving DecidableEq

/-- The function that a call of the value reaches, whatever it is called with. -/
def Value.callee? : Value → Option FunctionRef
  | .function callee => some callee
  | .global _ aliasee => aliasee
  | _ => none

/-- The line table entry of an instruction, with the directory and file of its compile unit. -/
structure DebugLoc where
  directory : Text
  filename : Text
  line : Int32
  column : Int32
  unit : Option (Text × Text)
deriving DecidableEq

inductive Operation
  | alloca (type : Ty)
  | load (pointer : Value)
  | store (value pointer : Value)
  | icmp (predicate : ICmp) (lhs rhs : Value)
  | binary (opcode : Nat) (lhs rhs : Value)
  | call (callee : Value) (arguments : List Value) (type : FunctionType) (attributes callingConv : Nat)
  | other (opcode : Nat) (operands : List Value)
deriving DecidableEq

structure Instruction where
  result : Register
  operation : Operation
  debugLoc : Option DebugLoc := none
deriving DecidableEq

structure PHINode where
  result : Register
  incoming : List (Value × Nat)
  debugLoc : Option DebugLoc := none
deriving DecidableEq

inductive Terminator
  | condBr (condition : Value) (trueDest falseDest : Nat)
  | br (dest : Nat)
  | ret (value : Option Value)
  | other (opcode : Nat) (operands : List Value) (successors : List Nat)
deriving DecidableEq

/-- PHI nodes come first and a terminator last. -/
structure BasicBlock where
  ref : Nat
  phis : List PHINode := []
  body : List Instruction := []
  terminator : Terminator
  terminatorLoc : Option DebugLoc := none
deriving DecidableEq

/-- A declaration has no blocks; the first block of a definition is its entry. -/
structure Function where
  ref : FunctionRef
  name : Text
  type : FunctionType
  attributes : Nat := 0
  callingConv : Nat := 0
  isInternal : Bool := false
  debugLoc : Option DebugLoc := none
  blocks : List BasicBlock
  distinct : (blocks.map BasicBlock.ref).Nodup
deriving DecidableEq

/-- Whatever stands in a block. -/
inductive Inst
  | phi (node : PHINode)
  | plain (instruction : Instruction)
  | terminator (terminator : Terminator) (loc : Option DebugLoc)
deriving DecidableEq

def Inst.debugLoc : Inst → Option DebugLoc
  | .phi node => node.debugLoc
  | .plain instruction => instruction.debugLoc
  | .terminator _ loc => loc

def BasicBlock.instructions (block : BasicBlock) : List Inst :=
  block.phis.map .phi ++ block.body.map .plain ++ [.terminator block.terminator block.terminatorLoc]

/-- Successors in their order: the true destination of a branch comes first. -/
def Terminator.successors : Terminator → List Nat
  | .condBr _ trueDest falseDest => [trueDest, falseDest]
  | .br dest => [dest]
  | .ret _ => []
  | .other _ _ successors => successors

namespace PHINode

def blocks (phi : PHINode) : List Nat := phi.incoming.map Prod.snd

def addIncoming (phi : PHINode) (value : Value) (block : Nat) : PHINode :=
  { phi with incoming := phi.incoming ++ [(value, block)] }

/-- `getOperand(getBasicBlockIndex(block))`, where there is such an index. -/
def incomingValue? (phi : PHINode) (block : Nat) : Option Value :=
  (phi.incoming.find? fun entry => entry.2 = block).map Prod.fst

theorem blocks_addIncoming (phi : PHINode) (value : Value) (block : Nat) :
    (phi.addIncoming value block).blocks = phi.blocks ++ [block] := by
  simp [blocks, addIncoming]

theorem incomingValue?_isSome {phi : PHINode} {block : Nat} :
    (phi.incomingValue? block).isSome = true ↔ block ∈ phi.blocks := by
  simp only [incomingValue?, Option.isSome_map, List.find?_isSome, blocks, List.mem_map, decide_eq_true_eq]

end PHINode

/-- The conditional branch that ends a block. -/
structure CondBranch where
  parent : BasicBlock
  condition : Value
  trueDest : Nat
  falseDest : Nat
deriving DecidableEq

def BasicBlock.condBranch? (block : BasicBlock) : Option CondBranch :=
  match block.terminator with
  | .condBr condition trueDest falseDest => some ⟨block, condition, trueDest, falseDest⟩
  | _ => none

namespace Function

def block? (f : Function) (ref : Nat) : Option BasicBlock := f.blocks.find? fun block => block.ref = ref

def condBranches (f : Function) : List CondBranch := f.blocks.filterMap BasicBlock.condBranch?

def mapBlocks (f : Function) (rewrite : BasicBlock → BasicBlock)
    (keeps : ∀ block, (rewrite block).ref = block.ref) :
    Function :=
  { f with
    blocks := f.blocks.map rewrite
    distinct := by simpa [Function.comp_def, keeps] using f.distinct }

def setTerminator (f : Function) (ref : Nat) (terminator : Terminator) (loc : Option DebugLoc) : Function :=
  f.mapBlocks
    (fun block => if block.ref = ref then { block with terminator := terminator, terminatorLoc := loc }
      else block)
    fun block => by split <;> rfl

def setPhis (f : Function) (ref : Nat) (update : List PHINode → List PHINode) : Function :=
  f.mapBlocks (fun block => if block.ref = ref then { block with phis := update block.phis } else block)
    fun block => by split <;> rfl

def edges (f : Function) (source target : Nat) : Nat :=
  ((f.block? source).map fun block => block.terminator.successors.count target).getD 0

/-- Every PHI node has exactly one incoming entry for every predecessor edge of its block. -/
def PhisWellFormed (f : Function) : Prop :=
  ∀ block ∈ f.blocks, ∀ phi ∈ block.phis, ∀ source, phi.blocks.count source = f.edges source block.ref

end Function

end LLVM
