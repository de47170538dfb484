import Mathlib.Logic.Function.Basic
import Mull.Base.Transition
import Mull.LLVM.IR

/-! One call of a function: the calls it makes and what it returns. Calls are answered from outside, and only
the instructions that instrumentation emits have a meaning here. -/

namespace LLVM
open Base Relation

/-- What registers and stack slots hold; `data` is whatever programs compute with. -/
inductive Datum (δ : Type)
  | null
  | bool (value : Bool)
  | function (callee : FunctionRef)
  | string (content : Text)
  | slot (name : Register)
  | data (value : δ)
deriving DecidableEq

abbrev Answer (δ : Type) := FunctionRef → List (Datum δ) → Datum δ
abbrev Call (δ : Type) := FunctionRef × List (Datum δ)

inductive Location (δ : Type)
  | block (ref : Nat)
  | returned (value : Option (Datum δ))

structure Activation (δ : Type) where
  location : Location δ
  registers : Register → Option (Datum δ) := fun _ => none
  slots : Register → Option (Datum δ) := fun _ => none
  calls : List (Call δ) := []

section
variable {δ : Type}

namespace Activation

def eval (arguments : List (Datum δ)) (s : Activation δ) : Value → Option (Datum δ)
  | .register name => s.registers name
  | .argument index => arguments[index]?
  | .function callee => some (.function callee)
  | .global _ aliasee => aliasee.map .function
  | .string content => some (.string content)
  | .null => some .null
  | .constantInt _ _ | .constantFP _ _ => none

theorem eval_of_callee? {arguments : List (Datum δ)} {s : Activation δ} {value : Value} {callee : FunctionRef}
    (reaches : value.callee? = some callee) : s.eval arguments value = some (.function callee) := by
  cases value with
  | function =>
    rw [← Option.some.inj reaches]
    rfl
  | global name aliasee =>
    have same : aliasee = some callee := reaches
    rw [same]
    rfl
  | _ => cases reaches

def setRegister (s : Activation δ) (name : Register) (value : Datum δ) : Activation δ :=
  { s with registers := Function.update s.registers name (some value) }

variable [DecidableEq δ]

/-- `none` where the instruction has no meaning here. -/
def execute (answer : Answer δ) (arguments : List (Datum δ)) (s : Activation δ) (instruction : Instruction) :
    Option (Activation δ) :=
  match instruction.operation with
  | .alloca _ => some (s.setRegister instruction.result (.slot instruction.result))
  | .load pointer =>
    match s.eval arguments pointer with
    | some (.slot name) => (s.slots name).map (s.setRegister instruction.result)
    | _ => none
  | .store value pointer =>
    match s.eval arguments value, s.eval arguments pointer with
    | some value, some (.slot name) => some { s with slots := Function.update s.slots name (some value) }
    | _, _ => none
  | .icmp .ne lhs rhs =>
    match s.eval arguments lhs, s.eval arguments rhs with
    | some lhs, some rhs => some (s.setRegister instruction.result (.bool (lhs ≠ rhs)))
    | _, _ => none
  | .call callee operands _ _ _ =>
    match s.eval arguments callee, operands.mapM (s.eval arguments) with
    | some (.function callee), some operands =>
      some { s.setRegister instruction.result (answer callee operands) with calls := s.calls ++ [(callee, operands)] }
    | _, _ => none
  | _ => none

theorem execute_call {answer : Answer δ} {arguments operands' : List (Datum δ)} {s : Activation δ}
    {result : Register}
    {value : Value} {operands : List Value} {type : FunctionType} {attributes callingConv : Nat}
    {loc : Option DebugLoc} {callee : FunctionRef} (reaches : value.callee? = some callee)
    (evaluated : operands.mapM (s.eval arguments) = some operands') :
    s.execute answer arguments ⟨result, .call value operands type attributes callingConv, loc⟩ =
      some { s.setRegister result (answer callee operands') with calls := s.calls ++ [(callee, operands')] } := by
  unfold execute
  simp only [eval_of_callee? reaches, evaluated]

def leave (arguments : List (Datum δ)) (s : Activation δ) : Terminator → Option (Activation δ)
  | .br dest => some { s with location := .block dest }
  | .condBr condition trueDest falseDest =>
    match s.eval arguments condition with
    | some (.bool value) => some { s with location := .block (if value then trueDest else falseDest) }
    | _ => none
  | .ret none => some { s with location := .returned none }
  | .ret (some value) =>
    (s.eval arguments value).map fun value => { s with location := .returned (some value) }
  | .other _ _ _ => none

def step (f : Function) (answer : Answer δ) (arguments : List (Datum δ)) (s : Activation δ) :
    Option (Activation δ) :=
  match s.location with
  | .returned _ => none
  | .block ref => do
    let block ← f.block? ref
    guard (block.phis = [])
    let s ← block.body.foldlM (execute answer arguments) s
    s.leave arguments block.terminator

end Activation

namespace Function
variable [DecidableEq δ]

def Steps (f : Function) (answer : Answer δ) (arguments : List (Datum δ)) :
    Activation δ → Activation δ → Prop :=
  ReflTransGen fun s t => s.step f answer arguments = some t

/-- A call of the function makes the given calls and returns the given value. -/
def Runs (f : Function) (answer : Answer δ) (arguments : List (Datum δ)) (calls : List (Call δ))
    (value : Option (Datum δ)) : Prop :=
  ∃ entry ∈ f.blocks.head?, ∃ s, f.Steps answer arguments { location := .block entry.ref } s ∧
    s.location = .returned value ∧ s.calls = calls

theorem runs_unique {f : Function} {answer : Answer δ} {arguments : List (Datum δ)}
    {calls calls' : List (Call δ)}
    {value value' : Option (Datum δ)} (first : f.Runs answer arguments calls value)
    (second : f.Runs answer arguments calls' value') : calls = calls' ∧ value = value' := by
  obtain ⟨entry, head, s, steps, returned, rfl⟩ := first
  obtain ⟨entry', head', s', steps', returned', rfl⟩ := second
  obtain rfl : entry = entry' := Option.some.inj (head.symm.trans head')
  have stop {s : Activation δ} {value : Option (Datum δ)} (returned : s.location = .returned value) :
      s.step f answer arguments = none := by
    unfold Activation.step
    rw [returned]
  obtain rfl := run_unique steps steps' (stop returned) (stop returned')
  rw [returned] at returned'
  cases returned'
  exact ⟨rfl, rfl⟩

end Function

end

end LLVM
