import Mull.Preparation.Calls

/-! What the functions of a module do when they call each other: bodies as LLVM runs them, functions from outside,
and the calls that both of them make, callbacks included. -/

namespace LLVM
open Base Relation

/-- A call made while a function runs: what it is given, what it returns and what it leaves of memory. -/
structure Event (δ σ : Type) where
  callee : FunctionRef
  arguments : List (Datum δ)
  before : σ
  value : Option (Datum δ)
  after : σ

namespace Event
variable {δ σ : Type}

def call (event : Event δ σ) : Call δ := (event.callee, event.arguments)

def answer (event : Event δ σ) : Datum δ := event.value.getD .null

/-- Each call finds memory as the one before left it. -/
def Threaded (m : σ) : List (Event δ σ) → σ → Prop
  | [], m' => m' = m
  | event :: rest, m' => event.before = m ∧ Threaded event.after rest m'

end Event

/-- A function returns a value unless it returns none. -/
def FunctionType.Returns {δ : Type} (type : FunctionType) (value : Option (Datum δ)) : Prop :=
  value = none ↔ type.returnType = .void

/-! ### Bodies that keep their stack slots to themselves -/

def slotRegisters (blocks : List BasicBlock) : List Register :=
  blocks.flatMap fun block => block.body.filterMap fun instruction =>
    match instruction.operation with
    | .alloca _ => some instruction.result
    | _ => none

/-- Slots are loaded from and stored to, and nothing else is done with them. -/
def Operation.keepsSlots (isSlot : Value → Bool) : Operation → Bool
  | .alloca _ => true
  | .load pointer => isSlot pointer
  | .store value pointer => !isSlot value && isSlot pointer
  | .icmp .ne lhs rhs => !isSlot lhs && !isSlot rhs
  | .call callee operands _ _ _ => !isSlot callee && operands.all fun operand => !isSlot operand
  | _ => false

def Terminator.keepsSlots (isSlot : Value → Bool) : Terminator → Bool
  | .br _ | .ret none => true
  | .condBr value _ _ | .ret (some value) => !isSlot value
  | .other _ _ _ => false

/-- Nobody else sees the slots of the body. -/
def Contained (blocks : List BasicBlock) : Prop :=
  let isSlot : Value → Bool := fun value => (slotRegisters blocks).any fun slot => value = .register slot
  ∀ block ∈ blocks, block.phis = [] ∧
    (∀ instruction ∈ block.body, instruction.operation.keepsSlots isSlot = true) ∧
    block.terminator.keepsSlots isSlot = true

instance (blocks : List BasicBlock) : Decidable (Contained blocks) :=
  inferInstanceAs (Decidable (∀ block ∈ blocks, block.phis = [] ∧
    (∀ instruction ∈ block.body, instruction.operation.keepsSlots
      (fun value => (slotRegisters blocks).any fun slot => value = .register slot) = true) ∧
      block.terminator.keepsSlots (fun value => (slotRegisters blocks).any fun slot =>
        value = .register slot) = true))

section
variable {δ : Type} [DecidableEq δ]

/-- The next call gets the next of the answers. -/
def Activation.next (answers : List (Datum δ)) (s : Activation δ) : Answer δ :=
  fun _ _ => answers.getD s.calls.length .null

/-- A whole block, with the answers to all calls of the body given. -/
def Activation.follow (blocks : List BasicBlock) (answers arguments : List (Datum δ)) (s : Activation δ) :
    Option (Activation δ) :=
  match s.location with
  | .returned _ => none
  | .block ref => do
    let block ← blocks.find? fun block => block.ref = ref
    guard (block.phis = [])
    let s ← block.body.foldlM (fun s => s.execute (s.next answers) arguments) s
    s.leave arguments block.terminator

/-- A contained body makes these calls, with these answers, and returns the value. -/
def Follows (blocks : List BasicBlock) (answers arguments : List (Datum δ)) (calls : List (Call δ))
    (value : Option (Datum δ)) : Prop :=
  ∃ entry ∈ blocks.head?, ∃ s : Activation δ,
    ReflTransGen (fun s t => s.follow blocks answers arguments = some t) { location := .block entry.ref } s ∧
      s.location = .returned value ∧ s.calls = calls

theorem follows_unique {blocks : List BasicBlock} {answers arguments : List (Datum δ)}
    {calls calls' : List (Call δ)}
    {value value' : Option (Datum δ)} (first : Follows blocks answers arguments calls value)
    (second : Follows blocks answers arguments calls' value') : calls = calls' ∧ value = value' := by
  obtain ⟨entry, head, s, steps, returned, rfl⟩ := first
  obtain ⟨entry', head', s', steps', returned', rfl⟩ := second
  obtain rfl : entry = entry' := Option.some.inj (head.symm.trans head')
  have stop {s : Activation δ} {value : Option (Datum δ)} (returned : s.location = .returned value) :
      s.follow blocks answers arguments = none := by
    unfold Activation.follow
    rw [returned]
  obtain rfl := run_unique steps steps' (stop returned) (stop returned')
  rw [returned] at returned'
  cases returned'
  exact ⟨rfl, rfl⟩

/-! ### Programs -/

/-- How LLVM runs a body and what functions from outside do, with the calls they make. Contained bodies run as
`Follows` says; everything else is left open. -/
structure Semantics (δ σ : Type) [DecidableEq δ] where
  body : List BasicBlock → List (Datum δ) → σ → List (Event δ σ) → Option (Datum δ) → σ → Prop
  external : Text → List (Datum δ) → σ → List (Event δ σ) → Option (Datum δ) → σ → Prop
  follows : ∀ blocks arguments m events value m', Contained blocks →
    Follows blocks (events.map Event.answer) arguments (events.map Event.call) value →
    Event.Threaded m events m' →
      body blocks arguments m events value m'
  followed : ∀ blocks arguments m events value m' calls value', Contained blocks →
    body blocks arguments m events value m' → Follows blocks (events.map Event.answer)
      arguments calls value' →
      events.map Event.call = calls ∧ value = value' ∧ Event.Threaded m events m'

def Operation.values : Operation → List Value
  | .alloca _ => []
  | .load pointer => [pointer]
  | .store value pointer => [value, pointer]
  | .icmp _ lhs rhs | .binary _ lhs rhs => [lhs, rhs]
  | .call callee operands _ _ _ => callee :: operands
  | .other _ operands => operands

def Terminator.values : Terminator → List Value
  | .br _ | .ret none => []
  | .condBr value _ _ | .ret (some value) => [value]
  | .other _ operands _ => operands

def BasicBlock.values (block : BasicBlock) : List Value :=
  (block.phis.flatMap fun phi => phi.incoming.map Prod.fst) ++
    (block.body.flatMap fun instruction => instruction.operation.values) ++ block.terminator.values

/-- The function is named in the body, or an alias of it. -/
def Mentions (blocks : List BasicBlock) (ref : FunctionRef) : Prop :=
  ∃ block ∈ blocks, ∃ value ∈ block.values, value.callee? = some ref

/-- A call of a function of the module that returns. `addressed` are the functions that can be called through data;
the others are only called where they are named. -/
inductive Evaluates {σ : Type} (semantics : Semantics δ σ) (addressed : FunctionRef → Prop)
    (module : Module) :
    FunctionRef → List (Datum δ) → σ → Option (Datum δ) → σ → Prop
  | defined {ref : FunctionRef} {f : Function} {arguments : List (Datum δ)} {m m' : σ}
      {events : List (Event δ σ)}
      {value : Option (Datum δ)} (found : module.function? ref = some f) (body : f.blocks ≠ [])
      (accepts : f.type.Accepts arguments.length) (runs : semantics.body f.blocks arguments m events value m')
      (returns : f.type.Returns value)
      (visible : ∀ event ∈ events, addressed event.callee ∨ Mentions f.blocks event.callee)
      (calls : ∀ event ∈ events,
        Evaluates semantics addressed module event.callee event.arguments event.before
          event.value event.after) :
      Evaluates semantics addressed module ref arguments m value m'
  | declared {ref : FunctionRef} {f : Function} {arguments : List (Datum δ)} {m m' : σ}
      {events : List (Event δ σ)}
      {value : Option (Datum δ)} (found : module.function? ref = some f) (body : f.blocks = [])
      (accepts : f.type.Accepts arguments.length)
      (runs : semantics.external f.name arguments m events value m')
      (returns : f.type.Returns value) (visible : ∀ event ∈ events, addressed event.callee)
      (calls : ∀ event ∈ events,
        Evaluates semantics addressed module event.callee event.arguments event.before
          event.value event.after) :
      Evaluates semantics addressed module ref arguments m value m'

end

end LLVM
