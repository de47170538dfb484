import Mull.LLVM.Control
import Mathlib.Data.List.Range

/-! Conditions built with `!`, `&&` and `||`, and the branches a compiler makes of them. -/

namespace Mull.ShortCircuit
open LLVM Function Relation

inductive Operator
  | or
  | and
deriving DecidableEq

/-- The exit that the left operand shares with the whole: the true one for `||`, the false one for `&&`. -/
def Operator.side : Operator → Bool
  | .or => true
  | .and => false

/-- A leaf runs its instructions, which leave the test's value in the register of the leaf. -/
inductive Condition
  | leaf (test : List Instruction)
  | not (operand : Condition)
  | binary (op : Operator) (left right : Condition)

namespace Condition

def leaves : Condition → Nat
  | leaf _ => 1
  | not operand => operand.leaves
  | binary _ left right => left.leaves + right.leaves

def eval (v : Register → Bool) : Condition → Nat → Bool
  | leaf _, n => v n
  | not operand, n => !operand.eval v n
  | binary .or left right, n => left.eval v n || right.eval v (n + left.leaves)
  | binary .and left right, n => left.eval v n && right.eval v (n + left.leaves)

/-- The exits of the left operand, when the right one starts at the given block. -/
def leftExits (op : Operator) (exits : Bool → Nat) (right : Nat) : Bool → Nat :=
  match op with
  | .or => fun b => if b then exits true else right
  | .and => fun b => if b then right else exits false

/-- The blocks of a branch on a condition to `exits true` and `exits false`; leaf `n` is block `n`. -/
def compile : Condition → Nat → (Bool → Nat) → List BasicBlock
  | leaf test, n, exits => [⟨n, [], test, .condBr (.register n) (exits true) (exits false), none⟩]
  | not operand, n, exits => operand.compile n fun b => exits !b
  | binary op left right, n, exits =>
    left.compile n (leftExits op exits (n + left.leaves)) ++ right.compile (n + left.leaves) exits

theorem leaves_pos (e : Condition) : 0 < e.leaves := by
  induction e with
  | leaf => exact Nat.one_pos
  | not _ ih => exact ih
  | binary _ left right ihl _ =>
    unfold leaves
    omega

theorem compile_refs (e : Condition) (n : Nat) (exits : Bool → Nat) :
    (e.compile n exits).map BasicBlock.ref = List.range' n e.leaves := by
  induction e generalizing n exits with
  | leaf test => rfl
  | not operand ih => exact ih n _
  | binary op left right ihl ihr =>
    rw [compile, List.map_append, ihl, ihr, leaves, ← List.range'_append_1]

/-- `br(e, T, F)` followed by the blocks `T` and `F`, which return. -/
def function (e : Condition) : Function where
  ref := 0
  name := "f".toList
  type := ⟨[], false, .void⟩
  blocks := e.compile 0 (fun b => if b then e.leaves else e.leaves + 1) ++
    [⟨e.leaves, [], [], .ret none, none⟩, ⟨e.leaves + 1, [], [], .ret none, none⟩]
  distinct := by
    rw [List.map_append, compile_refs]
    have all : List.range' 0 e.leaves ++ [e.leaves, e.leaves + 1] = List.range' 0 (e.leaves + 2) := by
      rw [← List.range'_append_1, Nat.zero_add]
      rfl
    exact all ▸ List.nodup_range'

section
variable {e : Condition} {n : Nat} {exits : Bool → Nat}

theorem leftExits_side (op : Operator) (exits : Bool → Nat) (right : Nat) :
    leftExits op exits right op.side = exits op.side := by
  cases op <;> rfl

theorem leftExits_other (op : Operator) (exits : Bool → Nat) (right : Nat) :
    leftExits op exits right (!op.side) = right := by
  cases op <;> rfl

theorem compile_reaches {f : Function} (v : Register → Bool) (placed : e.compile n exits ⊆ f.blocks) :
    f.Reaches (registers v) n (exits (e.eval v n)) := by
  induction e generalizing n exits with
  | leaf test =>
    have mem :
      ⟨⟨n, [], test, .condBr (.register n) (exits true) (exits false), none⟩, .register n, exits true,
        exits false⟩ ∈ f.condBranches := mem_condBranches.mpr ⟨placed (by simp [compile]), rfl⟩
    have step := reaches_step mem (registers v)
    have dest : exits (v n) = if v n then exits true else exits false := by cases v n <;> rfl
    unfold eval
    rw [dest]
    exact step
  | not operand ih => exact ih placed
  | binary op left right ihl ihr =>
    rw [compile, List.append_subset] at placed
    have first := ihl placed.1
    have second := ihr placed.2
    cases op with
    | or =>
      cases value : left.eval v n
      · rw [value] at first
        simpa [eval, value] using reaches_trans first second
      · rw [value] at first
        simpa [eval, value, leftExits] using first
    | and =>
      cases value : left.eval v n
      · rw [value] at first
        simpa [eval, value, leftExits] using first
      · rw [value] at first
        simpa [eval, value] using reaches_trans first second

end

end Condition

/-- Control reaches the first of two blocks on the valuations that make the condition true and the second
on the others. -/
def Implements (f : Function) (exits : Bool → Nat) (e : Condition) : Prop :=
  ∀ v : Register → Bool, (f.Reaches (registers v) 0 (exits true) ↔ e.eval v 0 = true) ∧
    (f.Reaches (registers v) 0 (exits false) ↔ e.eval v 0 = false)

/-- A condition with a hole, from the hole outwards. -/
inductive Context
  | hole
  | not (outer : Context)
  | inLeft (op : Operator) (outer : Context) (right : Condition)
  | inRight (op : Operator) (left : Condition) (outer : Context)

namespace Context

def plug : Context → Condition → Condition
  | hole, e => e
  | not outer, e => outer.plug (.not e)
  | inLeft op outer right, e => outer.plug (.binary op e right)
  | inRight op left outer, e => outer.plug (.binary op left e)

def leavesBefore : Context → Nat
  | hole => 0
  | not outer => outer.leavesBefore
  | inLeft _ outer _ => outer.leavesBefore
  | inRight _ left outer => outer.leavesBefore + left.leaves

end Context

end Mull.ShortCircuit
