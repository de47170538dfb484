import Mull.Mutators.ShortCircuit

/-! The branches of a compiled condition: each tests its own register and leads forward, and all of them
can be reached. -/

namespace Mull.ShortCircuit
open LLVM Function Base Relation

def branches (blocks : List BasicBlock) : List CondBranch := blocks.filterMap BasicBlock.condBranch?

namespace Condition

/-- The parity of the negations above the last leaf. -/
def flipped : Condition → Bool
  | leaf _ => false
  | not operand => !operand.flipped
  | binary _ _ right => right.flipped

def lastTest : Condition → List Instruction
  | leaf test => test
  | not operand => operand.lastTest
  | binary _ _ right => right.lastTest

def initBlocks : Condition → Nat → (Bool → Nat) → List BasicBlock
  | leaf _, _, _ => []
  | not operand, n, exits => operand.initBlocks n fun b => exits !b
  | binary op left right, n, exits =>
    left.compile n (leftExits op exits (n + left.leaves)) ++ right.initBlocks (n + left.leaves) exits

def lastBlock (e : Condition) (n : Nat) (exits : Bool → Nat) : BasicBlock :=
  ⟨n + e.leaves - 1, [], e.lastTest,
    .condBr (.register (n + e.leaves - 1)) (exits (!e.flipped)) (exits e.flipped), none⟩

theorem compile_eq (e : Condition) (n : Nat) (exits : Bool → Nat) :
    e.compile n exits = e.initBlocks n exits ++ [e.lastBlock n exits] := by
  induction e generalizing n exits with
  | leaf test => rfl
  | not operand ih => exact ih n _
  | binary op left right _ ih =>
    have pos := right.leaves_pos
    simp [compile, initBlocks, ih, lastBlock, flipped, lastTest, leaves, Nat.add_assoc]

def lastBranch (e : Condition) (n : Nat) (exits : Bool → Nat) : CondBranch :=
  ⟨e.lastBlock n exits, .register (n + e.leaves - 1), exits (!e.flipped), exits e.flipped⟩

theorem lastBranch_dest (e : Condition) (n : Nat) (exits : Bool → Nat) (b : Bool) :
    (e.lastBranch n exits).dest b = exits (b ^^ e.flipped) := by
  cases b <;> simp [lastBranch, CondBranch.dest]

/-- A branch of a condition: it tests its own register and goes to an exit or further on. -/
structure IsTest (e : Condition) (n : Nat) (exits : Bool → Nat) (branch : CondBranch) : Prop where
  first_le : n ≤ branch.parent.ref
  lt_end : branch.parent.ref < n + e.leaves
  phis_nil : branch.parent.phis = []
  condition_eq : branch.condition = .register branch.parent.ref
  dest_cases : ∀ b, branch.dest b = exits true ∨ branch.dest b = exits false ∨
    (branch.parent.ref < branch.dest b ∧ branch.dest b < n + e.leaves)

/-- Exits lie beyond the leaves and differ. -/
structure Outside (count n : Nat) (exits : Bool → Nat) : Prop where
  beyond : ∀ b, n + count ≤ exits b
  apart : exits true ≠ exits false

section
variable {e : Condition} {n : Nat} {exits : Bool → Nat} {op : Operator} {l r : Condition}

theorem Outside.not {count : Nat} (outside : Outside count n exits) : Outside count n fun b => exits !b :=
  ⟨fun b => outside.beyond !b, outside.apart.symm⟩

theorem Outside.right {before count : Nat} (outside : Outside (before + count) n exits) :
    Outside count (n + before) exits :=
  ⟨fun b => by simpa [Nat.add_assoc] using outside.beyond b, outside.apart⟩

theorem Outside.left (op : Operator) {count after : Nat} (pos : 0 < after)
    (outside : Outside (count + after) n exits) :
    Outside count n (leftExits op exits (n + count)) := by
  have beyond (b : Bool) : n + count < exits b := by
    have all := outside.beyond b
    omega
  cases op with
  | or => exact ⟨fun b => by cases b <;> simp [leftExits, (beyond true).le], (beyond true).ne'⟩
  | and => exact ⟨fun b => by cases b <;> simp [leftExits, (beyond false).le], (beyond false).ne⟩

theorem Outside.exits_ne {count : Nat} (outside : Outside count n exits) (b : Bool) : exits b ≠ exits !b := by
  cases b
  · exact outside.apart.symm
  · exact outside.apart

theorem branches_append (before after : List BasicBlock) :
    branches (before ++ after) = branches before ++ branches after :=
  List.filterMap_append

theorem branches_compile (e : Condition) (n : Nat) (exits : Bool → Nat) :
    branches (e.compile n exits) = branches (e.initBlocks n exits) ++ [e.lastBranch n exits] := by
  rw [compile_eq, branches_append]
  rfl

theorem compile_isTest {branch : CondBranch} (mem : branch ∈ branches (e.compile n exits)) :
    IsTest e n exits branch := by
  induction e generalizing n exits with
  | leaf test =>
    obtain rfl := List.mem_singleton.mp mem
    refine ⟨Nat.le_refl n, Nat.lt_succ_self n, rfl, rfl, fun b => ?_⟩
    cases b
    · exact .inr (.inl rfl)
    · exact .inl rfl
  | not operand ih =>
    have test := ih mem
    refine ⟨test.first_le, test.lt_end, test.phis_nil, test.condition_eq, fun b => ?_⟩
    rcases test.dest_cases b with eq | eq | inner
    · exact .inr (.inl eq)
    · exact .inl eq
    · exact .inr (.inr inner)
  | binary op l r ihl ihr =>
    have pos_l := l.leaves_pos
    have pos_r := r.leaves_pos
    rw [compile, branches_append, List.mem_append] at mem
    rcases mem with mem | mem
    · have test := ihl mem
      have lt := test.lt_end
      have sum : (binary op l r).leaves = l.leaves + r.leaves := rfl
      refine ⟨test.first_le, by omega, test.phis_nil, test.condition_eq, fun b => ?_⟩
      have start : branch.parent.ref < n + l.leaves ∧ n + l.leaves < n + (binary op l r).leaves := by omega
      rcases test.dest_cases b with eq | eq | inner
      · cases op with
        | or => exact .inl eq
        | and => exact .inr (.inr (eq ▸ start))
      · cases op with
        | or => exact .inr (.inr (eq ▸ start))
        | and => exact .inr (.inl eq)
      · exact .inr (.inr ⟨inner.1, inner.2.trans start.2⟩)
    · have test := ihr mem
      have sum : (binary op l r).leaves = l.leaves + r.leaves := rfl
      have first := test.first_le
      have lt := test.lt_end
      refine ⟨by omega, by omega, test.phis_nil, test.condition_eq, fun b => ?_⟩
      rcases test.dest_cases b with eq | eq | inner
      · exact .inl eq
      · exact .inr (.inl eq)
      · refine .inr (.inr ⟨inner.1, ?_⟩)
        rw [sum, ← Nat.add_assoc]
        exact inner.2

theorem dest_apart {branch : CondBranch} (outside : Outside e.leaves n exits)
    (mem : branch ∈ branches (e.compile n exits)) : branch.dest true ≠ branch.dest false := by
  induction e generalizing n exits with
  | leaf test =>
    obtain rfl := List.mem_singleton.mp mem
    exact outside.apart
  | not operand ih => exact ih outside.not mem
  | binary op l r ihl ihr =>
    rw [compile, branches_append, List.mem_append] at mem
    rcases mem with mem | mem
    · exact ihl (outside.left _ r.leaves_pos) mem
    · exact ihr outside.right mem

theorem IsTest.lt_dest {branch : CondBranch} (test : IsTest e n exits branch)
    (outside : Outside e.leaves n exits) (b : Bool) : branch.parent.ref < branch.dest b := by
  have lt := test.lt_end
  rcases test.dest_cases b with eq | eq | inner
  · rw [eq]
    exact lt.trans_le (outside.beyond true)
  · rw [eq]
    exact lt.trans_le (outside.beyond false)
  · exact inner.1

theorem compile_branch {block : BasicBlock} (mem : block ∈ e.compile n exits) :
    ∃ branch ∈ branches (e.compile n exits), branch.parent = block := by
  induction e generalizing n exits with
  | leaf test =>
    obtain rfl := List.mem_singleton.mp mem
    exact ⟨_, List.mem_singleton_self _, rfl⟩
  | not operand ih => exact ih mem
  | binary op l r ihl ihr =>
    rw [compile, List.mem_append] at mem
    rw [compile, branches_append]
    rcases mem with mem | mem
    · obtain ⟨branch, mem_branch, eq⟩ := ihl mem
      exact ⟨branch, List.mem_append_left _ mem_branch, eq⟩
    · obtain ⟨branch, mem_branch, eq⟩ := ihr mem
      exact ⟨branch, List.mem_append_right _ mem_branch, eq⟩

theorem compile_connected {f : Function} {size : Nat} (ordered : f.Ordered size)
    (placed : branches (e.compile n exits) ⊆ f.condBranches) (within : n + e.leaves ≤ size) :
    (∀ j, n ≤ j → j < n + e.leaves → ReflTransGen (f.graph ordered).Follows n j) ∧
      ∀ b, ReflTransGen (f.graph ordered).Follows n (exits b) := by
  induction e generalizing n exits with
  | leaf test =>
    have mem := placed (List.mem_singleton_self _)
    refine ⟨fun j first last => ?_, fun b => .single ⟨within, b, ?_⟩⟩
    · obtain rfl : n = j := Nat.le_antisymm first (Nat.le_of_lt_succ last)
      exact .refl
    · have dest := destOf_eq mem b
      cases b <;> exact dest.symm
  | not operand ih =>
    obtain ⟨nodes, out⟩ := ih placed within
    exact ⟨nodes, fun b => by simpa using out !b⟩
  | binary op l r ihl ihr =>
    rw [compile, branches_append, List.append_subset] at placed
    have sum : (binary op l r).leaves = l.leaves + r.leaves := rfl
    obtain ⟨nodes_l, out_l⟩ := ihl placed.1 (by omega)
    obtain ⟨nodes_r, out_r⟩ := ihr placed.2 (by omega)
    have second := out_l !op.side
    rw [leftExits_other] at second
    refine ⟨fun j first last => ?_, fun b => second.trans (out_r b)⟩
    by_cases left : j < n + l.leaves
    · exact nodes_l j first left
    · exact second.trans (nodes_r j (by omega) (by omega))

end

def exitBlocks (e : Condition) (b : Bool) : Nat := if b then e.leaves else e.leaves + 1

theorem exitBlocks_outside (e : Condition) : Outside e.leaves 0 (exitBlocks e) :=
  ⟨fun b => by cases b <;> simp [exitBlocks], by simp [exitBlocks]⟩

theorem function_blocks (e : Condition) : e.function.blocks = e.compile 0 (exitBlocks e) ++
    [⟨e.leaves, [], [], .ret none, none⟩, ⟨e.leaves + 1, [], [], .ret none, none⟩] := rfl

theorem function_condBranches (e : Condition) :
    e.function.condBranches = branches (e.compile 0 (exitBlocks e)) := by
  unfold condBranches
  rw [function_blocks, List.filterMap_append]
  exact List.append_nil _

end Condition

/-- Blocks below `size` test in order, at the others control stops. -/
structure Tests (f : Function) (size : Nat) : Prop where
  ordered : f.Ordered size
  stops : ∀ holds ref, size ≤ ref → f.next holds ref = none

open Condition

theorem function_tests (e : Condition) : Tests e.function e.leaves := by
  constructor
  · intro i node
    have ref : i ∈ (e.compile 0 (exitBlocks e)).map BasicBlock.ref := by
      rw [compile_refs]
      simpa using node
    obtain ⟨block, mem_block, rfl⟩ := List.mem_map.mp ref
    obtain ⟨branch, mem, rfl⟩ := compile_branch mem_block
    have test := compile_isTest mem
    exact ⟨branch, e.function_condBranches ▸ mem, rfl, test.condition_eq, test.lt_dest e.exitBlocks_outside,
      dest_apart e.exitBlocks_outside mem⟩
  · intro holds ref beyond
    cases found : e.function.block? ref with
    | none => simp [next, found]
    | some block =>
      obtain ⟨mem, rfl⟩ := mem_of_block? found
      rw [function_blocks, List.mem_append] at mem
      rcases mem with mem | mem
      · obtain ⟨branch, mem_branch, rfl⟩ := compile_branch mem
        have inside := (compile_isTest mem_branch).lt_end
        omega
      · simp only [List.mem_cons, List.not_mem_nil, or_false] at mem
        rcases mem with rfl | rfl <;> simp [next, found]

theorem function_phis {e : Condition} {block : BasicBlock} (mem : block ∈ e.function.blocks) :
    block.phis = [] := by
  rw [function_blocks, List.mem_append] at mem
  rcases mem with mem | mem
  · obtain ⟨branch, mem_branch, rfl⟩ := compile_branch mem
    exact (compile_isTest mem_branch).phis_nil
  · simp only [List.mem_cons, List.not_mem_nil, or_false] at mem
    rcases mem with rfl | rfl <;> rfl

/-- A block may test the same register and lead elsewhere, as long as it leads forward. -/
theorem Tests.setTerminator {f : Function} {size : Nat} (tests : Tests f size) {block : BasicBlock}
    (mem : block ∈ f.blocks) (node : block.ref < size) {dest : Bool → Nat} (forward : ∀ b, block.ref < dest b)
    (apart : dest true ≠ dest false) :
    Tests (f.setTerminator block.ref (.condBr (.register block.ref) (dest true) (dest false)) none) size := by
  constructor
  · intro i inside
    by_cases here : i = block.ref
    · subst here
      refine ⟨_, condBranches_setTerminator_self mem _ _ _ none, rfl, rfl, fun b => ?_, apart⟩
      cases b
      · exact forward false
      · exact forward true
    · obtain ⟨branch, mem_branch, rfl, condition, further, differ⟩ := tests.ordered i inside
      exact ⟨branch, condBranches_setTerminator_of_ne mem_branch here _ none, rfl, condition, further, differ⟩
  · intro holds ref beyond
    rw [next_setTerminator _ _ (by omega)]
    exact tests.stops holds ref beyond

theorem implements_of_reaches {f : Function} {size : Nat} {exits : Bool → Nat} {e : Condition}
    (tests : Tests f size) (outside : Outside size 0 exits)
    (reaches : ∀ v, f.Reaches (registers v) 0 (exits (e.eval v 0))) : Implements f exits e := by
  intro v
  have stop (b : Bool) : f.next (registers v) (exits b) = none :=
    tests.stops _ _ (by simpa using outside.beyond b)
  have only (b : Bool) : f.Reaches (registers v) 0 (exits b) ↔ e.eval v 0 = b := by
    constructor
    · intro reached
      have same := reaches_unique (reaches v) reached (stop _) (stop b)
      by_contra differ
      rw [Bool.eq_not.mpr differ] at same
      exact outside.exits_ne b same.symm
    · rintro rfl
      exact reaches v
  exact ⟨only true, only false⟩

theorem exit_of_implements {f : Function} {size : Nat} {exits : Bool → Nat} {e : Condition}
    (tests : Tests f size) (outside : Outside size 0 exits) (implements : Implements f exits e)
    (v : Register → Bool) : (f.graph tests.ordered).exit v 0 = exits (e.eval v 0) := by
  have reached : f.Reaches (registers v) 0 (exits (e.eval v 0)) := by
    cases value : e.eval v 0
    · exact (implements v).2.mpr value
    · exact (implements v).1.mpr value
  exact reaches_unique (reaches_exit tests.ordered v 0) reached
    (tests.stops _ _ ((f.graph tests.ordered).size_le_exit v 0))
    (tests.stops _ _ (by simpa using outside.beyond (e.eval v 0)))

theorem function_implements (e : Condition) : Implements e.function (exitBlocks e) e :=
  implements_of_reaches (function_tests e) e.exitBlocks_outside fun v =>
    compile_reaches v fun _ mem => List.mem_append_left _ mem

theorem implements_iff {f : Function} {e : Condition} (tests : Tests f e.leaves) :
    Implements f (exitBlocks e) e ↔ ∀ i < e.leaves, ∀ b, f.destOf i b = e.function.destOf i b := by
  have compiled := exit_of_implements (function_tests e) e.exitBlocks_outside (function_implements e)
  constructor
  · intro implements i node b
    have mutated := exit_of_implements tests e.exitBlocks_outside implements
    have placed : branches (e.compile 0 (exitBlocks e)) ⊆ e.function.condBranches := by
      rw [function_condBranches]
      exact List.Subset.refl _
    have connected := compile_connected (function_tests e).ordered placed (Nat.zero_add e.leaves).le
    refine (DecisionGraph.next_eq_of_exit_eq (e.function.graph (function_tests e).ordered)
      (f.graph tests.ordered) (i := 0) (fun v => ?_)
      (connected.1 i (Nat.zero_le i) (by simpa using node)) node b).symm
    rw [compiled, mutated]
  · intro same
    refine implements_of_reaches tests e.exitBlocks_outside fun v => ?_
    have exits := DecisionGraph.exit_eq_of_next_eq (f.graph tests.ordered)
      (e.function.graph (function_tests e).ordered) same v 0
    rw [compiled] at exits
    exact exits ▸ reaches_exit tests.ordered v 0

end Mull.ShortCircuit
