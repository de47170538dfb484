import Mull.Mutators.ConditionBranches
import Mull.Mutators.PhiNodes

/-! Which branch the logical mutators pair with the branch of an operator, read off the condition. -/

namespace Mull.ShortCircuit
open LLVM Logical

namespace Condition

/-- The first branch of a condition whose successor on one side is the given exit, if there is one: whether
its other successor is the other exit. -/
def firstPaired (side : Bool) : Condition → Bool → Option Bool
  | leaf _, exit => if exit = side then some true else none
  | not operand, exit => operand.firstPaired side !exit
  | binary op left right, exit =>
    -- the left operand leaves through its shared exit or falls through to the right one
    if exit = op.side then
      match left.firstPaired side exit with
      | some _ => some false
      | none => right.firstPaired side exit
    else right.firstPaired side exit

def literal : Condition → Bool
  | leaf _ => true
  | not operand => operand.literal
  | binary _ _ _ => false

theorem initBlocks_literal {e : Condition} (literal : e.literal = true) (n : Nat) (exits : Bool → Nat) :
    e.initBlocks n exits = [] := by
  induction e generalizing exits with
  | leaf => rfl
  | not operand ih => exact ih literal _
  | binary => cases literal

theorem initBlocks_differ {e : Condition} (compound : ¬e.literal = true) (n : Nat) {exits others : Bool → Nat}
    (apart : ∀ b, exits b ≠ others b) : ∃ c ∈ branches (e.initBlocks n exits),
      ∃ d ∈ branches (e.initBlocks n others), c.parent.ref = d.parent.ref ∧ ∃ b, c.dest b ≠ d.dest b := by
  induction e generalizing exits others with
  | leaf => exact absurd rfl compound
  | not operand ih => exact ih compound fun b => apart !b
  | binary op left right =>
    have last (exits : Bool → Nat) : left.lastBranch n (leftExits op exits (n + left.leaves)) ∈
        branches ((binary op left right).initBlocks n exits) := by
      rw [initBlocks, branches_append, branches_compile]
      simp
    refine ⟨_, last exits, _, last others, rfl, op.side ^^ left.flipped, ?_⟩
    rw [lastBranch_dest, lastBranch_dest, Bool.xor_assoc, Bool.xor_self, Bool.xor_false, leftExits_side,
      leftExits_side]
    exact apart op.side

section
variable {e : Condition} {n : Nat} {exits : Bool → Nat} {op : Operator} {l r : Condition}

theorem left_dest_ne (outside : Outside (binary op l r).leaves n exits) {branch : CondBranch}
    (mem : branch ∈ branches (l.compile n (leftExits op exits (n + l.leaves)))) (b : Bool) :
    branch.dest b ≠ exits !op.side := by
  have pos := r.leaves_pos
  have beyond := outside.beyond !op.side
  have apart := outside.exits_ne op.side
  have sum : (binary op l r).leaves = l.leaves + r.leaves := rfl
  have exit (c : Bool) : leftExits op exits (n + l.leaves) c ≠ exits !op.side := by
    by_cases shared : c = op.side
    · rw [shared, leftExits_side]
      exact apart
    · rw [Bool.eq_not.mpr shared, leftExits_other]
      omega
  rcases (compile_isTest mem).dest_cases b with eq | eq | inner
  · exact eq ▸ exit true
  · exact eq ▸ exit false
  · omega

theorem firstPaired_spec (side : Bool) (outside : Outside e.leaves n exits) (exit : Bool) :
    ((branches (e.compile n exits)).find? fun c => c.dest side = exits exit).map
      (fun c => decide (c.dest (!side) = exits !exit)) = e.firstPaired side exit := by
  induction e generalizing n exits exit with
  | leaf test =>
    have apart := outside.apart
    cases side <;> cases exit <;>
      simp [compile, branches, BasicBlock.condBranch?, CondBranch.dest, firstPaired, apart, apart.symm]
  | not operand ih => simpa [firstPaired, compile] using ih outside.not !exit
  | binary op l r ihl ihr =>
    have left := ihl (outside.left op r.leaves_pos) exit
    have right := ihr outside.right exit
    rw [compile, branches_append, List.find?_append, firstPaired]
    by_cases shared : exit = op.side
    · rw [if_pos shared, ← left, shared, leftExits_side, ← shared]
      cases found : (branches (l.compile n (leftExits op exits (n + l.leaves)))).find?
          fun c => c.dest side = exits exit with
      | none => exact right
      | some branch =>
        have ne := left_dest_ne outside (List.mem_of_find?_eq_some found) !side
        rw [← shared] at ne
        simp [ne]
    · rw [if_neg shared]
      have none : (branches (l.compile n (leftExits op exits (n + l.leaves)))).find?
          (fun c => c.dest side = exits exit) = none := by
        rw [List.find?_eq_none]
        intro branch mem same
        refine left_dest_ne outside mem side ?_
        rw [of_decide_eq_true same, Bool.eq_not.mpr shared]
      rw [none]
      exact right

theorem firstPaired_isSome (side : Bool) (outside : Outside e.leaves n exits) (exit : Bool) :
    (e.firstPaired side exit).isSome = true ↔ ∃ c ∈ branches (e.compile n exits),
    c.dest side = exits exit := by
  rw [← firstPaired_spec side outside exit, Option.isSome_map, List.find?_isSome]
  simp only [decide_eq_true_eq]

end
end Condition

namespace Context

/-- Some branch after the hole shares the given exit of what stands in the hole. -/
def pairedAfter (side : Bool) : Context → Bool → Bool
  | hole, _ => false
  | not outer, exit => outer.pairedAfter side !exit
  | inLeft op outer right, exit =>
    -- the other exit of a left operand is the first block of the right one
    exit == op.side && ((right.firstPaired side exit).isSome || outer.pairedAfter side exit)
  | inRight _ _ outer, exit => outer.pairedAfter side exit

/-- The blocks around the hole of a compiled context, for operands with a given number of leaves. -/
structure Frame (context : Context) (count start : Nat) (exits : Bool → Nat) (before after : List BasicBlock)
    (holeExits : Bool → Nat) : Prop where
  blocks : ∀ e : Condition, e.leaves = count → (context.plug e).compile start exits =
    before ++ e.compile (start + context.leavesBefore) holeExits ++ after
  beyond : ∀ b, start + context.leavesBefore + count ≤ holeExits b
  apart : holeExits true ≠ holeExits false
  further : ∀ c ∈ branches after, c.parent.phis = [] ∧ start + context.leavesBefore + count ≤ c.parent.ref ∧
    ∀ b, c.parent.ref < c.dest b
  paired : ∀ side exit, (∃ c ∈ branches after, c.dest side = holeExits exit) ↔
    context.pairedAfter side exit = true
  other : ∀ side exit, ∀ c ∈ branches after, c.dest side = holeExits exit → c.dest (!side) ≠ holeExits !exit

def leaves : Context → Nat
  | hole => 0
  | not outer => outer.leaves
  | inLeft _ outer right => outer.leaves + right.leaves
  | inRight _ left outer => outer.leaves + left.leaves

open Condition

theorem plug_leaves (context : Context) (e : Condition) :
    (context.plug e).leaves = context.leaves + e.leaves := by
  induction context generalizing e with
  | hole => simp [plug, leaves]
  | not outer ih => exact ih (.not e)
  | inLeft op outer right ih =>
    rw [plug, ih, leaves, Condition.leaves]
    omega
  | inRight op left outer ih =>
    rw [plug, ih, leaves, Condition.leaves]
    omega

theorem leavesBefore_le (context : Context) : context.leavesBefore ≤ context.leaves := by
  induction context with
  | hole => exact Nat.le_refl 0
  | not outer ih => exact ih
  | inLeft op outer right ih => exact ih.trans (Nat.le_add_right _ _)
  | inRight op left outer ih => exact Nat.add_le_add_right ih left.leaves

theorem frame_exists (context : Context) {count start : Nat} {exits : Bool → Nat} (pos : 0 < count)
    (outside : Outside (context.leaves + count) start exits) :
    ∃ before after holeExits, Frame context count start exits before after holeExits := by
  induction context generalizing count with
  | hole =>
    refine ⟨[], [], exits, fun e _ => by simp [plug, leavesBefore], ?_, outside.apart, ?_, ?_, ?_⟩
    · simpa [leaves, leavesBefore] using outside.beyond
    · simp [branches]
    · simp [branches, pairedAfter]
    · simp [branches]
  | not outer ih =>
    obtain ⟨before, after, holeExits, frame⟩ := ih pos outside
    refine ⟨before, after, fun b => holeExits !b, fun e count_e => frame.blocks (.not e) count_e,
      fun b => frame.beyond !b, frame.apart.symm, frame.further, fun side exit => frame.paired side !exit,
      fun side exit => frame.other side !exit⟩
  | inLeft op outer right ih =>
    have pos_r := right.leaves_pos
    have around : outer.leaves + right.leaves + count = outer.leaves + (count + right.leaves) := by omega
    rw [leaves, around] at outside
    obtain ⟨before, after, holeExits, frame⟩ := ih (by omega) outside
    have inner : Outside (count + right.leaves) (start + outer.leavesBefore) holeExits :=
      ⟨fun b => frame.beyond b, frame.apart⟩
    have further : ∀ c ∈ branches (right.compile (start + outer.leavesBefore + count) holeExits ++ after),
        c.parent.phis = [] ∧ start + outer.leavesBefore + count ≤ c.parent.ref ∧ ∀ b,
        c.parent.ref < c.dest b := by
      intro c mem
      rw [branches_append, List.mem_append] at mem
      rcases mem with mem | mem
      · have test := compile_isTest mem
        exact ⟨test.phis_nil, test.first_le, test.lt_dest inner.right⟩
      · obtain ⟨phis, beyond, forward⟩ := frame.further c mem
        exact ⟨phis, by omega, forward⟩
    -- nothing leads back to the first block of the right operand
    have back (side exit : Bool) (fall : exit ≠ op.side) (c : CondBranch)
        (mem : c ∈ branches (right.compile (start + outer.leavesBefore + count) holeExits ++ after)) :
        c.dest side ≠ leftExits op holeExits (start + outer.leavesBefore + count) exit := by
      obtain ⟨-, beyond, forward⟩ := further c mem
      have ahead := forward side
      rw [Bool.eq_not.mpr fall, leftExits_other]
      omega
    refine ⟨before, right.compile (start + outer.leavesBefore + count) holeExits ++ after,
      leftExits op holeExits (start + outer.leavesBefore + count), fun e count_e => ?_,
      (inner.left op pos_r).beyond, (inner.left op pos_r).apart, further, fun side exit => ?_,
      fun side exit c mem same => ?_⟩
    · rw [plug, frame.blocks _ (by rw [Condition.leaves, count_e]), compile, count_e]
      simp [leavesBefore]
    · by_cases shared : exit = op.side
      · have first := firstPaired_isSome side inner.right exit
        have later := frame.paired side exit
        subst shared
        simp only [leftExits_side, branches_append, List.mem_append, or_and_right, exists_or, ← first, later,
          pairedAfter, beq_self_eq_true, Bool.true_and, Bool.or_eq_true]
      · have none : ¬ ∃ c ∈ branches (right.compile (start + outer.leavesBefore + count) holeExits ++ after),
            c.dest side = leftExits op holeExits (start + outer.leavesBefore + count) exit := by
          rintro ⟨c, mem, same⟩
          exact back side exit shared c mem same
        simp [none, pairedAfter, shared]
    · by_cases shared : exit = op.side
      · refine back (!side) (!exit) ?_ c mem
        subst shared
        simp
      · exact absurd same (back side exit shared c mem)
  | inRight op left outer ih =>
    have around : outer.leaves + left.leaves + count = outer.leaves + (left.leaves + count) := by omega
    rw [leaves, around] at outside
    obtain ⟨before, after, holeExits, frame⟩ := ih (by omega) outside
    have place : start + (outer.leavesBefore + left.leaves) = start + outer.leavesBefore + left.leaves := by
      omega
    refine ⟨before ++ left.compile (start + outer.leavesBefore)
      (leftExits op holeExits (start + outer.leavesBefore + left.leaves)), after, holeExits,
      fun e count_e => ?_,
      fun b => ?_, frame.apart, fun c mem => ?_, frame.paired, frame.other⟩
    · rw [plug, frame.blocks _ (by rw [Condition.leaves, count_e]), compile, leavesBefore, place]
      simp
    · have beyond := frame.beyond b
      unfold leavesBefore
      omega
    · obtain ⟨phis, beyond, forward⟩ := frame.further c mem
      exact ⟨phis, by unfold leavesBefore; omega, forward⟩

end Context
end Mull.ShortCircuit
