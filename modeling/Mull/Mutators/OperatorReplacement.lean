import Mull.Mutators.OperatorPairing
import Mathlib.Data.List.Find

/-! A logical mutation against the operator replacement it announces. The branch of an operator becomes
the one that the other operator would have exactly when its left operand is a literal and the branch it is
paired with shares both exits of the operator. -/

namespace Mull.ShortCircuit
open LLVM Logical Function Condition Context Base Relation

/-! ### The scan for the second branch -/

section
variable {shared other : CondBranch → Nat} {first : CondBranch}

theorem scan_before {before : List CondBranch} (elsewhere : ∀ c ∈ before, c.parent.ref ≠ first.parent.ref)
    (rest : List CondBranch) :
    findSecondBranch shared other first false (before ++ rest) =
      findSecondBranch shared other first false rest := by
  induction before with
  | nil => rfl
  | cons c before ih =>
    rw [List.cons_append, findSecondBranch, if_neg (elsewhere c (by simp)), if_pos Bool.not_false,
      ih fun c mem => elsewhere c (by simp [mem])]

/-- Past the first branch and without PHI nodes, the first candidate that shares a successor is it. -/
theorem scan_after {rest : List CondBranch} (elsewhere : ∀ c ∈ rest, c.parent.ref ≠ first.parent.ref)
    (phis : ∀ c ∈ rest, c.parent.phis = []) :
    findSecondBranch shared other first true rest =
      (rest.find? fun c => shared c = shared first ∨ shared c = other first).map fun c =>
        (if shared c = shared first then .pattern1 else .pattern2, c) := by
  induction rest with
  | nil => rfl
  | cons c rest ih =>
    have none : joinsOthers first c = false := by simp [joinsOthers, phis c (by simp)]
    have ih := ih (fun c mem => elsewhere c (by simp [mem])) fun c mem => phis c (by simp [mem])
    rw [findSecondBranch, if_neg (elsewhere c (by simp)), if_neg (by simp), List.find?_cons]
    by_cases first_side : shared c = shared first
    · simp [first_side]
    · by_cases second_side : shared c = other first
      · have apart : other first ≠ shared first := second_side ▸ first_side
        simp [second_side, apart]
      · simp [first_side, second_side, none, ih]

end

end Mull.ShortCircuit

namespace Mull.LogicalMutator
open LLVM Logical Function ShortCircuit Condition

def operator : LogicalMutator → Operator
  | .orToAnd => .or
  | .andToOr => .and

def replacement : LogicalMutator → Operator
  | .orToAnd => .and
  | .andToOr => .or

theorem shared_eq (mutator : LogicalMutator) (c : CondBranch) :
    mutator.shared c = c.dest mutator.operator.side := by
  cases mutator <;> rfl

theorem other_eq (mutator : LogicalMutator) (c : CondBranch) :
    mutator.other c = c.dest !mutator.operator.side := by
  cases mutator <;> rfl

theorem replacement_side (mutator : LogicalMutator) : mutator.replacement.side = !mutator.operator.side := by
  cases mutator <;> rfl

def newDest (mutator : LogicalMutator) (first second : CondBranch) : LogicalPattern → Bool → Nat
  | .pattern1, b => if b = mutator.operator.side then mutator.other first else mutator.other second
  | _, b => if b = mutator.operator.side then mutator.other second else mutator.shared first

theorem applyPattern_newDest (mutator : LogicalMutator) (f : Function) (first second : CondBranch)
    {pattern : LogicalPattern} (redirects : pattern ≠ .pattern3) :
    mutator.applyPattern f first (pattern, second) = some (redirect f first second
      (mutator.newDest first second pattern true) (mutator.newDest first second pattern false)
      (mutator.other second)) := by
  cases mutator <;> cases pattern <;> first | rfl | contradiction


/-- Whether the first branch finds its second one by the successor it shares. -/
def patternOf (flipped : Bool) : LogicalPattern := if flipped then .pattern2 else .pattern1

/-- The branches of a function around an operator. -/
structure Around (op : Operator) (left right : Condition) (f : Function) (n : Nat) (exits : Bool → Nat)
    (before after : List CondBranch) : Prop where
  condBranches : f.condBranches =
    before ++ branches ((binary op left right).compile n exits) ++ after
  outside : Outside (left.leaves + right.leaves) n exits
  phis : ∀ block ∈ f.blocks, block.phis = []
  further : ∀ c ∈ after, n + left.leaves + right.leaves ≤ c.parent.ref ∧ ∀ b, c.parent.ref < c.dest b

def operatorBranch (op : Operator) (left : Condition) (n : Nat) (exits : Bool → Nat) : CondBranch :=
  left.lastBranch n (leftExits op exits (n + left.leaves))

section
variable {mutator : LogicalMutator} {op : Operator} {left right : Condition} {f : Function} {n : Nat}
  {exits : Bool → Nat} {before after : List CondBranch}

theorem Around.split (around : Around op left right f n exits before after) : f.condBranches =
    (before ++ branches (left.initBlocks n (leftExits op exits (n + left.leaves)))) ++
      operatorBranch op left n exits :: (branches (right.compile (n + left.leaves) exits) ++ after) := by
  rw [around.condBranches, compile, branches_append, branches_compile left]
  simp [operatorBranch]

theorem Around.elsewhere (around : Around op left right f n exits before after) {c : CondBranch}
    (mem : c ∈ (before ++ branches (left.initBlocks n (leftExits op exits (n + left.leaves)))) ∨
      c ∈ branches (right.compile (n + left.leaves) exits) ++ after) :
    c.parent.ref ≠ (operatorBranch op left n exits).parent.ref := by
  have nodup := f.condBranches_nodup
  rw [around.split, List.map_append, List.map_cons, List.nodup_append] at nodup
  obtain ⟨-, tail, disjoint⟩ := nodup
  rw [List.nodup_cons] at tail
  rcases mem with mem | mem
  · exact disjoint _ (List.mem_map_of_mem mem) _ List.mem_cons_self
  · intro same
    exact tail.1 (same ▸ List.mem_map_of_mem mem)

theorem Around.phis_nil (around : Around op left right f n exits before after) {c : CondBranch}
    (mem : c ∈ f.condBranches) : c.parent.phis = [] :=
  around.phis _ (mem_condBranches.mp mem).1

theorem Around.lt_dest (around : Around op left right f n exits before after) {c : CondBranch}
    (mem : c ∈ branches (right.compile (n + left.leaves) exits) ++ after) (b : Bool) :
    n + left.leaves < c.dest b := by
  rcases List.mem_append.mp mem with mem | mem
  · have test := compile_isTest mem
    exact test.first_le.trans_lt (test.lt_dest around.outside.right b)
  · obtain ⟨beyond, forward⟩ := around.further c mem
    have ahead := forward b
    omega

/-- The search pairs the branch of an operator with the first later one that shares the operator's exit. -/
theorem Around.find_eq (around : Around mutator.operator left right f n exits before after) :
    mutator.findPossibleMutationInBranch f (operatorBranch mutator.operator left n exits) =
      ((branches (right.compile (n + left.leaves) exits) ++ after).find? fun c =>
        c.dest mutator.operator.side = exits mutator.operator.side).map fun c =>
          (patternOf left.flipped, c) := by
  have dest (b : Bool) : (operatorBranch mutator.operator left n exits).dest b =
      leftExits mutator.operator exits (n + left.leaves) (b ^^ left.flipped) := lastBranch_dest left n _ b
  have exit := leftExits_side mutator.operator exits (n + left.leaves)
  have fall := leftExits_other mutator.operator exits (n + left.leaves)
  have step : findSecondBranch mutator.shared mutator.other
    (operatorBranch mutator.operator left n exits) false
      (operatorBranch mutator.operator left n exits ::
        (branches (right.compile (n + left.leaves) exits) ++ after)) =
        findSecondBranch mutator.shared mutator.other (operatorBranch mutator.operator left n exits) true
          (branches (right.compile (n + left.leaves) exits) ++ after) := if_pos rfl
  rw [LogicalMutator.find_eq, around.split, scan_before (fun c mem => around.elsewhere (.inl mem)), step,
    scan_after (fun c mem => around.elsewhere (.inr mem)) fun c mem => around.phis_nil (by
      rw [around.split]
      exact List.mem_append_right _ (List.mem_cons_of_mem _ mem))]
  have ahead (c : CondBranch) (mem : c ∈ branches (right.compile (n + left.leaves) exits) ++ after) :
      c.dest mutator.operator.side ≠ n + left.leaves := (around.lt_dest mem _).ne'
  have same : (branches (right.compile (n + left.leaves) exits) ++ after).find? (fun c =>
        decide (mutator.shared c = mutator.shared (operatorBranch mutator.operator left n exits) ∨
          mutator.shared c = mutator.other (operatorBranch mutator.operator left n exits))) =
      (branches (right.compile (n + left.leaves) exits) ++ after).find? fun c =>
        decide (c.dest mutator.operator.side = exits mutator.operator.side) := by
    refine List.find?_congr fun c mem => ?_
    rw [shared_eq, shared_eq, other_eq, dest, dest]
    cases left.flipped
    · rw [Bool.xor_false, Bool.xor_false, exit, fall]
      simp [ahead c mem]
    · rw [Bool.xor_true, Bool.xor_true, Bool.not_not, exit, fall]
      simp [ahead c mem]
  rw [same]
  refine Option.map_congr fun c found => ?_
  have shares := List.find?_some found
  have later := ahead c (List.mem_of_find?_eq_some found)
  rw [decide_eq_true_eq] at shares
  rw [shared_eq, shared_eq, dest]
  cases left.flipped
  · rw [Bool.xor_false, exit, if_pos shares]
    rfl
  · rw [Bool.xor_true, fall, if_neg later]
    rfl

end

/-! ### The mutated branch -/

theorem setPhis_nil {f : Function} (phis : ∀ block ∈ f.blocks, block.phis = []) (ref : Nat)
    (update : PHINode → PHINode) : f.setPhis ref (List.map update) = f := by
  refine mapBlocks_self fun block mem => ?_
  split
  · have nil := phis block mem
    cases block
    simp_all
  · rfl

theorem redirect_plain {f : Function} (phis : ∀ block ∈ f.blocks, block.phis = []) (first second : CondBranch)
    (trueDest falseDest target : Nat) : redirect f first second trueDest falseDest target =
      f.setTerminator first.parent.ref (.condBr first.condition trueDest falseDest) none := by
  have plain :
    ∀ block ∈ (f.setTerminator first.parent.ref (.condBr first.condition trueDest falseDest) none).blocks,
      block.phis = [] := by
    intro block mem
    obtain ⟨old, mem_old, rfl⟩ := List.mem_map.mp mem
    split <;> exact phis old mem_old
  unfold redirect
  simp only [List.foldl_cons, List.foldl_nil, setPhis_nil plain, ite_self]

/-- What the operator's branch leads to after the mutation, paired with the given branch. -/
def mutatedDest (mutator : LogicalMutator) (left : Condition) (n : Nat) (second : CondBranch)
    (b : Bool) : Nat :=
  if (b ^^ left.flipped) = mutator.operator.side then n + left.leaves else second.dest !mutator.operator.side

theorem newDest_operatorBranch (mutator : LogicalMutator) (left : Condition) (n : Nat) (exits : Bool → Nat)
    (second : CondBranch) (b : Bool) :
    mutator.newDest (operatorBranch mutator.operator left n exits) second (patternOf left.flipped) b =
      mutatedDest mutator left n second b := by
  have dest (b : Bool) : (operatorBranch mutator.operator left n exits).dest b =
      leftExits mutator.operator exits (n + left.leaves) (b ^^ left.flipped) := lastBranch_dest left n _ b
  have fall := leftExits_other mutator.operator exits (n + left.leaves)
  unfold mutatedDest patternOf newDest
  rw [shared_eq, other_eq, other_eq, dest, dest]
  cases left.flipped
  · simp only [Bool.xor_false, Bool.false_eq_true, if_false, fall]
  · simp only [Bool.xor_true, if_true, fall]
    cases b <;> cases mutator.operator.side <;> rfl

section
variable {mutator : LogicalMutator} {left right : Condition} {n : Nat} {exits : Bool → Nat}
  {before after : List CondBranch}

def redirected (mutator : LogicalMutator) (left : Condition) (f : Function) (n : Nat)
    (second : CondBranch) : Function :=
  f.setTerminator (n + left.leaves - 1) (.condBr (.register (n + left.leaves - 1))
    (mutatedDest mutator left n second true) (mutatedDest mutator left n second false)) none

theorem Around.mutateBranch_eq {f : Function}
    (around : Around mutator.operator left right f n exits before after)
    {second : CondBranch} (found : ((branches (right.compile (n + left.leaves) exits) ++ after).find? fun c =>
      c.dest mutator.operator.side = exits mutator.operator.side) = some second) :
    mutator.mutateBranch f (operatorBranch mutator.operator left n exits) =
      some (redirected mutator left f n second) := by
  unfold mutateBranch
  rw [around.find_eq, found, Option.map_some]
  have redirects : patternOf left.flipped ≠ .pattern3 := by
    unfold patternOf
    split <;> exact LogicalPattern.noConfusion
  show mutator.applyPattern f _ (patternOf left.flipped, second) = _
  rw [applyPattern_newDest _ _ _ _ redirects, redirect_plain around.phis, newDest_operatorBranch,
    newDest_operatorBranch]
  rfl

theorem Around.mem_split {op : Operator} {f : Function} (around : Around op left right f n exits before after)
    {c : CondBranch} : c ∈ f.condBranches ↔
      (c ∈ before ∨ c ∈ branches (left.initBlocks n (leftExits op exits (n + left.leaves)))) ∨
        c = operatorBranch op left n exits ∨ c ∈ branches (right.compile (n + left.leaves) exits) ++ after := by
  rw [around.split, List.mem_append, List.mem_append, List.mem_cons]

theorem Around.destOf_operator {op : Operator} {f : Function}
    (around : Around op left right f n exits before after) (b : Bool) : f.destOf (n + left.leaves - 1) b =
      leftExits op exits (n + left.leaves) (b ^^ left.flipped) := by
  have mem : operatorBranch op left n exits ∈ f.condBranches := around.mem_split.mpr (.inr (.inl rfl))
  exact (destOf_eq mem b).trans (lastBranch_dest left n _ b)

theorem redirected_tests {e : Condition}
    (around : Around mutator.operator left right e.function n exits before after)
    (within : n + left.leaves ≤ e.leaves) {second : CondBranch}
    (mem : second ∈ branches (right.compile (n + left.leaves) exits) ++ after) :
    Tests (redirected mutator left e.function n second) e.leaves := by
  have pos := left.leaves_pos
  have operator : operatorBranch mutator.operator left n exits ∈ e.function.condBranches :=
    around.mem_split.mpr (.inr (.inl rfl))
  have ahead := around.lt_dest mem !mutator.operator.side
  refine (function_tests e).setTerminator (mem_condBranches.mp operator).1 ?_ (fun b => ?_) ?_
  · show n + left.leaves - 1 < e.leaves
    omega
  · show n + left.leaves - 1 < mutatedDest mutator left n second b
    unfold mutatedDest
    split <;> omega
  · have differ := ahead.ne
    unfold mutatedDest
    generalize second.dest (!mutator.operator.side) = exit at differ
    cases left.flipped <;> cases mutator.operator.side <;> simp [differ, differ.symm]

theorem redirected_destOf (f : Function) (second : CondBranch) {i : Nat} (elsewhere : i ≠ n + left.leaves - 1)
    (b : Bool) : (redirected mutator left f n second).destOf i b = f.destOf i b :=
  destOf_setTerminator_of_ne elsewhere _ none b

theorem redirected_destOf_operator {f : Function}
    (around : Around mutator.operator left right f n exits before after) (second : CondBranch) (b : Bool) :
    (redirected mutator left f n second).destOf (n + left.leaves - 1) b =
      mutatedDest mutator left n second b := by
  have operator : operatorBranch mutator.operator left n exits ∈ f.condBranches :=
    around.mem_split.mpr (.inr (.inl rfl))
  have mem := condBranches_setTerminator_self (mem_condBranches.mp operator).1
    (.register (n + left.leaves - 1))
    (mutatedDest mutator left n second true) (mutatedDest mutator left n second false) none
  have dest := destOf_eq mem b
  cases b <;> exact dest

/-- Every branch away from the operator is the same for the replacement if nothing but a test stands on the left. -/
theorem destOf_agree {f g : Function} (source : Around mutator.operator left right f n exits before after)
    (target : Around mutator.replacement left right g n exits before after) (literal : left.literal = true)
    {i : Nat} (elsewhere : i ≠ n + left.leaves - 1)
    (node : ∃ c ∈ f.condBranches, c.parent.ref = i) (b : Bool) :
    f.destOf i b = g.destOf i b := by
  obtain ⟨c, mem, rfl⟩ := node
  have placed : c ∈ g.condBranches := by
    rcases source.mem_split.mp mem with (front | inner) | rfl | rest
    · exact target.mem_split.mpr (.inl (.inl front))
    · rw [initBlocks_literal literal] at inner
      cases inner
    · exact absurd rfl elsewhere
    · exact target.mem_split.mpr (.inr (.inr rest))
  rw [destOf_eq mem, destOf_eq placed]

/-- The mutated function implements the replacement only if the left operand is a literal and the paired branch
has both exits of the operator. -/
theorem implements_redirected_iff {e e' : Condition}
    (source : Around mutator.operator left right e.function n exits before after)
    (target : Around mutator.replacement left right e'.function n exits before after)
    (leaves : e'.leaves = e.leaves) (within : n + left.leaves + right.leaves ≤ e.leaves) {second : CondBranch}
    (mem : second ∈ branches (right.compile (n + left.leaves) exits) ++ after) :
    Implements (redirected mutator left e.function n second) (exitBlocks e) e' ↔
      left.literal = true ∧ second.dest (!mutator.operator.side) = exits !mutator.operator.side := by
  have tests := redirected_tests source (by omega) mem
  have same_exits : exitBlocks e' = exitBlocks e := by
    unfold exitBlocks
    rw [leaves]
  have pos := left.leaves_pos
  have beyond := source.outside.beyond
  rw [← leaves] at tests
  rw [← same_exits, implements_iff tests]
  have exit := leftExits_side mutator.replacement exits (n + left.leaves)
  have fall := leftExits_other mutator.replacement exits (n + left.leaves)
  rw [replacement_side] at exit fall
  rw [Bool.not_not] at fall
  constructor
  · intro same
    refine ⟨?_, ?_⟩
    · by_contra compound
      have apart (b : Bool) : leftExits mutator.operator exits (n + left.leaves) b ≠
          leftExits mutator.replacement exits (n + left.leaves) b := by
        by_cases side : b = mutator.operator.side
        · have far := beyond mutator.operator.side
          rw [side, leftExits_side, fall]
          have pos := right.leaves_pos
          omega
        · have far := beyond !mutator.operator.side
          rw [Bool.eq_not.mpr side, leftExits_other, exit]
          have pos := right.leaves_pos
          omega
      obtain ⟨c, inner, d, inner', ref, b, differ⟩ := initBlocks_differ compound n apart
      have mem_c := source.mem_split.mpr (.inl (.inr inner))
      have mem_d := target.mem_split.mpr (.inl (.inr inner'))
      have elsewhere := source.elsewhere (.inl (List.mem_append_right _ inner))
      have node : c.parent.ref < e'.leaves := by
        have placed : c ∈ branches (left.compile n (leftExits mutator.operator exits (n + left.leaves))) := by
          rw [branches_compile]
          exact List.mem_append_left _ inner
        have last := (compile_isTest placed).lt_end
        omega
      have dest := same c.parent.ref node b
      rw [redirected_destOf _ _ elsewhere, destOf_eq mem_c, ref, destOf_eq mem_d] at dest
      exact differ dest
    · have dest := same (n + left.leaves - 1) (by omega) (!mutator.operator.side ^^ left.flipped)
      rw [redirected_destOf_operator source, target.destOf_operator, Bool.xor_assoc,
        Bool.xor_self, Bool.xor_false, exit] at dest
      rw [← dest]
      unfold mutatedDest
      rw [Bool.xor_assoc, Bool.xor_self, Bool.xor_false, if_neg (by simp)]
  · rintro ⟨literal, both⟩ i node b
    by_cases here : i = n + left.leaves - 1
    · subst here
      rw [redirected_destOf_operator source, target.destOf_operator]
      unfold mutatedDest
      by_cases side : (b ^^ left.flipped) = mutator.operator.side
      · rw [if_pos side, side, fall]
      · rw [if_neg side, Bool.eq_not.mpr side, exit, both]
    · rw [redirected_destOf _ _ here]
      refine destOf_agree source target literal here ?_ b
      obtain ⟨c, mem_c, ref, -⟩ := (function_tests e).ordered i (leaves ▸ node)
      exact ⟨c, mem_c, ref⟩

end

end Mull.LogicalMutator

