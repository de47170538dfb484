import Mull.Preparation.Programs

/-! What a trampoline does with the answers it gets, whatever they are: it asks for the identifiers from the
last one on, up to the first that is found, and calls the function of that one or the copy. -/

namespace LLVM

def Operation.isCall : Operation → Bool
  | .call _ _ _ _ _ => true
  | _ => false

section
variable {δ : Type} [DecidableEq δ] {answers arguments : List (Datum δ)}

namespace Activation

theorem execute_plain {s : Activation δ} {instruction : Instruction}
    (plain : instruction.operation.isCall = false) (answer answer' : Answer δ) :
      s.execute answer arguments instruction = s.execute answer' arguments instruction := by
  unfold execute
  cases operation : instruction.operation with
  | call callee operands type attributes callingConv => rw [operation] at plain; cases plain
  | icmp predicate lhs rhs => cases predicate <;> rfl
  | _ => rfl

theorem execute_calls {s t : Activation δ} {instruction : Instruction} {answer : Answer δ}
    (plain : instruction.operation.isCall = false)
    (executed : s.execute answer arguments instruction = some t) :
    t.calls = s.calls := by
  unfold execute at executed
  cases operation : instruction.operation with
  | call callee operands type attributes callingConv => rw [operation] at plain; cases plain
  | alloca type =>
    rw [operation] at executed
    rw [← Option.some.inj executed]
    rfl
  | load pointer =>
    rw [operation] at executed
    simp only at executed
    split at executed
    · obtain ⟨value, -, rfl⟩ := Option.map_eq_some_iff.mp executed
      rfl
    · cases executed
  | store value pointer =>
    rw [operation] at executed
    simp only at executed
    split at executed
    · rw [← Option.some.inj executed]
    · cases executed
  | icmp predicate lhs rhs =>
    rw [operation] at executed
    cases predicate with
    | ne =>
      simp only at executed
      split at executed
      · rw [← Option.some.inj executed]
        rfl
      · cases executed
    | _ => cases executed
  | _ => rw [operation] at executed; cases executed

theorem foldlM_next {body : List Instruction} {s₀ : Activation δ} :
    ∀ {s : Activation δ}, (body.countP fun instruction => instruction.operation.isCall) ≤ 1 →
      (s.calls = s₀.calls ∨ (body.countP fun instruction => instruction.operation.isCall) = 0) →
        body.foldlM (fun s => s.execute (s.next answers) arguments) s =
          body.foldlM (fun s => s.execute (s₀.next answers) arguments) s := by
  induction body with
  | nil => intro s _ _; rfl
  | cons instruction rest ih =>
    intro s single same
    rw [List.countP_cons] at single same
    rw [List.foldlM_cons, List.foldlM_cons]
    cases isCall : instruction.operation.isCall with
    | false =>
      rw [isCall, if_neg Bool.false_ne_true, Nat.add_zero] at single same
      rw [execute_plain isCall (s.next answers) (s₀.next answers)]
      cases executed : s.execute (s₀.next answers) arguments instruction with
      | none => rfl
      | some t => exact ih single (same.imp_left (execute_calls isCall executed).trans)
    | true =>
      rw [isCall, if_pos rfl] at single same
      have none_left : (rest.countP fun instruction => instruction.operation.isCall) = 0 := by omega
      have next : s.next answers = s₀.next answers := by
        unfold Activation.next
        rw [same.resolve_right (Nat.succ_ne_zero _)]
      rw [next]
      cases s.execute (s₀.next answers) arguments instruction with
      | none => rfl
      | some t => exact ih (none_left ▸ Nat.zero_le 1) (.inr none_left)

theorem follow_eq_step {f : Function} {s : Activation δ} {block : BasicBlock} (mem : block ∈ f.blocks)
    (single : (block.body.countP fun instruction => instruction.operation.isCall) ≤ 1)
    (here : s.location = .block block.ref) :
      s.follow f.blocks answers arguments = s.step f (s.next answers) arguments := by
  have found : (f.blocks.find? fun other => other.ref = block.ref) = some block := Function.block?_of_mem mem
  unfold follow step
  simp only [here, found, Function.block?_of_mem mem, bind, Option.bind_some]
  rw [foldlM_next single (.inl rfl)]

end Activation
end
end LLVM

namespace Mull.Preparation
open LLVM Relation

section
variable {δ : Type} [DecidableEq δ]

/-- The lookups for the checks, from `i` calls on, and the clone of the first check that fires. -/
def scan (getenv : FunctionRef) (answers : List (Datum δ)) :
    Nat → List Check → List (Call δ) × Option FunctionRef
  | _, [] => ([], none)
  | i, check :: rest =>
    if answers.getD i .null = .null then
      ((getenv, [.string check.1]) :: (scan getenv answers (i + 1) rest).1,
        (scan getenv answers (i + 1) rest).2)
    else ([(getenv, [.string check.1])], some check.2)

variable {f original : Function} {getenv copy : FunctionRef} {checks : List Check}
  (answers arguments : List (Datum δ))

theorem head_follows (blocks : f.blocks = trampolineBlocks 0 original (.function getenv) copy checks)
    {k : Nat} (le : k ≤ checks.length) (s : Activation δ) (here : s.location = .block (2 * k + 1))
    (slot : s.registers 0 = some (.slot 0)) :
    ∃ t, ReflTransGen (fun s t => s.follow f.blocks answers arguments = some t) s t ∧ t.location = .block 2 ∧
      t.registers 0 = some (.slot 0) ∧
      t.slots 0 =
        some (.function ((scan getenv answers s.calls.length (checks.take k).reverse).2.getD copy)) ∧
      t.calls = s.calls ++ (scan getenv answers s.calls.length (checks.take k).reverse).1 := by
  induction k generalizing s with
  | zero =>
    have mem :
      (⟨1, [], [⟨0, .store (.function copy) (.register 0), none⟩], .br 2, none⟩ : BasicBlock) ∈ f.blocks := by
      rw [blocks]
      exact List.mem_cons_of_mem _ List.mem_cons_self
    have step := step_store (s.next answers) arguments mem rfl rfl rfl here slot
    rw [← Activation.follow_eq_step mem (Nat.zero_le 1) here] at step
    exact ⟨_, .single step, rfl, slot, by simp [scan], by simp [scan]⟩
  | succ k ih =>
    have inside : k < checks.length := le
    have present : checks[k]? = some checks[k] := List.getElem?_eq_getElem inside
    have last : (checks.take (k + 1)).reverse = checks[k] :: (checks.take k).reverse := by
      rw [List.take_add_one, present]
      simp
    obtain ⟨mem_check, mem_mutation⟩ := mem_checkBlocks 0 (.function getenv) present 0
    rw [Nat.zero_add] at mem_check mem_mutation
    have placed {block : BasicBlock} (mem : block ∈ checkBlocks 0 (.function getenv) 0 checks) :
      block ∈ f.blocks := by
      rw [blocks]
      exact List.mem_cons_of_mem _ (List.mem_cons_of_mem _ (List.mem_cons_of_mem _ mem))
    obtain ⟨registers, check, kept⟩ := step_check (s.next answers) arguments rfl (placed mem_check) here
    rw [slot] at kept
    rw [← Activation.follow_eq_step (placed mem_check) le_rfl here] at check
    rw [last]
    have answered : s.next answers getenv [.string checks[k].1] = answers.getD s.calls.length .null := rfl
    rw [answered] at check
    by_cases unset : answers.getD s.calls.length .null = .null
    · rw [if_pos unset] at check
      obtain ⟨t, steps, location, slot, stored, calls⟩ := ih (Nat.le_of_lt inside)
        ⟨.block (2 * k + 1), registers, s.slots, s.calls ++ [(getenv, [.string checks[k].1])]⟩ rfl kept
      rw [List.length_append, List.length_singleton] at stored calls
      refine ⟨t, .head check steps, location, slot, ?_, ?_⟩
      · rw [stored, scan, if_pos unset]
      · rw [calls, scan, if_pos unset, List.append_assoc]
        rfl
    · rw [if_neg unset] at check
      have store := step_store
        ((⟨.block (2 * k + 4), registers, s.slots, s.calls ++ [(getenv, [.string checks[k].1])]⟩ :
          Activation δ).next answers) arguments (placed mem_mutation) rfl rfl rfl
        (s := ⟨.block (2 * k + 4), registers, s.slots, s.calls ++ [(getenv, [.string checks[k].1])]⟩) rfl kept
      rw [← Activation.follow_eq_step (placed mem_mutation) (Nat.zero_le 1) rfl] at store
      refine ⟨_, .head check (.single store), rfl, kept, ?_, ?_⟩
      · rw [scan, if_neg unset]
        simp
      · rw [scan, if_neg unset]

theorem trampoline_follows (blocks : f.blocks = trampolineBlocks 0 original (.function getenv) copy checks)
    (enough : original.type.parameters.length ≤ arguments.length) :
    Follows f.blocks answers arguments
      ((scan getenv answers 0 checks.reverse).1 ++
        [((scan getenv answers 0 checks.reverse).2.getD copy,
          arguments.take original.type.parameters.length)])
      (if original.type.returnType = .void then none
        else some (answers.getD (scan getenv answers 0 checks.reverse).1.length .null)) := by
  have mem_entry : (⟨0, [], [⟨0, .alloca .pointer, none⟩], .br (2 * checks.length + 1), none⟩ : BasicBlock) ∈
      f.blocks := by
    rw [blocks]
    exact List.mem_cons_self
  have enter : Activation.follow f.blocks answers arguments { location := .block 0 } = some
      { location := .block (2 * checks.length + 1)
        registers := Function.update (fun _ => none) 0 (some (.slot 0)) } := by
    rw [Activation.follow_eq_step mem_entry (Nat.zero_le 1) rfl, Activation.step_block mem_entry rfl rfl]
    rfl
  obtain ⟨t, steps, location, slot, stored, calls⟩ := head_follows answers arguments blocks le_rfl
    { location := .block (2 * checks.length + 1), registers := Function.update (fun _ => none) 0 (some (.slot 0)) }
    rfl rfl
  rw [List.take_length] at stored calls
  have step := step_call (t.next answers) arguments blocks enough location slot stored
  have mem_call : ∃ block ∈ f.blocks, block.ref = 2 ∧
      (block.body.countP fun instruction => instruction.operation.isCall) ≤ 1 := by
    rw [blocks]
    exact ⟨_, List.mem_cons_of_mem _ (List.mem_cons_of_mem _ List.mem_cons_self), rfl, le_rfl⟩
  obtain ⟨block, mem, ref, single⟩ := mem_call
  rw [← Activation.follow_eq_step mem single (ref ▸ location)] at step
  refine ⟨_, by rw [blocks]; rfl, _, .head enter (steps.tail step), ?_, ?_⟩
  · simp only [Activation.next, calls, List.nil_append, List.length_nil]
  · simp only [calls, List.nil_append, List.length_nil]

/-- The identifiers asked for with the environment, and the clone of the first that is found. -/
theorem scan_eq {lookup : Base.Text → Datum δ} {cs : List Check} {i : Nat}
    (answered : ∀ j identifier, (scan getenv answers i cs).1[j]? = some (getenv, [.string identifier]) →
      answers.getD (i + j) .null = lookup identifier) :
    (scan getenv answers i cs).2 = (cs.find? fun check => lookup check.1 ≠ .null).map Prod.snd := by
  induction cs generalizing i with
  | nil => rfl
  | cons check rest ih =>
    have first : answers.getD i .null = lookup check.1 := by
      refine answered 0 check.1 ?_
      unfold scan
      split <;> rfl
    rw [List.find?_cons]
    by_cases unset : answers.getD i .null = .null
    · have looked : ¬(lookup check.1 ≠ .null) := fun set => set (first.symm.trans unset)
      rw [scan, if_pos unset] at answered ⊢
      rw [decide_eq_false looked]
      refine ih fun j identifier present => ?_
      have later := answered (j + 1) identifier (by rw [List.getElem?_cons_succ]; exact present)
      rwa [show i + (j + 1) = i + 1 + j by omega] at later
    · have looked : lookup check.1 ≠ .null := fun same => unset (first.trans same)
      rw [scan, if_neg unset, decide_eq_true looked]
      rfl

theorem mem_scan {answers : List (Datum δ)} {cs : List Check} {i : Nat} {call : Call δ}
    (mem : call ∈ (scan getenv answers i cs).1) : ∃ identifier, call = (getenv, [.string identifier]) := by
  induction cs generalizing i with
  | nil => cases mem
  | cons check rest ih =>
    unfold scan at mem
    split at mem
    · rcases List.mem_cons.mp mem with rfl | mem
      · exact ⟨check.1, rfl⟩
      · exact ih mem
    · exact ⟨check.1, List.mem_singleton.mp mem⟩

end
end Mull.Preparation
