import Mull.LLVM.Execution
import Mull.LLVM.Phis
import Mull.Preparation.Passes

/-! What a trampoline does: it looks up the identifiers from the last one to the first and calls the clone of the
first that is set, or the copy of the original. -/

namespace LLVM
open Relation

section
variable {δ : Type} {arguments : List (Datum δ)}

theorem Activation.eval_arguments (s : Activation δ) {count : Nat} (enough : count ≤ arguments.length) :
    ((List.range count).map Value.argument).mapM (s.eval arguments) = some (arguments.take count) := by
  induction count with
  | zero => rfl
  | succ count ih =>
    have present : arguments[count]? = some arguments[count] := List.getElem?_eq_getElem enough
    rw [List.range_succ, List.map_append, List.mapM_append, ih (Nat.le_of_succ_le enough),
      List.take_add_one, present]
    simp [eval, present]

variable [DecidableEq δ] {f : Function} {answer : Answer δ}

theorem Activation.step_block {s : Activation δ} {block : BasicBlock} (mem : block ∈ f.blocks)
    (plain : block.phis = []) (here : s.location = .block block.ref) : s.step f answer arguments =
      (block.body.foldlM (execute answer arguments) s).bind fun s => s.leave arguments block.terminator := by
  unfold step
  simp only [here, Function.block?_of_mem mem, plain, guard, bind, Option.bind_some, if_true, pure]

theorem Function.steps_head {s t u : Activation δ} (step : s.step f answer arguments = some t)
    (rest : f.Steps answer arguments t u) : f.Steps answer arguments s u :=
  ReflTransGen.head step rest

end
end LLVM

namespace Mull.Preparation
open LLVM Relation

section
variable {δ : Type} [DecidableEq δ]

def callee (answer : Answer δ) (getenv copy : FunctionRef) (checks : List Check) : FunctionRef :=
  checks.foldl (fun callee check => if answer getenv [.string check.1] = .null then callee else check.2) copy

theorem mem_checkBlocks (base : Nat) (getenv : Value) {checks : List Check} {i : Nat} {check : Check}
    (present : checks[i]? = some check) (k : Nat) :
    mutationCheckBlock base getenv (k + i) check ∈ checkBlocks base getenv k checks ∧
      mutationBlock base (k + i) check ∈ checkBlocks base getenv k checks := by
  induction checks generalizing i k with
  | nil => cases present
  | cons first rest ih =>
    unfold checkBlocks
    cases i with
    | zero =>
      cases present
      simp
    | succ i =>
      obtain ⟨mem_check, mem_mutation⟩ := ih present (k + 1)
      rw [Nat.succ_add, ← Nat.add_succ] at mem_check mem_mutation
      simp [mem_check, mem_mutation]

section
variable {f original : Function} {getenv : Value} {lookup copy : FunctionRef} {checks : List Check}

variable (answer : Answer δ) (arguments : List (Datum δ))

theorem step_check (reaches : getenv.callee? = some lookup) {k : Nat} {check : Check}
    (mem : mutationCheckBlock 0 getenv k check ∈ f.blocks) {s : Activation δ}
    (here : s.location = .block (2 * k + 3)) : ∃ registers, s.step f answer arguments = some
      ⟨.block (if answer lookup [.string check.1] = .null then 2 * k + 1 else 2 * k + 4), registers, s.slots,
        s.calls ++ [(lookup, [.string check.1])]⟩ ∧ registers 0 = s.registers 0 := by
  rw [Activation.step_block mem rfl here]
  have evaluated : [Value.string check.1].mapM (s.eval arguments) = some [.string check.1] := rfl
  rw [mutationCheckBlock, List.foldlM_cons, Activation.execute_call reaches evaluated]
  simp only [List.foldlM_cons, List.foldlM_nil, Activation.execute, Activation.eval, Activation.setRegister,
    Activation.leave, bind, pure, Option.bind_some, Function.update_self]
  have kept (x y : Option (Datum δ)) :
      Function.update (Function.update s.registers (2 * k + 3) x) (2 * k + 4) y 0 = s.registers 0 := by
    rw [Function.update_of_ne (Nat.succ_ne_zero _).symm, Function.update_of_ne (Nat.succ_ne_zero _).symm]
  by_cases unset : answer lookup [.string check.1] = .null
  · exact ⟨_,
      by simp only [unset, ne_eq, not_true_eq_false, decide_false, Bool.false_eq_true, if_false, if_true]; rfl,
      kept _ _⟩
  · exact ⟨_, by simp only [unset, ne_eq, not_false_eq_true, decide_true, if_true, if_false]; rfl, kept _ _⟩

theorem step_store {block : BasicBlock} {target : FunctionRef} (mem : block ∈ f.blocks)
    (plain : block.phis = []) (body : block.body = [⟨0, .store (.function target) (.register 0), none⟩])
    (jump : block.terminator = .br 2)
    {s : Activation δ} (here : s.location = .block block.ref) (slot : s.registers 0 = some (.slot 0)) :
    s.step f answer arguments = some
      { s with slots := Function.update s.slots 0 (some (.function target)), location := .block 2 } := by
  rw [Activation.step_block mem plain here, body, jump]
  simp only [List.foldlM_cons, List.foldlM_nil, Activation.execute, Activation.eval, slot,
    Activation.leave, bind, Option.bind_some, pure]

/-- From the head of the first `k` checks control gets to the call with the callee in the slot. -/
theorem head_steps (reaches : getenv.callee? = some lookup)
    (blocks : f.blocks = trampolineBlocks 0 original getenv copy checks) {k : Nat}
    (le : k ≤ checks.length) (s : Activation δ) (here : s.location = .block (2 * k + 1))
    (slot : s.registers 0 = some (.slot 0)) :
    ∃ t lookups, f.Steps answer arguments s t ∧ t.location = .block 2 ∧ t.registers 0 = some (.slot 0) ∧
      t.slots 0 = some (.function (callee answer lookup copy (checks.take k))) ∧
      t.calls = s.calls ++ lookups ∧ ∀ call ∈ lookups, call.1 = lookup := by
  induction k generalizing s with
  | zero =>
    have mem :
      (⟨1, [], [⟨0, .store (.function copy) (.register 0), none⟩], .br 2, none⟩ : BasicBlock) ∈ f.blocks := by
      rw [blocks]
      exact List.mem_cons_of_mem _ List.mem_cons_self
    have step := step_store answer arguments mem rfl rfl rfl here slot
    exact ⟨_, [], .single step, rfl, slot, by simp [callee], by simp, nofun⟩
  | succ k ih =>
    have inside : k < checks.length := le
    have present : checks[k]? = some checks[k] := List.getElem?_eq_getElem inside
    obtain ⟨mem_check, mem_mutation⟩ := mem_checkBlocks 0 getenv present 0
    rw [Nat.zero_add] at mem_check mem_mutation
    have placed {block : BasicBlock} (mem : block ∈ checkBlocks 0 getenv 0 checks) : block ∈ f.blocks := by
      rw [blocks]
      exact List.mem_cons_of_mem _ (List.mem_cons_of_mem _ (List.mem_cons_of_mem _ mem))
    have last : callee answer lookup copy (checks.take (k + 1)) =
        if answer lookup [.string checks[k].1] = .null then callee answer lookup copy (checks.take k)
        else checks[k].2 := by
      rw [List.take_add_one, present]
      unfold callee
      rw [List.foldl_append]
      rfl
    obtain ⟨registers, check, kept⟩ := step_check answer arguments reaches (placed mem_check) here
    rw [slot] at kept
    rw [last]
    by_cases unset : answer lookup [.string checks[k].1] = .null
    · rw [if_pos unset] at check ⊢
      obtain ⟨t, lookups, steps, location, slot, stored, calls, all⟩ := ih (Nat.le_of_lt inside)
        ⟨.block (2 * k + 1), registers, s.slots, s.calls ++ [(lookup, [.string checks[k].1])]⟩ rfl kept
      refine ⟨t, (lookup, [.string checks[k].1]) :: lookups, Function.steps_head check steps,
        location, slot, stored, ?_, ?_⟩
      · rw [calls, List.append_assoc]
        rfl
      · simpa using all
    · rw [if_neg unset] at check ⊢
      have store := step_store answer arguments (placed mem_mutation) rfl rfl rfl
        (s := ⟨.block (2 * k + 4), registers, s.slots, s.calls ++ [(lookup, [.string checks[k].1])]⟩) rfl kept
      exact ⟨_, [(lookup, [.string checks[k].1])], Function.steps_head check (.single store), rfl,
        kept, by simp, rfl, by simp⟩

theorem step_call (blocks : f.blocks = trampolineBlocks 0 original getenv copy checks)
    (enough : original.type.parameters.length ≤ arguments.length) {s : Activation δ} {target : FunctionRef}
    (here : s.location = .block 2) (slot : s.registers 0 = some (.slot 0))
    (stored : s.slots 0 = some (.function target)) :
    s.step f answer arguments = some
      { location := .returned (if original.type.returnType = .void then none
          else some (answer target (arguments.take original.type.parameters.length)))
        registers := Function.update (Function.update s.registers 1 (some (.function target))) 2
          (some (answer target (arguments.take original.type.parameters.length)))
        slots := s.slots
        calls := s.calls ++ [(target, arguments.take original.type.parameters.length)] } := by
  have mem : (⟨2, [], [⟨1, .load (.register 0), none⟩,
      ⟨2, .call (.register 1) ((List.range original.type.parameters.length).map .argument) original.type
        original.attributes original.callingConv, none⟩],
      .ret (if original.type.returnType = .void then none else some (.register 2)), none⟩ :
        BasicBlock) ∈ f.blocks := by
    rw [blocks]
    exact List.mem_cons_of_mem _ (List.mem_cons_of_mem _ List.mem_cons_self)
  rw [Activation.step_block mem rfl here]
  simp only [List.foldlM_cons, List.foldlM_nil, Activation.execute, Activation.eval, slot, stored,
    Option.map_some,
    Activation.setRegister, Activation.eval_arguments _ enough, bind, Option.bind_some, pure,
    Function.update_self]
  by_cases void : original.type.returnType = .void
  · simp only [void, if_true, Activation.leave]
  · simp only [void, if_false, Activation.leave, Activation.eval, Function.update_self, Option.map_some]

theorem step_entry (blocks : f.blocks = trampolineBlocks 0 original getenv copy checks) :
    f.Steps answer arguments { location := .block 0 }
      { location := .block (2 * checks.length + 1)
        registers := Function.update (fun _ => none) 0 (some (.slot 0)) } := by
  have mem_entry : (⟨0, [], [⟨0, .alloca .pointer, none⟩], .br (2 * checks.length + 1), none⟩ : BasicBlock) ∈
      f.blocks := by
    rw [blocks]
    exact List.mem_cons_self
  refine .single ?_
  rw [Activation.step_block mem_entry rfl rfl]
  rfl

theorem trampoline_stuck {name : Base.Text} (missing : getenv = .global name none) (some_check : checks ≠ [])
    (blocks : f.blocks = trampolineBlocks 0 original getenv copy checks) {calls : List (Call δ)}
    {value : Option (Datum δ)} : ¬ f.Runs answer arguments calls value := by
  intro runs
  obtain ⟨entry, head, s, steps, returned, -⟩ := runs
  rw [blocks] at head
  obtain rfl := Option.some.inj head
  obtain ⟨k, length⟩ : ∃ k, checks.length = k + 1 :=
    Nat.exists_eq_succ_of_ne_zero (mt List.length_eq_zero_iff.mp some_check)
  have present : checks[k]? = some checks[k] := List.getElem?_eq_getElem (length ▸ Nat.lt_succ_self k)
  have mem : mutationCheckBlock 0 getenv k checks[k] ∈ f.blocks := by
    have mem_check := (mem_checkBlocks 0 getenv present 0).1
    rw [Nat.zero_add] at mem_check
    rw [blocks]
    exact List.mem_cons_of_mem _ (List.mem_cons_of_mem _ (List.mem_cons_of_mem _ mem_check))
  have enter := step_entry answer arguments blocks
  rw [length] at enter
  have stop : Activation.step f answer arguments
      { location := .block (2 * (k + 1) + 1), registers := Function.update (fun _ => none) 0 (some (.slot 0)) } =
        none := by
    rw [Activation.step_block mem rfl rfl, missing]
    rfl
  have stop_returned : s.step f answer arguments = none := by
    unfold Activation.step
    rw [returned]
  rw [Base.run_unique steps enter stop_returned stop] at returned
  cases returned

/-- A call of a trampoline looks identifiers up, calls one function with the fixed arguments and returns what it
returns. -/
theorem trampoline_runs (reaches : getenv.callee? = some lookup)
    (blocks : f.blocks = trampolineBlocks 0 original getenv copy checks)
    (enough : original.type.parameters.length ≤ arguments.length) :
    ∃ lookups, (∀ call ∈ lookups, call.1 = lookup) ∧ f.Runs answer arguments
      (lookups ++ [(callee answer lookup copy checks, arguments.take original.type.parameters.length)])
      (if original.type.returnType = .void then none
        else some (answer (callee answer lookup copy checks)
          (arguments.take original.type.parameters.length))) := by
  obtain ⟨t, lookups, steps, location, slot, stored, calls, all⟩ :=
    head_steps answer arguments reaches blocks le_rfl
      { location := .block (2 * checks.length + 1)
        registers := Function.update (fun _ => none) 0 (some (.slot 0)) }
      rfl rfl
  rw [List.take_length] at stored
  have step := step_call answer arguments blocks enough location slot stored
  have enter := step_entry answer arguments blocks
  have runs : f.Steps answer arguments { location := .block 0 } _ := enter.trans (steps.tail step)
  refine ⟨lookups, all, _, by rw [blocks]; rfl, _, runs, rfl, ?_⟩
  rw [calls]
  rfl

end
end
end Mull.Preparation
