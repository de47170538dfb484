import Mull.Base.OrderedSet

/-! Names of groups whose members may be groups again, expanded to the names that are not groups. -/

namespace Base

section
variable {α : Type*} (mapping : α → Option (List α))

/-- What a name stands for: itself, or what a member of its group stands for. -/
inductive Leaf : α → α → Prop
  | single {name : α} (alone : mapping name = none) : Leaf name name
  | member {group member leaf : α} {members : List α} (grouped : mapping group = some members)
      (mem : member ∈ members) (below : Leaf member leaf) : Leaf group leaf

/-- Members rank below their group, so that no group contains itself. -/
def Ranked (rank : α → Nat) : Prop :=
  ∀ group members, mapping group = some members → 0 < rank group ∧ ∀ member ∈ members,
    rank member < rank group

variable {mapping}

theorem leaf_single {name leaf : α} (alone : mapping name = none) : Leaf mapping name leaf ↔ leaf = name := by
  constructor
  · intro stands
    cases stands with
    | single => rfl
    | member grouped => simp [alone] at grouped
  · rintro rfl
    exact .single alone

theorem leaf_group {group leaf : α} {members : List α} (grouped : mapping group = some members) :
    Leaf mapping group leaf ↔ ∃ member ∈ members, Leaf mapping member leaf := by
  constructor
  · intro stands
    cases stands with
    | single alone => simp [alone] at grouped
    | member grouped' mem below =>
      obtain rfl := Option.some.inj (grouped.symm.trans grouped')
      exact ⟨_, mem, below⟩
  · rintro ⟨member, mem, below⟩
    exact .member grouped mem below

theorem Leaf.not_group {name leaf : α} (stands : Leaf mapping name leaf) : mapping leaf = none := by
  induction stands with
  | single alone => exact alone
  | member _ _ _ ih => exact ih

variable [LinearOrder α]

variable (mapping) in
/-- `none` where groups are nested more deeply than the given depth. -/
def expandGroups : Nat → List α → OrderedSet α → Option (OrderedSet α)
  | 0, _, _ => none
  | depth + 1, groups, expandedGroups =>
    groups.foldlM (fun expanded group =>
      match mapping group with
      | none => some (expanded.insert group)
      | some members => expandGroups depth members expanded) expandedGroups

/-- A depth beyond the ranks is enough, and what comes out is what the names stand for. -/
theorem expandGroups_spec {rank : α → Nat} (ranked : Ranked mapping rank) (depth : Nat) (groups : List α)
    (expandedGroups : OrderedSet α) (deep : ∀ group ∈ groups, rank group < depth) (positive : 0 < depth) :
    ∃ expanded, expandGroups mapping depth groups expandedGroups = some expanded ∧
      ∀ leaf, leaf ∈ expanded.elements ↔
        leaf ∈ expandedGroups.elements ∨ ∃ group ∈ groups, Leaf mapping group leaf := by
  induction depth generalizing groups expandedGroups with
  | zero => omega
  | succ depth ih =>
    rw [expandGroups]
    induction groups generalizing expandedGroups with
    | nil => exact ⟨expandedGroups, rfl, by simp⟩
    | cons group groups ihGroups =>
      have others : ∀ other ∈ groups, rank other < depth + 1 := by
        intro other mem
        exact deep other (List.mem_cons_of_mem group mem)
      rw [List.foldlM_cons]
      cases grouped : mapping group with
      | none =>
        obtain ⟨expanded, done, members⟩ := ihGroups (expandedGroups.insert group) others
        refine ⟨expanded, done, ?_⟩
        intro leaf
        simp only [members, OrderedSet.mem_insert, List.mem_cons, exists_eq_or_imp, leaf_single grouped]
        tauto
      | some members =>
        obtain ⟨above, below⟩ := ranked group members grouped
        have fits := deep group List.mem_cons_self
        obtain ⟨inner, opened, innerMembers⟩ := ih members expandedGroups
          (fun member mem => Nat.lt_of_lt_of_le (below member mem) (Nat.le_of_lt_succ fits)) (by omega)
        obtain ⟨expanded, done, rest⟩ := ihGroups inner others
        dsimp only
        rw [opened]
        refine ⟨expanded, done, ?_⟩
        intro leaf
        simp only [rest, innerMembers, List.mem_cons, exists_eq_or_imp, leaf_group grouped, or_assoc]

end

end Base
