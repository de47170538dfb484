import Mathlib.Data.List.Basic

/-! Visiting a tree, parents before children, until a visit asks to stop. -/

namespace Base

inductive LabelledTree (α : Type)
  | node (label : α) (children : List (LabelledTree α))

section
variable {ε α β σ : Type}

mutual

/-- The labels with those of their parents, in the order they are visited. -/
def LabelledTree.preorder (parent : Option α) : LabelledTree α → List (Option α × α)
  | .node a children => (parent, a) :: preorderAll (some a) children

def preorderAll (parent : Option α) : List (LabelledTree α) → List (Option α × α)
  | [] => []
  | tree :: trees => tree.preorder parent ++ preorderAll parent trees

end

/-- A visit sees the parent, the node and what the visitor has so far; it says whether to go on. -/
abbrev Visit (ε α σ : Type) := Option α → α → σ → Except ε (Bool × σ)

def thenVisit (first : Except ε (Bool × σ)) (next : σ → Except ε (Bool × σ)) : Except ε (Bool × σ) :=
  match first with
  | .error e => .error e
  | .ok (false, s) => .ok (false, s)
  | .ok (true, s) => next s

mutual

def LabelledTree.traverse (visit : Visit ε α σ) (parent : Option α) : LabelledTree α → σ → Except ε (Bool × σ)
  | .node a children, s => thenVisit (visit parent a s) (traverseAll visit (some a) children)

def traverseAll (visit : Visit ε α σ) (parent : Option α) : List (LabelledTree α) → σ → Except ε (Bool × σ)
  | [], s => .ok (true, s)
  | tree :: trees, s => thenVisit (tree.traverse visit parent s) (traverseAll visit parent trees)

end

def visitEach (visit : Visit ε α σ) : List (Option α × α) → σ → Except ε (Bool × σ)
  | [], s => .ok (true, s)
  | (parent, a) :: rest, s => thenVisit (visit parent a s) (visitEach visit rest)

theorem thenVisit_assoc (first : Except ε (Bool × σ)) (second third : σ → Except ε (Bool × σ)) :
    thenVisit (thenVisit first second) third = thenVisit first fun s => thenVisit (second s) third := by
  rcases first with _ | ⟨_ | _, s⟩ <;> rfl

theorem visitEach_append (visit : Visit ε α σ) (xs ys : List (Option α × α)) (s : σ) :
    visitEach visit (xs ++ ys) s = thenVisit (visitEach visit xs s) (visitEach visit ys) := by
  induction xs generalizing s with
  | nil => rfl
  | cons x xs ih =>
    rw [List.cons_append, visitEach, visitEach, thenVisit_assoc]
    congr
    funext s'
    exact ih s'

mutual

theorem traverse_eq (visit : Visit ε α σ) (parent : Option α) (tree : LabelledTree α) (s : σ) :
    tree.traverse visit parent s = visitEach visit (tree.preorder parent) s := by
  cases tree with
  | node a children =>
    rw [LabelledTree.traverse, LabelledTree.preorder, visitEach]
    congr
    funext s'
    exact traverseAll_eq visit (some a) children s'

theorem traverseAll_eq (visit : Visit ε α σ) (parent : Option α) (trees : List (LabelledTree α)) (s : σ) :
    traverseAll visit parent trees s = visitEach visit (preorderAll parent trees) s := by
  cases trees with
  | nil => rfl
  | cons tree trees =>
    rw [traverseAll, preorderAll, visitEach_append, traverse_eq visit parent tree]
    congr
    funext s'
    exact traverseAll_eq visit parent trees s'

end

theorem visitEach_first {visit : Visit ε α (Option β)} {pick : Option α → α → Option β}
    (picks : ∀ parent a,
      visit parent a none = (pick parent a).elim (.ok (true, none)) fun b => .ok (false, some b))
        (xs : List (Option α × α)) :
    visitEach visit xs none =
      .ok (((xs.filterMap fun x => pick x.1 x.2).head?).isNone, (xs.filterMap fun x => pick x.1 x.2).head?) := by
  induction xs with
  | nil => rfl
  | cons x xs ih =>
    rw [visitEach, picks, List.filterMap_cons]
    cases pick x.1 x.2 with
    | none => exact ih
    | some b => rfl

theorem visitEach_all {visit : Visit ε α σ} {pick : Option α → α → Option β} (step : σ → β → σ)
    (Inv : σ → Prop)
    (steps : ∀ parent a s, Inv s → visit parent a s = .ok (true, (pick parent a).elim s (step s)))
    (keeps : ∀ s b, Inv s → Inv (step s b)) (xs : List (Option α × α)) {s : σ} (start : Inv s) :
    visitEach visit xs s = .ok (true, (xs.filterMap fun x => pick x.1 x.2).foldl step s) := by
  induction xs generalizing s with
  | nil => rfl
  | cons x xs ih =>
    rw [visitEach, steps _ _ s start, List.filterMap_cons]
    cases pick x.1 x.2 with
    | none => exact ih start
    | some b => exact ih (keeps s b start)

end

end Base
