import Mathlib.Data.List.Basic

/-! The lines of a text, each with the delimiter that ends it; the last one has none and may be empty. -/

namespace Base

section
variable {α : Type*} [DecidableEq α] (d : α)

def lines : List α → List (List α)
  | [] => [[]]
  | x :: xs => if x = d then [x] :: lines xs else (lines xs).modifyHead (x :: ·)

theorem lines_ne_nil (xs : List α) : lines d xs ≠ [] := by
  cases xs with
  | nil => simp [lines]
  | cons x xs =>
    rw [lines]
    split
    · simp
    · simpa [List.modifyHead_eq_nil_iff] using lines_ne_nil xs

@[simp] theorem lines_flatten (xs : List α) : (lines d xs).flatten = xs := by
  induction xs with
  | nil => rfl
  | cons x xs ih =>
    rw [lines]
    split
    · simp [ih]
    · obtain ⟨first, rest, parts⟩ := List.exists_cons_of_ne_nil (lines_ne_nil d xs)
      rw [parts, List.flatten_cons] at ih
      simp [parts, ih]

theorem lines_length_le (xs : List α) : (lines d xs).length ≤ xs.length + 1 := by
  induction xs with
  | nil => exact Nat.le_refl _
  | cons x xs ih =>
    rw [lines, List.length_cons]
    split
    · rw [List.length_cons]
      omega
    · rw [List.length_modifyHead]
      omega

variable {d}

theorem lines_free {text : List α} (free : d ∉ text) : lines d text = [text] := by
  induction text with
  | nil => rfl
  | cons x xs ih =>
    obtain ⟨other, below⟩ := not_or.mp (mt List.mem_cons.mpr free)
    rw [lines, if_neg (Ne.symm other), ih below]
    rfl

theorem lines_ended {text : List α} (free : d ∉ text) (rest : List α) :
    lines d (text ++ d :: rest) = (text ++ [d]) :: lines d rest := by
  induction text with
  | nil =>
    rw [List.nil_append, lines, if_pos rfl]
    rfl
  | cons x xs ih =>
    obtain ⟨other, below⟩ := not_or.mp (mt List.mem_cons.mpr free)
    rw [List.cons_append, lines, if_neg (Ne.symm other), ih below]
    rfl

theorem lines_inner {text : List α} (inner : d ∉ text.dropLast) :
    lines d text = [text] ∨ lines d text = [text, []] := by
  by_cases empty : text = []
  · rw [empty]
    exact .inl rfl
  · have parts := List.dropLast_append_getLast empty
    by_cases last : text.getLast empty = d
    · rw [last] at parts
      refine .inr ?_
      rw [← parts, lines_ended inner []]
      rfl
    · refine .inl (lines_free ?_)
      intro mem
      rw [← parts] at mem
      rcases List.mem_append.mp mem with before | mem
      · exact inner before
      · exact last (List.mem_singleton.mp mem).symm

theorem lines_inner_next {text : List α} (inner : d ∉ text.dropLast) {above below : List (List α)}
    {line next : List α} (parts : lines d text = above ++ line :: next :: below) : next = [] := by
  rcases lines_inner inner with one | two
  · rw [one] at parts
    have count := congrArg List.length parts
    simp only [List.length_append, List.length_cons, List.length_nil] at count
    omega
  · rw [two] at parts
    have count := congrArg List.length parts
    simp only [List.length_append, List.length_cons, List.length_nil] at count
    have start : above = [] := List.length_eq_zero_iff.mp (by omega)
    rw [start] at parts
    exact (List.cons.inj (List.cons.inj parts).2).1.symm

end

section
variable {α : Type*} (d : α)

/-- Every line but the last one ends with its only delimiter. -/
inductive Lined : List (List α) → Prop
  | last {text : List α} (free : d ∉ text) : Lined [text]
  | line {text : List α} {rest : List (List α)} (free : d ∉ text) (below : Lined rest) :
      Lined ((text ++ [d]) :: rest)

variable {d}

theorem Lined.ended {parts : List (List α)} (lined : Lined d parts) {i : Nat} (inner : i + 1 < parts.length) :
    ∃ text, parts[i]? = some (text ++ [d]) ∧ d ∉ text := by
  induction lined generalizing i with
  | last free => simp at inner
  | @line text rest free _ ih =>
    cases i with
    | zero => exact ⟨text, rfl, free⟩
    | succ i =>
      rw [List.getElem?_cons_succ]
      exact ih (by simpa using inner)

theorem Lined.unended {parts : List (List α)} (lined : Lined d parts) {i : Nat} {line : List α}
    (found : parts[i]? = some line) (outer : parts.length ≤ i + 1) : d ∉ line := by
  induction lined generalizing i with
  | last free =>
    cases i with
    | zero =>
      obtain rfl := Option.some.inj found
      exact free
    | succ i => simp at found
  | line free below ih =>
    cases i with
    | zero =>
      cases below <;> simp at outer
    | succ i =>
      rw [List.getElem?_cons_succ] at found
      exact ih found (by simpa using outer)

theorem lines_lined [DecidableEq α] (xs : List α) : Lined d (lines d xs) := by
  induction xs with
  | nil => exact .last List.not_mem_nil
  | cons x xs ih =>
    rw [lines]
    split
    · rename_i same
      rw [same]
      exact .line List.not_mem_nil ih
    · rename_i other
      generalize lines d xs = parts at ih ⊢
      have free {text : List α} (below : d ∉ text) : d ∉ x :: text := by
        simp only [List.mem_cons, not_or]
        exact ⟨Ne.symm other, below⟩
      cases ih with
      | last below => exact .last (free below)
      | line below rest => exact .line (free below) rest

end

section
variable {α : Type*}

def ends (start : Nat) : List (List α) → List Nat
  | [] => []
  | [last] => [start + last.length + 1]
  | line :: next :: rest => (start + line.length) :: ends (start + line.length) (next :: rest)

theorem ends_cons (start : Nat) (line : List α) {rest : List (List α)} (more : rest ≠ []) :
    ends start (line :: rest) = (start + line.length) :: ends (start + line.length) rest := by
  cases rest with
  | nil => exact absurd rfl more
  | cons next rest => rfl

@[simp] theorem ends_length (start : Nat) (parts : List (List α)) :
    (ends start parts).length = parts.length := by
  induction parts generalizing start with
  | nil => rfl
  | cons line rest ih =>
    cases rest with
    | nil => rfl
    | cons next rest =>
      rw [ends_cons start line (List.cons_ne_nil _ _), List.length_cons, List.length_cons, ih]

def lineStart (parts : List (List α)) (i : Nat) : Nat := (parts.take i).flatten.length

theorem ends_getElem? (start : Nat) {parts : List (List α)} {i : Nat} (inside : i < parts.length) :
    (ends start parts)[i]? = some (start + lineStart parts (i + 1) + if i + 1 = parts.length then 1 else 0) := by
  induction parts generalizing start i with
  | nil => simp at inside
  | cons line rest ih =>
    cases rest with
    | nil =>
      obtain rfl : i = 0 := by simpa using inside
      simp [ends, lineStart]
    | cons next rest =>
      rw [ends_cons start line (List.cons_ne_nil _ _)]
      cases i with
      | zero => simp [lineStart]
      | succ i =>
        rw [List.getElem?_cons_succ, ih (start + line.length) (by simpa using inside)]
        simp [lineStart, Nat.add_assoc]

theorem lineStart_succ {parts : List (List α)} {i : Nat} {line : List α} (found : parts[i]? = some line) :
    lineStart parts (i + 1) = lineStart parts i + line.length := by
  simp [lineStart, List.take_add_one, found]

theorem lineStart_le (parts : List (List α)) (i : Nat) : lineStart parts i ≤ parts.flatten.length := by
  have whole := congrArg (fun parts => parts.flatten.length) (List.take_append_drop i parts)
  simp only [List.flatten_append, List.length_append] at whole
  unfold lineStart
  omega

theorem flatten_eq_line {parts : List (List α)} {i : Nat} {line : List α} (found : parts[i]? = some line) :
    ∃ front rest, parts.flatten = front ++ (line ++ rest) ∧ front.length = lineStart parts i ∧
      (parts.length = i + 1 → rest = []) := by
  obtain ⟨inside, rfl⟩ := List.getElem?_eq_some_iff.mp found
  refine ⟨(parts.take i).flatten, (parts.drop (i + 1)).flatten, ?_, rfl, ?_⟩
  · have split : parts.take i ++ parts[i] :: parts.drop (i + 1) = parts := by simp
    rw [← List.flatten_cons, ← List.flatten_append, split]
  · intro outer
    rw [List.drop_of_length_le (Nat.le_of_eq outer), List.flatten_nil]

end

end Base
