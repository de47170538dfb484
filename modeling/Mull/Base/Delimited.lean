import Mathlib.Data.List.Infix

/-! Reading a stream delimiter by delimiter, the way `std::getline` does, and keeping what is not empty. -/

namespace Base

section
variable {α : Type*} {d : α}

def joinChunks (d : α) : List (List α) → List α
  | [] => []
  | [last] => last
  | chunk :: next :: rest => chunk ++ d :: joinChunks d (next :: rest)

theorem joinChunks_free {e : α} (distinct : e ≠ d) {chunks : List (List α)}
    (free : ∀ chunk ∈ chunks, e ∉ chunk) : e ∉ joinChunks d chunks := by
  induction chunks with
  | nil => simp [joinChunks]
  | cons chunk rest ih =>
    rcases rest with _ | ⟨next, rest⟩
    · simpa [joinChunks] using free
    · rw [joinChunks]
      simp only [List.mem_append, List.mem_cons, not_or]
      exact ⟨free chunk (by simp), distinct, ih fun c mem => free c (by simp [mem])⟩

theorem split_first {xs ys as bs : List α} (free : d ∉ xs) (free' : d ∉ ys) :
    xs ++ d :: as = ys ++ d :: bs ↔ xs = ys ∧ as = bs := by
  refine ⟨fun same => ?_, fun ⟨first, rest⟩ => by rw [first, rest]⟩
  induction xs generalizing ys with
  | nil =>
    cases ys with
    | nil => exact ⟨rfl, (List.cons.inj same).2⟩
    | cons y ys => exact absurd (List.cons.inj same).1 (List.ne_of_not_mem_cons free')
  | cons x xs ih =>
    cases ys with
    | nil => exact absurd (List.cons.inj same).1.symm (List.ne_of_not_mem_cons free)
    | cons y ys =>
      obtain ⟨rfl, tail⟩ := List.cons.inj same
      obtain ⟨rfl, rest⟩ := ih (List.not_mem_of_not_mem_cons free) (List.not_mem_of_not_mem_cons free') tail
      exact ⟨rfl, rest⟩

theorem split_last {xs ys as bs : List α} (free : d ∉ as) (free' : d ∉ bs) :
    xs ++ d :: as = ys ++ d :: bs ↔ xs = ys ∧ as = bs := by
  have reversed : xs ++ d :: as = ys ++ d :: bs ↔ as.reverse ++ d :: xs.reverse = bs.reverse ++
    d :: ys.reverse := by
    rw [← List.reverse_inj]
    simp
  rw [reversed, split_first (by rwa [List.mem_reverse]) (by rwa [List.mem_reverse]), List.reverse_inj,
    List.reverse_inj, and_comm]

/-- Records that each end in the delimiter, with more delimiters before them, between them and after. -/
inductive Padded (d : α) : List (List α) → List α → Prop
  | done (count : Nat) : Padded d [] (List.replicate count d)
  | record (count : Nat) {record : List α} {records : List (List α)} {content : List α} :
      Padded d records content → Padded d (record :: records)
      (List.replicate count d ++ record ++ d :: content)

theorem padded_flatten (records : List (List α)) : Padded d records (records.flatMap (· ++ [d])) := by
  induction records with
  | nil => exact .done 0
  | cons record records ih => simpa using Padded.record 0 ih

variable [DecidableEq α]

/-- What repeated reads up to the delimiter return. A read that finds nothing before the end of the
stream fails, so no chunk follows a last delimiter. -/
def getlines (d : α) : List α → List (List α)
  | [] => []
  | c :: rest =>
    if c = d then [] :: getlines d rest
    else match getlines d rest with
      | [] => [[c]]
      | line :: lines => (c :: line) :: lines

/-- The chunks between delimiters, without the empty ones. -/
def splitChunks (d : α) (input : List α) : List (List α) :=
  (getlines d input).filter fun chunk => !chunk.isEmpty

def IsChunk (d : α) (chunk : List α) : Prop := chunk ≠ [] ∧ d ∉ chunk

theorem getlines_append {chunk : List α} (free : d ∉ chunk) (rest : List α) :
    getlines d (chunk ++ d :: rest) = chunk :: getlines d rest := by
  induction chunk with
  | nil => simp [getlines]
  | cons c chunk ih =>
    rw [List.mem_cons, not_or] at free
    simp [getlines, Ne.symm free.1, ih free.2]

theorem getlines_ended {lines : List (List α)} (free : ∀ line ∈ lines, d ∉ line) :
    getlines d (lines.flatMap (· ++ [d])) = lines := by
  induction lines with
  | nil => rfl
  | cons line lines ih =>
    rw [List.flatMap_cons, List.append_assoc, List.singleton_append, getlines_append (free line (by simp)),
      ih fun l mem => free l (List.mem_cons_of_mem _ mem)]

theorem getlines_last {chunk : List α} (ok : IsChunk d chunk) : getlines d chunk = [chunk] := by
  obtain ⟨nonempty, free⟩ := ok
  induction chunk with
  | nil => exact absurd rfl nonempty
  | cons c chunk ih =>
    rw [List.mem_cons, not_or] at free
    rcases chunk with _ | ⟨c', chunk⟩
    · simp [getlines, Ne.symm free.1]
    · rw [getlines, if_neg (Ne.symm free.1), ih (by simp) free.2]

theorem getlines_free {input chunk : List α} (mem : chunk ∈ getlines d input) : d ∉ chunk := by
  induction input generalizing chunk with
  | nil => simp [getlines] at mem
  | cons c rest ih =>
    rw [getlines] at mem
    split at mem
    · rcases List.mem_cons.mp mem with rfl | mem
      · simp
      · exact ih mem
    · rename_i other
      split at mem
      · rw [List.mem_singleton.mp mem]
        simpa using Ne.symm other
      · rename_i line lines lines_eq
        rcases List.mem_cons.mp mem with rfl | mem
        · have free : d ∉ line := ih (by simp [lines_eq])
          simp [Ne.symm other, free]
        · exact ih (by simp [lines_eq, mem])

theorem splitChunks_isChunk {input chunk : List α} (mem : chunk ∈ splitChunks d input) : IsChunk d chunk := by
  obtain ⟨mem, nonempty⟩ := List.mem_filter.mp mem
  exact ⟨by simpa using nonempty, getlines_free mem⟩

@[simp] theorem splitChunks_nil : splitChunks d ([] : List α) = [] := rfl

theorem splitChunks_append {chunk : List α} (ok : IsChunk d chunk) (rest : List α) :
    splitChunks d (chunk ++ d :: rest) = chunk :: splitChunks d rest := by
  simp [splitChunks, getlines_append ok.2, ok.1]

@[simp] theorem splitChunks_delimiter (rest : List α) : splitChunks d (d :: rest) = splitChunks d rest := by
  simp [splitChunks, getlines]

theorem splitChunks_replicate (count : Nat) (rest : List α) :
    splitChunks d (List.replicate count d ++ rest) = splitChunks d rest := by
  induction count with
  | zero => rfl
  | succ count ih => simp [List.replicate_succ, ih]

theorem splitChunks_joinChunks {chunks : List (List α)} (ok : ∀ chunk ∈ chunks, IsChunk d chunk) :
    splitChunks d (joinChunks d chunks) = chunks := by
  induction chunks with
  | nil => rfl
  | cons chunk rest ih =>
    rcases rest with _ | ⟨next, rest⟩
    · have ok := ok chunk (by simp)
      simp [joinChunks, splitChunks, getlines_last ok, ok.1]
    · rw [joinChunks, splitChunks_append (ok chunk (by simp)), ih fun c mem => ok c (by simp [mem])]

theorem Padded.splitChunks_eq {records : List (List α)} {content : List α}
    (padded : Padded d records content) (ok : ∀ record ∈ records, IsChunk d record) :
    splitChunks d content = records := by
  induction padded with
  | done count => simpa using splitChunks_replicate (d := d) count []
  | @record count record records content _ ih =>
    rw [List.append_assoc, splitChunks_replicate, splitChunks_append (ok record (by simp)),
      ih fun r mem => ok r (by simp [mem])]

end

end Base
