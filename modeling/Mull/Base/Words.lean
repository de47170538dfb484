import Mathlib.Data.List.AList
import Mull.Base.Delimited

/-! Words between separators, and a map that is written entry by entry. -/

namespace Base

section
variable {α : Type*} (p : α → Bool)

/-- The runs of elements that are not separators, the way `std::istream_iterator<std::string>` reads them. -/
def words (input : List α) : List (List α) := (input.splitOnP p).filter fun word => !word.isEmpty

variable {p}

@[simp] theorem words_nil : words p [] = [] := by simp [words]

theorem words_append {d : α} (separator : p d = true) (xs ys : List α) :
    words p (xs ++ d :: ys) = words p xs ++ words p ys := by
  rw [words, List.splitOnP_append_cons xs ys separator, List.filter_append]
  rfl

theorem words_single {word : List α} (nonempty : word ≠ []) (free : ∀ c ∈ word, p c = false) :
    words p word = [word] := by
  rw [words, List.splitOnP_eq_singleton free]
  simp [nonempty]

theorem splitOnP_free {input chunk : List α} (mem : chunk ∈ input.splitOnP p) : ∀ c ∈ chunk, p c = false := by
  induction input generalizing chunk with
  | nil =>
    rw [List.splitOnP_nil, List.mem_singleton] at mem
    simp [mem]
  | cons c rest ih =>
    rw [List.splitOnP_cons_eq_if_modifyHead] at mem
    split at mem
    · rcases List.mem_cons.mp mem with rfl | mem
      · simp
      · exact ih mem
    · rename_i letter
      obtain ⟨first, others, eq⟩ := List.exists_cons_of_ne_nil (List.splitOnP_ne_nil p rest)
      rw [eq] at mem ih
      rcases List.mem_cons.mp mem with rfl | mem
      · intro x isIn
        rcases List.mem_cons.mp isIn with rfl | isIn
        · simpa using letter
        · exact ih (by simp) x isIn
      · exact ih (by simp [mem])

theorem mem_words {input word : List α} (mem : word ∈ words p input) :
    word ≠ [] ∧ ∀ c ∈ word, p c = false := by
  obtain ⟨mem, nonempty⟩ := List.mem_filter.mp mem
  exact ⟨by simpa using nonempty, splitOnP_free mem⟩

theorem words_joinChunks {d : α} (separator : p d = true) (chunks : List (List α)) :
    words p (joinChunks d chunks) = chunks.flatMap (words p) := by
  induction chunks with
  | nil => simp [joinChunks]
  | cons chunk rest ih =>
    rcases rest with _ | ⟨next, rest⟩
    · simp [joinChunks]
    · rw [joinChunks, words_append separator, ih]
      rfl

end

section
variable {κ α β : Type*} [DecidableEq κ]

def lastWith (key : α → κ) (k : κ) (xs : List α) : Option α := (xs.filter fun x => key x = k).getLast?

theorem lastWith_cons (key : α → κ) (k : κ) (x : α) (xs : List α) :
    lastWith key k (x :: xs) = (lastWith key k xs).or (if key x = k then some x else none) := by
  unfold lastWith
  by_cases own : key x = k
  · rw [List.filter_cons_of_pos (by simpa using own), List.getLast?_cons, if_pos own]
    cases (xs.filter fun x => key x = k).getLast? <;> rfl
  · rw [List.filter_cons_of_neg (by simpa using own), if_neg own, Option.or_none]

theorem lastWith_eq_none {key : α → κ} {k : κ} {xs : List α} :
    lastWith key k xs = none ↔ ∀ x ∈ xs, key x ≠ k := by
  simp [lastWith]

theorem lastWith_some {key : α → κ} {k : κ} {xs : List α} {x : α} (last : lastWith key k xs = some x) :
    x ∈ xs ∧ key x = k := by
  have mem := List.mem_of_getLast? last
  simpa using List.mem_filter.mp mem

theorem lastWith_append (key : α → κ) (k : κ) (xs ys : List α) :
    lastWith key k (xs ++ ys) = (lastWith key k ys).or (lastWith key k xs) := by
  rw [lastWith, List.filter_append, List.getLast?_append]
  rfl

/-- A map written once for every element: the last one with a key is read back. -/
theorem lookup_foldl_insert (key : α → κ) (value : α → β) (k : κ) (xs : List α) (map : AList fun _ : κ => β) :
    (xs.foldl (fun map x => map.insert (key x) (value x)) map).lookup k =
      ((lastWith key k xs).map value).or (map.lookup k) := by
  induction xs generalizing map with
  | nil => rfl
  | cons x xs ih =>
    rw [List.foldl_cons, ih, lastWith_cons]
    by_cases own : key x = k
    · subst own
      rw [AList.lookup_insert, if_pos rfl]
      cases lastWith key (key x) xs <;> rfl
    · rw [AList.lookup_insert_ne (Ne.symm own), if_neg own, Option.or_none]

theorem lookup_foldl_entries {γ : Type*} (f : κ → β → γ) (k : κ) (map : AList fun _ : κ => β) :
    (map.foldl (fun built a b => built.insert a (f a b)) (∅ : AList fun _ : κ => γ)).lookup k =
      (map.lookup k).map (f k) := by
  rw [AList.foldl, lookup_foldl_insert Sigma.fst fun entry : Sigma fun _ : κ => β => f entry.1 entry.2,
    AList.lookup_empty, Option.or_none]
  show _ = (List.dlookup k map.entries).map (f k)
  have nodup := map.nodupKeys
  generalize map.entries = entries at nodup
  induction entries with
  | nil => rfl
  | cons entry entries ih =>
    obtain ⟨fresh, distinct⟩ := List.nodupKeys_cons.mp nodup
    obtain ⟨a, b⟩ := entry
    rw [lastWith_cons]
    by_cases own : a = k
    · subst own
      have later : lastWith Sigma.fst a entries = none := by
        refine lastWith_eq_none.mpr fun e mem same => fresh ?_
        show a ∈ entries.keys
        rw [← same]
        exact List.mem_map_of_mem mem
      rw [later, List.dlookup_cons_eq]
      simp
    · rw [if_neg own, Option.or_none, ih distinct, List.dlookup_cons_ne _ _ (Ne.symm own)]

end

end Base
