import Mathlib.Data.List.Dedup
import Mathlib.Data.List.Perm.Basic

/-! Grouping the elements of a list by a key, the way a map from keys to vectors collects them. -/

namespace Base

section
variable {α κ : Type*} [DecidableEq κ] {key : α → κ}

/-- `map[key(x)].push_back(x)`. -/
def pushBack (key : α → κ) : List (κ × List α) → α → List (κ × List α)
  | [], x => [(key x, [x])]
  | (k, group) :: rest, x =>
    if k = key x then (k, group ++ [x]) :: rest else (k, group) :: pushBack key rest x

def groups (key : α → κ) (xs : List α) : List (κ × List α) := xs.foldl (pushBack key) []

/-- The groups of a list, in any order: one for each key, with the elements of that key in order. -/
structure Grouped (key : α → κ) (xs : List α) (pairs : List (κ × List α)) : Prop where
  keys_nodup : (pairs.map Prod.fst).Nodup
  group_eq : ∀ pair ∈ pairs, pair.2 = xs.filter fun x => key x = pair.1
  mem_keys : ∀ k, k ∈ pairs.map Prod.fst ↔ k ∈ xs.map key

theorem pushBack_keys (pairs : List (κ × List α)) (x : α) :
    (pushBack key pairs x).map Prod.fst =
      if key x ∈ pairs.map Prod.fst then pairs.map Prod.fst else pairs.map Prod.fst ++ [key x] := by
  induction pairs with
  | nil => simp [pushBack]
  | cons pair rest ih =>
    rw [pushBack]
    split
    · rename_i same
      simp [same]
    · rename_i other
      simp only [List.map_cons, ih, List.mem_cons, Ne.symm other, false_or]
      split <;> simp

theorem mem_pushBack {pairs : List (κ × List α)} {x : α} {pair : κ × List α}
    (nodup : (pairs.map Prod.fst).Nodup) (mem : pair ∈ pushBack key pairs x) :
    (pair ∈ pairs ∧ pair.1 ≠ key x) ∨ (∃ group, (key x, group) ∈ pairs ∧ pair = (key x, group ++ [x])) ∨
      (key x ∉ pairs.map Prod.fst ∧ pair = (key x, [x])) := by
  induction pairs with
  | nil => simpa [pushBack] using mem
  | cons head rest ih =>
    rw [List.map_cons, List.nodup_cons] at nodup
    rw [pushBack] at mem
    split at mem
    · rename_i same
      rcases List.mem_cons.mp mem with rfl | mem
      · exact .inr (.inl ⟨head.2, by simp [← same], by rw [same]⟩)
      · refine .inl ⟨by simp [mem], fun eq => nodup.1 ?_⟩
        rw [same, ← eq]
        exact List.mem_map_of_mem mem
    · rename_i other
      rcases List.mem_cons.mp mem with rfl | mem
      · exact .inl ⟨by simp, other⟩
      · rcases ih nodup.2 mem with ⟨old, ne⟩ | ⟨group, old, eq⟩ | ⟨new, eq⟩
        · exact .inl ⟨by simp [old], ne⟩
        · exact .inr (.inl ⟨group, by simp [old], eq⟩)
        · exact .inr (.inr ⟨by simpa [Ne.symm other] using new, eq⟩)

theorem Grouped.pushBack {xs : List α} {pairs : List (κ × List α)} (grouped : Grouped key xs pairs) (x : α) :
    Grouped key (xs ++ [x]) (pushBack key pairs x) := by
  refine ⟨?_, fun pair mem => ?_, fun k => ?_⟩
  · rw [pushBack_keys]
    split
    · exact grouped.keys_nodup
    · rename_i new
      refine List.nodup_append.mpr ⟨grouped.keys_nodup, List.nodup_singleton _, fun k old k' last => ?_⟩
      rw [List.mem_singleton.mp last]
      rintro rfl
      exact new old
  · rcases mem_pushBack grouped.keys_nodup mem with ⟨old, ne⟩ | ⟨group, old, rfl⟩ | ⟨new, rfl⟩
    · simp [List.filter_append, grouped.group_eq pair old, Ne.symm ne]
    · simpa [List.filter_append] using grouped.group_eq _ old
    · have none : xs.filter (fun y => key y = key x) = [] := by
        rw [List.filter_eq_nil_iff]
        intro y mem same
        exact new ((grouped.mem_keys _).mpr (of_decide_eq_true same ▸ List.mem_map_of_mem mem))
      simp [List.filter_append, none]
  · rw [pushBack_keys]
    split
    · rename_i old
      rw [grouped.mem_keys, List.map_append, List.mem_append, List.map_singleton, List.mem_singleton]
      exact ⟨.inl, fun h => h.elim id fun eq => eq ▸ (grouped.mem_keys _).mp old⟩
    · simp [List.map_append, ← grouped.mem_keys]

theorem groups_grouped (xs : List α) : Grouped key xs (groups key xs) := by
  have run (rest : List α) : ∀ before pairs, Grouped key before pairs →
      Grouped key (before ++ rest) (rest.foldl (Base.pushBack key) pairs) := by
    induction rest with
    | nil =>
      intro before pairs grouped
      simpa using grouped
    | cons x rest ih =>
      intro before pairs grouped
      simpa using ih _ _ (grouped.pushBack x)
  have start : Grouped key ([] : List α) [] := ⟨by simp, by simp, by simp⟩
  simpa [groups] using run xs [] [] start

theorem Grouped.perm {xs : List α} {pairs pairs' : List (κ × List α)} (grouped : Grouped key xs pairs)
    (perm : pairs'.Perm pairs) : Grouped key xs pairs' :=
  ⟨(perm.map _).nodup_iff.mpr grouped.keys_nodup, fun pair mem => grouped.group_eq pair (perm.mem_iff.mp mem),
    fun k => ((perm.map Prod.fst).mem_iff).trans (grouped.mem_keys k)⟩

theorem groups_map {β : Type*} {f : α → β} {key' : β → κ} (read : ∀ x, key' (f x) = key x) (xs : List α) :
    groups key' (xs.map f) = (groups key xs).map fun pair => (pair.1, pair.2.map f) := by
  have push (pairs : List (κ × List α)) (x : α) :
    Base.pushBack key' (pairs.map fun pair => (pair.1, pair.2.map f)) (f x) =
      (Base.pushBack key pairs x).map fun pair => (pair.1, pair.2.map f) := by
    induction pairs with
    | nil => simp [Base.pushBack, read]
    | cons pair rest ih =>
      rw [List.map_cons, Base.pushBack, Base.pushBack, ih, read]
      split <;> simp
  have run (rest : List α) : ∀ pairs : List (κ × List α),
      (rest.map f).foldl (Base.pushBack key') (pairs.map fun pair => (pair.1, pair.2.map f)) =
        (rest.foldl (Base.pushBack key) pairs).map fun pair => (pair.1, pair.2.map f) := by
    induction rest with
    | nil => exact fun _ => rfl
    | cons x rest ih =>
      intro pairs
      rw [List.map_cons, List.foldl_cons, List.foldl_cons, push, ih]
  exact run xs []

theorem Grouped.map {β : Type*} {f : α → β} {key' : β → κ} (read : ∀ x, key' (f x) = key x) {xs : List α}
    {pairs : List (κ × List α)} (grouped : Grouped key xs pairs) :
    Grouped key' (xs.map f) (pairs.map fun pair => (pair.1, pair.2.map f)) := by
  have keys : (pairs.map fun pair => (pair.1, pair.2.map f)).map Prod.fst = pairs.map Prod.fst := List.map_map
  refine ⟨keys ▸ grouped.keys_nodup, fun pair mem => ?_, fun k => ?_⟩
  · obtain ⟨own, listed, rfl⟩ := List.mem_map.mp mem
    rw [List.filter_map]
    refine congrArg (List.map f) ((grouped.group_eq own listed).trans (List.filter_congr fun x _ => ?_))
    rw [Function.comp_apply, read]
  · rw [keys, grouped.mem_keys, List.map_map]
    have same : key' ∘ f = key := funext read
    rw [same]

theorem Grouped.keys_perm {xs : List α} {pairs : List (κ × List α)} (grouped : Grouped key xs pairs) :
    (pairs.map Prod.fst).Perm (xs.map key).dedup := by
  refine (List.perm_ext_iff_of_nodup grouped.keys_nodup (List.nodup_dedup _)).mpr fun k => ?_
  rw [List.mem_dedup, grouped.mem_keys]

theorem Grouped.nonempty {xs : List α} {pairs : List (κ × List α)} (grouped : Grouped key xs pairs)
    {pair : κ × List α} (mem : pair ∈ pairs) : ∃ x ∈ xs, key x = pair.1 ∧ x ∈ pair.2 := by
  obtain ⟨x, mem_x, eq⟩ := List.mem_map.mp ((grouped.mem_keys _).mp (List.mem_map_of_mem mem))
  exact ⟨x, mem_x, eq, by simp [grouped.group_eq pair mem, mem_x, eq]⟩

theorem filter_key {xs : List α} (distinct : (xs.map key).Nodup) {x : α} (mem : x ∈ xs) :
    (xs.filter fun y => key y = key x) = [x] := by
  induction xs with
  | nil => cases mem
  | cons y ys ih =>
    rw [List.map_cons, List.nodup_cons] at distinct
    rcases List.mem_cons.mp mem with rfl | mem
    · have none : (ys.filter fun y => key y = key x) = [] := by
        rw [List.filter_eq_nil_iff]
        intro y mem same
        exact distinct.1 (of_decide_eq_true same ▸ List.mem_map_of_mem mem)
      simp [none]
    · have other : key y ≠ key x := fun same => distinct.1 (same ▸ List.mem_map_of_mem mem)
      simpa [other] using ih distinct.2 mem

theorem Grouped.singletons {xs : List α} {pairs : List (κ × List α)} (grouped : Grouped key xs pairs)
    (distinct : (xs.map key).Nodup) : pairs.Perm (xs.map fun x => (key x, [x])) := by
  have alone : ((xs.map fun x => (key x, [x])).map Prod.fst).Nodup := by
    simpa [Function.comp_def] using distinct
  refine (List.perm_ext_iff_of_nodup grouped.keys_nodup.of_map alone.of_map).mpr fun pair => ?_
  have unique (x : α) (mem_x : x ∈ xs) : xs.filter (fun y => key y = key x) = [x] := filter_key distinct mem_x
  constructor
  · intro mem
    obtain ⟨x, mem_x, eq, -⟩ := grouped.nonempty mem
    refine List.mem_map.mpr ⟨x, mem_x, ?_⟩
    rw [← unique x mem_x, eq, ← grouped.group_eq pair mem]
  · intro mem
    obtain ⟨x, mem_x, rfl⟩ := List.mem_map.mp mem
    obtain ⟨pair, mem, eq⟩ := List.mem_map.mp ((grouped.mem_keys (key x)).mpr (List.mem_map_of_mem mem_x))
    have same : pair = (key x, [x]) := by
      rw [← unique x mem_x, ← eq, ← grouped.group_eq pair mem]
    exact same ▸ mem

theorem filters_perm {keys : List κ} {xs : List α} (distinct : keys.Nodup) (within : ∀ x ∈ xs, key x ∈ keys) :
    (keys.flatMap fun k => xs.filter fun x => key x = k).Perm xs := by
  induction keys generalizing xs with
  | nil => rw [List.eq_nil_iff_forall_not_mem.mpr fun x mem => List.not_mem_nil (within x mem)]; rfl
  | cons k rest ih =>
    rw [List.nodup_cons] at distinct
    have elsewhere : (rest.flatMap fun k' => xs.filter fun x => key x = k') =
        rest.flatMap fun k' => (xs.filter fun x => !decide (key x = k)).filter fun x => key x = k' := by
      refine List.flatMap_congr fun other mem => ?_
      rw [List.filter_filter]
      refine List.filter_congr fun x _ => ?_
      by_cases here : key x = k
      · have ne : k ≠ other := fun eq => distinct.1 (eq ▸ mem)
        simp [here, ne]
      · simp [here]
    rw [List.flatMap_cons, elsewhere]
    refine ((ih distinct.2 fun x mem => ?_).append_left _).trans (List.filter_append_perm _ xs)
    obtain ⟨mem, other⟩ := List.mem_filter.mp mem
    simpa [by simpa using other] using within x mem

theorem Grouped.flatMap_perm {xs : List α} {pairs : List (κ × List α)} (grouped : Grouped key xs pairs) :
    (pairs.flatMap Prod.snd).Perm xs := by
  have groups : pairs.flatMap Prod.snd = (pairs.map Prod.fst).flatMap fun k =>
    xs.filter fun x => key x = k := by
    rw [List.flatMap_map]
    exact List.flatMap_congr grouped.group_eq
  rw [groups]
  exact filters_perm grouped.keys_nodup fun x mem => (grouped.mem_keys _).mpr (List.mem_map_of_mem mem)

end

end Base
