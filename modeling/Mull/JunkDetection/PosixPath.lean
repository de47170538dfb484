import Mull.JunkDetection.CompilationDatabase

/-! `llvm::sys::path` in its POSIX style. -/

namespace Mull.JunkDetection
open Base

namespace Posix

def components (path : Text) : List Text := splitChunks '/' path

/-- One component more, the last one first. Nothing is above the root. -/
def push (absolute : Bool) (stack : List Text) (component : Text) : List Text :=
  if component = ['.'] then stack
  else if component = ['.', '.'] then
    match stack with
    | [] => if absolute then [] else [component]
    | top :: rest => if top = ['.', '.'] then component :: stack else rest
  else component :: stack

def removeDots (path : Text) : Text :=
  let kept := ((components path).foldl (push (isAbsolute path)) []).reverse
  if isAbsolute path then '/' :: joinChunks '/' kept else joinChunks '/' kept

/-- A slash at the end reads as `/.`. -/
def filename (path : Text) : Text :=
  match (components path).getLast? with
  | none => if path.isEmpty then [] else ['/']
  | some last => if path.getLast? = some '/' then ['.'] else last

/-- A component that is nobody's dots. -/
def IsName (component : Text) : Prop := IsChunk '/' component ∧ component ≠ ['.'] ∧ component ≠ ['.', '.']

theorem push_name {component : Text} (name : IsName component) (absolute : Bool) (stack : List Text) :
    push absolute stack component = component :: stack := by
  rw [push.eq_def, if_neg name.2.1, if_neg name.2.2]

theorem push_names {stack : List Text} {component : Text} (names : ∀ name ∈ stack, IsName name)
    (chunk : IsChunk '/' component) : ∀ name ∈ push true stack component, IsName name := by
  unfold push
  split
  · exact names
  · split
    · cases stack with
      | nil => exact names
      | cons top rest =>
        simp only [(names top (by simp)).2.2, if_false]
        exact fun name mem => names name (List.mem_cons_of_mem _ mem)
    · rename_i dot dots
      exact List.forall_mem_cons.mpr ⟨⟨chunk, dot, dots⟩, names⟩

theorem foldl_push_names {stack chunks : List Text} (names : ∀ name ∈ stack, IsName name)
    (ok : ∀ chunk ∈ chunks, IsChunk '/' chunk) : ∀ name ∈ chunks.foldl (push true) stack, IsName name := by
  induction chunks generalizing stack with
  | nil => exact names
  | cons chunk chunks ih =>
    exact ih (push_names names (ok chunk (by simp))) fun c mem => ok c (List.mem_cons_of_mem _ mem)

theorem foldl_push_of_names {names : List Text} (clean : ∀ name ∈ names, IsName name) (stack : List Text) :
    names.foldl (push true) stack = names.reverse ++ stack := by
  induction names generalizing stack with
  | nil => rfl
  | cons name names ih =>
    rw [List.foldl_cons, push_name (clean name (by simp)),
      ih fun n mem => clean n (List.mem_cons_of_mem _ mem), List.reverse_cons, List.append_assoc]
    rfl

theorem removeDots_of_absolute {path : Text} (absolute : isAbsolute path = true) :
    removeDots path = '/' :: joinChunks '/' ((components path).foldl (push true) []).reverse := by
  rw [removeDots, absolute]
  rfl

theorem components_join {names : List Text} (clean : ∀ name ∈ names, IsName name) :
    components ('/' :: joinChunks '/' names) = names := by
  rw [components, splitChunks_delimiter, splitChunks_joinChunks fun name mem => (clean name mem).1]

theorem removeDots_idem {path : Text} (absolute : isAbsolute path = true) :
    removeDots (removeDots path) = removeDots path := by
  rw [removeDots_of_absolute absolute]
  have clean : ∀ name ∈ ((components path).foldl (push true) []).reverse, IsName name := by
    intro name mem
    exact foldl_push_names (by simp) (fun _ => splitChunks_isChunk) name (List.mem_reverse.mp mem)
  generalize ((components path).foldl (push true) []).reverse = names at clean ⊢
  rw [removeDots_of_absolute rfl, components_join clean, foldl_push_of_names clean]
  simp

theorem filename_ne_nil {path : Text} (absolute : isAbsolute path = true) : filename path ≠ [] := by
  unfold filename
  split
  · simp [isAbsolute_ne_nil absolute]
  · rename_i last eq
    split
    · simp
    · exact (splitChunks_isChunk (List.mem_of_getLast? eq)).1

theorem filename_absolute {path : Text} (absolute : isAbsolute path = true)
    (root : isAbsolute (filename path) = true) : filename path = removeDots path := by
  unfold filename at root ⊢
  split at root
  · rename_i eq
    rw [removeDots_of_absolute absolute, List.getLast?_eq_none_iff.mp eq]
    simp [isAbsolute_ne_nil absolute, joinChunks]
  · rename_i last eq
    split at root
    · cases root
    · have chunk := splitChunks_isChunk (List.mem_of_getLast? eq)
      have head : last.head? = some '/' := by simpa [isAbsolute] using root
      exact absurd (List.mem_of_mem_head? head) chunk.2

end Posix

def posix : PathLibrary where
  filename := Posix.filename
  removeDots := Posix.removeDots
  removeDots_absolute absolute := by
    rw [Posix.removeDots_of_absolute absolute]
    rfl
  removeDots_idem := Posix.removeDots_idem
  filename_ne_nil := Posix.filename_ne_nil
  filename_absolute := Posix.filename_absolute

example : posix.removeDots ['/', 'a', '/', '.', '/', 'b', '/', '.', '.', '/', 'c'] =
    ['/', 'a', '/', 'c'] := by decide

end Mull.JunkDetection
