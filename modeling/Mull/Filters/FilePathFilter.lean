import Mull.JunkDetection.CompilationDatabase
import Mull.JunkDetection.Visitors
import Mull.SourceLocation

/-! `FilePathFilter`: paths are matched against patterns, each path once. -/

namespace Mull.Filters
open Base JunkDetection

structure FilePathFilter where
  includeFilters : List (Text → Bool) := []
  excludeFilters : List (Text → Bool) := []

namespace FilePathFilter

/-- The two loops of `shouldSkip`. -/
def allow (filter : FilePathFilter) (sourceFilePath : Text) : Bool :=
  (filter.includeFilters.isEmpty || filter.includeFilters.any fun r => r sourceFilePath) &&
    !filter.excludeFilters.any fun r => r sourceFilePath

def shouldSkipPath (filter : FilePathFilter) (sourceFilePath : Text) (cache : FileMap Bool) :
    Bool × FileMap Bool :=
  match cache.lookup sourceFilePath with
  | some allow => (!allow, cache)
  | none => (!filter.allow sourceFilePath, cache.insert sourceFilePath (filter.allow sourceFilePath))

def shouldSkip (filter : FilePathFilter) (location : SourceLocation) (cache : FileMap Bool) :
    Except Failure (Bool × FileMap Bool) :=
  if location.isNull then .error (.assertion "!location.isNull()")
  else .ok (filter.shouldSkipPath location.filePath cache)

/-- What is kept for a path is what the patterns say of it. -/
def Cached (filter : FilePathFilter) (cache : FileMap Bool) : Prop :=
  ∀ sourceFilePath allow, cache.lookup sourceFilePath = some allow → allow = filter.allow sourceFilePath

section
variable {filter : FilePathFilter} {cache : FileMap Bool}

theorem cached_empty (filter : FilePathFilter) : filter.Cached ∅ := by
  intro sourceFilePath allow found
  cases found

theorem shouldSkipPath_cached (cached : filter.Cached cache) (sourceFilePath : Text) :
    (filter.shouldSkipPath sourceFilePath cache).1 = !filter.allow sourceFilePath ∧
      filter.Cached (filter.shouldSkipPath sourceFilePath cache).2 := by
  unfold shouldSkipPath
  cases found : cache.lookup sourceFilePath with
  | some allow => exact ⟨by rw [cached sourceFilePath allow found], cached⟩
  | none =>
    refine ⟨rfl, fun path allow read => ?_⟩
    by_cases same : path = sourceFilePath
    · subst same
      rw [AList.lookup_insert] at read
      exact (Option.some.inj read).symm
    · rw [AList.lookup_insert_ne same] at read
      exact cached path allow read

theorem shouldSkip_cached (cached : filter.Cached cache) {location : SourceLocation}
    (present : location.isNull = false) :
    ∃ cache', filter.shouldSkip location cache = .ok (!filter.allow location.filePath, cache') ∧
    filter.Cached cache' := by
  obtain ⟨answer, kept⟩ := shouldSkipPath_cached cached location.filePath
  refine ⟨_, ?_, kept⟩
  unfold shouldSkip
  rw [present, if_neg Bool.false_ne_true, ← answer]

end

end FilePathFilter

end Mull.Filters
