import Mull.Base.Grouping
import Mull.Base.Related
import Mull.Mutators.Diagnostics
import Mull.Mutators.ForgetsHistory
import Mull.Reporters.SourceManager
import Mull.Runner.MutantRunner

/-! `Result`: what the driver hands to the reporters, and what they make of it. -/

namespace Mull.Reporters
open Base Toolchain Runner

/-- What the driver hands to reporters; a mutation result points to its mutant by the position. -/
structure Result where
  mutants : List Mutant
  mutationResults : List MutationResult

/-- How a report ends that is not finished. -/
inductive Abort
  | source (failure : Failure)
  | assertion (condition : String)
  | nullMutator
  | danglingMutant
deriving DecidableEq

inductive Output
  | info (message : Text)
  | stdout (text : Text)
deriving DecidableEq

/-- `std::to_string(size_t)`. -/
def sizeText (n : Nat) : Text := Nat.toDigits 10 n

def mutantSurvived (status : ExecutionStatus) : Bool := status = .passed

def mutantNotCovered (status : ExecutionStatus) : Bool := status = .notCovered

def noMutants : Text := "No mutants found. Mutation score: infinitely high".toList

def mutatorOf (identifier : Text) : Option Mutator :=
  Mutator.registered.find? fun mutator => mutator.getUniqueIdentifier = identifier

theorem mutatorOf_known (mutator : Mutator) : mutatorOf mutator.getUniqueIdentifier = some mutator := by
  unfold mutatorOf
  cases found : Mutator.registered.find? fun other => other.getUniqueIdentifier =
    mutator.getUniqueIdentifier with
  | none =>
    exact absurd (decide_eq_true rfl) (List.find?_eq_none.mp found mutator (Mutator.mem_registered mutator))
  | some other =>
    have same := List.find?_some found
    rw [Mutator.getUniqueIdentifier_inj.mp (of_decide_eq_true same)]

/-- What is said of a mutant. -/
inductive Verdict
  | killed
  | survived
  | notCovered
deriving DecidableEq

def verdictOf (status : ExecutionStatus) : Verdict :=
  if mutantSurvived status then .survived else if mutantNotCovered status then .notCovered else .killed

namespace Result

/-- There is one result for each mutant, in the order of the mutants. -/
def Complete (result : Result) : Prop :=
  result.mutationResults.map MutationResult.mutant = List.range result.mutants.length

def judged (result : Result) : List (Mutant × Verdict) :=
  result.mutants.zip (result.mutationResults.map fun mutationResult => verdictOf mutationResult.result.status)

def withVerdict (result : Result) (verdict : Verdict) : List Mutant :=
  (result.judged.filter fun pair => pair.2 = verdict).map Prod.fst

variable {result : Result}

theorem Complete.length (complete : result.Complete) :
    result.mutationResults.length = result.mutants.length := by
  have same := congrArg List.length complete
  rwa [List.length_map, List.length_range] at same

theorem Complete.judged_fst (complete : result.Complete) : result.judged.map Prod.fst = result.mutants :=
  List.map_fst_zip (by rw [List.length_map, complete.length])

theorem Complete.related (complete : result.Complete) : List.Forall₂ (fun mutationResult pair =>
    result.mutants[mutationResult.mutant]? = some pair.1 ∧ verdictOf mutationResult.result.status = pair.2)
      result.mutationResults result.judged := by
  have length := complete.length
  have total : result.mutationResults.length = result.judged.length := by
    unfold judged
    rw [List.length_zip, List.length_map, length, Nat.min_self]
  refine List.forall₂_iff_get.mpr ⟨total, fun i inside inside' => ?_⟩
  have pointer : result.mutationResults[i].mutant = i := by
    have at_i := congrArg (fun xs : List Nat => xs[i]?) complete
    rw [List.getElem?_map, List.getElem?_eq_getElem inside, Option.map_some,
      List.getElem?_range (length ▸ inside)] at at_i
    exact Option.some.inj at_i
  unfold judged
  simp only [List.get_eq_getElem, List.getElem_zip, List.getElem_map, pointer]
  exact ⟨List.getElem?_eq_getElem (length ▸ inside), trivial⟩

theorem Complete.partition (complete : result.Complete) :
    (result.withVerdict .killed ++ result.withVerdict .survived ++ result.withVerdict .notCovered).Perm
      result.mutants := by
  have within : ∀ pair ∈ result.judged, pair.2 ∈ [Verdict.killed, .survived, .notCovered] := by
    intro pair _
    cases pair.2 <;> decide
  have mutants := (filters_perm (by decide) within).map Prod.fst
  rw [complete.judged_fst] at mutants
  simpa [withVerdict] using mutants

end Result
end Mull.Reporters
