import Mull.Frontend.NeverFails
import Mull.Frontend.RecordLiteral

/-! `mull-cxx-frontend` as a plugin of the compiler: what its arguments choose, and which records the performed
mutations leave in a translation unit. -/

namespace Mull.Frontend
open Base

structure MutationMap where
  usedMutatorSet : List MutatorKind := []

namespace MutationMap

def isValidMutation (map : MutationMap) (mutatorKind : MutatorKind) :
    Bool := map.usedMutatorSet.elem mutatorKind

/-- `none` where the map has no such identifier. -/
def mapIdentifiersToKinds (identifier : Text) : Option MutatorKind :=
  (MUTATIONS_MAP.find? fun entry => entry.1 = identifier).map Prod.snd

/-- An identifier that is not known fails an assertion. -/
def addMutation (map : MutationMap) (identifier : Text) : Option MutationMap := do
  let kind ← mapIdentifiersToKinds identifier
  some ⟨map.usedMutatorSet.insert kind⟩

def setDefaultMutationsIfNotSpecified (map : MutationMap) : MutationMap :=
  if map.usedMutatorSet = [] then ⟨MUTATIONS_MAP.map Prod.snd⟩ else map

end MutationMap

/-- The map, and whether an error was reported to the compiler. -/
structure ParsedArgs where
  mutationMap : MutationMap := {}
  reported : Bool := false

/-- An argument is split at every `=`; it is an assertion that this makes two components. -/
def parseArg (parsed : ParsedArgs) (arg : Text) : Option ParsedArgs :=
  match arg.splitOnP (· == '=') with
  | [name, identifier] => do
    let mutationMap ← parsed.mutationMap.addMutation identifier
    some ⟨mutationMap, parsed.reported || name != "mutators".toList⟩
  | _ => none

def parseArgs (args : List Text) : Option ParsedArgs := do
  let parsed ← args.foldlM parseArg {}
  some { parsed with mutationMap := parsed.mutationMap.setDefaultMutationsIfNotSpecified }

structure Instrumented where
  context : ASTContext
  records : List RecordDecl := []

section
variable (isValidMutation : MutatorKind → Bool) (endOfToken : Location → Int32 × Int32)

/-- The record is added when the expression or statement is replaced. -/
def performAndRecord (state : Instrumented) (point : Point) : Option Instrumented := do
  let context ← performOrAbort state.context point
  some ⟨context, state.records ++ [point.recordDecl]⟩

def instrumentDecl (state : Instrumented) (numbered : TopLevelDecl × Nat) : Option Instrumented :=
  if numbered.1.isSearched then do
    let astMutations ← traverseFunctionDecl isValidMutation endOfToken state.context.node?
      (numbered.1.refs numbered.2)
    astMutations.foldlM performAndRecord state
  else some state

def instrumentGroups (state : Instrumented) (first : Nat) : List DeclGroupRef → Option Instrumented
  | [] => some state
  | DG :: groups => do
    let state ← (DG.zipIdx first).foldlM (instrumentDecl isValidMutation endOfToken)
      { state with context := state.context.parse first DG }
    instrumentGroups state (first + DG.length) groups

def instrument (unit : List DeclGroupRef) : Option Instrumented :=
  instrumentGroups isValidMutation endOfToken { context := ⟨source unit, [], 0, none⟩ } 0 unit

def unitPoints (unit : List DeclGroupRef) : List Point :=
  unit.flatten.zipIdx.flatMap fun numbered => (declPoints isValidMutation endOfToken unit numbered).getD []

end

/-! ### What the arguments choose -/

theorem mapIdentifiersToKinds_mem {identifier : Text} {kind : MutatorKind}
    (known : MutationMap.mapIdentifiersToKinds identifier = some kind) :
      (identifier, kind) ∈ MUTATIONS_MAP := by
  obtain ⟨entry, found, rfl⟩ := Option.map_eq_some_iff.mp known
  have named : entry.1 = identifier := by simpa using List.find?_some found
  rw [← named]
  exact List.mem_of_find?_eq_some found

def MutationMap.Mapped (map : MutationMap) :
    Prop := ∀ kind ∈ map.usedMutatorSet, ∃ entry ∈ MUTATIONS_MAP, entry.2 = kind

theorem parseArg_mapped {parsed parsed' : ParsedArgs} {arg : Text} (mapped : parsed.mutationMap.Mapped)
    (step : parseArg parsed arg = some parsed') : parsed'.mutationMap.Mapped := by
  unfold parseArg at step
  split at step
  · obtain ⟨map, added, done⟩ := Option.bind_eq_some_iff.mp step
    obtain ⟨kind, known, isMap⟩ := Option.bind_eq_some_iff.mp added
    obtain rfl := Option.some.inj isMap
    obtain rfl := Option.some.inj done
    intro other mem
    rcases List.mem_insert_iff.mp mem with rfl | old
    · exact ⟨_, mapIdentifiersToKinds_mem known, rfl⟩
    · exact mapped other old
  · cases step

theorem parseArgs_mapped {args : List Text} {parsed : ParsedArgs} (ok : parseArgs args = some parsed) :
    parsed.mutationMap.Mapped := by
  obtain ⟨state, ran, done⟩ := Option.bind_eq_some_iff.mp ok
  obtain rfl := Option.some.inj done
  have kept : ∀ (args : List Text) (start state : ParsedArgs), start.mutationMap.Mapped →
      args.foldlM parseArg start = some state → state.mutationMap.Mapped := by
    intro args
    induction args with
    | nil =>
      intro start state mapped ran
      rwa [← Option.some.inj ran]
    | cons arg args ih =>
      intro start state mapped ran
      obtain ⟨next, step, rest⟩ := Option.bind_eq_some_iff.mp ran
      exact ih next state (parseArg_mapped mapped step) rest
  have mapped := kept args {} state (fun kind mem => absurd mem List.not_mem_nil) ran
  dsimp only
  unfold MutationMap.setDefaultMutationsIfNotSpecified
  split
  · intro kind mem
    obtain ⟨entry, isIn, same⟩ := List.mem_map.mp mem
    exact ⟨entry, isIn, same⟩
  · exact mapped

/-! ### What is recorded -/

section
variable {isValidMutation : MutatorKind → Bool} {endOfToken : Location → Int32 × Int32}
  {unit : List DeclGroupRef}

theorem visitBinaryOperator_valid {heap : Heap} {ref : Ref} {node : Node Ref} {opcode : BinaryOpcode}
    {finding : Finding StmtMutation} (mem : finding ∈ visitBinaryOperator isValidMutation heap
      ref node opcode) :
    isValidMutation finding.mutatorKind = true := by
  unfold visitBinaryOperator at mem
  split at mem
  · rename_i assigns
    split at mem
    · cases mem
    · split at mem
      · obtain rfl := List.mem_singleton.mp mem
        exact assigns.2
      · cases mem
  · obtain ⟨mutation, isIn, rfl⟩ := List.mem_map.mp mem
    exact (of_decide_eq_true (List.mem_filter.mp isIn).2).2

theorem visit_valid {heap : Heap} {ref : Ref} {node : Node Ref} {findings : List (Finding StmtMutation)}
    (visited : visit isValidMutation heap ref node = some findings) {finding : Finding StmtMutation}
    (mem : finding ∈ findings) : isValidMutation finding.mutatorKind = true := by
  unfold visit at visited
  split at visited
  · obtain rfl := Option.some.inj visited
    unfold visitUnaryOperator at mem
    split at mem
    · cases mem
    · split at mem
      · obtain rfl := List.mem_singleton.mp mem
        assumption
      · cases mem
  · obtain rfl := Option.some.inj visited
    exact visitBinaryOperator_valid mem
  · obtain rfl := Option.some.inj visited
    exact visitBinaryOperator_valid mem
  · obtain rfl := Option.some.inj visited
    unfold visitCallExpr at mem
    rcases List.mem_append.mp mem with removed | replaced
    · split at removed
      · obtain rfl := List.mem_singleton.mp removed
        rename_i valid
        exact valid.2
      · cases removed
    · split at replaced
      · obtain rfl := List.mem_singleton.mp replaced
        rename_i valid
        exact valid.2
      · cases replaced
  · unfold visitVarDecl at visited
    split at visited
    · obtain rfl := Option.some.inj visited
      cases mem
    · split at visited
      · rename_i valid
        obtain ⟨init, -, rest⟩ := Option.bind_eq_some_iff.mp visited
        obtain ⟨initNode, -, done⟩ := Option.bind_eq_some_iff.mp rest
        obtain rfl := Option.some.inj done
        obtain rfl := List.mem_singleton.mp mem
        exact valid.1
      · obtain rfl := Option.some.inj visited
        cases mem
  · obtain rfl := Option.some.inj visited
    cases mem

theorem recorded_kind {finding : Finding StmtMutation} {point : Point}
    (recorded : recordMutationPoint endOfToken finding = some point) :
      point.mutationType = finding.mutatorKind ∧
      point.identifier = getIdentifier finding.mutatorKind ∧ point.sourceFilePath ≠ [] := by
  unfold recordMutationPoint at recorded
  split at recorded
  · cases recorded
  · split at recorded
    · cases recorded
    · dsimp only at recorded
      split at recorded
      · cases recorded
      · rename_i somewhere
        split at recorded
        · cases recorded
        · obtain rfl := Option.some.inj recorded
          exact ⟨rfl, rfl, somewhere⟩

theorem declPoints_valid {numbered : TopLevelDecl × Nat} {points : List Point}
    (searched : declPoints isValidMutation endOfToken unit numbered = some points) {point : Point}
    (mem : point ∈ points) : isValidMutation point.mutationType = true ∧
      point.identifier = getIdentifier point.mutationType ∧ point.sourceFilePath ≠ [] := by
  unfold declPoints at searched
  split at searched
  · obtain ⟨i, node, findings, finding, -, -, visited, isIn, recorded⟩ := (mem_traverse searched).mp mem
    obtain ⟨kind, identifier, somewhere⟩ := recorded_kind recorded
    rw [kind]
    exact ⟨visit_valid visited isIn, identifier, somewhere⟩
  · obtain rfl := Option.some.inj searched
    cases mem

theorem mem_unitPoints {point : Point} : point ∈ unitPoints isValidMutation endOfToken unit ↔
    ∃ numbered ∈ unit.flatten.zipIdx, ∃ points, declPoints isValidMutation endOfToken unit
      numbered = some points ∧
      point ∈ points := by
  unfold unitPoints
  rw [List.mem_flatMap]
  constructor
  · intro found
    obtain ⟨numbered, isIn, mem⟩ := found
    cases searched : declPoints isValidMutation endOfToken unit numbered with
    | none =>
      rw [searched] at mem
      cases mem
    | some points =>
      rw [searched] at mem
      exact ⟨numbered, isIn, points, searched, mem⟩
  · intro found
    obtain ⟨numbered, isIn, points, searched, mem⟩ := found
    refine ⟨numbered, isIn, ?_⟩
    rw [searched]
    exact mem

/-! ### The records are those of the points -/

theorem foldlM_performAndRecord (points : List Point) (state : Instrumented) :
    points.foldlM performAndRecord state = (points.foldlM performOrAbort state.context).map fun context =>
      ⟨context, state.records ++ points.map ASTMutationPoint.recordDecl⟩ := by
  induction points generalizing state with
  | nil => simp
  | cons point points ih =>
    have step : performAndRecord state point = (performOrAbort state.context point).map fun context =>
        ⟨context, state.records ++ [point.recordDecl]⟩ := by
      unfold performAndRecord
      cases performOrAbort state.context point <;> rfl
    rw [List.foldlM_cons, List.foldlM_cons, step]
    cases performOrAbort state.context point with
    | none => rfl
    | some context =>
      rw [Option.map_some, Option.bind_eq_bind, Option.bind_some, ih]
      simp

theorem instrumentDecl_records {state state' : Instrumented} {numbered : TopLevelDecl × Nat}
    (sooner : Earlier unit numbered.2 state.context)
    (done : instrumentDecl isValidMutation endOfToken state numbered = some state') :
    handleDecl isValidMutation endOfToken state.context numbered = some state'.context ∧
      state'.records = state.records ++
        ((declPoints isValidMutation endOfToken unit numbered).getD []).map ASTMutationPoint.recordDecl := by
  unfold instrumentDecl at done
  unfold handleDecl declPoints
  split at done
  · rename_i searched
    rw [if_pos searched, if_pos searched, sooner.traverse_eq]
    rw [sooner.traverse_eq] at done
    obtain ⟨points, traversed, performed⟩ := Option.bind_eq_some_iff.mp done
    rw [foldlM_performAndRecord] at performed
    obtain ⟨context, ran, rfl⟩ := Option.map_eq_some_iff.mp performed
    rw [traversed]
    exact ⟨ran, rfl⟩
  · rename_i skipped
    rw [if_neg skipped, if_neg skipped]
    obtain rfl := Option.some.inj done
    exact ⟨rfl, (List.append_nil _).symm⟩

/-- By induction on the declarations of a group that are left. -/
theorem instrumentDecls_records {groups later : List DeclGroupRef} {DG : DeclGroupRef} {start : ASTContext}
    (whole : unit = groups ++ DG :: later)
    (ran : handleGroups isValidMutation endOfToken ⟨source unit, [], 0, none⟩ 0 groups = some start)
    {handled todo : List (TopLevelDecl × Nat)} (parts : DG.zipIdx groups.flatten.length = handled ++ todo)
    {state state' : Instrumented}
    (before : handled.foldlM (handleDecl isValidMutation endOfToken) (start.parse groups.flatten.length DG) =
      some state.context)
    (done : todo.foldlM (instrumentDecl isValidMutation endOfToken) state = some state') :
    todo.foldlM (handleDecl isValidMutation endOfToken) state.context = some state'.context ∧
      state'.records = state.records ++ (todo.flatMap fun numbered =>
        (declPoints isValidMutation endOfToken unit numbered).getD []).map ASTMutationPoint.recordDecl := by
  induction todo generalizing handled state with
  | nil =>
    obtain rfl := Option.some.inj done
    exact ⟨rfl, (List.append_nil _).symm⟩
  | cons numbered todo ih =>
    obtain ⟨next, step, rest⟩ := Option.bind_eq_some_iff.mp done
    have sooner := reached_earlier whole ran parts before
    have place : numbered.2 = groups.flatten.length + handled.length := by
      have here : (DG.zipIdx groups.flatten.length)[handled.length]? = some numbered := by
        rw [parts, List.getElem?_append_right le_rfl, Nat.sub_self]
        rfl
      rw [List.getElem?_zipIdx] at here
      obtain ⟨_, -, rfl⟩ := Option.map_eq_some_iff.mp here
      rfl
    rw [← place] at sooner
    obtain ⟨own, records⟩ := instrumentDecl_records sooner step
    have before' : (handled ++ [numbered]).foldlM (handleDecl isValidMutation endOfToken)
        (start.parse groups.flatten.length DG) = some next.context := by
      rw [List.foldlM_append, before, Option.bind_eq_bind, Option.bind_some]
      simpa using own
    obtain ⟨others, records'⟩ := ih (by rw [parts, List.append_assoc]; rfl) before' rest
    constructor
    · rw [List.foldlM_cons, own]
      exact others
    · rw [records', records, List.flatMap_cons, List.map_append, List.append_assoc]

theorem handleGroups_append {context : ASTContext} {first : Nat} {groups : List DeclGroupRef}
    {DG : DeclGroupRef} :
    handleGroups isValidMutation endOfToken context first (groups ++ [DG]) =
      handleGroups isValidMutation endOfToken context first groups >>= fun context =>
        handleTopLevelDecl isValidMutation endOfToken context (first + groups.flatten.length) DG := by
  induction groups generalizing context first with
  | nil => simp [handleGroups]
  | cons G groups ih =>
    simp only [List.cons_append, handleGroups, ih, List.flatten_cons, List.length_append,
      Nat.add_assoc, bind_assoc]

/-- By induction on the groups that are left. -/
theorem instrumentGroups_records {groups later : List DeclGroupRef} (whole : unit = groups ++ later)
    {state state' : Instrumented}
    (before : handleGroups isValidMutation endOfToken ⟨source unit, [], 0, none⟩ 0 groups =
      some state.context)
    (done : instrumentGroups isValidMutation endOfToken state groups.flatten.length later = some state') :
    handleGroups isValidMutation endOfToken state.context groups.flatten.length later = some state'.context ∧
      state'.records = state.records ++ ((later.flatten.zipIdx groups.flatten.length).flatMap fun numbered =>
        (declPoints isValidMutation endOfToken unit numbered).getD []).map ASTMutationPoint.recordDecl := by
  induction later generalizing groups state with
  | nil =>
    obtain rfl := Option.some.inj done
    exact ⟨rfl, (List.append_nil _).symm⟩
  | cons DG later ih =>
    obtain ⟨next, step, rest⟩ := Option.bind_eq_some_iff.mp done
    obtain ⟨own, records⟩ := instrumentDecls_records whole before (List.nil_append _).symm rfl step
    have before' : handleGroups isValidMutation endOfToken ⟨source unit, [], 0, none⟩ 0 (groups ++ [DG]) =
        some next.context := by
      rw [handleGroups_append, before, Option.bind_eq_bind, Option.bind_some, Nat.zero_add]
      exact own
    have size : (groups ++ [DG]).flatten.length = groups.flatten.length + DG.length := by simp
    rw [← size] at rest
    obtain ⟨others, records'⟩ := ih (by rw [whole, List.append_assoc]; rfl) before' rest
    rw [size] at others records'
    constructor
    · rw [handleGroups]
      exact Option.bind_eq_some_iff.mpr ⟨_, own, others⟩
    · rw [records', records, List.flatten_cons, List.zipIdx_append, List.flatMap_append, List.map_append,
        List.append_assoc]

theorem instrument_records {state : Instrumented}
    (done : instrument isValidMutation endOfToken unit = some state) :
    parseAST isValidMutation endOfToken unit = some state.context ∧
      state.records = (unitPoints isValidMutation endOfToken unit).map ASTMutationPoint.recordDecl :=
  instrumentGroups_records (List.nil_append unit).symm rfl done

end

end Mull.Frontend
