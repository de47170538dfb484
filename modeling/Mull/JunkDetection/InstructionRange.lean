import Mull.JunkDetection.Candidates

/-! `InstructionRangeVisitor` over machine offsets, with ranges that may end anywhere, in another file too. -/

namespace Mull.JunkDetection
open Base

structure FileOffsets (Loc : Type) where
  isFileID : Loc → Bool
  getFileID : Loc → Nat
  getFileOffset : Loc → UInt32

structure SourceRange (Loc : Type) where
  getBegin : Loc
  getEnd : Loc

namespace InstructionRangeVisitor

section
variable {Loc : Type} (files : FileOffsets Loc)

def rangeLength (range : SourceRange Loc) : UInt32 :=
  files.getFileOffset range.getEnd - files.getFileOffset range.getBegin

def locationInRange (range : SourceRange Loc) (location : Loc) : Bool :=
  if files.isFileID location then
    let sameSourceFile := files.getFileID location == files.getFileID range.getBegin
    let mutantOffset := files.getFileOffset location
    let beginOffset := files.getFileOffset range.getBegin
    let endOffset := files.getFileOffset range.getEnd
    let inRange := decide (mutantOffset ≥ beginOffset) && decide (mutantOffset ≤ endOffset)
    sameSourceFile && inRange
  else false

def isRangeSmallerThanRange (first second : Option (SourceRange Loc)) : Except Failure Bool :=
  match first, second with
  | none, _ => .error (.assertion "first.isValid()")
  | _, none => .error (.assertion "second.isValid()")
  | some first, some second =>
    let firstLength := rangeLength files first
    let secondLength := rangeLength files second
    if firstLength < secondLength then .ok true
    else if secondLength < firstLength then .ok false
    else .ok true

/-- An invalid range is `none`. -/
def visitRangeWithASTExpr {σ : Type} (getSourceRange : σ → Option (SourceRange Loc)) (sourceLocation : Loc)
    (bestMatchingASTNode : Option σ) (stmt : σ) : Except Failure (Option σ) :=
  match getSourceRange stmt with
  | none => .ok bestMatchingASTNode
  | some range =>
    if locationInRange files range sourceLocation then
      match bestMatchingASTNode with
      | none => .ok (some stmt)
      | some best => do
        let smaller ← isRangeSmallerThanRange files (some range) (getSourceRange best)
        pure (if smaller then some stmt else bestMatchingASTNode)
    else .ok bestMatchingASTNode

/-- What `getMatchingASTNode` returns after the statements have been visited. -/
def getMatchingASTNode {σ : Type} (getSourceRange : σ → Option (SourceRange Loc)) (sourceLocation : Loc)
    (visited : List σ) : Except Failure (Option σ) :=
  visited.foldlM (visitRangeWithASTExpr files getSourceRange sourceLocation) none

end

section
variable {Loc σ : Type} {files : FileOffsets Loc} {getSourceRange : σ → Option (SourceRange Loc)}
  {location : Loc}

variable (files getSourceRange) in
/-- The location is in the file where the range begins, between the offsets of its ends. -/
def Contains (stmt : σ) (location : Loc) : Prop :=
  ∃ range ∈ getSourceRange stmt, files.getFileID location = files.getFileID range.getBegin ∧
    files.getFileOffset range.getBegin ≤ files.getFileOffset location ∧
    files.getFileOffset location ≤ files.getFileOffset range.getEnd

variable (files getSourceRange) in
def length (stmt : σ) : Nat :=
  match getSourceRange stmt with
  | none => 0
  | some range => (files.getFileOffset range.getEnd).toNat - (files.getFileOffset range.getBegin).toNat

variable (files getSourceRange) in
/-- The unsigned difference of the offsets is their difference. -/
def Unwrapped (stmt : σ) : Prop :=
  ∃ range ∈ getSourceRange stmt,
    (rangeLength files range).toNat + (files.getFileOffset range.getBegin).toNat =
      (files.getFileOffset range.getEnd).toNat

variable (files getSourceRange location) in
def accepted (stmt : σ) : Bool :=
  match getSourceRange stmt with
  | none => false
  | some range => locationInRange files range location

theorem accepted_iff (inFile : files.isFileID location = true) (stmt : σ) :
    accepted files getSourceRange location stmt = true ↔ Contains files getSourceRange stmt location := by
  unfold accepted Contains
  cases getSourceRange stmt with
  | none => simp
  | some range => simp [locationInRange, inFile]

theorem Contains.unwrapped {stmt : σ} (around : Contains files getSourceRange stmt location) :
    Unwrapped files getSourceRange stmt := by
  obtain ⟨range, read, -, after, before⟩ := around
  refine ⟨range, read, ?_⟩
  have ordered := UInt32.le_trans after before
  have bound := UInt32.le_iff_toNat_le.mp ordered
  rw [rangeLength, UInt32.toNat_sub_of_le _ _ ordered]
  omega

theorem Unwrapped.length_eq {stmt : σ} {range : SourceRange Loc}
    (unwrapped : Unwrapped files getSourceRange stmt) (read : getSourceRange stmt = some range) :
    (rangeLength files range).toNat = length files getSourceRange stmt := by
  obtain ⟨own, read', exact_⟩ := unwrapped
  obtain rfl : range = own := Option.some.inj (read.symm.trans read')
  rw [length, read]
  dsimp only
  omega

theorem isRangeSmallerThanRange_some (first second : SourceRange Loc) :
    isRangeSmallerThanRange files (some first) (some second) =
      .ok (decide ((rangeLength files first).toNat ≤ (rangeLength files second).toNat)) := by
  simp only [isRangeSmallerThanRange, UInt32.lt_iff_toNat_lt]
  split
  · rename_i less
    rw [decide_eq_true (Nat.le_of_lt less)]
  · rename_i notLess
    split
    · rename_i more
      rw [decide_eq_false (Nat.not_le.mpr more)]
    · rename_i notMore
      rw [decide_eq_true (Nat.not_lt.mp notMore)]

/-- One visit, while the best node so far contains the location. -/
theorem visitRangeWithASTExpr_closer (inFile : files.isFileID location = true) {best : Option σ}
    (around : ∀ node ∈ best, Contains files getSourceRange node location) (stmt : σ) :
    visitRangeWithASTExpr files getSourceRange location best stmt =
      .ok (closer (accepted files getSourceRange location) (length files getSourceRange) best stmt) := by
  unfold visitRangeWithASTExpr
  rw [closer.eq_def]
  cases read : getSourceRange stmt with
  | none => simp [accepted, read]
  | some range =>
    have same : accepted files getSourceRange location stmt = locationInRange files range location := by
      rw [accepted, read]
    dsimp only
    rw [same]
    by_cases inside : locationInRange files range location = true
    · rw [if_pos inside, if_pos inside]
      cases best with
      | none => rfl
      | some node =>
        obtain ⟨bestRange, bestRead, -⟩ := around node rfl
        have own := (accepted_iff inFile stmt).mp (same.trans inside)
        dsimp only
        rw [bestRead, isRangeSmallerThanRange_some, own.unwrapped.length_eq read,
          (around node rfl).unwrapped.length_eq bestRead]
        by_cases smaller : length files getSourceRange stmt ≤ length files getSourceRange node <;>
          simp [smaller]
    · rw [if_neg inside, if_neg inside]

theorem getMatchingASTNode_closest (inFile : files.isFileID location = true) (visited : List σ) :
    getMatchingASTNode files getSourceRange location visited =
      .ok (visited.foldl (closer (accepted files getSourceRange location) (length files getSourceRange))
        none) := by
  unfold getMatchingASTNode
  induction visited using List.reverseRecOn with
  | nil => rfl
  | append_singleton visited stmt ih =>
    rw [List.foldlM_append, ih, List.foldl_append]
    have around :
      ∀ node ∈ visited.foldl (closer (accepted files getSourceRange location) (length files getSourceRange))
        none, Contains files getSourceRange node location := by
      intro node kept
      obtain ⟨_, _, _, ok, _⟩ := (foldl_closer _ _ visited).1 node kept
      exact (accepted_iff inFile node).mp ok
    have step := visitRangeWithASTExpr_closer inFile around stmt
    simp only [List.foldlM_cons, List.foldlM_nil, List.foldl_cons, List.foldl_nil]
    exact (bind_pure _).trans step

variable (files getSourceRange location) in
/-- Visited, around the location, no longer than any other such node and shorter than the later ones. -/
def SmallestVisited (visited : List σ) (node : σ) : Prop :=
  ∃ before after, visited = before ++ node :: after ∧ Contains files getSourceRange node location ∧
    (∀ other ∈ before, Contains files getSourceRange other location →
      length files getSourceRange node ≤ length files getSourceRange other) ∧
    ∀ other ∈ after, Contains files getSourceRange other location →
      length files getSourceRange node < length files getSourceRange other

variable (files getSourceRange location) in
/-- On its visit the statement is compared with the best node so far. -/
def Compared (visited : List σ) (stmt best : σ) : Prop :=
  ∃ before after, visited = before ++ stmt :: after ∧
    getMatchingASTNode files getSourceRange location before = .ok (some best) ∧
    ∃ range ∈ getSourceRange stmt, locationInRange files range location = true

theorem getMatchingASTNode_smallest (inFile : files.isFileID location = true) (visited : List σ) :
    ∃ found, getMatchingASTNode files getSourceRange location visited = .ok found ∧
      (found = none ↔ ∀ stmt ∈ visited, ¬ Contains files getSourceRange stmt location) ∧
      (∀ node, found = some node → SmallestVisited files getSourceRange location visited node) ∧
      ∀ stmt best, Compared files getSourceRange location visited stmt best →
        Unwrapped files getSourceRange stmt ∧ Unwrapped files getSourceRange best := by
  have closest (stmts : List σ) : getMatchingASTNode files getSourceRange location stmts = _ :=
    getMatchingASTNode_closest inFile stmts
  obtain ⟨some_, none_⟩ := foldl_closer (accepted files getSourceRange location)
    (length files getSourceRange) visited
  refine ⟨_, closest visited, ⟨?_, ?_⟩, ?_, ?_⟩
  · intro nothing stmt member around
    exact none_ nothing stmt member ((accepted_iff inFile stmt).mpr around)
  · intro outside
    by_contra something
    obtain ⟨node, found⟩ := Option.ne_none_iff_exists'.mp something
    obtain ⟨before, after, split, ok, _⟩ := some_ node found
    exact outside node (by simp [split]) ((accepted_iff inFile node).mp ok)
  · intro node found
    obtain ⟨before, after, split, ok, least, less⟩ := some_ node found
    refine ⟨before, after, split, (accepted_iff inFile node).mp ok, ?_, ?_⟩
    · intro other member around
      exact least other member ((accepted_iff inFile other).mpr around)
    · intro other member around
      exact less other member ((accepted_iff inFile other).mpr around)
  · rintro stmt best ⟨before, after, -, found, range, read, inside⟩
    rw [closest before, Except.ok.injEq] at found
    obtain ⟨_, _, _, ok, _⟩ := (foldl_closer _ _ before).1 best found
    have own : accepted files getSourceRange location stmt = true := by
      rw [accepted, Option.mem_def.mp read]
      exact inside
    exact ⟨((accepted_iff inFile stmt).mp own).unwrapped, ((accepted_iff inFile best).mp ok).unwrapped⟩

end

/-! ### The visitor on a parsed declaration -/

section
variable {Loc : Type} [LinearOrder Loc] {parameters : VisitorParameters Loc}

def machineOffsets (sourceManager : SourceManager Loc) : FileOffsets Loc where
  isFileID := sourceManager.isFileID
  getFileID := sourceManager.getFileID
  getFileOffset loc := .ofNat (sourceManager.getFileOffset loc)

def machineRange (stmt : Stmt Loc) : Option (SourceRange Loc) :=
  stmt.getSourceRange.map fun range => ⟨range.first, range.last⟩

theorem accepted_machine (bounded : ∀ loc, parameters.sourceManager.getFileOffset loc < 2 ^ 32)
    (stmt : Stmt Loc) :
    accepted (machineOffsets parameters.sourceManager) machineRange parameters.sourceLocation stmt =
      accepts parameters stmt := by
  unfold accepted accepts machineRange
  cases stmt.getSourceRange with
  | none => rfl
  | some range =>
    have offset (loc : Loc) : (UInt32.ofNat (parameters.sourceManager.getFileOffset loc)).toNat =
        parameters.sourceManager.getFileOffset loc := UInt32.toNat_ofNat_of_lt' (bounded loc)
    simp [locationInRange, JunkDetection.locationInRange, machineOffsets, UInt32.le_iff_toNat_le, offset]

theorem length_machine (bounded : ∀ loc, parameters.sourceManager.getFileOffset loc < 2 ^ 32)
    (stmt : Stmt Loc) :
    length (machineOffsets parameters.sourceManager) machineRange stmt = extent parameters stmt := by
  unfold length extent machineRange
  cases stmt.getSourceRange with
  | none => rfl
  | some range =>
    have offset (loc : Loc) : (UInt32.ofNat (parameters.sourceManager.getFileOffset loc)).toNat =
        parameters.sourceManager.getFileOffset loc := UInt32.toNat_ofNat_of_lt' (bounded loc)
    simp [JunkDetection.rangeLength, machineOffsets, offset]

/-- For negated conditions and replaced calls, what is found is what the visitor finds among the negations or
calls over machine offsets. -/
theorem findMutantExpression_machine (bounded : ∀ loc, parameters.sourceManager.getFileOffset loc < 2 ^ 32)
    (inFile : parameters.sourceManager.isFileID parameters.sourceLocation = true) {kind : MutatorKind}
    {visitor : MutantVisitor} (handled : visitorFor kind = some visitor)
    (ranges : visitor = .negateConditionVisitor ∨ visitor = .replaceCallVisitor) (decl : Decl Loc) :
    findMutantExpression kind parameters decl =
      getMatchingASTNode (machineOffsets parameters.sourceManager) machineRange parameters.sourceLocation
        (visitor.candidates parameters.sourceLocation decl) := by
  have inFile' : (machineOffsets parameters.sourceManager).isFileID parameters.sourceLocation = true := inFile
  rw [findMutantExpression_of_visitor handled, getMatchingASTNode_closest inFile',
    funext (accepted_machine bounded),
    funext (length_machine bounded)]
  rcases ranges with rfl | rfl <;> rfl

end

def twoFiles : FileOffsets (Nat × UInt32) where
  isFileID _ := true
  getFileID := Prod.fst
  getFileOffset := Prod.snd

/-- A range that ends in another file, one around the location and two smaller ones of the same length. -/
def fourRanges : List (SourceRange (Nat × UInt32)) :=
  [⟨(0, 9), (1, 2)⟩, ⟨(0, 1), (0, 9)⟩, ⟨(0, 3), (0, 6)⟩, ⟨(0, 4), (1, 7)⟩]

theorem getMatchingASTNode_smallest_fourRanges :
    ∃ found, getMatchingASTNode twoFiles some (0, 5) fourRanges = .ok found ∧
      (found = none ↔ ∀ stmt ∈ fourRanges, ¬ Contains twoFiles some stmt (0, 5)) ∧
      (∀ node, found = some node → SmallestVisited twoFiles some (0, 5) fourRanges node) ∧
      ∀ stmt best, Compared twoFiles some (0, 5) fourRanges stmt best →
        Unwrapped twoFiles some stmt ∧ Unwrapped twoFiles some best :=
  getMatchingASTNode_smallest rfl fourRanges

end InstructionRangeVisitor
end Mull.JunkDetection
