import Mull.JunkDetection.ASTStorage

/-! The recorded declarations, and the one around a location. -/

namespace Mull.JunkDetection
open Base Segment

section
variable {Loc : Type} [LinearOrder Loc]

/-- The kept declarations are sorted and apart, and a location is looked up as if among all recorded ones. -/
structure FindsEnclosing (ast : ASTUnit Loc) : Prop where
  apart : (ThreadSafeASTUnit.create (some ast)).decls.Pairwise fun a b =>
    Apart a.getSourceRange b.getSourceRange
  found (location : Loc) (decl : Decl Loc) :
    (ThreadSafeASTUnit.create (some ast)).getDecl location = .ok (some decl) →
      decl ∈ ast.functions.filter ast.records ∧ decl.getSourceRange.Surrounds location
  missing (location : Loc) :
    (∀ decl ∈ ast.functions.filter ast.records, ¬ decl.getSourceRange.Surrounds location) →
      (ThreadSafeASTUnit.create (some ast)).getDecl location = .ok none
  enclosing (location : Loc) (decl : Decl Loc) :
    decl ∈ ast.functions.filter ast.records → decl.getSourceRange.Surrounds location →
      ∃ kept, (ThreadSafeASTUnit.create (some ast)).getDecl location = .ok (some kept)

theorem sortLocationComparator_iff (a b : Decl Loc) :
    SortLocationComparator a b = true ↔ a.getSourceRange.first < b.getSourceRange.first := by
  rw [SortLocationComparator, decide_eq_true_eq]

theorem uniqueLocationComparator_iff (a b : Decl Loc) :
    UniqueLocationComparator a b = true ↔ ¬ Apart a.getSourceRange b.getSourceRange := by
  rw [UniqueLocationComparator, Bool.not_eq_true', decide_eq_false_iff_not]
  rfl

theorem recordDeclarations_subset (ast : ASTUnit Loc) {decl : Decl Loc}
    (mem : decl ∈ recordDeclarations ast) :
    decl ∈ ast.functions.filter ast.records :=
  (sortBy_perm _ _).mem_iff.mp ((unique_sublist _ _).subset mem)

theorem recordDeclarations_outermost {ast : ASTUnit Loc}
    (laminar : Laminar Decl.getSourceRange (ast.functions.filter ast.records)) :
    (recordDeclarations ast).Pairwise (fun a b => Apart a.getSourceRange b.getSourceRange) ∧
      ∀ decl ∈ ast.functions.filter ast.records,
        ∃ kept ∈ recordDeclarations ast, Covers kept.getSourceRange decl.getSourceRange := by
  have perm := sortBy_perm SortLocationComparator (ast.functions.filter ast.records)
  have distinct : ((ast.functions.filter ast.records).map fun decl => decl.getSourceRange.first).Nodup :=
    List.pairwise_map.mpr laminar.first_injective
  have sorted := (sortBy_strict sortLocationComparator_iff distinct).imp fun {a b} before =>
    (sortLocationComparator_iff a b).mp before
  obtain ⟨apart, covered⟩ := unique_outermost uniqueLocationComparator_iff sorted (laminar.perm perm.symm)
  exact ⟨apart, fun decl mem => covered decl (perm.mem_iff.mpr mem)⟩

theorem getDecl_eq {unit : ThreadSafeASTUnit Loc} {ast : ASTUnit Loc} (loaded : unit.ast = some ast)
    (apart : unit.decls.Pairwise fun a b => Apart a.getSourceRange b.getSourceRange) (location : Loc) :
    unit.getDecl location = .ok (unit.decls.find? fun decl => decl.getSourceRange.Surrounds location) := by
  have partitioned : unit.decls.Pairwise fun a b => decide (b.getSourceRange.last < location) = true →
      decide (a.getSourceRange.last < location) = true := by
    refine apart.imp fun {a b} gap early => ?_
    rw [decide_eq_true_eq] at early ⊢
    exact (gap.trans_le b.getSourceRange.ordered).trans early
  unfold ThreadSafeASTUnit.getDecl ThreadSafeASTUnit.dereference
  dsimp only
  rw [lowerBound_eq partitioned, getElem?_takeWhile_length, loaded, ← find?_surrounds apart location]
  split
  · rename_i empty
    rw [List.isEmpty_iff.mp empty]
    rfl
  · cases unit.decls.find? fun decl => !decide (decl.getSourceRange.last < location) with
    | none => rfl
    | some decl =>
      by_cases inside : decl.getSourceRange.Surrounds location
      · rw [Option.filter_some, if_pos (decide_eq_true inside)]
        exact if_pos inside
      · rw [Option.filter_some, if_neg (by simpa using inside)]
        exact if_neg inside

theorem findsEnclosing {ast : ASTUnit Loc}
    (laminar : Laminar Decl.getSourceRange (ast.functions.filter ast.records)) : FindsEnclosing ast := by
  obtain ⟨apart, covered⟩ := recordDeclarations_outermost laminar
  have lookup (location : Loc) : (ThreadSafeASTUnit.create (some ast)).getDecl location = _ :=
    getDecl_eq rfl apart location
  refine ⟨apart, fun location decl eq => ?_, fun location outside => ?_, fun location decl mem inside => ?_⟩
  · rw [lookup] at eq
    have found := Except.ok.inj eq
    exact ⟨recordDeclarations_subset ast (List.mem_of_find?_eq_some found),
      by simpa using List.find?_some found⟩
  · rw [lookup]
    have none : (recordDeclarations ast).find? (fun decl => decl.getSourceRange.Surrounds location) = none :=
      List.find?_eq_none.mpr fun decl mem inside =>
        outside decl (recordDeclarations_subset ast mem) (by simpa using inside)
    exact congrArg Except.ok none
  · obtain ⟨outer, isIn, covers⟩ := covered decl mem
    have some_ : ((recordDeclarations ast).find? fun decl => decl.getSourceRange.Surrounds location).isSome :=
      List.find?_isSome.mpr ⟨outer, isIn, by simpa using covers.surrounds inside⟩
    obtain ⟨kept, eq⟩ := Option.isSome_iff_exists.mp some_
    exact ⟨kept, (lookup location).trans (congrArg Except.ok eq)⟩

end

def lambdaUnit : ASTUnit Nat where
  getSourceManager := singleFile
  fileinfo := []
  getLocation _ _ _ := none
  functions :=
    [⟨⟨0, 20, by decide⟩, true, []⟩, ⟨⟨5, 9, by decide⟩, true, []⟩, ⟨⟨21, 30, by decide⟩, true, []⟩]

theorem findsEnclosing_lambda : FindsEnclosing lambdaUnit := findsEnclosing (by decide)

end Mull.JunkDetection
