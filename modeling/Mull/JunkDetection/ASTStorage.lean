import Mull.Base.KeyedSort
import Mull.JunkDetection.CompilationDatabase
import Mull.JunkDetection.Visitors

/-! The ASTs of the units and what is looked up in them. -/

namespace Mull.JunkDetection
open Base

section
variable (Loc : Type) [LinearOrder Loc]

/-- `clang::FileEntry` -/
structure FileEntry where
  getName : Text
  tryGetRealPathName : Text
  isValid : Bool

/-- `clang::ASTUnit` -/
structure ASTUnit where
  getSourceManager : SourceManager Loc
  /-- `fileinfo_begin` to `fileinfo_end` -/
  fileinfo : List FileEntry
  /-- no location, or the one of a line and a column -/
  getLocation : FileEntry → Int32 → Int32 → Option Loc
  /-- the functions and function templates that `DeclVisitor` comes to -/
  functions : List (Decl Loc)

/-- A wrapper with or without an AST. -/
structure ThreadSafeASTUnit where
  ast : Option (ASTUnit Loc)
  decls : List (Decl Loc)

/-- What `ASTStorage` is given, and what it asks the file system and Clang. -/
structure Loader where
  fileExists : Text → Bool
  path : PathLibrary
  compilationDatabase : CompilationDatabase
  LoadFromCommandLine : List Text → Option (ASTUnit Loc)

end

section
variable {Loc : Type} [LinearOrder Loc]

/-- `DeclVisitor::addDecl` -/
def ASTUnit.records (ast : ASTUnit Loc) (decl : Decl Loc) : Bool :=
  decl.hasBody && !ast.getSourceManager.isInSystemHeader decl.getSourceRange.first

def SortLocationComparator (lhs rhs : Decl Loc) : Bool := lhs.getSourceRange.first < rhs.getSourceRange.first

def UniqueLocationComparator (lhs rhs : Decl Loc) :
    Bool := !decide (lhs.getSourceRange.last < rhs.getSourceRange.first)

def recordDeclarations (ast : ASTUnit Loc) : List (Decl Loc) :=
  unique UniqueLocationComparator (sortBy SortLocationComparator (ast.functions.filter ast.records))

namespace ThreadSafeASTUnit

def create (ast : Option (ASTUnit Loc)) : ThreadSafeASTUnit Loc :=
  ⟨ast, match ast with
    | some ast => recordDeclarations ast
    | none => []⟩

/-- `ast->`, which nothing checks. -/
def dereference (unit : ThreadSafeASTUnit Loc) : Except Failure (ASTUnit Loc) :=
  match unit.ast with
  | some ast => .ok ast
  | none => .error .nullDereference

def isInSystemHeader (unit : ThreadSafeASTUnit Loc) (location : Loc) : Except Failure Bool := do
  let ast ← unit.dereference
  pure (ast.getSourceManager.isInSystemHeader location)

/-- The path that an entry is compared by. -/
def currentSourceFilePath (file : FileEntry) : Text :=
  if isAbsolute file.getName then file.getName else file.tryGetRealPathName

def findFileEntryByPath (unit : ThreadSafeASTUnit Loc) (filePath : Text) :
    Except Failure (Option FileEntry) := do
  let ast ← unit.dereference
  pure (ast.fileinfo.find? fun file => currentSourceFilePath file == filePath)

def findFileEntry (unit : ThreadSafeASTUnit Loc) (sourceLocation : SourceLocation) :
    Except Failure (Option FileEntry) := do
  if sourceLocation.isNull then throw (.assertion "!sourceLocation.isNull() && \"Missing debug information?\"")
  match ← unit.findFileEntryByPath sourceLocation.filePath with
  | some file => pure (some file)
  | none => unit.findFileEntryByPath sourceLocation.unitFilePath

def getLocation (unit : ThreadSafeASTUnit Loc) (sourceLocation : SourceLocation) : Except Failure Loc := do
  match ← unit.findFileEntry sourceLocation with
  | none => throw (.assertion "file")
  | some file =>
    if !file.isValid then throw (.assertion "file->isValid()")
    if sourceLocation.isNull then throw (.assertion "!sourceLocation.isNull()")
    let ast ← unit.dereference
    match ast.getLocation file sourceLocation.line sourceLocation.column with
    | none => throw (.assertion "location.isValid()")
    | some location => pure location

def getDecl (unit : ThreadSafeASTUnit Loc) (location : Loc) : Except Failure (Option (Decl Loc)) := do
  if unit.decls.isEmpty then pure none
  else
    let _ ← unit.dereference
    let lower := lowerBound (fun decl : Decl Loc => decide (decl.getSourceRange.last < location)) unit.decls
    match unit.decls[lower]? with
    | none => pure none
    | some decl =>
      if decl.getSourceRange.first < location ∧ location < decl.getSourceRange.last then pure (some decl)
      else pure none

end ThreadSafeASTUnit

/-- `astUnits` -/
abbrev ASTUnits (Loc : Type) [LinearOrder Loc] := FileMap (ThreadSafeASTUnit Loc)

namespace Loader

def args (loader : Loader Loc) (sourceFile : Text) : List Text :=
  "mull-cxx".toList :: loader.compilationDatabase.compilationFlagsForFile loader.path
    sourceFile ++ [sourceFile]

/-- A file is loaded once. What is kept may be a wrapper without an AST. -/
def findASTOfFile (loader : Loader Loc) (sourceFile : Text) (astUnits : ASTUnits Loc) :
    ThreadSafeASTUnit Loc × ASTUnits Loc :=
  match astUnits.lookup sourceFile with
  | some unit => (unit, astUnits)
  | none =>
    let unit := ThreadSafeASTUnit.create (loader.LoadFromCommandLine (loader.args sourceFile))
    (unit, astUnits.insert sourceFile unit)

def findAST (loader : Loader Loc) (sourceLocation : SourceLocation) (astUnits : ASTUnits Loc) :
    Option (ThreadSafeASTUnit Loc) × ASTUnits Loc :=
  let sourceFile := sourceLocation.unitFilePath
  if loader.fileExists sourceFile then
    let (unit, astUnits) := loader.findASTOfFile sourceFile astUnits
    (some unit, astUnits)
  else if sourceFile = "/in-memory-file.cc".toList then
    let (unit, astUnits) := loader.findASTOfFile sourceLocation.filePath astUnits
    (some unit, astUnits)
  else (none, astUnits)

end Loader

end

end Mull.JunkDetection
