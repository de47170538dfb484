import Mull.Base.Words
import Mull.SourceLocation

/-! The compiler flags for a source file, from the bitcode or from a compilation database. -/

namespace Mull.JunkDetection
open Base

abbrev Flags := List Text

/-- A `std::map` from file names. -/
abbrev FileMap (β : Type) := AList fun _ : Text => β

/-- `llvm::sys::path::is_absolute` on POSIX. -/
def isAbsolute (path : Text) : Bool := path.head? == some '/'

/-- What is used of `llvm::sys::path`, with the laws that the lookup rests on (of POSIX paths; a `//`
at the front is no more than a `/`). -/
structure PathLibrary where
  filename : Text → Text
  /-- `remove_dots`, asked to remove `..` as well -/
  removeDots : Text → Text
  removeDots_absolute {path : Text} : isAbsolute path → isAbsolute (removeDots path)
  removeDots_idem {path : Text} : isAbsolute path → removeDots (removeDots path) = removeDots path
  filename_ne_nil {path : Text} : isAbsolute path → filename path ≠ []
  -- only the root has an absolute name
  filename_absolute {path : Text} : isAbsolute path → isAbsolute (filename path) →
    filename path = removeDots path

/-- `clang::tooling::CompileCommand` -/
structure CompileCommand where
  Directory : Text
  Filename : Text
  CommandLine : List Text

/-- `llvm::DICompileUnit` -/
structure DICompileUnit where
  directory : Text
  filename : Text
  flags : Text

structure CompilationDatabase where
  extraFlags : Flags
  database : FileMap Flags
  bitcodeFlags : FileMap Flags

def filterFlags (flags : Flags) (stripCompiler : Bool) : Flags :=
  if flags.isEmpty then flags else if stripCompiler then flags.tail else flags

def flagsFromString (s : Text) : Flags := words isSpace s

def flagsFromCommand (command : CompileCommand) (extraFlags : Flags) : Flags :=
  (filterFlags command.CommandLine true).filter (· != command.Filename) ++ extraFlags

def commandPath (command : CompileCommand) : Text :=
  if !command.Filename.isEmpty && !isAbsolute command.Filename then
    command.Directory ++ '/' :: command.Filename
  else command.Filename

def prepareDatabase (commands : List CompileCommand) (extraFlags : Flags) : FileMap Flags :=
  commands.foldl
    (fun database command => database.insert (commandPath command) (flagsFromCommand command extraFlags)) ∅

def createBitcodeFlags (bitcodeFlagsMap : FileMap Text) (extraFlags : Flags) : FileMap Flags :=
  bitcodeFlagsMap.foldl
    (fun mergedBitcodeFlags filename commandline =>
      let fileFlags := filterFlags (flagsFromString commandline) true
      mergedBitcodeFlags.insert filename (fileFlags.filter (· != filename) ++ extraFlags)) ∅

/-- `jsondb` is null where the database cannot be read. -/
def createFromClangCompDB (jsondb : Option (List CompileCommand)) (extraFlags : Text)
    (bitcodeFlags : FileMap Text) : CompilationDatabase :=
  let extra := flagsFromString extraFlags
  ⟨extra, prepareDatabase (jsondb.getD []) extra, createBitcodeFlags bitcodeFlags extra⟩

/-- Each map is asked for the path, for the file name alone and for the path without dots. -/
def CompilationDatabase.compilationFlagsForFile (path : PathLibrary) (db : CompilationDatabase)
    (filepath : Text) : Flags :=
  if db.database.entries.isEmpty && db.bitcodeFlags.entries.isEmpty then db.extraFlags
  else
    let filename := path.filename filepath
    let dotlessPath := path.removeDots filepath
    let inBitcode := (db.bitcodeFlags.lookup filepath).or
      ((db.bitcodeFlags.lookup filename).or (db.bitcodeFlags.lookup dotlessPath))
    let inDatabase := (db.database.lookup filepath).or
      ((db.database.lookup filename).or (db.database.lookup (path.removeDots dotlessPath)))
    (inBitcode.or inDatabase).getD db.extraFlags

/-- `BitcodeMetadataReader::getCompilationDatabase`, over the compile units of every module. -/
def getCompilationDatabase (bitcode : List (List DICompileUnit)) : FileMap Text :=
  bitcode.foldl
    (fun bitcodeCompilationFlags module => module.foldl
      (fun bitcodeCompilationFlags unit =>
        let unitFullPath := absoluteFilePath unit.directory unit.filename
        if unit.flags.isEmpty then bitcodeCompilationFlags
        else bitcodeCompilationFlags.insert unitFullPath unit.flags)
      bitcodeCompilationFlags) ∅

theorem filterFlags_true (flags : Flags) : filterFlags flags true = flags.tail := by
  cases flags <;> rfl

theorem isAbsolute_ne_nil {path : Text} (absolute : isAbsolute path) : path ≠ [] := by
  rintro rfl
  cases absolute

theorem lookup_prepareDatabase (commands : List CompileCommand) (extraFlags : Flags) (filepath : Text) :
    (prepareDatabase commands extraFlags).lookup filepath =
      (lastWith commandPath filepath commands).map (flagsFromCommand · extraFlags) := by
  rw [prepareDatabase, lookup_foldl_insert, AList.lookup_empty, Option.or_none]

theorem lookup_createBitcodeFlags (flags : FileMap Text) (extraFlags : Flags) (filename : Text) :
    (createBitcodeFlags flags extraFlags).lookup filename = (flags.lookup filename).map fun commandline =>
      (flagsFromString commandline).tail.filter (· != filename) ++ extraFlags := by
  rw [createBitcodeFlags, lookup_foldl_entries]
  simp only [filterFlags_true]

theorem lookup_getCompilationDatabase (bitcode : List (List DICompileUnit)) (filepath : Text) :
    (getCompilationDatabase bitcode).lookup filepath =
      (lastWith (fun unit => absoluteFilePath unit.directory unit.filename) filepath
        (bitcode.flatten.filter fun unit => !unit.flags.isEmpty)).map DICompileUnit.flags := by
  have flat : getCompilationDatabase bitcode =
      (bitcode.flatten.filter fun unit => !unit.flags.isEmpty).foldl
        (fun flags unit => flags.insert (absoluteFilePath unit.directory unit.filename) unit.flags) ∅ := by
    rw [getCompilationDatabase, List.foldl_filter, List.foldl_flatten]
    congr
    funext flags module
    congr
    funext flags unit
    cases unit.flags.isEmpty <;> rfl
  rw [flat, lookup_foldl_insert, AList.lookup_empty, Option.or_none]

end Mull.JunkDetection
