import Mull.MutationPoint
import Mull.Mutant

/-! `mull-runner` reads the mutants of an executable back from its section of records. -/

namespace Mull.Runner
open Base

structure ObjectSection where
  name : Text
  content : Text

/-- What loading an executable gives. -/
inductive Executable
  | unreadable (reason : Text)
  | notObjectFile (reason : Text)
  | objectFile (sections : List ObjectSection)

/-- How the runner ends early: on a diagnosed error, or by an exception of `stoi` or a chunk that is
not there. -/
inductive Exit
  | error (message : Text)
  | crash
deriving DecidableEq

def orCrash {α : Type} : Option α → Except Exit α
  | none => .error .crash
  | some value => .ok value

/-- What both tools ask about a path: `access` and `real_path`. -/
structure FileSystem where
  isReadable : Text → Bool
  realPath : Text → Option Text

/-- With this the `main` of both tools begins. -/
def validateInputFile (fileSystem : FileSystem) (inputFile : Text) : Except Exit Text :=
  let invalid := Exit.error ("The provided path to an executable program is not valid: ".toList ++ inputFile)
  if fileSystem.isReadable inputFile then
    match fileSystem.realPath inputFile with
    | some inputRealPath => .ok inputRealPath
    | none => .error invalid
  else .error invalid

def sectionName : Text := ".mull_mutants".toList

/-- One record: its chunks, and the identifier put together again. -/
def decodeMutant (encoding : Text) : Except Exit Mutant := do
  let chunks := splitChunks ':' encoding
  let mutator ← orCrash chunks[0]?
  let location ← orCrash chunks[1]?
  let beginLine ← orCrash (chunks[2]? >>= stoi)
  let beginColumn ← orCrash (chunks[3]? >>= stoi)
  let endLine ← orCrash (chunks[4]? >>= stoi)
  let endColumn ← orCrash (chunks[5]? >>= stoi)
  let covered ← orCrash (chunks[6]? >>= stoi)
  return {
    identifier := mutator ++ ':' :: location ++ ':' :: toText beginLine ++ ':' :: toText beginColumn
    mutatorIdentifier := mutator
    sourceLocation := ⟨[], location, [], location, beginLine, beginColumn⟩
    endLocation := ⟨[], location, [], location, endLine, endColumn⟩
    covered := covered != 0 }

def extractMutants : Executable → Except Exit (List Mutant)
  | .unreadable reason => .error (.error ("Cannot read executable:".toList ++ reason))
  | .notObjectFile reason => .error (.error ("Executable is not an object file: ".toList ++ reason))
  | .objectFile sections =>
    ((sections.filter fun s => s.name == sectionName).flatMap fun s =>
      splitChunks '\x00' s.content).mapM decodeMutant

end Mull.Runner
