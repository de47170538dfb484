import Mull.JunkDetection.PosixPath

/-! Looking a file up in a compilation database. The query loses its dots, the paths of the commands keep
theirs. -/

namespace Mull.JunkDetection
open Base

def ownFlags (command : CompileCommand) : Flags := command.CommandLine.tail.filter (· != command.Filename)

def flagsOf (command : Option CompileCommand) : Flags := (command.map ownFlags).getD []

section
variable (path : PathLibrary) (commands : List CompileCommand)

def commandFile (command : CompileCommand) : Text :=
  if isAbsolute command.Filename then command.Filename else command.Directory ++ '/' :: command.Filename

def normalFile (command : CompileCommand) : Text := path.removeDots (commandFile command)

/-- However the query is spelled, the last command for the same file is found. -/
def FindsByFile : Prop :=
  ∀ extraFlags query, isAbsolute query →
    (createFromClangCompDB (some commands) extraFlags ∅).compilationFlagsForFile path query =
      flagsOf (lastWith (normalFile path) (path.removeDots query) commands) ++ flagsFromString extraFlags

/-- What the database must be like for that. -/
structure SpelledOut : Prop where
  /-- the last command of a spelling passes on what the last command for the file does -/
  same : ∀ command ∈ commands, command.Filename ≠ [] →
    flagsOf (lastWith commandPath (commandPath command) commands) =
      flagsOf (lastWith (normalFile path) (normalFile path command) commands)
  /-- a file with flags is spelled without dots at least once -/
  dotless : ∀ command ∈ commands,
    flagsOf (lastWith (normalFile path) (normalFile path command) commands) = [] ∨
      ∃ spelled ∈ commands, commandPath spelled = normalFile path command

def found (query : Text) : Option CompileCommand :=
  (lastWith commandPath query commands).or ((lastWith commandPath (path.filename query) commands).or
    (lastWith commandPath (path.removeDots (path.removeDots query)) commands))

variable {path commands}

theorem flagsFromCommand_eq (command : CompileCommand) (extraFlags : Flags) :
    flagsFromCommand command extraFlags = ownFlags command ++ extraFlags := by
  rw [flagsFromCommand, filterFlags_true]
  rfl

theorem compilationFlagsForFile_eq (extraFlags query : Text) :
    (createFromClangCompDB (some commands) extraFlags ∅).compilationFlagsForFile path query =
      flagsOf (found path commands query) ++ flagsFromString extraFlags := by
  have looked : (createFromClangCompDB (some commands) extraFlags ∅).compilationFlagsForFile path query =
      ((found path commands query).map (flagsFromCommand · (flagsFromString extraFlags))).getD
        (flagsFromString extraFlags) := by
    simp only [found, Option.map_or, ← lookup_prepareDatabase]
    unfold CompilationDatabase.compilationFlagsForFile
    split
    · rename_i none
      have empty : prepareDatabase commands (flagsFromString extraFlags) = ∅ :=
        AList.ext (List.isEmpty_iff.mp (Bool.and_eq_true_iff.mp none).1)
      rw [empty]
      rfl
    · rfl
  rw [looked]
  cases found path commands query with
  | none => rfl
  | some command => exact flagsFromCommand_eq command _

theorem findsByFile_iff : FindsByFile path commands ↔ ∀ query, isAbsolute query →
    flagsOf (found path commands query) =
      flagsOf (lastWith (normalFile path) (path.removeDots query) commands) := by
  simp only [FindsByFile, compilationFlagsForFile_eq, List.append_cancel_right_eq]
  exact ⟨fun finds => finds [], fun finds _ => finds⟩

theorem commandPath_of_named {command : CompileCommand} (named : command.Filename ≠ []) :
    commandPath command = commandFile command := by
  unfold commandPath commandFile
  cases isAbsolute command.Filename <;> simp [named]

theorem commandPath_of_unnamed {command : CompileCommand} (unnamed : command.Filename = []) :
    commandPath command = [] := by
  simp [commandPath, unnamed]

section
variable (rooted : ∀ command ∈ commands, isAbsolute command.Directory)
include rooted

theorem commandFile_absolute {command : CompileCommand} (mem : command ∈ commands) :
    isAbsolute (commandFile command) := by
  unfold commandFile
  split
  · assumption
  · have root := rooted command mem
    obtain ⟨c, rest, eq⟩ := List.exists_cons_of_ne_nil (isAbsolute_ne_nil root)
    rw [eq] at root ⊢
    exact root

theorem found_of_absolute {query : Text} (absolute : isAbsolute query) :
    found path commands query =
      (lastWith commandPath query commands).or (lastWith commandPath (path.removeDots query) commands) := by
  rw [found, path.removeDots_idem absolute]
  cases named : lastWith commandPath (path.filename query) commands with
  | none => rfl
  | some command =>
    obtain ⟨mem, spelled⟩ := lastWith_some named
    have written : command.Filename ≠ [] := by
      intro unnamed
      rw [commandPath_of_unnamed unnamed] at spelled
      exact path.filename_ne_nil absolute spelled.symm
    have root : isAbsolute (path.filename query) := by
      rw [← spelled, commandPath_of_named written]
      exact commandFile_absolute rooted mem
    rw [← path.filename_absolute absolute root, named]
    rfl

theorem SpelledOut.findsByFile (ok : SpelledOut path commands) {query : Text} (absolute : isAbsolute query) :
    flagsOf (found path commands query) =
      flagsOf (lastWith (normalFile path) (path.removeDots query) commands) := by
  -- a command spelled like the query, or like the query without its dots, is one for the same file
  have spelling : ∀ key, key = query ∨ key = path.removeDots query → ∀ command,
      lastWith commandPath key commands = some command →
      flagsOf (some command) = flagsOf (lastWith (normalFile path) (path.removeDots query) commands) := by
    intro key near command last
    obtain ⟨mem, spelled⟩ := lastWith_some last
    have rootedKey : isAbsolute key := by
      rcases near with rfl | rfl
      · exact absolute
      · exact path.removeDots_absolute absolute
    have named : command.Filename ≠ [] := fun unnamed =>
      isAbsolute_ne_nil rootedKey (by rw [← spelled, commandPath_of_unnamed unnamed])
    have normal : normalFile path command = path.removeDots query := by
      rw [normalFile, ← commandPath_of_named named, spelled]
      rcases near with rfl | rfl
      · rfl
      · exact path.removeDots_idem absolute
    rw [← normal, ← ok.same command mem named, spelled, last]
  rw [found_of_absolute rooted absolute]
  cases exact : lastWith commandPath query commands with
  | some command => exact spelling query (.inl rfl) command exact
  | none =>
    rw [Option.none_or]
    cases dotless : lastWith commandPath (path.removeDots query) commands with
    | some command => exact spelling _ (.inr rfl) command dotless
    | none =>
      cases last : lastWith (normalFile path) (path.removeDots query) commands with
      | none => rfl
      | some command =>
        obtain ⟨mem, normal⟩ := lastWith_some last
        rcases ok.dotless command mem with nothing | ⟨spelled, isIn, eq⟩
        · rw [normal, last] at nothing
          exact nothing.symm
        · exact absurd (eq.trans normal) (lastWith_eq_none.mp dotless spelled isIn)

theorem spelledOut_of_finds (finds : ∀ query, isAbsolute query → flagsOf (found path commands query) =
    flagsOf (lastWith (normalFile path) (path.removeDots query) commands)) : SpelledOut path commands where
  same command mem named := by
    have absolute := commandFile_absolute rooted mem
    have claimed := finds (commandFile command) absolute
    rw [found_of_absolute rooted absolute, ← commandPath_of_named named] at claimed
    cases last : lastWith commandPath (commandPath command) commands with
    | none => exact absurd rfl (lastWith_eq_none.mp last command mem)
    | some spelled =>
      rw [last, Option.some_or, commandPath_of_named named] at claimed
      exact claimed
  dotless command mem := by
    have absolute := commandFile_absolute rooted mem
    by_cases spelled : ∃ spelled ∈ commands, commandPath spelled = normalFile path command
    · exact .inr spelled
    · left
      have nothing : lastWith commandPath (normalFile path command) commands = none :=
        lastWith_eq_none.mpr fun other isIn eq => spelled ⟨other, isIn, eq⟩
      have rootedFile : isAbsolute (normalFile path command) := path.removeDots_absolute absolute
      have claimed := finds (normalFile path command) rootedFile
      have normal : path.removeDots (normalFile path command) = normalFile path command :=
        path.removeDots_idem absolute
      rw [found_of_absolute rooted rootedFile, normal, nothing, Option.none_or] at claimed
      exact claimed.symm

/-- The spelling of the query does not matter exactly if the spellings of the commands do not. -/
theorem findsByFile_iff_spelledOut : FindsByFile path commands ↔ SpelledOut path commands := by
  rw [findsByFile_iff]
  exact ⟨spelledOut_of_finds rooted, fun ok _ => ok.findsByFile rooted⟩

end

end

theorem findsByFile_iff_spelledOut_bar :
    FindsByFile posix [⟨['/', 'f'], ['b'], [['c', 'c'], ['-', 'g'], ['b']]⟩] ↔
      SpelledOut posix [⟨['/', 'f'], ['b'], [['c', 'c'], ['-', 'g'], ['b']]⟩] :=
  findsByFile_iff_spelledOut (by decide)

/-- The command is for `/f/./b`, the query asks for `/f/b`. -/
theorem not_findsByFile_dot :
    ¬ FindsByFile posix [⟨['/', 'f'], ['.', '/', 'b'], [['c', 'c'], ['-', 'g'], ['b']]⟩] := by
  intro finds
  exact absurd (finds [] ['/', 'f', '/', 'b'] rfl) (by decide)

end Mull.JunkDetection
