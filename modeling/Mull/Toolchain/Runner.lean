import Mull.Runner.MutantExtractor

/-! `Runner::runProgram` and what it makes of a process, and the `Linker`, which runs one. -/

namespace Mull.Toolchain
open Base Runner

inductive ExecutionStatus
  | invalid | failed | passed | timedout | crashed | abnormalExit | dryRun | failFast | notCovered
deriving DecidableEq

structure ExecutionResult where
  status : ExecutionStatus := .invalid
  exitStatus : Int32 := 0
  runningTime : Int64 := 0
  stdoutOutput : Text := []
  stderrOutput : Text := []
deriving DecidableEq

/-- What a process is started with; `timeout` is in milliseconds. -/
structure Request where
  program : Text
  arguments : List Text
  extraEnvironment : List (Text × Text)
  timeout : Int64
  workingDirectory : Option Text
deriving DecidableEq

inductive Start
  | started
  | noSuchFile
  | failed (message : Text)
deriving DecidableEq

/-- What becomes of a process: how its start went, what waiting for it gave, what it printed and how long it
took. -/
structure Process where
  start : Start := .started
  timedOut : Bool := false
  status : Int32 := 0
  stdout : Text := []
  stderr : Text := []
  elapsed : Int64 := 0

/-- `environment` are the names that are set to "1". -/
def request (program : Text) (arguments environment : List Text) (timeout : Int64)
    (workingDirectory : Option Text) :
    Request where
  program := program
  arguments := arguments
  extraEnvironment := environment.map fun name => (name, "1".toList)
  timeout := timeout
  workingDirectory := workingDirectory

def judge (captureOutput : Bool) (p : Process) : ExecutionResult where
  status := if p.timedOut then .timedout else if p.status = 0 then .passed else .failed
  exitStatus := p.status
  runningTime := p.elapsed
  stdoutOutput := if captureOutput then p.stdout else []
  stderrOutput := if captureOutput then p.stderr else []

/-- A program that cannot be started ends the run. -/
def runProgram (process : Request → Process) (program : Text) (arguments environment : List Text)
    (timeout : Int64)
    (captureOutput : Bool) (workingDirectory : Option Text := none) : Except Exit ExecutionResult :=
  let p := process (request program arguments environment timeout workingDirectory)
  match p.start with
  | .noSuchFile => .error (.error ("Executable not found: ".toList ++ program))
  | .failed message =>
    .error (.error ("Cannot run executable: ".toList ++ message ++ "\nstdout: ".toList ++ p.stdout ++
      "\nstderr: ".toList ++ p.stderr ++ "\ncommand: ".toList ++
        ((program :: arguments).flatMap fun argument => argument ++ " ".toList) ++ "\n".toList))
  | .started => .ok (judge captureOutput p)

def Starts (process : Request → Process) (r : Request) : Prop := (process r).start = .started

instance (process : Request → Process) (r : Request) : Decidable (Starts process r) :=
  inferInstanceAs (Decidable (_ = _))

theorem runProgram_ok_iff {process : Request → Process} {program : Text} {arguments environment : List Text}
    {timeout : Int64} {captureOutput : Bool} {workingDirectory : Option Text} {result : ExecutionResult} :
    runProgram process program arguments environment timeout captureOutput workingDirectory = .ok result ↔
      Starts process (request program arguments environment timeout workingDirectory) ∧
        result = judge captureOutput
          (process (request program arguments environment timeout workingDirectory)) := by
  unfold runProgram Starts
  generalize process (request program arguments environment timeout workingDirectory) = p
  obtain ⟨start, timedOut, status, stdout, stderr, elapsed⟩ := p
  cases start with
  | started =>
    simp only [Except.ok.injEq, true_and]
    exact eq_comm
  | noSuchFile => exact iff_of_false (fun ended => by cases ended) fun ok => by cases ok.1
  | failed message => exact iff_of_false (fun ended => by cases ended) fun ok => by cases ok.1

end Mull.Toolchain
