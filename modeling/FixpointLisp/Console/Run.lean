import FixpointLisp.Console.Options
import FixpointLisp.Console.Session

/-!
# Runs of the console

* `converse` is a session: it feeds the lines of the input to it and writes what it puts out.
  `keepHistory` keeps its history in a file.
* `carryOut` carries out a command and gives the exit code.
* `runCommand` does so on a list of lines; `RunResult` is how such a run ends.
-/

namespace FixpointLisp
namespace Console

/-- The version of the console. -/
def versionText : String := "fixlisp-repl 0.1.0\n"

/-- Evaluates the first expression of a source text; a failure gives the exit code 1. -/
def runSource (depth : Nat) (source : String) : Output × Nat :=
  match FixpointLisp.run depth source Environment.global with
  | .done value => (outcomeOutput source (.done value), 0)
  | o => (outcomeOutput source o, 1)

/-- What a session says about the history before it reads the first line, and that history. -/
def openHistory (previous : Option String) : History × Output :=
  match previous with
  | some contents => (History.ofFile contents, .none)
  | none => (.empty, .toOut "No previous history.\n")

section

variable {m : Type → Type} [Monad m] (host : Host m)

/-- Feeds a line to a session and writes what it puts out. -/
def takeLine (depth : Nat) (s : Session) (line : InputLine) : m Session := do
  let (s, output) := s.feed depth line
  host.put output
  return s

/-- Feeds lines to a session until it or the input ends, and gives the history that is left. -/
def converse (depth : Nat) (history : History) : m History := do
  let (s, atEnd) ← host.eachLine (fun s => !s.ended) (takeLine host depth) (.start history)
  if atEnd then host.put Session.farewell
  return s.history

/-- Keeps the history in a file, if anything was added to it, and gives the exit code. -/
def keepHistory (path : String) (history : History) : m Nat :=
  match history.toFile? with
  | none => return 0
  | some contents => do
    match ← host.write path contents with
    | .ok () => return 0
    | .error e =>
      host.put (.toErr (errorLine e.write))
      return 1

/-- A session whose history is kept in a file, if one is given. -/
def runSession (depth : Nat) (historyFile : Option String) : m Nat := do
  host.put (.toOut Session.banner)
  match historyFile with
  | none =>
    let _ ← converse host depth .empty
    return 0
  | some path =>
    let (history, notice) := openHistory (← host.read? path)
    host.put notice
    keepHistory host path (← converse host depth history)

/-- Carries out a command. -/
def carryOut (depth : Nat) (command : Command) : m Nat :=
  match command with
  | .version => do
    host.put (.toOut versionText)
    return 0
  | .evaluate source => do
    let (output, code) := runSource depth source
    host.put output
    return code
  | .session historyFile => runSession host depth historyFile

end

/-- How a run ends. -/
structure RunResult (φ : Type) where
  output : Output
  code : Nat
  files : φ

/-- Carries out a command on the given lines of input and the given files. -/
def runCommand {φ : Type} (storage : Storage φ) (depth : Nat) (command : Command)
    (input : List InputLine) (files : φ) : RunResult φ :=
  let (code, world) := (carryOut (storage.host input) depth command).run ⟨.none, files⟩
  ⟨world.output, code, world.files⟩

end Console
end FixpointLisp
