import FixpointLisp.Console.Run

/-!
# The console program

This is the outer layer: the console with the real streams and files around it. All decisions are
made by `FixpointLisp.Console`.
-/

namespace FixpointLisp
namespace Console

/-- The recursion depth to which expressions are evaluated. -/
def evaluationDepth : Nat := 1000000

/-- Prints output to both streams. -/
def put (output : Output) : IO Unit := do
  (← IO.getStdout).putStr output.out
  (← IO.getStdout).flush
  (← IO.getStderr).putStr output.err

/-- Reads bytes up to and including a line feed, or to the end of the input; `front` holds those
read so far, the last one first. -/
partial def readLine (input : IO.FS.Stream) (front : List UInt8) : IO (List UInt8) := do
  match (← input.read 1).toList with
  | [] => return front.reverse
  | byte :: _ =>
    let front := byte :: front
    if byte = 10 then return front.reverse else readLine input front

/-- The next line of the standard input, if there is one. -/
def nextLine? : IO (Option InputLine) := do
  match ← readLine (← IO.getStdin) [] with
  | [] => return none
  | bytes => return some (.decode bytes)

/-- Goes through the lines of the standard input, each being read only when it is asked for. -/
partial def eachLine {σ : Type} (more : σ → Bool) (take : σ → InputLine → IO σ) (s : σ) :
    IO (σ × Bool) := do
  if more s then
    match ← nextLine? with
    | none => return (s, true)
    | some line => eachLine more take (← take s line)
  else return (s, false)

/-- The contents of a file that can be read. -/
def contents? (path : String) : IO (Option String) := do
  try
    return some (← IO.FS.readFile path)
  catch _ => return none

/-- An error as the operating system reports it. -/
def osErrorOf : IO.Error → OsError
  | .noFileOrDirectory _ code details | .interrupted _ code details
  | .inappropriateType _ code details | .invalidArgument _ code details
  | .permissionDenied _ code details | .resourceExhausted _ code details
  | .alreadyExists _ code details | .noSuchThing _ code details
  | .unsupportedOperation code details | .resourceBusy code details
  | .resourceVanished code details | .hardwareFault code details
  | .unsatisfiedConstraints code details | .illegalOperation code details
  | .protocolError code details | .timeExpired code details
  | .otherError code details => ⟨code.toNat, details⟩
  | .unexpectedEof => ⟨0, "unexpected end of file"⟩
  | .userError message => ⟨0, message⟩

/-- Writes a file. -/
def writeFile (path contents : String) : IO (Except OsError Unit) := do
  try
    IO.FS.writeFile path contents
    return .ok ()
  catch e => return .error (osErrorOf e)

/-- The real surroundings. -/
def process : Host IO where
  put := put
  eachLine := eachLine
  read? := contents?
  write := writeFile

/-- Carries out a command line; one that cannot be read gives the exit code 2. -/
def carryOutLine (args : List String) : IO UInt32 := do
  match Command.ofArgs? args with
  | some command => return (← carryOut process evaluationDepth command).toUInt32
  | none =>
    put (.toErr (errorLine "unexpected arguments"))
    return 2

end Console
end FixpointLisp

/-- The console program. -/
def main (args : List String) : IO UInt32 := FixpointLisp.Console.carryOutLine args
