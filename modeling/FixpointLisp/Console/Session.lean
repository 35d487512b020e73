import FixpointLisp.Console.Balance
import FixpointLisp.Console.History
import FixpointLisp.Console.Host
import FixpointLisp.Eval.Basic
import FixpointLisp.Eval.Report
import FixpointLisp.Text.Letters

/-!
# Console sessions

A session reads lines, puts them together to entries with balanced brackets, and evaluates the
expressions of each entry in the global environment until one fails.

* `evalEntry` evaluates the expressions of an entry.
* `Session.feed` takes in a line.
-/

namespace FixpointLisp
namespace Console

/-! ### Evaluation -/

/-- A line that tells of an error. -/
def errorLine (text : String) : String := "Error: " ++ text ++ "\n"

/-- The line to be written when the depth of evaluation is exceeded. -/
def tooDeep : String := errorLine "evaluation is nested too deeply"

/-- The output for an outcome of evaluating an expression of `source`. -/
def outcomeOutput (source : String) : Outcome Value → Output
  | .done value => .toOut (value.write ++ "\n")
  | .failed err => .toErr (err.report source ++ errorLine err.message)
  | .exhausted => .toErr tooDeep

/-- Evaluates expressions of `source` one after the other until one fails. -/
def evalAll (depth : Nat) (source : String) : List Expr → Output
  | [] => .none
  | e :: es =>
    match eval depth e Environment.global .strict with
    | .done value => outcomeOutput source (.done value) ++ evalAll depth source es
    | o => outcomeOutput source o

/-- The output for an entry. -/
def evalEntry (depth : Nat) (source : String) : Output := evalAll depth source (parseAll source)

/-! ### Sessions -/

/-- The state of a session between two lines. -/
structure Session where
  /-- The part of an entry that has been read. -/
  pending : List Char
  history : History
  /-- Whether the session has ended. -/
  ended : Bool

namespace Session

/-- The first lines of a session. -/
def banner : String := "fixlisp REPL v0.1.0\nType 'exit' or press Ctrl-D to quit.\n"

/-- The beginning of a session. The history is that of an earlier file, if it could be read. -/
def start (history : History) : Session := ⟨[], history, false⟩

/-- Whether an entry asks for the end of the session. -/
def isExit (source : String) : Bool := Text.sameWord source "exit"

/-- Takes in an entry. -/
def enter (depth : Nat) (s : Session) (entry : List Char) : Session × Output :=
  let history := s.history.add (String.ofList entry)
  let source := String.ofList (Text.trim entry)
  if source = "" then (⟨[], history, false⟩, .none)
  else if isExit source then (⟨[], history, true⟩, .none)
  else (⟨[], history, false⟩, evalEntry depth source)

/-- Takes in a line. An incomplete entry waits for more; a line with a bracket that closes nothing
stays in front of what follows, its line end taken off. -/
def feedText (depth : Nat) (s : Session) (line : List Char) : Session × Output :=
  let input := s.pending ++ line
  let entry := stripEnd input
  match balance entry with
  | .complete => s.enter depth entry
  | .incomplete => ({ s with pending := input }, .none)
  | .unmatched pos => ({ s with pending := entry }, .toErr (unmatchedText pos))

/-- What is written when a line is not valid UTF-8. -/
def garbledText : String :=
  "Readline Error: Io(Error \x7b kind: InvalidData, " ++
    "message: \"stream did not contain valid UTF-8\" \x7d)\n"

/-- Takes in a line of input, unless the session has ended. -/
def feed (depth : Nat) (s : Session) (line : InputLine) : Session × Output :=
  if s.ended then (s, .none)
  else
    match line with
    | .text line => s.feedText depth line
    | .garbled => ({ s with ended := true }, .toErr garbledText)

/-- What is written when the input ends before the session does. An entry that is not complete is
dropped. -/
def farewell : Output := .toOut "\nExiting.\n"

end Session

end Console
end FixpointLisp
