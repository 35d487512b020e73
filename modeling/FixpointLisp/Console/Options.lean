/-!
# Command line

* `Command` is what a command line asks for.
* `Command.ofArgs?` reads the arguments from left to right; it refuses unknown ones, options without
  their value and options given twice. A request for the version ends the reading, whatever follows.
-/

namespace FixpointLisp
namespace Console

/-- The options of a command line. -/
structure Options where
  /-- The source text to evaluate. -/
  source : Option String
  /-- The file that keeps the history. -/
  historyFile : Option String
  /-- Whether no history is kept. -/
  noHistory : Bool
  /-- Whether key bindings are those of `vi`. -/
  vi : Bool

/-- What a command line asks for. -/
inductive Command where
  /-- Show the version. -/
  | version
  /-- Evaluate a source text. -/
  | evaluate (source : String)
  /-- Read entries from the standard input; the history is kept in the file, if there is one. -/
  | session (historyFile : Option String)
  deriving DecidableEq, Repr

namespace Options

/-- No option given. -/
def none : Options := ⟨.none, .none, false, false⟩

/-- The file that keeps the history unless another one is named. -/
def defaultHistoryFile : String := "fixlisp_history.txt"

/-- Names the source text to evaluate, once. -/
def setSource? (o : Options) (source : String) : Option Options :=
  match o.source with
  | .none => some { o with source := some source }
  | some _ => .none

/-- Names the history file, once. -/
def setHistoryFile? (o : Options) (file : String) : Option Options :=
  match o.historyFile with
  | .none => if file = "" then .none else some { o with historyFile := some file }
  | some _ => .none

/-- What the options ask for together. -/
def command (o : Options) : Command :=
  match o.source with
  | some source => .evaluate source
  | .none => .session (if o.noHistory then .none else some (o.historyFile.getD defaultHistoryFile))

end Options

namespace Command

/-- What follows `start` in `arg`. -/
def after? (start arg : String) : Option String :=
  (start.toList.isPrefixOf? arg.toList).map String.ofList

/-- The value attached to a short option: what follows it, without an equals sign in front. -/
def shortValue? (arg : String) : Option String :=
  match after? "-e" arg with
  | some "" => none
  | some value => some ((after? "=" value).getD value)
  | none => none

/-- An option that is a single argument. -/
def single? (o : Options) (arg : String) : Option Options :=
  if arg = "--no-history" then if o.noHistory then none else some { o with noHistory := true }
  else if arg = "--vi" then if o.vi then none else some { o with vi := true }
  else
    match after? "--eval=" arg, after? "--history=" arg, shortValue? arg with
    | some source, _, _ => o.setSource? source
    | none, some file, _ => o.setHistoryFile? file
    | none, none, some source => o.setSource? source
    | none, none, none => none

/-- Whether an argument may be the separate value of an option. -/
def isValue (arg : String) : Bool := arg = "-" || !(arg.toList.head? = some '-')

/-- An option whose value is the next argument. -/
def separate? (o : Options) (arg value : String) : Option Options :=
  if !isValue value then none
  else if arg = "--eval" ∨ arg = "-e" then o.setSource? value
  else if arg = "--history" then o.setHistoryFile? value
  else none

/-- Whether an argument asks for the version. Letters after the short form would be further short
options, but the request is met before they are read. -/
def asksVersion (arg : String) : Bool := arg = "--version" || (after? "-V" arg).isSome

/-- Reads arguments on top of the options read so far. Two dashes alone end the options; nothing
else may follow them. -/
def read? (o : Options) : List String → Option Command
  | [] => some o.command
  | arg :: args =>
    if asksVersion arg then some .version
    else if arg = "--" then if args.isEmpty then some o.command else none
    else
      match single? o arg, args with
      | some o', args => read? o' args
      | none, value :: args => (separate? o arg value).bind fun o' => read? o' args
      | none, [] => none

/-- What the arguments ask for. -/
def ofArgs? (args : List String) : Option Command := read? .none args

end Command

end Console
end FixpointLisp
