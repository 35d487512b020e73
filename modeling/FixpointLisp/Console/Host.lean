import FixpointLisp.Console.Lines

/-!
# What surrounds the console

A run of the console writes to two streams, reads lines and uses files. How this is done is left to
its surroundings: a run is written once, for all monads in which these actions exist.

* `Output` is what is written to the standard output and to the standard error stream.
* `OsError` is an error that the operating system reports.
* `Host` are the actions that a run is made of.
* `Storage` tells what reading and writing a file does to the state of all files; `Storage.host` are
  surroundings in which the input is a list of lines and all that happens is kept in a `World`.

The surroundings have no terminal: lines come without being edited. A log, which can be switched on
from outside and is written to the standard error stream, is not kept.
-/

namespace FixpointLisp
namespace Console

/-- What is written to the two output streams. -/
structure Output where
  out : String
  err : String
  deriving DecidableEq, Repr

namespace Output

/-- No output. -/
def none : Output := ⟨"", ""⟩

/-- Output to the standard output stream. -/
def toOut (s : String) : Output := ⟨s, ""⟩

/-- Output to the standard error stream. -/
def toErr (s : String) : Output := ⟨"", s⟩

/-- One output after another. -/
protected def append (a b : Output) : Output := ⟨a.out ++ b.out, a.err ++ b.err⟩

instance : Append Output := ⟨Output.append⟩

@[simp] theorem out_append (a b : Output) : (a ++ b).out = a.out ++ b.out := rfl

@[simp] theorem err_append (a b : Output) : (a ++ b).err = a.err ++ b.err := rfl

theorem append_assoc (a b c : Output) : a ++ b ++ c = a ++ (b ++ c) := by
  show Output.mk _ _ = Output.mk _ _
  simp [String.append_assoc]

@[simp] theorem append_none (a : Output) : a ++ none = a := by
  show Output.mk (a.out ++ "") (a.err ++ "") = a
  simp

@[simp] theorem none_append (a : Output) : none ++ a = a := by
  show Output.mk ("" ++ a.out) ("" ++ a.err) = a
  simp

end Output

/-! ### Errors of the operating system -/

/-- An error that the operating system reports. -/
structure OsError where
  code : Nat
  message : String
  deriving DecidableEq, Repr

namespace OsError

/-- The kind of an error; errors without a kind of their own are uncategorized. -/
def kind (e : OsError) : String :=
  match e.code with
  | 1 | 13 => "PermissionDenied"
  | 2 => "NotFound"
  | 4 => "Interrupted"
  | 12 => "OutOfMemory"
  | 16 => "ResourceBusy"
  | 17 => "AlreadyExists"
  | 20 => "NotADirectory"
  | 21 => "IsADirectory"
  | 22 => "InvalidInput"
  | 26 => "ExecutableFileBusy"
  | 27 => "FileTooLarge"
  | 28 => "StorageFull"
  | 29 => "NotSeekable"
  | 30 => "ReadOnlyFilesystem"
  | 36 => "InvalidFilename"
  | 40 => "FilesystemLoop"
  | 116 => "StaleNetworkFileHandle"
  | 122 => "QuotaExceeded"
  | _ => "Uncategorized"

/-- The text of an error. -/
def write (e : OsError) : String :=
  "Io(Os \x7b code: " ++ e.code.repr ++ ", kind: " ++ e.kind ++ ", message: \"" ++ e.message ++
    "\" \x7d)"

end OsError

/-! ### Actions -/

/-- What a run can do in its surroundings. -/
structure Host (m : Type → Type) where
  /-- Writes to the two streams. -/
  put : Output → m Unit
  /-- Goes through the lines of the standard input as long as the state asks for more of them. Gives
  the last state, and whether the input has come to its end. -/
  eachLine {σ : Type} (more : σ → Bool) (take : σ → InputLine → m σ) (start : σ) : m (σ × Bool)
  /-- The contents of a file, if it can be read as a text. -/
  read? (path : String) : m (Option String)
  /-- Writes a file, be there one already or not. -/
  write (path contents : String) : m (Except OsError Unit)

/-- What reading and writing a file does to the state of all files. -/
structure Storage (φ : Type) where
  read? (files : φ) (path : String) : Option String
  write (files : φ) (path contents : String) : Except OsError φ

/-- What a run has written, and the state of all files. -/
structure World (φ : Type) where
  output : Output
  files : φ

namespace Storage

variable {φ σ : Type}

/-- Goes through a list of lines. -/
def takeLines (more : σ → Bool) (take : σ → InputLine → StateM (World φ) σ) :
    σ → List InputLine → StateM (World φ) (σ × Bool)
  | s, [] => return (s, more s)
  | s, line :: lines => do
    if more s then
      let s ← take s line
      takeLines more take s lines
    else return (s, false)

/-- Surroundings that consist of a list of lines, to be gone through once, and the given files. -/
def host (storage : Storage φ) (input : List InputLine) : Host (StateM (World φ)) where
  put output := modify fun w => { w with output := w.output ++ output }
  eachLine more take start := takeLines more take start input
  read? path := return storage.read? (← get).files path
  write path contents := do
    let w ← get
    match storage.write w.files path contents with
    | .ok files =>
      set { w with files := files }
      return .ok ()
    | .error e => return .error e

end Storage

end Console
end FixpointLisp
