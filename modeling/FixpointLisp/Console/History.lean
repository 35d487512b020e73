import FixpointLisp.Console.Lines

/-!
# The history of entries

The console remembers the entries of a session and of earlier ones in a file. A file starts with a
version line; each further line is an entry, with backslashes and line feeds escaped.

* `History.add` adds an entry, unless it is empty or repeats the last one. At most `capacity`
  entries are kept, the oldest being dropped.
* `History.ofFile` reads a file and `History.toFile?` gives the new contents of the file, if
  anything was added since.
-/

namespace FixpointLisp
namespace Console

/-- The entries of this session and of earlier ones. -/
structure History where
  /-- The entries, the latest first. -/
  entries : List String
  /-- Whether an entry was added since the history was read. -/
  changed : Bool

namespace History

/-- The greatest number of entries. -/
def capacity : Nat := 100

/-- The history without entries. -/
def empty : History := ⟨[], false⟩

/-- Adds an entry. -/
def add (h : History) (entry : String) : History :=
  if entry = "" ∨ h.entries.head? = some entry then h
  else ⟨(entry :: h.entries).take capacity, true⟩

/-! ### The format of the file -/

/-- The first line of a file. -/
def versionLine : String := "#V2"

/-- An entry without line feeds: they are written as `\n` and backslashes twice. -/
def escape : List Char → List Char
  | [] => []
  | c :: cs =>
    if c = '\n' then '\\' :: 'n' :: escape cs
    else if c = '\\' then '\\' :: '\\' :: escape cs
    else c :: escape cs

/-- Undoes `escape`; there is no result when a backslash escapes anything else. -/
def unescape? : List Char → Option (List Char)
  | [] => some []
  | '\\' :: 'n' :: cs => (unescape? cs).map ('\n' :: ·)
  | '\\' :: '\\' :: cs => (unescape? cs).map ('\\' :: ·)
  | c :: cs => if c = '\\' then none else (unescape? cs).map (c :: ·)

/-- Reading an escaped entry gives it back. -/
theorem unescape?_escape (cs : List Char) : unescape? (escape cs) = some cs := by
  induction cs with
  | nil => rfl
  | cons c cs ih =>
    unfold escape
    split
    · next h => simp [unescape?, ih, h]
    · split
      · next h => simp [unescape?, ih, h]
      · next h => simp [unescape?, ih, h]

/-- The entry that a line of a file holds. A line that is not properly escaped is taken as it is. -/
def entryOf (line : List Char) : String := String.ofList ((unescape? line).getD line)

/-- The history that a file holds. A file without version line is a list of unescaped entries. -/
def ofFile (contents : String) : History :=
  let lines := (splitLines contents.toList).map stripEnd
  let entries := match lines with
    | [] => []
    | first :: rest =>
      let rest := rest.filter (· != [])
      if String.ofList first = versionLine then rest.map entryOf
      else String.ofList first :: rest.map String.ofList
  ⟨(entries.foldl add empty).entries, false⟩

/-- The new contents of the file, unless nothing was added. -/
def toFile? (h : History) : Option String :=
  if h.changed then
    let lines := h.entries.reverse.map fun e => String.ofList (escape e.toList)
    some (String.join ((versionLine :: lines).map fun l => l ++ "\n"))
  else none

end History

end Console
end FixpointLisp
