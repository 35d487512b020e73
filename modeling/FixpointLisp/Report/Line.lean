import FixpointLisp.Text.Blank

/-!
# Lines of a source text

A report shows lines of the source text. A line includes the characters that end it: a carriage
return and line feed together, or one line-breaking character.

* `cutLine` divides a text into its first line and the rest.
* `Line` is a line with its number and the place of its first character; `linesOf` lists those of a
  text and `lineAt` finds the one that holds a position. Positions count characters.
* `Line.shown` is a line as a report shows it, with tabs filled up to the next tab stop;
  `Line.width` is the number of columns that a character of the line takes there.
-/

namespace FixpointLisp
namespace Report

open Text

/-- Whether a character ends a line. -/
def isLineBreak (c : Char) : Bool :=
  inRanges [(0x0A, 0x0D), (0x85, 0x85), (0x2028, 0x2029)] c.toNat

/-- The first line of a text, with the characters that end it, and the text after it. -/
def cutLine : List Char → List Char × List Char
  | [] => ([], [])
  | '\r' :: '\n' :: cs => (['\r', '\n'], cs)
  | c :: cs => if isLineBreak c then ([c], cs) else (c :: (cutLine cs).1, (cutLine cs).2)

theorem cutLine_append (cs : List Char) : (cutLine cs).1 ++ (cutLine cs).2 = cs := by
  fun_induction cutLine cs with simp_all

/-- The first line of a text that is not empty takes at least one character. -/
theorem cutLine_length_lt (c : Char) (cs : List Char) :
    (cutLine (c :: cs)).2.length < (c :: cs).length := by
  have hne : (cutLine (c :: cs)).1 ≠ [] := by
    unfold cutLine
    split
    · simp_all
    · simp
    · split <;> simp
  have h := congrArg List.length (cutLine_append (c :: cs))
  have := List.length_pos_iff.2 hne
  simp only [List.length_append] at h
  omega

/-- A line of a text. -/
structure Line where
  /-- The number of the line, counted from one. -/
  number : Nat
  /-- The position of its first character. -/
  start : Nat
  /-- Its characters, with those that end it. -/
  text : List Char
  deriving DecidableEq, Repr

namespace Line

/-- The position behind the last character. -/
def stop (l : Line) : Nat := l.start + l.text.length

/-- The characters that are shown: all but the blanks at the end. -/
def body (l : Line) : List Char := trimEnd l.text

/-- The distance between tab stops. -/
def tabStop : Nat := 4

/-- The columns that the character `c` takes in column `col`; columns count characters. -/
def charWidth (col : Nat) (c : Char) : Nat := if c = '\t' then tabStop - col % tabStop else 1

/-- The columns that the character in column `col` takes; behind the shown ones each takes one. -/
def width (l : Line) (col : Nat) : Nat :=
  match l.body[col]? with
  | some c => charWidth col c
  | none => 1

/-- Characters from column `col` on as they are shown: blanks as spaces. -/
def shownFrom (col : Nat) : List Char → List Char
  | [] => []
  | c :: cs =>
    (if isBlank c then List.replicate (charWidth col c) ' ' else [c]) ++ shownFrom (col + 1) cs

/-- The line as it is shown. -/
def shown (l : Line) : String := String.ofList (shownFrom 0 l.body)

end Line

/-- The lines of a text that starts with line `number` at position `start`. -/
def linesFrom (number start : Nat) : List Char → List Line
  | [] => []
  | c :: cs =>
    let text := (cutLine (c :: cs)).1
    ⟨number, start, text⟩ :: linesFrom (number + 1) (start + text.length) (cutLine (c :: cs)).2
termination_by cs => cs.length
decreasing_by exact cutLine_length_lt c cs

/-- The lines of a text. The empty text has one line, and no empty line follows the last line
break. -/
def linesOf (text : List Char) : List Line :=
  if text = [] then [⟨1, 0, []⟩] else linesFrom 1 0 text

/-- The line of a text that holds a position: the last one that starts no later. -/
def lineAt (text : List Char) (pos : Nat) : Line :=
  ((linesOf text).filter fun l => l.start ≤ pos).getLast?.getD ⟨1, 0, []⟩

end Report
end FixpointLisp
