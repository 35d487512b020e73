import FixpointLisp.Report.Line
import FixpointLisp.Span

/-!
# Reports

A report shows an error together with the lines of the source text it is about. It consists of a
message, a span, and a label that is attached to the span. The positions of the span are taken as
numbers of characters.

* `Report.rows` are the rows of a report on a source text, from the message to the closing corner.
  A span within one line is underlined and its label hangs from the middle; of a span over several
  lines the first and the last line are shown, joined by an arrow at their left.
* `Report.render` puts the rows together.
-/

namespace FixpointLisp

/-- An error message with a label for a span of the source text. -/
structure Report where
  message : String
  label : String
  span : Span
  deriving DecidableEq, Repr

namespace Report

/-- A row of `n` equal characters. -/
def fill (n : Nat) (c : Char) : String := String.ofList (List.replicate n c)

/-- The margin beside line numbers: as wide as the numbers and a space at either side. -/
def margin (digits : Nat) : String := fill (digits + 2) ' '

/-- The front of a row that shows a line: its number, right-aligned, and a bar. -/
def gutter (digits : Nat) (l : Line) : String :=
  let n := l.number.repr
  " " ++ fill (digits - n.length) ' ' ++ n ++ " │ "

/-- The name under which the source text is shown. -/
def sourceName : String := "REPL"

/-- The row that names the source text with the line and column of the span, from one on. -/
def location (digits : Nat) (l : Line) (start : Nat) : String :=
  margin digits ++ "╭─[ " ++ sourceName ++ ":" ++ l.number.repr ++ ":" ++
    (start - l.start + 1).repr ++ " ]"

/-- The row that closes a report. -/
def footer (digits : Nat) : String := fill (digits + 2) '─' ++ "╯"

/-! ### Spans within a line -/

/-- The columns of the marks under a line, and two more behind the span. -/
def markColumns (l : Line) (s : Span) : List Nat := List.range (s.stop - l.start + 2)

/-- The column from which the label hangs. -/
def middle (l : Line) (s : Span) : Nat := (s.start + s.stop) / 2 - l.start

/-- The part of the underline in a column. -/
def underlineMark (l : Line) (s : Span) (col : Nat) : String :=
  let inside := s.start ≤ l.start + col ∧ l.start + col < s.stop
  if col = middle l s then
    if inside then "┬" ++ fill (l.width col - 1) '─' else "│" ++ fill (l.width col - 1) ' '
  else if inside then fill (l.width col) '─' else fill (l.width col) ' '

/-- The part of the arm that leads to the label in a column. -/
def armMark (l : Line) (s : Span) (col : Nat) : String :=
  if col < middle l s then fill (l.width col) ' '
  else if col = middle l s then "╰" ++ fill (l.width col - 1) '─'
  else fill (l.width col) '─'

/-- The rows of a span within the line `l`. When the span reaches past the line only an empty row
is shown. -/
def inlineRows (digits : Nat) (l : Line) (s : Span) (label : String) : List String :=
  let bar := margin digits ++ "│ "
  if l.stop < s.stop then [bar]
  else
    [gutter digits l ++ l.shown,
      bar ++ String.join ((markColumns l s).map (underlineMark l s)),
      bar ++ String.join ((markColumns l s).map (armMark l s)) ++ " " ++ label]

/-! ### Spans over several lines -/

/-- The row that stands for lines left out. -/
def gap (digits : Nat) : String := margin digits ++ "┆ ┆   "

/-- The columns under the last line of a span, and two more. -/
def lastWidth (l : Line) : Nat :=
  (List.range (l.text.length + 2)).foldl (fun total i => total + l.width i) 0

/-- The rows of a span from the line `a` to the later line `b`; `size` is the number of characters
of the text. -/
def multilineRows (digits size : Nat) (a b : Line) (s : Span) (label : String) : List String :=
  let head := gutter digits a ++ "╭─▶ " ++ a.shown
  if size < s.stop then [head, gap digits]
  else
    [head] ++ (if a.number + 1 < b.number then [gap digits] else []) ++
      [gutter digits b ++ "├─▶ " ++ b.shown,
        margin digits ++ "│ │   " ++ fill (lastWidth b) ' ',
        margin digits ++ "│ ╰───" ++ fill (lastWidth b) '─' ++ " " ++ label]

/-! ### Whole reports -/

/-- The position of the last character of a span; an empty span counts as one at its start. -/
def lastPos (s : Span) : Nat := if s.start < s.stop then s.stop - 1 else s.start

/-- The rows of a report on a text. Nothing but the message is shown when the span starts or ends
outside of the text. -/
def rows (r : Report) (text : List Char) : List String :=
  let head := "Error: " ++ r.message
  if text.length < r.span.start ∨ text.length < lastPos r.span then [head]
  else
    let a := lineAt text r.span.start
    let b := lineAt text (lastPos r.span)
    let digits := b.number.repr.length
    [head, location digits a r.span.start, margin digits ++ "│"] ++
      (if a.number = b.number then inlineRows digits a r.span r.label
        else multilineRows digits text.length a b r.span r.label) ++
      [footer digits]

/-- The text of a report on a source text; every row ends its line. -/
def render (r : Report) (source : String) : String :=
  String.join ((r.rows source.toList).map fun row => row ++ "\n")

end Report
end FixpointLisp
