import FixpointLisp.Console.Balance

/-!
# Decorated lines

The line under the cursor is shown with strings in green, closing brackets that close nothing in red
and one pair of brackets in blue.

* `Style.render` shows a character in a style.
* `Buffer` holds the text that shows the first characters of a line, and where in this text the
  opening brackets stand that are still open. `Buffer.step` shows one more character. A closing
  bracket makes its pair blue when the cursor stands right behind it, counted in characters, or
  right behind the opening one, counted in the bytes shown. The opening bracket, which has been
  shown before, is then replaced in the text.
* `highlight` is the decorated line.
-/

namespace FixpointLisp
namespace Console

/-- How a character is shown. -/
inductive Style where
  | plain
  /-- Part of a string. -/
  | string
  /-- The opening bracket of the marked pair. -/
  | pairOpen
  /-- The closing bracket of the marked pair. -/
  | pairClose
  /-- A closing bracket that closes nothing. -/
  | stray
  deriving DecidableEq, Repr

namespace Style

/-- A character in the colour with the given code. -/
def coloured (code : String) (c : Char) : String :=
  "\x1b[" ++ code ++ "m" ++ String.singleton c ++ "\x1b[0m"

/-- The text that shows a character. -/
def render : Style → Char → String
  | plain, c => String.singleton c
  | string, c => coloured "32" c
  | pairOpen, c => coloured "1;34" c
  | pairClose, c => coloured "34" c
  | stray, c => coloured "31" c

end Style

/-- A text with the byte at position `n` replaced. There is none if this byte is not a character:
if the text is too short, or the byte is only a part of a character. -/
def replaceByte? (new : List Char) : Nat → List Char → Option (List Char)
  | _, [] => none
  | n, c :: cs =>
    if c.utf8Size ≤ n then (replaceByte? new (n - c.utf8Size) cs).map (c :: ·)
    else if n = 0 ∧ c.utf8Size = 1 then some (new ++ cs)
    else none

/-- The first characters of a line as they are shown. -/
structure Buffer where
  /-- Where the line stands with regard to strings. -/
  quoting : Quoting
  /-- The number of characters read. -/
  index : Nat
  /-- The text that shows them. -/
  text : String
  /-- The byte positions in the text of the brackets that are still open, the innermost first. -/
  opens : List Nat

namespace Buffer

/-- Nothing of the line has been read. -/
def start : Buffer := ⟨.outside, 0, "", []⟩

/-- Shows a character in a style, with the given brackets open behind it. -/
def put (b : Buffer) (style : Style) (c : Char) (opens : List Nat) : Buffer :=
  ⟨b.quoting.next c, b.index + 1, b.text ++ style.render c, opens⟩

/-- Shows the opening bracket at a position of the text as that of the marked pair. -/
def markOpen? (b : Buffer) (position : Nat) : Option Buffer :=
  (replaceByte? (Style.pairOpen.render '(').toList position b.text.toList).map fun text =>
    { b with text := String.ofList text }

/-- Shows the next character; the cursor is at `pos`. There is no result where the text would be
changed at a byte that is not a character. -/
def step (pos : Nat) (b : Buffer) (c : Char) : Option Buffer :=
  if b.quoting.covers c then some (b.put .string c b.opens)
  else if c = '(' then some (b.put .plain c (b.text.utf8ByteSize :: b.opens))
  else if c = ')' then
    match b.opens with
    | [] => some (b.put .stray c [])
    | position :: opens =>
      if position + 1 = pos ∨ b.index + 1 = pos then
        (b.put .pairClose c opens).markOpen? position
      else some (b.put .plain c opens)
  else some (b.put .plain c b.opens)

/-- Shows the characters of a line one after the other. -/
def run? (pos : Nat) (line : List Char) : Option Buffer := line.foldlM (step pos) start

end Buffer

/-- The decorated line with the cursor at `pos`. -/
def highlight (line : String) (pos : Nat) : String :=
  match Buffer.run? pos line.toList with
  | some b => b.text
  | none => ""

end Console
end FixpointLisp
