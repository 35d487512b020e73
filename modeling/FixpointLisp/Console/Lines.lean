/-!
# Lines of input

Input arrives line by line. A line includes the line feed that ends it; the last one may lack it.

* `splitLines` divides a text into its lines.
* `stripEnd` takes off the line feed at the end of a text and a carriage return in front of it.
* `InputLine` is a line of standard input, which need not be valid UTF-8.
-/

namespace FixpointLisp
namespace Console

/-- The pieces of a list, each up to and including an element that satisfies `p`. -/
def splitAfter {α : Type} (p : α → Bool) : List α → List (List α)
  | [] => []
  | a :: as =>
    if p a then [a] :: splitAfter p as
    else
      match splitAfter p as with
      | [] => [[a]]
      | piece :: pieces => (a :: piece) :: pieces

/-- Nothing is lost when a list is divided. -/
theorem flatten_splitAfter {α : Type} (p : α → Bool) (as : List α) :
    (splitAfter p as).flatten = as := by
  induction as with
  | nil => rfl
  | cons a as ih =>
    unfold splitAfter
    split
    · simp [ih]
    · split
      · next h => simp [h] at ih; simp [← ih]
      · next h => simp [h] at ih; simp [ih]

/-- The lines of a text. -/
def splitLines (text : List Char) : List (List Char) := splitAfter (· == '\n') text

/-- A text without the line feed at its end and without a carriage return in front of that. -/
def stripEnd (text : List Char) : List Char :=
  match text.reverse with
  | '\n' :: '\r' :: cs => cs.reverse
  | '\n' :: cs => cs.reverse
  | _ => text

/-- A line of standard input. -/
inductive InputLine where
  | text (line : List Char)
  /-- A line that is not valid UTF-8. -/
  | garbled

namespace InputLine

/-- The lines of an input that is a text. -/
def ofText (input : String) : List InputLine := (splitLines input.toList).map text

/-- The line that some bytes encode. -/
def decode (bytes : List UInt8) : InputLine :=
  match String.fromUTF8? ⟨bytes.toArray⟩ with
  | some s => text s.toList
  | none => garbled

/-- The lines of an input that is a sequence of bytes. -/
def ofBytes (input : List UInt8) : List InputLine := (splitAfter (· == 10) input).map decode

end InputLine

end Console
end FixpointLisp
