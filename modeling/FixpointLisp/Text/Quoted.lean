import FixpointLisp.Text.Hidden

/-!
# Quoting texts for display

A dump of a value shows its texts between double quotes, with every hidden character written as an
escape.

* `escapeChar` writes one character and `quoted` a whole text.
-/

namespace FixpointLisp
namespace Text

/-- A character as it stands in a quoted text. -/
def escapeChar (c : Char) : List Char :=
  if c = '\x00' then ['\\', '0']
  else if c = '\t' then ['\\', 't']
  else if c = '\r' then ['\\', 'r']
  else if c = '\n' then ['\\', 'n']
  else if c = '"' ∨ c = '\\' then ['\\', c]
  else if isHidden c then
    ['\\', 'u', '\x7b'] ++ Nat.toDigits 16 c.toNat ++ ['\x7d']
  else [c]

/-- A text between double quotes, with its escapes. -/
def quoted (s : String) : String := "\"" ++ String.ofList (s.toList.flatMap escapeChar) ++ "\""

end Text
end FixpointLisp
