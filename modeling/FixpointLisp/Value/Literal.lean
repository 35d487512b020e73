import FixpointLisp.Number.Reader
import FixpointLisp.Value.Basic

/-!
# Literals

A text is a literal when it spells a number, one of the words `true` and `false` in any case, or a
text between double quotes. Tried in this order, `Value.ofLiteral?` gives the value.
-/

namespace FixpointLisp
namespace Value

/-- The text between the first and the last character, when both are double quotes. -/
def unquote? : List Char → Option String
  | '"' :: cs => if cs.getLast? = some '"' then some (String.ofList cs.dropLast) else none
  | _ => none

/-- The value that a literal spells. -/
def ofLiteral? (text : String) : Option Value :=
  match Number.read? text with
  | some x => some (number x)
  | none =>
    if Text.sameWord text "true" then some (boolean true)
    else if Text.sameWord text "false" then some (boolean false)
    else (unquote? text.toList).map string

end Value
end FixpointLisp
