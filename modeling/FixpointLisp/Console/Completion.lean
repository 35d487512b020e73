import FixpointLisp.Token.Lexer
import FixpointLisp.Value.Environment

/-!
# Completing identifiers

When the text in front of the cursor ends in an atom, the console offers what is missing of the
bound names that start with it.

* `completions` lists the missing parts in the order of the names.
-/

namespace FixpointLisp
namespace Console

/-- What follows the text `start` in a name that starts with it, unless nothing does. -/
def remainder? (start name : String) : Option String :=
  match start.toList.isPrefixOf? name.toList with
  | some (c :: cs) => some (String.ofList (c :: cs))
  | _ => none

/-- The completions of a line at the byte position `pos`. -/
def completions (env : Environment) (line : String) (pos : Nat) : List String :=
  let front := Text.takeBytes pos line.toList
  match (tokensFrom 0 front).getLast? with
  | some ⟨.atom text, _⟩ =>
    if text.toList.isSuffixOf front then env.names.filterMap (remainder? text) else []
  | _ => []

end Console
end FixpointLisp
