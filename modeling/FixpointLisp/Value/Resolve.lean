import FixpointLisp.Value.Environment
import FixpointLisp.Value.Literal

/-!
# Resolving texts to a fixed point

In an environment a text means what it is bound to, and otherwise the literal it spells. The value
found has a canonical text of its own, which may mean something else again; *settling* follows these
texts until it finds a closure, a text it has already met, or a text without meaning.

* `Environment.meaning?` is one step of this.
* `Environment.settle` follows the steps. No text is followed twice, and a literal that is not bound
  leads to its canonical text, which is bound or ends the search; so `2 * size + 2` steps suffice.
* `Environment.resolve?` settles the meaning of a text and `Environment.reinterpret` that of the
  canonical text of a value.
-/

namespace FixpointLisp
namespace Environment

/-- What a text means: its binding, or else the literal it spells. -/
def meaning? (E : Environment) (text : String) : Option Value :=
  match E.lookup text with
  | some value => some value
  | none => Value.ofLiteral? text

/-- Follows canonical texts from `value`, at most `steps` times and never to a text in `seen`. -/
def follow (E : Environment) : (steps : Nat) → (seen : List String) → Value → Value
  | 0, _, value => value
  | steps + 1, seen, value =>
    match value.text? with
    | none => value
    | some text =>
      if text ∈ seen then value
      else
        match E.meaning? text with
        | none => value
        | some next => E.follow steps (text :: seen) next

/-- The number of steps that settling takes at most. -/
def settleBound (E : Environment) : Nat := 2 * E.size + 2

/-- Settles `value`, which is what `text` means. -/
def settle (E : Environment) (text : String) (value : Value) : Value :=
  E.follow E.settleBound [text] value

/-- The settled meaning of a text. -/
def resolve? (E : Environment) (text : String) : Option Value :=
  (E.meaning? text).map (E.settle text)

/-- The settled meaning of the canonical text of a value; the value itself when it has no canonical
text or that text has no meaning. -/
def reinterpret (E : Environment) (value : Value) : Value :=
  match value.text? with
  | none => value
  | some text => (E.resolve? text).getD value

end Environment
end FixpointLisp
