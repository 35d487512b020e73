/-!
# Is an entry complete?

The console reads lines until the brackets and quotes of an entry are balanced. It looks at
characters, not at tokens: every `"` outside a string starts one, also inside of an atom.

* `Quoting` is the state of a scan with regard to strings.
* `balance` judges a text.
-/

namespace FixpointLisp
namespace Console

/-- Where a scan stands with regard to strings. -/
inductive Quoting where
  | outside
  | inside
  /-- Inside a string, behind a backslash. -/
  | escaped
  deriving DecidableEq, Repr

namespace Quoting

/-- Whether a character belongs to a string; its quotes do. -/
def covers (q : Quoting) (c : Char) : Bool := q != outside || c == '"'

/-- The state behind a character. -/
def next : Quoting → Char → Quoting
  | outside, c => if c = '"' then inside else outside
  | inside, c => if c = '\\' then escaped else if c = '"' then outside else inside
  | escaped, _ => inside

end Quoting

/-- The verdict on a text. -/
inductive Balance where
  /-- The character at this position is the first `)` that closes nothing. -/
  | unmatched (pos : Nat)
  /-- A string or a bracket is left open. -/
  | incomplete
  | complete
  deriving DecidableEq, Repr

/-- The verdict on a text that starts at position `pos`, with `depth` brackets open. Positions count
characters. -/
def balanceFrom (q : Quoting) (depth pos : Nat) : List Char → Balance
  | [] => if q = .outside ∧ depth = 0 then .complete else .incomplete
  | c :: cs =>
    if q.covers c then balanceFrom (q.next c) depth (pos + 1) cs
    else if c = '(' then balanceFrom q (depth + 1) (pos + 1) cs
    else if c = ')' then
      match depth with
      | 0 => .unmatched pos
      | depth + 1 => balanceFrom q depth (pos + 1) cs
    else balanceFrom q depth (pos + 1) cs

/-- The verdict on an entry. -/
def balance (text : List Char) : Balance := balanceFrom .outside 0 0 text

/-- The complaint about a closing bracket that closes nothing. -/
def unmatchedText (pos : Nat) : String := "  - Unmatched ')' at position " ++ pos.repr

end Console
end FixpointLisp
