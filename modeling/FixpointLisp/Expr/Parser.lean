import FixpointLisp.Expr.Basic
import FixpointLisp.Token.Lexer

/-!
# From tokens to expressions

Parsing never fails. A list left open at the end of the input keeps the children read so far, and
a closing bracket without an opening one is passed over.

* `Frame` is a list that is still open; `readList` reads tokens with a stack of frames until the
  outermost of them is closed.
* `Step` is the outcome of reading one node, `step` reads it.
* `parse` gives the first expression of a source text and `parseAll` gives all of them.
-/

namespace FixpointLisp

/-- A list whose closing bracket has not been read. -/
structure Frame where
  /-- The bytes read for this list so far. -/
  span : Span
  /-- The children read so far, the last one first. -/
  children : List Expr

namespace Frame

/-- A list that has just been opened. -/
def opened (s : Span) : Frame := ⟨s, []⟩

/-- The frame with one more child. -/
def add (f : Frame) (e : Expr) : Frame := ⟨f.span.merge e.span, e :: f.children⟩

/-- The list that a frame holds. -/
def toExpr (f : Frame) : Expr := .list f.children.reverse f.span

/-- The list that a frame holds, its closing bracket at `s`. -/
def close (f : Frame) (s : Span) : Expr := .list f.children.reverse (f.span.merge s)

end Frame

/-- The outermost list of a stack of frames when the input ends. -/
def closeAll : Frame → List Frame → Expr
  | f, [] => f.toExpr
  | f, g :: gs => closeAll (g.add f.toExpr) gs

/-- Reads tokens until the outermost list is closed or the tokens run out; gives that list and the
tokens left. The frame is the innermost list, the stack holds those around it. -/
def readList : Frame → List Frame → List Token → Expr × List Token
  | f, fs, [] => (closeAll f fs, [])
  | f, fs, ⟨.openParen, s⟩ :: ts => readList (.opened s) (f :: fs) ts
  | f, [], ⟨.closeParen, s⟩ :: ts => (f.close s, ts)
  | f, g :: gs, ⟨.closeParen, s⟩ :: ts => readList (g.add (f.close s)) gs ts
  | f, fs, ⟨.quoted text, s⟩ :: ts => readList (f.add (.atom text s)) fs ts
  | f, fs, ⟨.atom text, s⟩ :: ts => readList (f.add (.atom text s)) fs ts

/-- Reading a list leaves no more tokens than there were. -/
theorem readList_length_le (f : Frame) (fs : List Frame) (ts : List Token) :
    (readList f fs ts).2.length ≤ ts.length := by
  fun_induction readList f fs ts with
  | case1 => simp
  | case2 f fs s ts ih => exact Nat.le_succ_of_le ih
  | case3 f s ts => simp
  | case4 f g gs s ts ih => exact Nat.le_succ_of_le ih
  | case5 f fs text s ts ih => exact Nat.le_succ_of_le ih
  | case6 f fs text s ts ih => exact Nat.le_succ_of_le ih

/-- The outcome of reading one node. -/
inductive Step where
  /-- A whole expression. -/
  | expr (e : Expr)
  /-- A closing bracket. -/
  | closed (span : Span)
  /-- No token was left. -/
  | exhausted

/-- Reads one node from the front of the tokens and gives the tokens left. -/
def step : List Token → Step × List Token
  | [] => (.exhausted, [])
  | ⟨.openParen, s⟩ :: ts => (.expr (readList (.opened s) [] ts).1, (readList (.opened s) [] ts).2)
  | ⟨.closeParen, s⟩ :: ts => (.closed s, ts)
  | ⟨.quoted text, s⟩ :: ts => (.expr (.atom text s), ts)
  | ⟨.atom text, s⟩ :: ts => (.expr (.atom text s), ts)

/-- Reading a node uses up at least one token. -/
theorem step_length_lt (t : Token) (ts : List Token) :
    (step (t :: ts)).2.length < (t :: ts).length := by
  rcases t with ⟨_ | _ | text | text, s⟩
  · exact Nat.lt_succ_of_le (readList_length_le _ _ _)
  all_goals simp [step]

/-- The first expression of the tokens. When there is none it is the null atom, placed at `stop`. -/
def firstOf (ts : List Token) (stop : Nat) : Expr :=
  match (step ts).1 with
  | .expr e => e
  | _ => .null (.point stop)

/-- All expressions of the tokens; closing brackets that close nothing are passed over. -/
def forestOf : List Token → List Expr
  | [] => []
  | t :: ts =>
    match (step (t :: ts)).1 with
    | .expr e => e :: forestOf (step (t :: ts)).2
    | _ => forestOf (step (t :: ts)).2
termination_by ts => ts.length
decreasing_by all_goals exact step_length_lt t ts

/-- The first expression of a source text, or the null atom at its end. -/
def parse (source : String) : Expr := firstOf (tokenize source) source.utf8ByteSize

/-- All expressions of a source text, in order. -/
def parseAll (source : String) : List Expr := forestOf (tokenize source)

end FixpointLisp
