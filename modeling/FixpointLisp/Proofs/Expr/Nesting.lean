import FixpointLisp.Proofs.Expr.Spans
import Mathlib.Tactic

/-!
# Nesting of brackets

Where as many brackets are closed as were opened, one top-level expression has ended and the next
one begins. So a sequence of tokens can be parsed in parts, as long as the brackets of each part
match.

* `nesting` counts the open brackets along a sequence of tokens.
* `readList_append`, `step_append`: reading stops inside of a part whose brackets match.
* `forestOf_append`: the expressions of such a part come first, those of the rest follow.
-/

namespace FixpointLisp

/-- The number of brackets that are open behind some tokens, when `depth` are open in front of them.
There is none if a bracket closes nothing. -/
def nesting : ℕ → List TokenKind → Option ℕ
  | depth, [] => some depth
  | depth, .openParen :: ks => nesting (depth + 1) ks
  | 0, .closeParen :: _ => none
  | depth + 1, .closeParen :: ks => nesting depth ks
  | depth, .quoted _ :: ks => nesting depth ks
  | depth, .atom _ :: ks => nesting depth ks

theorem nesting_cons (depth : ℕ) (k : TokenKind) (ks : List TokenKind) :
    nesting depth (k :: ks) = (nesting depth [k]).bind fun depth => nesting depth ks := by
  cases k with
  | openParen => rfl
  | closeParen => cases depth <;> rfl
  | quoted text => rfl
  | atom text => rfl

variable {ts : List Token}

/-- If the brackets of the tokens close all open lists, the outermost list ends inside of them, and
the brackets behind it match. -/
theorem readList_append (f : Frame) (fs : List Frame) (ts us : List Token)
    (h : nesting (fs.length + 1) (ts.map Token.kind) = some 0) :
    readList f fs (ts ++ us) = ((readList f fs ts).1, (readList f fs ts).2 ++ us) ∧
      nesting 0 ((readList f fs ts).2.map Token.kind) = some 0 := by
  fun_induction readList f fs ts with
  | case1 f fs =>
    -- The tokens have run out, but a list is still open.
    simp [nesting] at h
  | case2 f fs s ts ih => exact ih h
  | case3 f s ts => exact ⟨rfl, h⟩
  | case4 f g gs s ts ih => exact ih h
  | case5 f fs text s ts ih => exact ih h
  | case6 f fs text s ts ih => exact ih h

/-- Tokens whose brackets match start with a whole expression. -/
theorem step_append (us : List Token) {t : Token}
    (h : nesting 0 ((t :: ts).map Token.kind) = some 0) :
    (∃ e, (step (t :: ts)).1 = .expr e) ∧
      step (t :: ts ++ us) = ((step (t :: ts)).1, (step (t :: ts)).2 ++ us) ∧
      nesting 0 ((step (t :: ts)).2.map Token.kind) = some 0 := by
  match t with
  | ⟨.openParen, s⟩ =>
    obtain ⟨hread, hrest⟩ := readList_append (.opened s) [] ts us h
    refine ⟨⟨_, rfl⟩, ?_, hrest⟩
    simp [step, hread]
  | ⟨.closeParen, s⟩ => simp [nesting] at h
  | ⟨.quoted text, s⟩ => exact ⟨⟨_, rfl⟩, rfl, h⟩
  | ⟨.atom text, s⟩ => exact ⟨⟨_, rfl⟩, rfl, h⟩

/-- Tokens whose brackets match can be parsed apart from those that follow them. -/
theorem forestOf_append (h : nesting 0 (ts.map Token.kind) = some 0) (us : List Token) :
    forestOf (ts ++ us) = forestOf ts ++ forestOf us := by
  fun_induction forestOf ts with
  | case1 => rfl
  | case2 t ts e he ih =>
    obtain ⟨-, hstep, hrest⟩ := step_append us h
    rw [List.cons_append] at hstep
    rw [List.cons_append, forestOf, hstep, he]
    exact congrArg (e :: ·) (ih hrest)
  | case3 t ts hne ih =>
    obtain ⟨⟨e, he⟩, -⟩ := step_append us h
    exact absurd he (hne e)

end FixpointLisp
