import FixpointLisp.Proofs.Expr.Nesting
import FixpointLisp.Proofs.Token.Layout
import Mathlib.Tactic

/-!
# Reading trees back as tokens

A forest is read back as a sequence of tokens: each list in brackets, each atom as its text. What is
read back are the tokens that were parsed, with their brackets put in order: the closing brackets
that close nothing are gone, and the lists left open at the end are closed.

* `Expr.spelling`, `Expr.spellingAll` read trees back.
* `Opens`, `Closes`: brackets that are open behind some tokens, and brackets that some tokens close.
  `mended` is a sequence of tokens with its brackets put in order.
* `openAfter` counts the open brackets along a sequence; `lt_openAfter_iff` says which ones it
  counts.
* `mendFrom` puts the brackets in order in one pass, as the parser does; `mendFrom_zero`: the result
  is the same.
* `spellingAll_forestOf`: what a forest reads back as. `readback_parse` is the same for a source
  text, with what its first expression is.
-/

namespace FixpointLisp

/-! ### Trees as tokens -/

/-- The token that an atom stands for when it is not remembered whether it was quoted. -/
def TokenKind.asAtom : TokenKind → TokenKind
  | quoted text => atom text
  | k => k

namespace Expr

mutual

/-- The tokens of an expression: an atom is its text, a list stands in brackets. -/
def spelling : Expr → List TokenKind
  | atom text _ => [.atom text]
  | list es _ => .openParen :: (spellingAll es ++ [.closeParen])

/-- The tokens of several expressions, one after the other. -/
def spellingAll : List Expr → List TokenKind
  | [] => []
  | e :: es => spelling e ++ spellingAll es

end

@[simp] theorem spelling_atom (text : String) (s : Span) :
    (atom text s).spelling = [.atom text] := rfl

@[simp] theorem spelling_list (es : List Expr) (s : Span) :
    (list es s).spelling = .openParen :: (spellingAll es ++ [.closeParen]) := rfl

@[simp] theorem spellingAll_append (es fs : List Expr) :
    spellingAll (es ++ fs) = spellingAll es ++ spellingAll fs := by
  induction es with
  | nil => rfl
  | cons e es ih => simp [spellingAll, ih]

@[simp] theorem spellingAll_singleton (e : Expr) : spellingAll [e] = e.spelling := by
  simp [spellingAll]

end Expr

/-! ### Brackets that match -/

/-- Whether a bracket is opened in `front` that is not closed there and has `n` such brackets behind
it. -/
def Opens (n : ℕ) (front : List TokenKind) : Prop :=
  ∃ before between, front = before ++ .openParen :: between ∧ nesting 0 between = some n

/-- Whether `back` closes one more bracket than the `n` innermost ones that are open in front of
it. -/
def Closes (n : ℕ) (back : List TokenKind) : Prop :=
  ∃ between behind, back = between ++ .closeParen :: behind ∧ nesting n between = some 0

theorem nesting_append (depth : ℕ) (ks ls : List TokenKind) :
    nesting depth (ks ++ ls) = (nesting depth ks).bind fun depth => nesting depth ls := by
  induction ks generalizing depth with
  | nil => rfl
  | cons k ks ih =>
    rw [List.cons_append, nesting_cons, nesting_cons depth k ks, Option.bind_assoc]
    exact congrArg _ (funext ih)

theorem opens_append_singleton {n : ℕ} {ks : List TokenKind} {k : TokenKind} :
    Opens n (ks ++ [k]) ↔ k = .openParen ∧ n = 0 ∨
      ∃ m, Opens m ks ∧ nesting m [k] = some n := by
  constructor
  · rintro ⟨before, between, heq, hbetween⟩
    rcases List.eq_nil_or_concat' between with rfl | ⟨between, l, rfl⟩
    · obtain ⟨rfl, hk⟩ := List.append_inj' heq rfl
      cases hk
      cases hbetween
      exact .inl ⟨rfl, rfl⟩
    · rw [← List.cons_append, ← List.append_assoc] at heq
      obtain ⟨rfl, hk⟩ := List.append_inj' heq rfl
      cases hk
      rw [nesting_append, Option.bind_eq_some_iff] at hbetween
      obtain ⟨m, hm, hk⟩ := hbetween
      exact .inr ⟨m, ⟨before, between, rfl, hm⟩, hk⟩
  · rintro (⟨rfl, rfl⟩ | ⟨m, ⟨before, between, rfl, hbetween⟩, hk⟩)
    · exact ⟨ks, [], rfl, rfl⟩
    · refine ⟨before, between ++ [k], by simp, ?_⟩
      rw [nesting_append, hbetween]
      exact hk

/-- The number of brackets that are open behind some tokens, when `depth` are open in front of them.
A closing bracket that closes nothing does not count. -/
def openAfter : ℕ → List TokenKind → ℕ
  | depth, [] => depth
  | depth, .openParen :: ks => openAfter (depth + 1) ks
  | depth, .closeParen :: ks => openAfter (depth - 1) ks
  | depth, .quoted _ :: ks => openAfter depth ks
  | depth, .atom _ :: ks => openAfter depth ks

theorem openAfter_append (depth : ℕ) (ks ls : List TokenKind) :
    openAfter depth (ks ++ ls) = openAfter (openAfter depth ks) ls := by
  fun_induction openAfter depth ks with simp_all [openAfter]

/-- More than `n` brackets are open if there is one behind which `n` are open. -/
theorem lt_openAfter_iff {n : ℕ} {ks : List TokenKind} : n < openAfter 0 ks ↔ Opens n ks := by
  induction ks using List.reverseRecOn generalizing n with
  | nil => simp [openAfter, Opens]
  | append_singleton ks k ih =>
    rw [openAfter_append, opens_append_singleton]
    simp only [← ih]
    cases k with
    | openParen => cases n <;> simp [openAfter, nesting]
    | closeParen =>
      simp only [openAfter, reduceCtorEq, false_and, false_or]
      constructor
      · intro h
        exact ⟨n + 1, by omega, rfl⟩
      · rintro ⟨_ | m, hm, hk⟩
        · cases hk
        · cases hk
          omega
    | quoted text => simp [openAfter, nesting]
    | atom text => simp [openAfter, nesting]

instance (n : ℕ) (front : List TokenKind) : Decidable (Opens n front) :=
  decidable_of_iff _ lt_openAfter_iff

theorem closes_cons {n : ℕ} {k : TokenKind} {ks : List TokenKind} :
    Closes n (k :: ks) ↔ k = .closeParen ∧ n = 0 ∨
      ∃ m, nesting n [k] = some m ∧ Closes m ks := by
  constructor
  · rintro ⟨_ | ⟨l, between⟩, behind, heq, hbetween⟩
    · cases heq
      cases hbetween
      exact .inl ⟨rfl, rfl⟩
    · cases heq
      rw [nesting_cons, Option.bind_eq_some_iff] at hbetween
      obtain ⟨m, hk, hm⟩ := hbetween
      exact .inr ⟨m, hk, between, behind, rfl, hm⟩
  · rintro (⟨rfl, rfl⟩ | ⟨m, hk, between, behind, rfl, hbetween⟩)
    · exact ⟨[], ks, rfl, rfl⟩
    · refine ⟨k :: between, behind, rfl, ?_⟩
      rw [nesting_cons, hk]
      exact hbetween

/-- The number of closing brackets that close nothing. -/
def excess : List TokenKind → ℕ
  | [] => 0
  | .openParen :: ks => excess ks - 1
  | .closeParen :: ks => excess ks + 1
  | .quoted _ :: ks => excess ks
  | .atom _ :: ks => excess ks

/-- As many brackets are closed from outside as there are closing brackets in excess. -/
theorem lt_excess_iff {n : ℕ} {ks : List TokenKind} : n < excess ks ↔ Closes n ks := by
  induction ks generalizing n with
  | nil => simp [excess, Closes]
  | cons k ks ih =>
    rw [closes_cons]
    simp only [← ih]
    cases k with
    | openParen =>
      simp [excess, nesting]
      omega
    | closeParen => cases n <;> simp [excess, nesting]
    | quoted text => simp [excess, nesting]
    | atom text => simp [excess, nesting]

instance (n : ℕ) (back : List TokenKind) : Decidable (Closes n back) :=
  decidable_of_iff _ lt_excess_iff

/-- The number of opening brackets that are not closed. -/
def leftOpenCount : List TokenKind → ℕ
  | [] => 0
  | k :: ks => leftOpenCount ks + if k = .openParen ∧ ¬Closes 0 ks then 1 else 0

theorem openAfter_eq (depth : ℕ) (ks : List TokenKind) :
    openAfter depth ks = (depth - excess ks) + leftOpenCount ks := by
  fun_induction openAfter depth ks with
  | case1 => rfl
  | case2 depth ks ih =>
    simp only [leftOpenCount, ih, excess, ← lt_excess_iff, true_and]
    split_ifs with h <;> omega
  | case3 depth ks ih => simp [leftOpenCount, ih, excess]; omega
  | case4 depth text ks ih => simp [leftOpenCount, ih, excess]
  | case5 depth text ks ih => simp [leftOpenCount, ih, excess]

/-! ### Brackets in order -/

/-- A sequence of tokens without the closing brackets that match no opening one in front of them,
and with a closing bracket added for each opening one that is not closed. -/
def mended (ks : List TokenKind) : List TokenKind :=
  (keepBehind (fun front k => k != .closeParen || Opens 0 front) ks).map TokenKind.asAtom ++
    List.replicate (leftOpenCount ks) .closeParen

example : mended [.closeParen, .openParen, .closeParen, .closeParen, .openParen, .quoted "x"] =
    [.openParen, .closeParen, .openParen, .atom "x", .closeParen] := by decide

/-- The same in one pass that counts the open brackets, where `depth` are open to begin with. -/
def mendFrom : ℕ → List TokenKind → List TokenKind
  | depth, [] => List.replicate depth .closeParen
  | depth, .openParen :: ks => .openParen :: mendFrom (depth + 1) ks
  | 0, .closeParen :: ks => mendFrom 0 ks
  | depth + 1, .closeParen :: ks => .closeParen :: mendFrom depth ks
  | depth, .quoted text :: ks => .atom text :: mendFrom depth ks
  | depth, .atom text :: ks => .atom text :: mendFrom depth ks

theorem mendFrom_eq (depth : ℕ) (ks : List TokenKind) :
    mendFrom depth ks =
      (keepBehind (fun front k => k != .closeParen || 0 < openAfter depth front) ks).map
        TokenKind.asAtom ++ List.replicate (openAfter depth ks) .closeParen := by
  fun_induction mendFrom depth ks with
  | case1 depth => rfl
  | case2 depth ks ih => exact congrArg (_ :: ·) ih
  | case3 ks ih => exact ih
  | case4 depth ks ih => exact congrArg (_ :: ·) ih
  | case5 depth text ks ih => exact congrArg (_ :: ·) ih
  | case6 depth text ks ih => exact congrArg (_ :: ·) ih

theorem mendFrom_zero (ks : List TokenKind) : mendFrom 0 ks = mended ks := by
  rw [mendFrom_eq, openAfter_eq, Nat.zero_sub, Nat.zero_add]
  simp only [lt_openAfter_iff]
  rfl

/-! ### What the parser keeps -/

/-- The tokens that a list without its closing bracket reads back as. -/
def Frame.spelling (f : Frame) : List TokenKind :=
  .openParen :: Expr.spellingAll f.children.reverse

@[simp] theorem Frame.spelling_opened (s : Span) : (Frame.opened s).spelling = [.openParen] := rfl

@[simp] theorem Frame.spelling_add (f : Frame) (e : Expr) :
    (f.add e).spelling = f.spelling ++ e.spelling := by
  simp [Frame.spelling, Frame.add]

@[simp] theorem Frame.spelling_close (f : Frame) (s : Span) :
    (f.close s).spelling = f.spelling ++ [.closeParen] := rfl

@[simp] theorem Frame.spelling_toExpr (f : Frame) :
    f.toExpr.spelling = f.spelling ++ [.closeParen] := rfl

/-- The tokens that a stack of open lists reads back as; the outermost list is the last one. -/
def stackSpelling : List Frame → List TokenKind
  | [] => []
  | f :: fs => stackSpelling fs ++ f.spelling

theorem spelling_closeAll (f : Frame) (fs : List Frame) :
    (closeAll f fs).spelling =
      stackSpelling (f :: fs) ++ List.replicate (fs.length + 1) .closeParen := by
  induction fs generalizing f with
  | nil => simp [closeAll, stackSpelling]
  | cons g gs ih => simp [closeAll, ih, stackSpelling, List.replicate_succ]

/-- Reading the rest of a list neither loses nor adds a token. -/
theorem spelling_readList (f : Frame) (fs : List Frame) (ts : List Token) :
    (readList f fs ts).1.spelling ++ mendFrom 0 ((readList f fs ts).2.map Token.kind) =
      stackSpelling (f :: fs) ++ mendFrom (fs.length + 1) (ts.map Token.kind) := by
  fun_induction readList f fs ts with
  | case1 f fs => simp [spelling_closeAll, mendFrom]
  | case2 f fs s ts ih => simp [ih, stackSpelling, mendFrom]
  | case3 f s ts => simp [stackSpelling, mendFrom]
  | case4 f g gs s ts ih => simp [ih, stackSpelling, mendFrom]
  | case5 f fs text s ts ih => simp [ih, stackSpelling, mendFrom]
  | case6 f fs text s ts ih => simp [ih, stackSpelling, mendFrom]

/-- The tokens that the outcome of reading one node reads back as. -/
def Step.spelling : Step → List TokenKind
  | .expr e => e.spelling
  | _ => []

theorem spelling_step (ts : List Token) :
    (step ts).1.spelling ++ mendFrom 0 ((step ts).2.map Token.kind) =
      mendFrom 0 (ts.map Token.kind) := by
  match ts with
  | [] => rfl
  | ⟨.openParen, s⟩ :: ts =>
    have hread := spelling_readList (.opened s) [] ts
    simpa [step, Step.spelling, stackSpelling, mendFrom] using hread
  | ⟨.closeParen, s⟩ :: ts => rfl
  | ⟨.quoted text, s⟩ :: ts => rfl
  | ⟨.atom text, s⟩ :: ts => rfl

theorem spellingAll_forestOf (ts : List Token) :
    Expr.spellingAll (forestOf ts) = mendFrom 0 (ts.map Token.kind) := by
  fun_induction forestOf ts with
  | case1 => rfl
  | case2 t ts e he ih =>
    rw [← spelling_step, he, ← ih]
    rfl
  | case3 t ts hne ih =>
    rw [← spelling_step, ← ih]
    cases hstep : (step (t :: ts)).1 with
    | expr e => exact absurd hstep (hne e)
    | closed s => rfl
    | exhausted => rfl

/-- The first expression of some tokens is the first one of their forest, if they start with one. -/
theorem some_firstOf (ts : List Token) (stop : ℕ) :
    some (firstOf ts stop) =
      if ts.head?.all (·.kind = .closeParen) then some (.null (.point stop))
      else (forestOf ts).head? := by
  unfold firstOf
  match ts with
  | [] => rfl
  | ⟨.openParen, s⟩ :: ts => simp [step, forestOf]
  | ⟨.closeParen, s⟩ :: ts => simp [step]
  | ⟨.quoted text, s⟩ :: ts => simp [step, forestOf]
  | ⟨.atom text, s⟩ :: ts => simp [step, forestOf]

/-- **The parser keeps every token.** Read back, the forest of any tokens is these tokens with their
brackets put in order. Parsing a source text gives the first expression of its forest, unless it has
no token or starts with a closing bracket; then it gives the null atom at the end of the text. -/
theorem readback_parse :
    (∀ ts : List Token, Expr.spellingAll (forestOf ts) = mended (ts.map Token.kind)) ∧
      ∀ source : String,
        some (parse source) =
          if (tokenize source).head?.all (·.kind = .closeParen) then
            some (.null (.point source.utf8ByteSize))
          else (parseAll source).head? := by
  refine ⟨fun ts => ?_, fun source => some_firstOf _ _⟩
  rw [spellingAll_forestOf, mendFrom_zero]

end FixpointLisp
