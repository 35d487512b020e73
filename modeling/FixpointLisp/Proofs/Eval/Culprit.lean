import FixpointLisp.Proofs.Eval.Modes
import FixpointLisp.Proofs.Expr.Spans
import Mathlib.Tactic

/-!
# Errors point into the program

An error is about an expression. However late it is raised, by the body of a closure that was made,
applied in part and stored long before, or by a name in a `let`, that expression is a node of the
tree that is being evaluated, with the span it was read from.

* `Likeness.nodes`: the body of every closure is a node of a given tree.
* `nodeOf_of_eval`: the invariant holds of every run from such an environment, so errors are about
  nodes of the tree.
* `culprit_of_eval`: the errors of a source text that is run in the global environment are about
  stretches of that text.
-/

namespace FixpointLisp

variable {t : Expr}

/-- The condition that the bodies of all closures are nodes of `t`. -/
def Likeness.nodes (t : Expr) : Likeness where
  expr e f := e = f ∧ e.NodeOf t
  name _ := True
  plain _ := True
  params _ := True
  loose := False

theorem exprLawful_nodes (t : Expr) : ExprLawful fun e f => e = f ∧ e.NodeOf t where
  atom h := ⟨_, h.1.symm⟩
  list {es s f} h := by
    obtain ⟨rfl, hnode⟩ := h
    refine ⟨es, s, rfl, List.forall₂_same.2 fun e he => ⟨rfl, hnode.child he⟩⟩
  same h h' := by rw [h.1, h'.1]

theorem Likeness.lawful_nodes (t : Expr) : (Likeness.nodes t).Lawful where
  toExprLawful := exprLawful_nodes t
  number _ := trivial
  boolean _ := trivial
  string _ := trivial
  symbol _ := trivial
  name _ _ := trivial
  paramless := trivial
  curried := trivial
  next _ _ := trivial

theorem global_nodes (t : Expr) : Environment.global.Like (.nodes t) Environment.global :=
  Bindings.like_global fun _ => ⟨trivial, trivial⟩

/-- When a node of a tree is evaluated in an environment whose closures all have nodes of that tree
as bodies, every error is about a node of the tree. -/
theorem nodeOf_of_eval {depth : ℕ} {e : Expr} {E : Environment} {mode : Resolution}
    {err : EvalError} (he : e.NodeOf t) (hE : E.Like (.nodes t) E)
    (h : eval depth e E mode = .failed err) : err.expr.NodeOf t :=
  ((Likeness.lawful_nodes t).of_eval_failed id ⟨rfl, he⟩ hE h).expr.2

/-- **Errors point into the program.** When an expression of a source text fails in the global
environment, strictly or leniently, the error is about a node of that very expression, and the span
of this node lies inside of the text. -/
theorem culprit_of_eval (source : String) (t : Expr) (ht : t = parse source ∨ t ∈ parseAll source)
    (depth : ℕ) (mode : Resolution) (err : EvalError)
    (h : eval depth t Environment.global mode = .failed err) :
    err.expr.NodeOf t ∧ err.expr.span.start ≤ err.expr.span.stop ∧
      err.expr.span.stop ≤ source.utf8ByteSize := by
  have hnode : err.expr.NodeOf t := nodeOf_of_eval (.root t) (global_nodes t) h
  have hspans : t.SpansIn (Span.Within source.utf8ByteSize) := by
    rcases ht with rfl | ht
    · exact span_of_parse source
    · exact span_of_parseAll source t ht
  exact ⟨hnode, hspans _ hnode⟩

/-- The expression `(fun (x) x)`, read from byte 7 on. -/
def identityForm : Expr :=
  .list [.atom "fun" ⟨8, 11⟩, .list [.atom "x" ⟨13, 14⟩] ⟨12, 15⟩, .atom "x" ⟨16, 17⟩] ⟨7, 18⟩

/-- The expression `(let (((fun (x) x) 1)) 2)`, in which a function stands in place of a name. -/
def functionNamed : Expr :=
  .list
    [.atom "let" ⟨1, 4⟩, .list [.list [identityForm, .atom "1" ⟨19, 20⟩] ⟨6, 21⟩] ⟨5, 22⟩,
      .atom "2" ⟨23, 24⟩] ⟨0, 25⟩

theorem parse_functionNamed : parse "(let (((fun (x) x) 1)) 2)" = functionNamed := by cbv

theorem parseAll_conjoined :
    parseAll "1 ((fun (x) (& x y)) true)" =
      [.atom "1" ⟨0, 1⟩, (conjoined "y").mapSpan (.shift 2)] := by
  cbv

/-- A name in a `let` that is a function, and an atom without meaning in the body of a closure: both
errors are about nodes of the expression that was read. -/
theorem culprit_of_eval_conjoined :
    (∃ err, eval 3 functionNamed Environment.global .lenient = .failed err ∧
      functionNamed = parse "(let (((fun (x) x) 1)) 2)" ∧ err.expr = identityForm ∧
      err.expr.NodeOf functionNamed ∧ err.expr.span.start ≤ err.expr.span.stop ∧
      err.expr.span.stop ≤ 25) ∧
    ∃ err, eval 3 ((conjoined "y").mapSpan (.shift 2)) Environment.global .strict = .failed err ∧
      (conjoined "y").mapSpan (.shift 2) ∈ parseAll "1 ((fun (x) (& x y)) true)" ∧
      err.expr = .atom "y" ⟨17, 18⟩ ∧ err.expr.NodeOf ((conjoined "y").mapSpan (.shift 2)) ∧
      err.expr.span.start ≤ err.expr.span.stop ∧ err.expr.span.stop ≤ 26 := by
  have hname : eval 3 functionNamed Environment.global .lenient =
      .failed ⟨.typeMismatch .binding .parameterName
        (.closure (.last (some "x") Environment.global (.atom "x" ⟨16, 17⟩))), identityForm,
        Environment.global⟩ := rfl
  have hbody : eval 3 ((conjoined "y").mapSpan (.shift 2)) Environment.global .strict =
      .failed ⟨.unbound "y", .atom "y" ⟨17, 18⟩, conjoinedScope⟩ := rfl
  have hparse := parse_functionNamed.symm
  have hmem : (conjoined "y").mapSpan (.shift 2) ∈ parseAll "1 ((fun (x) (& x y)) true)" := by
    rw [parseAll_conjoined]
    exact List.mem_cons_of_mem _ List.mem_cons_self
  exact ⟨⟨_, hname, hparse, rfl, culprit_of_eval _ _ (.inl hparse) 3 .lenient _ hname⟩,
    ⟨_, hbody, hmem, rfl, culprit_of_eval _ _ (.inr hmem) 3 .strict _ hbody⟩⟩

end FixpointLisp
