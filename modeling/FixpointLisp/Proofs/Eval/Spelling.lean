import FixpointLisp.Proofs.Eval.Visits
import Mathlib.Tactic

/-!
# Spellings of a literal

Literals can be bound like any other text, and what is bound is the canonical text of a value. In an
arbitrary environment this need not be so, and binding `10.0` would not bind `10`. In the scopes that
a program reaches from the global environment all bound literals are in canonical spelling, and no
value that occurs there has a text in another one. There, all spellings of a literal mean the same.

* `Canonical`: a text is no literal or is in canonical spelling.
* `Likeness.canonical`: only canonical texts are names and texts of values, in an environment and in
  all closures.
* `resolve?_of_spelling`: under this condition a literal means what its canonical spelling means.
* `resolveAtom_eq_of_spellings`: the condition holds in every scope, so spellings are interchangeable.
-/

namespace FixpointLisp

open Environment

variable {E : Environment} {a text : String} {v : Value}

/-- Whether a text, if it is a literal, is the canonical spelling of it. -/
def Canonical (text : String) : Prop := ∀ v, Value.ofLiteral? text = some v → v.text? = some text

theorem canonical_of_not_literal (h : Value.ofLiteral? text = none) : Canonical text := by
  intro v hv
  rw [h] at hv
  cases hv

theorem canonical_of_text? (h : Value.ofLiteral? a = some v) (ht : v.text? = some text) :
    Canonical text := by
  intro w hw
  rw [ofLiteral?_text? h ht] at hw
  cases hw
  exact ht

/-- The condition that all names and all texts of values are canonical. -/
def Likeness.canonical : Likeness where
  expr := Eq
  name := Canonical
  plain v := ∀ text, v.text? = some text → Canonical text
  params _ := True
  loose := False

theorem Likeness.lawful_canonical : Likeness.canonical.Lawful where
  toExprLawful := exprLawful_eq
  number x := fun _ ht => canonical_of_text? (Value.ofLiteral?_write x) ht
  boolean b := fun _ ht => canonical_of_text? (Value.ofLiteral?_boolText b) ht
  string s := fun _ ht => canonical_of_text? (Value.ofLiteral?_quote s) ht
  symbol h := by
    rintro _ ⟨⟩
    exact canonical_of_not_literal h
  name hv hn := hv _ hn
  paramless := trivial
  curried := trivial
  next _ _ := trivial

theorem global_canonical : Environment.global.Like .canonical Environment.global := by
  refine Bindings.like_global fun b => ?_
  have hname : Canonical b.name := canonical_of_not_literal (Value.ofLiteral?_name b)
  refine ⟨hname, ?_⟩
  rintro _ ⟨⟩
  exact hname

/-- A literal means what its canonical spelling means. Any other spelling is not bound, so it leads to
the canonical one, and it is not met again on the way from there. -/
theorem resolve?_of_spelling (hE : E.Like .canonical E) (ha : Value.ofLiteral? a = some v)
    (ht : v.text? = some text) : E.resolve? a = E.resolve? text := by
  by_cases hsame : a = text
  · rw [hsame]
  have hother : ¬Canonical a := by
    intro hcanonical
    have := hcanonical v ha
    rw [ht] at this
    exact hsame (Option.some.inj this).symm
  have hunbound : E.lookup a = none := by
    rcases hE.lookup a with ⟨hnone, -⟩ | ⟨_, _, -, -, -, hname⟩
    · exact hnone
    · exact absurd hname hother
  have hmeaning : E.meaning? a = some v := by rw [meaning?_of_unbound hunbound, ha]
  obtain ⟨w, hw⟩ := E.exists_resolve?_of_literal (ofLiteral?_text? ha ht)
  obtain ⟨front, htrail, hends⟩ := resolve?_eq_some_iff.1 hw
  have hnames := (hE.trail_names Likeness.lawful_canonical htrail (canonical_of_text? ha ht)).1
  have hnew : a ∉ front ++ [text] := fun hmem => hother (hnames a hmem)
  rw [hw, resolve?_of_not_mem hmeaning ht htrail hends hnew]

/-- **Spellings of a literal are interchangeable.** In every scope in which something is evaluated in
the course of evaluating an expression in the global environment, two literals whose values have the
same canonical text evaluate to the same value. -/
theorem resolveAtom_eq_of_spellings (depth : ℕ) (e : Expr) (mode : Resolution) (t : Task)
    (h : Visits depth ⟨e, Environment.global, mode⟩ t) (a b : String) (v w : Value)
    (ha : Value.ofLiteral? a = some v) (hb : Value.ofLiteral? b = some w)
    (htext : v.text? = w.text?) :
    ∃ r, ∀ (mode : Resolution) (culprit culprit' : Expr),
      resolveAtom a culprit t.env mode = .done r ∧ resolveAtom b culprit' t.env mode = .done r := by
  have hE : t.env.Like .canonical t.env :=
    (h.alike Likeness.lawful_canonical id id ⟨rfl, global_canonical⟩).env
  obtain ⟨text, ht, hcanonical⟩ := Value.exists_canonical ha
  obtain ⟨r, hr⟩ := exists_resolve?_of_literal t.env hcanonical
  have hra : t.env.resolve? a = some r := by rw [resolve?_of_spelling hE ha ht, hr]
  have hrb : t.env.resolve? b = some r := by
    rw [resolve?_of_spelling hE hb (htext ▸ ht), hr]
  exact ⟨r, fun mode _ _ => by simp [resolveAtom, hra, hrb]⟩

/-- A `let` with one binding evaluates its body in the scope with that binding. -/
theorem evalStep_let {ev : Evaluator} {mode : Resolution} {operator name value body : Expr}
    {span span' span'' : Span} {w : Value}
    (hoperator : ev operator E mode = .done (.builtin .binding))
    (hname : ev name E .lenient = .done v) (htext : v.text? = some text)
    (hvalue : ev value E mode = .done w) :
    evalStep ev (.list [operator, .list [.list [name, value] span] span', body] span'') E mode =
      ev body (E.bind text w) mode >>= fun r => .done (E.reinterpret r) := by
  simp [evalStep, hoperator, call, CallSite.operate, CallSite.letIn, CallSite.bindingPair,
    CallSite.closure, CallSite.paramName, hname, htext, Closure.curried, Closure.chain,
    applyClosure, Closure.arity, Closure.params, passArguments, hvalue]

/-- The expression `(let ((10 20)) 1e1)`. -/
def rebindTen : Expr :=
  .list
    [.atom "let" ⟨1, 4⟩, .list [.list [.atom "10" ⟨7, 9⟩, .atom "20" ⟨10, 12⟩] ⟨6, 13⟩] ⟨5, 14⟩,
      .atom "1e1" ⟨15, 18⟩] ⟨0, 19⟩

/-- The body of this expression, in its scope. -/
def rebindTenBody : Task :=
  ⟨.atom "1e1" ⟨15, 18⟩, Environment.global.bind "10" (.number 20), .strict⟩

theorem consults_rebindTen :
    Consults (eval 1) ⟨rebindTen, Environment.global, .strict⟩ rebindTenBody := by
  refine needs_of_bind fun ev' hagree => ⟨fun r => .done (Environment.global.reinterpret r), ?_⟩
  have hlet : ev' (.atom "let" ⟨1, 4⟩) Environment.global .strict = .done (.builtin .binding) :=
    hagree ⟨_, Environment.global, _⟩ (ne_of_apply_ne Task.expr (by simp [rebindTenBody]))
  have hname : ev' (.atom "10" ⟨7, 9⟩) Environment.global .lenient = .done (.number 10) :=
    hagree ⟨_, Environment.global, _⟩ (ne_of_apply_ne Task.expr (by simp [rebindTenBody]))
  have hvalue : ev' (.atom "20" ⟨10, 12⟩) Environment.global .strict = .done (.number 20) :=
    hagree ⟨_, Environment.global, _⟩ (ne_of_apply_ne Task.expr (by simp [rebindTenBody]))
  exact evalStep_let hlet hname rfl hvalue

/-- In the scope of `(let ((10 20)) 1e1)`, taken as an operator, the spellings `1e1` and `10` both
mean twenty. -/
theorem resolveAtom_eq_of_spellings_rebindTen :
    Visits 3 ⟨.list [rebindTen] ⟨0, 21⟩, Environment.global, .strict⟩ rebindTenBody ∧
    Value.ofLiteral? "1e1" = some (.number 10) ∧ Value.ofLiteral? "10" = some (.number 10) ∧
    resolveAtom "1e1" rebindTenBody.expr rebindTenBody.env .strict = .done (.number 20) ∧
    ∃ r, ∀ (mode : Resolution) (culprit culprit' : Expr),
      resolveAtom "1e1" culprit rebindTenBody.env mode = .done r ∧
        resolveAtom "10" culprit' rebindTenBody.env mode = .done r := by
  have hvisits : Visits 3 ⟨.list [rebindTen] ⟨0, 21⟩, Environment.global, .strict⟩ rebindTenBody :=
    .part (consults_operator _ _ _ _ _ _) (.part consults_rebindTen (.here 1 _))
  refine ⟨hvisits, rfl, rfl, rfl, ?_⟩
  exact resolveAtom_eq_of_spellings 3 _ _ _ hvisits "1e1" "10" (.number 10) (.number 10) rfl rfl rfl

end FixpointLisp
