import FixpointLisp.Proofs.Eval.Application
import FixpointLisp.Proofs.Eval.Unbounded
import Mathlib.Tactic

/-!
# Laws of the special forms

A `let` is carried out by itself, without another expression being made of it, and each of the forms
settles what its parts have come to once more. Here the forms are compared with what they stand for.

* `paramTexts`: the texts to which the names of parameters evaluate.
* `evaluate_letForm` and `evaluate_appliedForm`: both a `let` and the application of a `fun`
  evaluate the names, then the values, and then the body in the scope of all of them.
* `let_is_application`: so a `let` is the application of a `fun`, and only the error about a name
  that is a closure says which of the two it was.
* `evalStep_branch`: an `if` evaluates the chosen expression.
* `wrappers_transparent`: forms that do nothing but evaluate one expression can be left out.
-/

namespace FixpointLisp

variable {E : Environment} {mode : Resolution} {keyword e body : Expr} {names : List Expr}
  {span s s' s'' : Span} {v : Value}

theorem evaluate_of_builtin {b : Builtin} (h : evaluate keyword E mode = .done (.builtin b))
    (args : List Expr) (span : Span) :
    evaluate (.list (keyword :: args) span) E mode =
      CallSite.operate ⟨b, .list (keyword :: args) span, E, mode⟩ evaluate args >>= fun v =>
        .done (E.reinterpret v) := by
  rw [evaluate_eq, evalStep, h, Outcome.done_bind]
  rfl

theorem evaluate_of_closure {c : Closure} (h : evaluate keyword E mode = .done (.closure c))
    (args : List Expr) (span : Span) :
    evaluate (.list (keyword :: args) span) E mode =
      applyClosure evaluate c args E mode (.list (keyword :: args) span) >>= fun v =>
        .done (E.reinterpret v) := by
  rw [evaluate_eq, evalStep, h, Outcome.done_bind]
  rfl

/-! ### Names of parameters -/

/-- The texts to which the names of parameters evaluate, leniently and from left to right. A name
that is a closure is an error of the form `b`. -/
noncomputable def paramTexts (b : Builtin) (E : Environment) (names : List Expr) :
    Outcome (List String) :=
  names.mapM fun name => do
    let v ← evaluate name E .lenient
    match v.text? with
    | some text => .done text
    | none => .failed ⟨.typeMismatch b .parameterName v, name, E⟩

theorem closure_evaluate (site : CallSite) (names : List Expr) (body : Expr) :
    site.closure evaluate names body =
      paramTexts site.operator site.env names >>= fun texts =>
        .done (Closure.curried texts body site.env) := rfl

theorem paramTexts_cons_of_text {name : Expr} {text : String} (b : Builtin)
    (h : evaluate name E .lenient = .done v) (ht : v.text? = some text) (names : List Expr) :
    paramTexts b E (name :: names) =
      paramTexts b E names >>= fun texts => .done (text :: texts) := by
  simp only [paramTexts, List.mapM_cons, h, Outcome.done_bind, ht, Outcome.pure_eq]

/-- Whether `name` is the first one among the names that evaluates, leniently, to a closure, and all
names in front of it evaluate to values with a text. -/
inductive FirstClosure (E : Environment) : List Expr → Expr → Closure → Prop
  | here {name : Expr} {c : Closure} (h : Yields E .lenient name (.done (.closure c)))
      (names : List Expr) : FirstClosure E (name :: names) name c
  | later {front name : Expr} {v : Value} {text : String} {names : List Expr} {c : Closure}
      (h : Yields E .lenient front (.done v)) (ht : v.text? = some text)
      (hnames : FirstClosure E names name c) : FirstClosure E (front :: names) name c

theorem FirstClosure.paramTexts_eq {name : Expr} {c : Closure} (h : FirstClosure E names name c)
    (b : Builtin) :
    paramTexts b E names = .failed ⟨.typeMismatch b .parameterName (.closure c), name, E⟩ := by
  induction h with
  | here h names =>
    simp only [paramTexts, List.mapM_cons, yields_done_iff.1 h, Outcome.done_bind, Value.text?,
      Outcome.failed_bind]
  | later h ht _ ih =>
    rw [paramTexts_cons_of_text b (yields_done_iff.1 h) ht, ih, Outcome.failed_bind]

/-- When no name comes to a closure, it does not matter which form the names belong to. -/
theorem paramTexts_eq_of_not_firstClosure (b b' : Builtin)
    (h : ∀ name c, ¬FirstClosure E names name c) :
    paramTexts b E names = paramTexts b' E names := by
  induction names with
  | nil => rfl
  | cons name names ih =>
    cases ho : evaluate name E .lenient with
    | failed err => simp only [paramTexts, List.mapM_cons, ho, Outcome.failed_bind]
    | exhausted => simp only [paramTexts, List.mapM_cons, ho, Outcome.exhausted_bind]
    | done v =>
      cases ht : v.text? with
      | some text =>
        rw [paramTexts_cons_of_text b ho ht, paramTexts_cons_of_text b' ho ht,
          ih fun name' c hlater => h name' c (.later (yields_done_iff.2 ho) ht hlater)]
      | none =>
        cases v with
        | closure c => exact absurd (.here (yields_done_iff.2 ho) names) (h name c)
        | _ => cases ht

/-! ### `let` -/

/-- A binding of a `let`. -/
structure Binder where
  name : Expr
  value : Expr
  span : Span

/-- The binding as it is written, `(name value)`. -/
def Binder.expr (b : Binder) : Expr := .list [b.name, b.value] b.span

/-- `(let ((name value) ...) body)`, where `keyword` stands for `let`. -/
def letForm (keyword : Expr) (binders : List Binder) (body : Expr) (s s' : Span) : Expr :=
  .list [keyword, .list (binders.map Binder.expr) s, body] s'

/-- `((fun (name ...) body) value ...)`, where `keyword` stands for `fun`. -/
def appliedForm (keyword : Expr) (binders : List Binder) (body : Expr) (s s' s'' : Span) : Expr :=
  .list (.list [keyword, .list (binders.map Binder.name) s, body] s' :: binders.map Binder.value)
    s''

/-- A `let` has as many values as there are texts of its names. -/
theorem length_values_of_paramTexts {b : Builtin} {binders : List Binder} {texts : List String}
    (h : paramTexts b E (binders.map Binder.name) = .done texts) :
    (binders.map Binder.value).length = texts.length := by
  rw [(Outcome.forall₂_of_mapM_eq_done h).length_eq.symm, List.length_map, List.length_map]

theorem mapM_bindingPair (site : CallSite) (binders : List Binder) :
    (binders.map Binder.expr).mapM site.bindingPair =
      .done (binders.map fun b => (b.name, b.value)) := by
  induction binders with
  | nil => rfl
  | cons b binders ih =>
    rw [List.map_cons, List.mapM_cons, ih]
    rfl

theorem evaluate_letForm (h : evaluate keyword E mode = .done (.builtin .binding))
    (binders : List Binder) (body : Expr) (s s' : Span) :
    evaluate (letForm keyword binders body s s') E mode = (do
      let texts ← paramTexts .binding E (binders.map Binder.name)
      let values ← (binders.map Binder.value).mapM fun value => evaluate value E mode
      let v ← evaluate body (E.extend (texts.zip values)) mode
      .done (E.reinterpret v)) := by
  rw [letForm, evaluate_of_builtin h]
  simp only [CallSite.operate, CallSite.letIn, mapM_bindingPair, Outcome.done_bind,
    closure_evaluate, bind_assoc, List.map_map, Function.comp_def]
  refine Outcome.bind_congr_of_done fun texts htexts => ?_
  rw [applyClosure_curried (length_values_of_paramTexts htexts), bind_assoc]

theorem evaluate_lambda (h : evaluate keyword E mode = .done (.builtin .lambda))
    (names : List Expr) (body : Expr) (s s' : Span) :
    evaluate (.list [keyword, .list names s, body] s') E mode =
      paramTexts .lambda E names >>= fun texts => .done (.closure (.curried texts body E)) := by
  rw [evaluate_of_builtin h]
  simp only [CallSite.operate, CallSite.lambda, CallSite.paramsOf, closure_evaluate, bind_assoc,
    Outcome.done_bind]
  rfl

theorem evaluate_appliedForm (h : evaluate keyword E mode = .done (.builtin .lambda))
    (binders : List Binder) (body : Expr) (s s' s'' : Span) :
    evaluate (appliedForm keyword binders body s s' s'') E mode = (do
      let texts ← paramTexts .lambda E (binders.map Binder.name)
      let values ← (binders.map Binder.value).mapM fun value => evaluate value E mode
      let v ← evaluate body (E.extend (texts.zip values)) mode
      .done (E.reinterpret v)) := by
  rw [appliedForm, evaluate_eq, evalStep, evaluate_lambda h, bind_assoc]
  refine Outcome.bind_congr_of_done fun texts htexts => ?_
  rw [Outcome.done_bind, call, applyClosure_curried (length_values_of_paramTexts htexts),
    bind_assoc]

/-- **A `let` is the application of a `fun`.** Let one expression evaluate to the builtin `let` and
another one to `fun`, as the atoms of these names do where they are not bound to anything else. Then
`(let ((name value) ...) body)` and `((fun (name ...) body) value ...)` evaluate to the same value
or the same error, or both without end. The only exception is a name that evaluates to a closure,
with all names in front of it having texts: then both fail, with errors about this name that differ
only in the operator they mention. -/
theorem let_is_application (E : Environment) (mode : Resolution) (letKeyword funKeyword : Expr)
    (hlet : Yields E mode letKeyword (.done (.builtin .binding)))
    (hfun : Yields E mode funKeyword (.done (.builtin .lambda))) (binders : List Binder)
    (body : Expr) (s₁ s₂ s₃ s₄ s₅ : Span) :
    (∀ name c, FirstClosure E (binders.map Binder.name) name c →
      Yields E mode (letForm letKeyword binders body s₁ s₂)
          (.failed ⟨.typeMismatch .binding .parameterName (.closure c), name, E⟩) ∧
        Yields E mode (appliedForm funKeyword binders body s₃ s₄ s₅)
          (.failed ⟨.typeMismatch .lambda .parameterName (.closure c), name, E⟩)) ∧
    ((∀ name c, ¬FirstClosure E (binders.map Binder.name) name c) →
      Equivalent E mode (letForm letKeyword binders body s₁ s₂)
        (appliedForm funKeyword binders body s₃ s₄ s₅)) := by
  have hletForm := evaluate_letForm hlet.evaluate_eq binders body s₁ s₂
  have happliedForm := evaluate_appliedForm hfun.evaluate_eq binders body s₃ s₄ s₅
  refine ⟨fun name c hname => ⟨?_, ?_⟩, fun hnames => ?_⟩
  · rw [yields_failed_iff, hletForm, hname.paramTexts_eq, Outcome.failed_bind]
  · rw [yields_failed_iff, happliedForm, hname.paramTexts_eq, Outcome.failed_bind]
  · rw [equivalent_iff, hletForm, happliedForm,
      paramTexts_eq_of_not_firstClosure .binding .lambda hnames]

/-- The bindings of `(let ((x true) (x false)) x)`. -/
def repeatedBinders : List Binder :=
  [⟨.atom "x" ⟨7, 8⟩, .atom "true" ⟨9, 13⟩, ⟨6, 14⟩⟩,
    ⟨.atom "x" ⟨16, 17⟩, .atom "false" ⟨18, 23⟩, ⟨15, 24⟩⟩]

/-- The expression `(fun () x)`. -/
def constantly : Expr :=
  .list [.atom "fun" ⟨17, 20⟩, .list [] ⟨21, 23⟩, .atom "x" ⟨24, 25⟩] ⟨16, 26⟩

/-- The bindings of `(let ((x true) ((fun () x) false)) x)`. -/
def closureBinders : List Binder :=
  [⟨.atom "x" ⟨7, 8⟩, .atom "true" ⟨9, 13⟩, ⟨6, 14⟩⟩,
    ⟨constantly, .atom "false" ⟨27, 32⟩, ⟨15, 33⟩⟩]

/-- With the name `x` bound twice, the `let` and the application come to the second value. With a
closure as the second name, they fail with errors of different operators. -/
theorem let_is_application_global :
    let letAtom : Expr := .atom "let" ⟨1, 4⟩
    let funAtom : Expr := .atom "fun" ⟨2, 5⟩
    let body : Expr := .atom "x" ⟨0, 1⟩
    let c : Closure := .last none Environment.global (.atom "x" ⟨24, 25⟩)
    Yields Environment.global .strict letAtom (.done (.builtin .binding)) ∧
    Yields Environment.global .strict funAtom (.done (.builtin .lambda)) ∧
    (∀ s₁ s₂ s₃ s₄ s₅,
      Yields Environment.global .strict (letForm letAtom repeatedBinders body s₁ s₂)
          (.done (.boolean false)) ∧
        Yields Environment.global .strict (appliedForm funAtom repeatedBinders body s₃ s₄ s₅)
          (.done (.boolean false))) ∧
    FirstClosure Environment.global (closureBinders.map Binder.name) constantly c ∧
    ∀ s₁ s₂ s₃ s₄ s₅,
      Yields Environment.global .strict (letForm letAtom closureBinders body s₁ s₂)
          (.failed ⟨.typeMismatch .binding .parameterName (.closure c), constantly,
            Environment.global⟩) ∧
        Yields Environment.global .strict (appliedForm funAtom closureBinders body s₃ s₄ s₅)
          (.failed ⟨.typeMismatch .lambda .parameterName (.closure c), constantly,
            Environment.global⟩) := by
  intro letAtom funAtom body c
  have hlet : Yields Environment.global .strict letAtom (.done (.builtin .binding)) :=
    ⟨by simp, 1, rfl⟩
  have hfun : Yields Environment.global .strict funAtom (.done (.builtin .lambda)) :=
    ⟨by simp, 1, rfl⟩
  have hx : ∀ span, evaluate (.atom "x" span) Environment.global .lenient = .done (.symbol "x") :=
    fun span => evaluate_atom "x" span _ _
  have hnames : ∀ name c',
      ¬FirstClosure Environment.global (repeatedBinders.map Binder.name) name c' := by
    rintro name c' (⟨h, -⟩ | ⟨-, -, ⟨h, -⟩ | ⟨-, -, ⟨⟩⟩⟩)
    · cases (hx _).symm.trans h.evaluate_eq
    · cases (hx _).symm.trans h.evaluate_eq
  have hfirst : FirstClosure Environment.global (closureBinders.map Binder.name) constantly c :=
    .later (yields_done_iff.2 (hx _)) rfl (.here ⟨by simp, 2, rfl⟩ [])
  refine ⟨hlet, hfun, fun s₁ s₂ s₃ s₄ s₅ => ?_, hfirst, fun s₁ s₂ s₃ s₄ s₅ => ?_⟩
  · have hvalue : Yields Environment.global .strict (letForm letAtom repeatedBinders body s₁ s₂)
        (.done (.boolean false)) := ⟨by simp, 2, rfl⟩
    have hequivalent := (let_is_application _ .strict letAtom funAtom hlet hfun repeatedBinders body
      s₁ s₂ s₃ s₄ s₅).2 hnames
    exact ⟨hvalue, (hequivalent _).1 hvalue⟩
  · exact (let_is_application _ .strict letAtom funAtom hlet hfun closureBinders body
      s₁ s₂ s₃ s₄ s₅).1 _ _ hfirst

/-! ### Forms that evaluate one expression -/

/-- An `if` evaluates the expression that its condition chooses. -/
theorem evalStep_branch {ev : Evaluator} {condition yes no : Expr} {b : Bool}
    (hkeyword : ev keyword E mode = .done (.builtin .branch))
    (hcondition : ev condition E mode = .done (.boolean b)) :
    evalStep ev (.list [keyword, condition, yes, no] span) E mode =
      ev (if b then yes else no) E mode >>= fun v => .done (E.reinterpret v) := by
  simp only [evalStep, hkeyword, Outcome.done_bind, call, CallSite.operate, CallSite.branch,
    CallSite.boolean, CallSite.operand, hcondition]

theorem equivalent_branch {condition yes no : Expr} {b : Bool}
    (hkeyword : Yields E mode keyword (.done (.builtin .branch)))
    (hcondition : Yields E mode condition (.done (.boolean b))) :
    Equivalent E mode (.list [keyword, condition, yes, no] span) (if b then yes else no) := by
  rw [equivalent_iff, evaluate_eq, evalStep_branch hkeyword.evaluate_eq hcondition.evaluate_eq,
    evaluate_bind_reinterpret]

/-- At any depth, the parts of an `if` that are evaluated are its keyword, its condition and the
expression that is chosen. -/
theorem eq_of_consults_branch {condition yes no : Expr} {b : Bool} {depth : ℕ} {part : Task}
    (hkeyword : Yields E mode keyword (.done (.builtin .branch)))
    (hcondition : Yields E mode condition (.done (.boolean b)))
    (h : Consults (eval depth) ⟨.list [keyword, condition, yes, no] span, E, mode⟩ part) :
    part = ⟨keyword, E, mode⟩ ∨ part = ⟨condition, E, mode⟩ ∨
      part = ⟨if b then yes else no, E, mode⟩ := by
  obtain ⟨ev', hagree, hne⟩ := h
  by_contra hpart
  simp only [not_or] at hpart
  have hkeyword' : ev' keyword E mode = eval depth keyword E mode := hagree _ (Ne.symm hpart.1)
  have hcondition' : ev' condition E mode = eval depth condition E mode :=
    hagree _ (Ne.symm hpart.2.1)
  have hchosen : ev' (if b then yes else no) E mode = eval depth (if b then yes else no) E mode :=
    hagree _ (Ne.symm hpart.2.2)
  refine hne ?_
  simp only [Task.outcome]
  rcases eval_eq_exhausted_or depth keyword E mode with hk | hk
  · simp only [evalStep, hkeyword', hk, Outcome.exhausted_bind]
  rw [hkeyword.evaluate_eq] at hk
  rcases eval_eq_exhausted_or depth condition E mode with hc | hc
  · simp only [evalStep, hkeyword', hk, Outcome.done_bind, call, CallSite.operate, CallSite.branch,
      CallSite.boolean, CallSite.operand, hcondition', hc, Outcome.exhausted_bind]
  rw [hcondition.evaluate_eq] at hc
  rw [evalStep_branch hk hc, evalStep_branch (hkeyword'.trans hk) (hcondition'.trans hc), hchosen]

theorem equivalent_letForm_nil (h : Yields E mode keyword (.done (.builtin .binding))) :
    Equivalent E mode (letForm keyword [] e s s') e := by
  rw [equivalent_iff, evaluate_letForm h.evaluate_eq]
  exact evaluate_bind_reinterpret e E mode

theorem equivalent_appliedForm_nil (h : Yields E mode keyword (.done (.builtin .lambda))) :
    Equivalent E mode (appliedForm keyword [] e s s' s'') e := by
  rw [equivalent_iff, evaluate_appliedForm h.evaluate_eq]
  exact evaluate_bind_reinterpret e E mode

/-- A value that is no function stands for itself when it is applied to nothing. -/
theorem equivalent_singleton
    (h : ∀ v, Yields E mode e (.done v) → (∀ c, v ≠ .closure c) ∧ ∀ b, v ≠ .builtin b) :
    Equivalent E mode (.list [e] span) e := by
  rw [equivalent_iff, evaluate_eq, evalStep]
  conv_rhs => rw [← evaluate_bind_reinterpret]
  refine Outcome.bind_congr_of_done fun v hv => ?_
  obtain ⟨hclosure, hbuiltin⟩ := h v (yields_done_iff.2 hv)
  cases v with
  | closure c => exact absurd rfl (hclosure c)
  | builtin b => exact absurd rfl (hbuiltin b)
  | _ => rfl

/-- **Wrappers are transparent.** Each of the following evaluates to the same value or the same
error as the expression `e` in it, or without end if `e` does: an `if` whose condition chooses `e`,
where the other expression is never evaluated; a `let` without bindings; the application of a `fun`
without parameters; and the list of `e` alone, unless `e` evaluates to a function. -/
theorem wrappers_transparent (E : Environment) (mode : Resolution) (e : Expr) :
    (∀ keyword condition other span, Yields E mode keyword (.done (.builtin .branch)) →
      (Yields E mode condition (.done (.boolean true)) →
        Equivalent E mode (.list [keyword, condition, e, other] span) e ∧
          ∀ depth part,
            Consults (eval depth) ⟨.list [keyword, condition, e, other] span, E, mode⟩ part →
              part = ⟨keyword, E, mode⟩ ∨ part = ⟨condition, E, mode⟩ ∨ part = ⟨e, E, mode⟩) ∧
      (Yields E mode condition (.done (.boolean false)) →
        Equivalent E mode (.list [keyword, condition, other, e] span) e ∧
          ∀ depth part,
            Consults (eval depth) ⟨.list [keyword, condition, other, e] span, E, mode⟩ part →
              part = ⟨keyword, E, mode⟩ ∨ part = ⟨condition, E, mode⟩ ∨ part = ⟨e, E, mode⟩)) ∧
    (∀ keyword s s', Yields E mode keyword (.done (.builtin .binding)) →
      Equivalent E mode (.list [keyword, .list [] s, e] s') e) ∧
    (∀ keyword s s' s'', Yields E mode keyword (.done (.builtin .lambda)) →
      Equivalent E mode (.list [.list [keyword, .list [] s, e] s'] s'') e) ∧
    ∀ span, (∀ v, Yields E mode e (.done v) → (∀ c, v ≠ .closure c) ∧ ∀ b, v ≠ .builtin b) →
      Equivalent E mode (.list [e] span) e := by
  refine ⟨fun keyword condition other span hkeyword => ⟨fun hcondition => ⟨?_, ?_⟩,
    fun hcondition => ⟨?_, ?_⟩⟩, ?_, ?_, fun span => equivalent_singleton⟩
  · exact equivalent_branch hkeyword hcondition
  · exact fun depth part => eq_of_consults_branch hkeyword hcondition
  · exact equivalent_branch hkeyword hcondition
  · exact fun depth part => eq_of_consults_branch hkeyword hcondition
  · exact fun keyword s s' => equivalent_letForm_nil
  · exact fun keyword s s' s'' => equivalent_appliedForm_nil

/-- The global environment with `1` and `2` bound to each other. -/
def swappedGlobal : Environment := (Environment.global.bind "1" (.number 2)).bind "2" (.number 1)

/-- Where `1` and `2` are bound to each other, `1` evaluates to one, and so do all the wrappers of
it, whatever the expression is that an `if` does not choose. -/
theorem wrappers_transparent_swapped :
    let one : Expr := .atom "1" ⟨0, 1⟩
    Yields swappedGlobal .strict one (.done (.number 1)) ∧
    (∀ other span, Yields swappedGlobal .strict
      (.list [.atom "if" ⟨1, 3⟩, .atom "true" ⟨4, 8⟩, one, other] span) (.done (.number 1))) ∧
    (∀ other span, Yields swappedGlobal .strict
      (.list [.atom "if" ⟨1, 3⟩, .atom "false" ⟨4, 9⟩, other, one] span) (.done (.number 1))) ∧
    (∀ s s', Yields swappedGlobal .strict (.list [.atom "let" ⟨1, 4⟩, .list [] s, one] s')
      (.done (.number 1))) ∧
    (∀ s s' s'', Yields swappedGlobal .strict
      (.list [.list [.atom "fun" ⟨2, 5⟩, .list [] s, one] s'] s'') (.done (.number 1))) ∧
    ∀ span, Yields swappedGlobal .strict (.list [one] span) (.done (.number 1)) := by
  intro one
  have hone : Yields swappedGlobal .strict one (.done (.number 1)) := ⟨by simp, 1, rfl⟩
  have hif : Yields swappedGlobal .strict (.atom "if" ⟨1, 3⟩) (.done (.builtin .branch)) :=
    ⟨by simp, 1, rfl⟩
  have hlet : Yields swappedGlobal .strict (.atom "let" ⟨1, 4⟩) (.done (.builtin .binding)) :=
    ⟨by simp, 1, rfl⟩
  have hfun : Yields swappedGlobal .strict (.atom "fun" ⟨2, 5⟩) (.done (.builtin .lambda)) :=
    ⟨by simp, 1, rfl⟩
  have htrue : Yields swappedGlobal .strict (.atom "true" ⟨4, 8⟩) (.done (.boolean true)) :=
    ⟨by simp, 1, rfl⟩
  have hfalse : Yields swappedGlobal .strict (.atom "false" ⟨4, 9⟩) (.done (.boolean false)) :=
    ⟨by simp, 1, rfl⟩
  obtain ⟨hbranch, hbinding, hlambda, hsingleton⟩ := wrappers_transparent swappedGlobal .strict one
  refine ⟨hone, fun other span => ?_, fun other span => ?_, fun s s' => ?_, fun s s' s'' => ?_,
    fun span => ?_⟩
  · exact (((hbranch _ _ other span hif).1 htrue).1 _).2 hone
  · exact (((hbranch _ _ other span hif).2 hfalse).1 _).2 hone
  · exact (hbinding _ s s' hlet _).2 hone
  · exact (hlambda _ s s' s'' hfun _).2 hone
  · refine (hsingleton span (fun v hv => ?_) _).2 hone
    cases hone.evaluate_eq.symm.trans hv.evaluate_eq
    simp

end FixpointLisp
