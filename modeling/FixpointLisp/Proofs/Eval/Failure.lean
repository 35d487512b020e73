import FixpointLisp.Eval.Basic
import FixpointLisp.Proofs.Eval.Outcome
import Mathlib.Tactic

/-!
# Where errors come from

Errors are passed on as they are. So an error of a whole evaluation was raised by one of its steps,
and what it says about an expression and an environment was true of that step.

* `Outcome.FailsBy`: a computation fails only with errors of a given kind. Computations in several
  steps inherit this from their steps.
* `Origin`: the ways in which one step of evaluation can come to fail. It passes on the error of a
  part, or raises one about an operand, about itself as an atom, or about itself as an application.
* `evalStep_failsBy`: there are no others.
* `eval_unbound_strict`: only strict evaluation fails at an atom without meaning, at any depth.
-/

namespace FixpointLisp

variable {α β : Type}

/-! ### Kinds of errors -/

/-- Whether a computation fails only with errors of the given kind. -/
def Outcome.FailsBy (Q : EvalError → Prop) (o : Outcome α) : Prop := ∀ err, o = .failed err → Q err

namespace Outcome

variable {Q : EvalError → Prop} {o : Outcome α} {f : α → Outcome β}

theorem FailsBy.done (a : α) : (Outcome.done a).FailsBy Q := by
  intro err h
  cases h

theorem FailsBy.failed {err : EvalError} (h : Q err) : (Outcome.failed err : Outcome α).FailsBy Q := by
  intro err' h'
  cases h'
  exact h

theorem FailsBy.bind (ho : o.FailsBy Q) (hf : ∀ a, o = .done a → (f a).FailsBy Q) :
    (o >>= f).FailsBy Q := by
  intro err h
  rcases bind_eq_failed_iff.1 h with h | ⟨a, ha, h⟩
  · exact ho err h
  · exact hf a ha err h

theorem FailsBy.mapM {xs : List α} (hf : ∀ x, (f x).FailsBy Q) : (xs.mapM f).FailsBy Q := by
  intro err h
  obtain ⟨x, -, hx⟩ := exists_of_mapM_eq_failed h
  exact hf x err hx

end Outcome

/-- Whether a cause is about an application as a whole, neither about an atom nor about an
operand. -/
def Cause.OfApplication : Cause → Prop
  | .unbound _ => False
  | .typeMismatch _ _ _ => False
  | _ => True

/-- How one step of evaluation, whose parts are evaluated by `ev`, comes to fail. -/
inductive Origin (ev : Evaluator) (e : Expr) (E : Environment) (mode : Resolution)
    (err : EvalError) : Prop
  /-- A part fails, and its error is passed on. -/
  | part {e' : Expr} {E' : Environment} {mode' : Resolution}
      (hmode : mode' = mode ∨ mode' = .lenient) (h : ev e' E' mode' = .failed err)
  /-- An operand has a value that is not as expected. -/
  | operand {arg : Expr} {mode' : Resolution} {b : Builtin} {expected : Expectation} {found : Value}
      (h : ev arg E mode' = .done found) (herr : err = ⟨.typeMismatch b expected found, arg, E⟩)
  /-- It is an atom without meaning. -/
  | atom {name : String} (hmode : mode = .strict) (herr : err = ⟨.unbound name, e, E⟩)
  /-- It is an application that cannot be carried out. -/
  | application (hcause : err.cause.OfApplication) (hexpr : err.expr = e) (henv : err.env = E)

/-! ### Operands -/

namespace CallSite

/-- Whether a computation for a call fails only in the ways in which the call may. -/
def Fails (site : CallSite) (ev : Evaluator) (o : Outcome α) : Prop :=
  o.FailsBy (Origin ev site.form site.env site.mode)

variable (site : CallSite) (ev : Evaluator) (args : List Expr) (arg : Expr)

theorem fails_mismatch (expected : Expectation) {found : Value} {mode : Resolution}
    (h : ev arg site.env mode = .done found) :
    site.Fails ev (site.mismatch expected found arg : Outcome α) :=
  .failed (.operand h rfl)

theorem fails_malformed (fault : FormFault) :
    site.Fails ev (site.malformed fault : Outcome α) :=
  .failed (.application trivial rfl rfl)

theorem fails_wrongCount (wanted given : ℕ) :
    site.Fails ev (site.wrongCount wanted given : Outcome α) :=
  .failed (.application trivial rfl rfl)

theorem fails_operand : site.Fails ev (site.operand ev arg) :=
  fun _ h => .part (.inl rfl) h

theorem fails_number : site.Fails ev (site.number ev arg) := by
  refine (site.fails_operand ev arg).bind fun v hv => ?_
  cases v with
  | number x => exact .done x
  | _ => exact site.fails_mismatch ev arg _ hv

theorem fails_boolean : site.Fails ev (site.boolean ev arg) := by
  refine (site.fails_operand ev arg).bind fun v hv => ?_
  cases v with
  | boolean b => exact .done b
  | _ => exact site.fails_mismatch ev arg _ hv

theorem fails_nonFunction (expected : Expectation) :
    site.Fails ev (site.nonFunction ev expected arg) := by
  refine (site.fails_operand ev arg).bind fun v hv => ?_
  cases v with
  | closure c => exact site.fails_mismatch ev arg _ hv
  | builtin b => exact site.fails_mismatch ev arg _ hv
  | _ => exact .done _

variable {op : Expr → Outcome α}

theorem fails_unary (hop : ∀ arg, site.Fails ev (op arg)) : site.Fails ev (site.unary op args) := by
  unfold CallSite.unary
  split
  · exact hop _
  · exact site.fails_wrongCount ev _ _

theorem fails_binary (hop : ∀ arg, site.Fails ev (op arg)) :
    site.Fails ev (site.binary op args) := by
  unfold CallSite.binary
  split
  · exact (hop _).bind fun a _ => (hop _).bind fun b _ => .done (a, b)
  · exact site.fails_wrongCount ev _ _

theorem fails_arithmetic (unit : Float) (op : Float → Float → Float) :
    site.Fails ev (site.arithmetic ev unit op args) :=
  (Outcome.FailsBy.mapM (site.fails_number ev)).bind fun _ _ => .done _

theorem fails_comparison (op : Float → Float → Bool) :
    site.Fails ev (site.comparison ev op args) :=
  (site.fails_binary ev args (site.fails_number ev)).bind fun _ _ => .done _

theorem fails_logic (op : Bool → Bool → Bool) : site.Fails ev (site.logic ev op args) :=
  (site.fails_binary ev args (site.fails_boolean ev)).bind fun _ _ => .done _

theorem fails_textual (op : List Char → List Char) : site.Fails ev (site.textual ev op args) :=
  (site.fails_unary ev args fun arg => site.fails_nonFunction ev arg _).bind fun _ _ => .done _

/-! ### Special forms -/

theorem fails_paramName : site.Fails ev (site.paramName ev arg) := by
  have hpart : site.Fails ev (ev arg site.env .lenient) := fun _ h => .part (.inr rfl) h
  refine hpart.bind fun v hv => ?_
  cases v.text? with
  | none => exact site.fails_mismatch ev arg _ hv
  | some name => exact .done name

theorem fails_closure (params : List Expr) (body : Expr) :
    site.Fails ev (site.closure ev params body) :=
  (Outcome.FailsBy.mapM (site.fails_paramName ev)).bind fun _ _ => .done _

theorem fails_lambda : site.Fails ev (site.lambda ev args) := by
  unfold CallSite.lambda
  split
  · exact (site.fails_closure ev _ _).bind fun _ _ => .done _
  · exact site.fails_malformed ev _

theorem fails_bindingPair : site.Fails ev (site.bindingPair arg) := by
  unfold CallSite.bindingPair
  split
  · exact .done _
  · exact site.fails_malformed ev _

end CallSite

section

variable (ev : Evaluator) (form : Expr) (E : Environment) (mode : Resolution)

theorem passArguments_failsBy :
    ∀ (c : Closure) (args : List Expr),
      (passArguments ev E mode c args).FailsBy (Origin ev form E mode)
  | .last none scope body, args => by
    rw [passArguments]
    exact fun _ h => .part (.inl rfl) h
  | .link none _ next, args => by
    rw [passArguments]
    exact .done _
  | .last (some p) scope body, [] => .done _
  | .link (some p) scope next, [] => .done _
  | .last (some p) scope body, arg :: args => by
    have harg : (ev arg E mode).FailsBy (Origin ev form E mode) := fun _ h => .part (.inl rfl) h
    exact harg.bind fun v _ _ h => .part (.inl rfl) h
  | .link (some p) scope next, arg :: args => by
    have harg : (ev arg E mode).FailsBy (Origin ev form E mode) := fun _ h => .part (.inl rfl) h
    exact harg.bind fun v _ => passArguments_failsBy _ args

theorem applyClosure_failsBy (c : Closure) (args : List Expr) :
    (applyClosure ev c args E mode form).FailsBy (Origin ev form E mode) := by
  unfold applyClosure
  split_ifs
  · exact .failed (.application trivial rfl rfl)
  · exact passArguments_failsBy ev form E mode c args

end

namespace CallSite

variable (site : CallSite) (ev : Evaluator) (args : List Expr)

theorem fails_letIn : site.Fails ev (site.letIn ev args) := by
  unfold CallSite.letIn
  split
  · refine (Outcome.FailsBy.mapM fun arg => site.fails_bindingPair ev arg).bind fun pairs _ => ?_
    refine (site.fails_closure ev _ _).bind fun c _ => ?_
    exact applyClosure_failsBy ev site.form site.env site.mode c _
  · exact site.fails_malformed ev _
  · exact site.fails_malformed ev _

theorem fails_branch : site.Fails ev (site.branch ev args) := by
  unfold CallSite.branch
  split
  · exact (site.fails_boolean ev _).bind fun b _ => site.fails_operand ev _
  · exact site.fails_malformed ev _

theorem fails_operate : site.Fails ev (site.operate ev args) := by
  unfold CallSite.operate
  cases site.operator with
  | lambda => exact site.fails_lambda ev args
  | binding => exact site.fails_letIn ev args
  | branch => exact site.fails_branch ev args
  | add =>
    refine (Outcome.FailsBy.mapM fun arg => site.fails_nonFunction ev arg _).bind fun _ _ => ?_
    exact .done _
  | sub => exact site.fails_arithmetic ev args _ _
  | mul => exact site.fails_arithmetic ev args _ _
  | div => exact site.fails_arithmetic ev args _ _
  | equal => exact (site.fails_binary ev args (site.fails_operand ev)).bind fun _ _ => .done _
  | greater => exact site.fails_comparison ev args _
  | greaterEq => exact site.fails_comparison ev args _
  | less => exact site.fails_comparison ev args _
  | lessEq => exact site.fails_comparison ev args _
  | and => exact site.fails_logic ev args _
  | or => exact site.fails_logic ev args _
  | not => exact (site.fails_unary ev args (site.fails_boolean ev)).bind fun _ _ => .done _
  | first => exact site.fails_textual ev args _
  | rest => exact site.fails_textual ev args _

end CallSite

/-! ### Evaluation -/

theorem call_failsBy (ev : Evaluator) (callee : Value) (args : List Expr) (E : Environment)
    (mode : Resolution) (form : Expr) :
    (call ev callee args E mode form).FailsBy (Origin ev form E mode) := by
  unfold call
  split
  · exact CallSite.fails_operate _ ev args
  · exact applyClosure_failsBy ev form E mode _ args
  · split_ifs
    · exact .done _
    · exact .failed (.application trivial rfl rfl)

theorem resolveAtom_failsBy (ev : Evaluator) (text : String) (e : Expr) (E : Environment)
    (mode : Resolution) : (resolveAtom text e E mode).FailsBy (Origin ev e E mode) := by
  unfold resolveAtom
  split
  · exact .done _
  · exact .done _
  · exact .failed (.atom rfl rfl)

/-- Every failure of a step of evaluation comes from one of its parts, is about one of its operands or
is about the step itself. -/
theorem evalStep_failsBy (ev : Evaluator) (e : Expr) (E : Environment) (mode : Resolution) :
    (evalStep ev e E mode).FailsBy (Origin ev e E mode) := by
  match e with
  | .atom text span => exact resolveAtom_failsBy ev text _ E mode
  | .list [] span => exact .failed (.application trivial rfl rfl)
  | .list (operator :: args) span =>
    have hoperator : (ev operator E mode).FailsBy
        (Origin ev (.list (operator :: args) span) E mode) := fun _ h => .part (.inl rfl) h
    refine hoperator.bind fun callee _ => ?_
    exact (call_failsBy ev callee args E mode _).bind fun _ _ => .done _

/-- Evaluation fails at an atom without meaning only if it is strict: no part of a lenient evaluation
is strict. -/
theorem eval_unbound_strict {depth : ℕ} {e : Expr} {E : Environment} {mode : Resolution}
    {err : EvalError} (h : eval depth e E mode = .failed err) {name : String}
    (hname : err.cause = .unbound name) : mode = .strict := by
  induction depth generalizing e E mode with
  | zero => cases h
  | succ depth ih =>
    cases evalStep_failsBy (eval depth) e E mode err h with
    | part hmode h' =>
      -- Names are evaluated leniently in either mode, all other parts in the mode of the whole.
      rcases hmode with rfl | rfl
      · exact ih h'
      · cases ih h'
    | operand h' herr =>
      subst herr
      cases hname
    | atom hmode herr => exact hmode
    | application hcause hexpr henv =>
      rw [hname] at hcause
      exact hcause.elim

end FixpointLisp
