import FixpointLisp.Proofs.Eval.Application
import FixpointLisp.Proofs.Eval.Contracts
import FixpointLisp.Proofs.Eval.Modes
import FixpointLisp.Proofs.Expr.Spans
import Mathlib.Tactic

/-!
# Evaluation without `fun` ends

An environment may bind the other builtins to any names, and names to numbers, truth values, strings
and symbols. Texts that are put together on the way can then become operators, and `let` makes a
closure and applies it, but no closure ever gets a name. So a step of evaluation evaluates only what
is written inside of its own expression, and evaluation goes no deeper than that is nested.

* `Expr.height` and `Expr.Inside`: how deep an expression is nested, and its nodes below the root.
* `Value.LambdaFree`, `Environment.LambdaFree` and `EvalError.LambdaFree`: no closure and not `fun`.
* `Contract.lambdaFree`: the tasks in such environments, their values and errors. Every operation
  other than `fun` keeps to it, and so does a step of evaluation (`allows_evalStep`), which asks
  only for nodes inside.
* `eval_of_lambdaFree`: evaluation ends within the height of the expression.
-/

namespace FixpointLisp

/-! ### The height of an expression -/

namespace Expr

mutual

/-- The number of levels in an expression: an atom is one, and a list puts one on top of its
children. -/
def height : Expr → ℕ
  | atom _ _ => 1
  | list es _ => heightAll es + 1

/-- The greatest height of several expressions. -/
def heightAll : List Expr → ℕ
  | [] => 0
  | e :: es => max e.height (heightAll es)

end

/-- Whether an expression is a node of another one other than its root. -/
inductive Inside : Expr → Expr → Prop
  | intro {d f : Expr} {es : List Expr} {s : Span} (hf : f ∈ es) (h : d.NodeOf f) :
      Inside d (.list es s)

variable {d e f : Expr}

theorem height_pos (e : Expr) : 0 < e.height := by
  cases e <;> simp [height]

theorem height_le_heightAll {es : List Expr} (h : f ∈ es) : f.height ≤ heightAll es := by
  induction es with
  | nil => simp at h
  | cons e es ih =>
    rw [heightAll]
    rcases List.mem_cons.1 h with rfl | h
    · exact le_max_left _ _
    · exact (ih h).trans (le_max_right _ _)

theorem NodeOf.height_le (h : d.NodeOf e) : d.height ≤ e.height := by
  induction h with
  | root => exact le_rfl
  | inside hf _ ih => exact ih.trans ((height_le_heightAll hf).trans (Nat.le_succ _))

theorem NodeOf.trans (h : d.NodeOf e) (h' : e.NodeOf f) : d.NodeOf f := by
  induction h' with
  | root => exact h
  | inside hf _ ih => exact .inside hf ih

theorem Inside.nodeOf (h : d.Inside e) : d.NodeOf e := by
  cases h with
  | intro hf h => exact .inside hf h

theorem Inside.height_lt (h : d.Inside e) : d.height < e.height := by
  cases h with
  | intro hf h => exact Nat.lt_succ_of_le (h.height_le.trans (height_le_heightAll hf))

end Expr

/-! ### Values without functions that `fun` has made -/

/-- Whether a value is neither a closure nor `fun`. -/
def Value.LambdaFree : Value → Prop
  | .closure _ => False
  | .builtin b => b ≠ .lambda
  | _ => True

instance : DecidablePred Value.LambdaFree
  | .closure _ => .isFalse id
  | .builtin b => inferInstanceAs (Decidable (b ≠ .lambda))
  | .number _ => .isTrue trivial
  | .boolean _ => .isTrue trivial
  | .string _ => .isTrue trivial
  | .symbol _ => .isTrue trivial

/-- Whether no name is bound to a closure or to `fun`. -/
def Environment.LambdaFree (E : Environment) : Prop :=
  ∀ name v, E.lookup name = some v → v.LambdaFree

/-- Whether the value that is at fault, if there is one, is neither a closure nor `fun`. -/
def Cause.LambdaFree : Cause → Prop
  | .tooManyArguments _ _ => False
  | .typeMismatch _ _ found => found.LambdaFree
  | .notCallable value => value.LambdaFree
  | _ => True

/-- Whether neither the cause nor the environment of an error has a closure or `fun`. -/
structure EvalError.LambdaFree (err : EvalError) : Prop where
  cause : err.cause.LambdaFree
  env : err.env.LambdaFree

theorem Value.lambdaFree_total (values : List Value) : (Value.total values).LambdaFree := by
  unfold Value.total
  split_ifs <;> trivial

theorem Value.lambdaFree_of_ofLiteral? {text : String} {v : Value}
    (h : Value.ofLiteral? text = some v) : v.LambdaFree := by
  rcases Value.ofLiteral?_cases h with ⟨x, rfl⟩ | ⟨b, rfl⟩ | ⟨s, rfl⟩ <;> trivial

namespace Environment

variable {E : Environment} {text : String} {v : Value}

theorem lambdaFree_empty : empty.LambdaFree := by
  intro name v h
  cases h

theorem LambdaFree.bind (hE : E.LambdaFree) (hv : v.LambdaFree) (name : String) :
    (E.bind name v).LambdaFree := by
  intro m w h
  rw [lookup_bind] at h
  split_ifs at h
  · cases h
    exact hv
  · exact hE m w h

theorem LambdaFree.extend {bindings : List (String × Value)} (hE : E.LambdaFree)
    (h : ∀ b ∈ bindings, b.2.LambdaFree) : (E.extend bindings).LambdaFree := by
  induction bindings generalizing E with
  | nil => exact hE
  | cons b bindings ih =>
    obtain ⟨hb, hrest⟩ := List.forall_mem_cons.1 h
    exact ih (hE.bind hb b.1) hrest

theorem LambdaFree.meaning? (hE : E.LambdaFree) (h : E.meaning? text = some v) :
    v.LambdaFree := by
  cases hl : E.lookup text with
  | some w =>
    rw [meaning?_of_lookup hl] at h
    cases h
    exact hE text _ hl
  | none =>
    rw [meaning?_of_unbound hl] at h
    exact Value.lambdaFree_of_ofLiteral? h

/-- The last text of a trail means its value. -/
theorem LambdaFree.resolve? (hE : E.LambdaFree) (h : E.resolve? text = some v) :
    v.LambdaFree := by
  obtain ⟨front, htrail, -⟩ := resolve?_eq_some_iff.1 h
  generalize front ++ [text] = seen at htrail
  cases htrail with
  | start h => exact hE.meaning? h
  | step _ _ _ h => exact hE.meaning? h

theorem LambdaFree.reinterpret (hE : E.LambdaFree) (hv : v.LambdaFree) :
    (E.reinterpret v).LambdaFree := by
  unfold Environment.reinterpret
  split
  · exact hv
  · next text _ =>
    cases hr : E.resolve? text with
    | none => exact hv
    | some w => exact hE.resolve? hr

end Environment

/-! ### Operations other than `fun` -/

/-- Only tasks in environments without closures and `fun` are asked for, with expressions that have
the property `P`. -/
def Contract.lambdaFree (P : Expr → Prop) : Contract where
  task t := P t.expr ∧ t.env.LambdaFree
  value := Value.LambdaFree
  error := EvalError.LambdaFree

section

variable {α : Type} {P : Expr → Prop} {Q : α → Prop} {E : Environment} {mode : Resolution}

theorem allows_eval {e : Expr} (he : P e) (hE : E.LambdaFree) :
    (Contract.lambdaFree P).Allows Value.LambdaFree fun ev => ev e E mode :=
  Contract.allows_part ⟨he, hE⟩

theorem allows_resolveAtom (hE : E.LambdaFree) (text : String) (culprit : Expr) :
    (Contract.lambdaFree P).Allows Value.LambdaFree fun _ => resolveAtom text culprit E mode := by
  unfold resolveAtom
  split
  · next h => exact .done (hE.resolve? h)
  · exact .done trivial
  · exact .failed ⟨trivial, hE⟩

namespace CallSite

variable {site : CallSite} {arg : Expr} {args : List Expr}

variable (hsite : site.env.LambdaFree)
include hsite

theorem allows_mismatch {v : Value} (hv : v.LambdaFree) (expected : Expectation) (arg : Expr) :
    (Contract.lambdaFree P).Allows Q fun _ => site.mismatch expected v arg :=
  .failed ⟨hv, hsite⟩

theorem allows_malformed (fault : FormFault) :
    (Contract.lambdaFree P).Allows Q fun _ => site.malformed fault :=
  .failed ⟨trivial, hsite⟩

theorem allows_operand (harg : P arg) :
    (Contract.lambdaFree P).Allows Value.LambdaFree fun ev => site.operand ev arg :=
  allows_eval harg hsite

theorem allows_number (harg : P arg) :
    (Contract.lambdaFree P).Allows (fun _ => True) fun ev => site.number ev arg := by
  refine (allows_operand hsite harg).bind fun v hv => ?_
  cases v with
  | number x => exact .done trivial
  | _ => exact allows_mismatch hsite hv _ _

theorem allows_boolean (harg : P arg) :
    (Contract.lambdaFree P).Allows (fun _ => True) fun ev => site.boolean ev arg := by
  refine (allows_operand hsite harg).bind fun v hv => ?_
  cases v with
  | boolean b => exact .done trivial
  | _ => exact allows_mismatch hsite hv _ _

theorem allows_nonFunction (harg : P arg) (expected : Expectation) :
    (Contract.lambdaFree P).Allows Value.LambdaFree fun ev => site.nonFunction ev expected arg := by
  refine (allows_operand hsite harg).bind fun v hv => ?_
  cases v with
  | closure c => exact allows_mismatch hsite hv _ _
  | builtin b => exact allows_mismatch hsite hv _ _
  | _ => exact .done hv

theorem allows_unary {op : Evaluator → Expr → Outcome α}
    (hop : ∀ arg ∈ args, (Contract.lambdaFree P).Allows Q fun ev => op ev arg) :
    (Contract.lambdaFree P).Allows Q fun ev => site.unary (op ev) args := by
  unfold CallSite.unary
  split
  · exact hop _ (by simp)
  · exact .failed ⟨trivial, hsite⟩

theorem allows_binary {op : Evaluator → Expr → Outcome α}
    (hop : ∀ arg ∈ args, (Contract.lambdaFree P).Allows Q fun ev => op ev arg) :
    (Contract.lambdaFree P).Allows (fun _ => True) fun ev => site.binary (op ev) args := by
  unfold CallSite.binary
  split
  · exact (hop _ (by simp)).bind fun a _ => (hop _ (by simp)).bind fun b _ => .done trivial
  · exact .failed ⟨trivial, hsite⟩

theorem allows_paramName (harg : P arg) :
    (Contract.lambdaFree P).Allows (fun _ => True) fun ev => site.paramName ev arg := by
  refine (allows_eval harg hsite).bind fun v hv => ?_
  cases v.text? with
  | some name => exact .done trivial
  | none => exact allows_mismatch hsite hv _ _

/-- A closure is made of the environment of the call and as many names as it is to have. -/
theorem allows_closure {params : List Expr} (hparams : ∀ param ∈ params, P param) (body : Expr) :
    (Contract.lambdaFree P).Allows
      (fun c => ∃ names, names.length = params.length ∧ c = .curried names body site.env)
      fun ev => site.closure ev params body :=
  (Contract.Allows.mapM fun param h => allows_paramName hsite (hparams param h)).bind
    fun names hnames => .done ⟨names, hnames.1, rfl⟩

theorem allows_arithmetic (hargs : ∀ arg ∈ args, P arg) (unit : Float)
    (op : Float → Float → Float) :
    (Contract.lambdaFree P).Allows Value.LambdaFree fun ev => site.arithmetic ev unit op args :=
  (Contract.Allows.mapM fun arg h => allows_number hsite (hargs arg h)).bind
    fun _ _ => .done trivial

theorem allows_comparison (hargs : ∀ arg ∈ args, P arg) (op : Float → Float → Bool) :
    (Contract.lambdaFree P).Allows Value.LambdaFree fun ev => site.comparison ev op args :=
  (allows_binary hsite fun arg h => allows_number hsite (hargs arg h)).bind
    fun _ _ => .done trivial

theorem allows_logic (hargs : ∀ arg ∈ args, P arg) (op : Bool → Bool → Bool) :
    (Contract.lambdaFree P).Allows Value.LambdaFree fun ev => site.logic ev op args :=
  (allows_binary hsite fun arg h => allows_boolean hsite (hargs arg h)).bind
    fun _ _ => .done trivial

theorem allows_textual (hargs : ∀ arg ∈ args, P arg) (op : List Char → List Char) :
    (Contract.lambdaFree P).Allows Value.LambdaFree fun ev => site.textual ev op args :=
  (allows_unary hsite fun arg h => allows_nonFunction hsite (hargs arg h) _).bind
    fun _ _ => .done trivial

theorem allows_branch (hargs : ∀ arg ∈ args, P arg) :
    (Contract.lambdaFree P).Allows Value.LambdaFree fun ev => site.branch ev args := by
  unfold CallSite.branch
  split
  · refine (allows_boolean hsite (hargs _ (by simp))).bind fun b _ => ?_
    cases b with
    | true => exact allows_operand hsite (hargs _ (by simp))
    | false => exact allows_operand hsite (hargs _ (by simp))
  · exact allows_malformed hsite _

/-- The names and the expressions for the values of a `let` are written inside of its bindings. -/
theorem allows_bindingPair {binding : Expr} (h : ∀ d : Expr, d.NodeOf binding → P d) :
    (Contract.lambdaFree P).Allows (fun pair : Expr × Expr => P pair.1 ∧ P pair.2)
      fun _ => site.bindingPair binding := by
  unfold CallSite.bindingPair
  split
  · exact .done ⟨h _ (.inside (by simp) (.root _)), h _ (.inside (by simp) (.root _))⟩
  · exact allows_malformed hsite _

/-- A `let` applies its closure to as many values as this has names, so it evaluates the body in a
scope of its own. -/
theorem allows_letIn (hargs : ∀ arg ∈ args, ∀ d : Expr, d.NodeOf arg → P d) :
    (Contract.lambdaFree P).Allows Value.LambdaFree fun ev => site.letIn ev args := by
  unfold CallSite.letIn
  split
  · next bindings span body =>
    have hbody : P body := hargs body (by simp) body (.root body)
    have hpair : ∀ binding ∈ bindings, (Contract.lambdaFree P).Allows
        (fun pair : Expr × Expr => P pair.1 ∧ P pair.2) fun _ => site.bindingPair binding :=
      fun binding hmem => allows_bindingPair hsite fun d hd =>
        hargs (.list bindings span) (by simp) d (.inside hmem hd)
    refine (Contract.Allows.mapM hpair).bind fun pairs ⟨_, hpairs⟩ => ?_
    have hparams : ∀ param ∈ pairs.map Prod.fst, P param :=
      List.forall_mem_map.2 fun pair hpair => (hpairs pair hpair).1
    have hvalues : ∀ value ∈ pairs.map Prod.snd, P value :=
      List.forall_mem_map.2 fun pair hpair => (hpairs pair hpair).2
    refine (allows_closure hsite hparams body).bind fun c ⟨names, hnames, hc⟩ => ?_
    have hcount : (pairs.map Prod.snd).length = names.length := by simp [hnames]
    simp only [hc, applyClosure_curried hcount]
    refine (Contract.Allows.mapM fun value hmem => allows_eval (hvalues value hmem) hsite).bind
      fun values ⟨_, hfree⟩ => ?_
    refine allows_eval hbody (hsite.extend fun b hb => ?_)
    exact hfree b.2 (List.of_mem_zip hb).2
  · exact allows_malformed hsite _
  · exact allows_malformed hsite _

/-- Every operation other than `fun` keeps to the contract. -/
theorem allows_operate (hop : site.operator ≠ .lambda)
    (hargs : ∀ arg ∈ args, ∀ d : Expr, d.NodeOf arg → P d) :
    (Contract.lambdaFree P).Allows Value.LambdaFree fun ev => site.operate ev args := by
  have harg : ∀ arg ∈ args, P arg := fun arg h => hargs arg h arg (.root arg)
  unfold CallSite.operate
  cases hoperator : site.operator with
  | lambda => exact absurd hoperator hop
  | binding => exact allows_letIn hsite hargs
  | branch => exact allows_branch hsite harg
  | add =>
    refine (Contract.Allows.mapM fun arg h => allows_nonFunction hsite (harg arg h) _).bind
      fun values _ => ?_
    exact .done (Value.lambdaFree_total values)
  | sub => exact allows_arithmetic hsite harg _ _
  | mul => exact allows_arithmetic hsite harg _ _
  | div => exact allows_arithmetic hsite harg _ _
  | equal =>
    exact (allows_binary hsite fun arg h => allows_operand hsite (harg arg h)).bind
      fun _ _ => .done trivial
  | greater => exact allows_comparison hsite harg _
  | greaterEq => exact allows_comparison hsite harg _
  | less => exact allows_comparison hsite harg _
  | lessEq => exact allows_comparison hsite harg _
  | and => exact allows_logic hsite harg _
  | or => exact allows_logic hsite harg _
  | not =>
    exact (allows_unary hsite fun arg h => allows_boolean hsite (harg arg h)).bind
      fun _ _ => .done trivial
  | first => exact allows_textual hsite harg _
  | rest => exact allows_textual hsite harg _

end CallSite

theorem allows_call {callee : Value} {args : List Expr} (hE : E.LambdaFree)
    (hcallee : callee.LambdaFree) (hargs : ∀ arg ∈ args, ∀ d : Expr, d.NodeOf arg → P d)
    (form : Expr) :
    (Contract.lambdaFree P).Allows Value.LambdaFree fun ev => call ev callee args E mode form := by
  unfold call
  split
  · exact CallSite.allows_operate hE hcallee hargs
  · exact hcallee.elim
  · split
    · exact .done hcallee
    · exact .failed ⟨hcallee, hE⟩

/-- **A step of evaluation asks only for what is written inside.** In an environment without
closures and `fun` it evaluates nodes below the root of its expression, in such environments, and
comes to such a value or error. -/
theorem allows_evalStep {t : Task} (ht : t.env.LambdaFree)
    (hP : ∀ d : Expr, d.Inside t.expr → P d) :
    (Contract.lambdaFree P).Allows Value.LambdaFree fun ev => t.outcome (evalStep ev) := by
  obtain ⟨e, E, mode⟩ := t
  match e with
  | .atom text span => exact allows_resolveAtom ht text _
  | .list [] span => exact .failed ⟨trivial, ht⟩
  | .list (operator :: args) span =>
    have hoperator : P operator := hP operator (.intro (by simp) (.root operator))
    have hargs : ∀ arg ∈ args, ∀ d : Expr, d.NodeOf arg → P d := fun arg hmem d hd =>
      hP d (.intro (List.mem_cons_of_mem operator hmem) hd)
    refine (allows_eval hoperator ht).bind fun callee hcallee => ?_
    exact (allows_call ht hcallee hargs _).bind fun v hv => .done (ht.reinterpret hv)

end

/-! ### Whole runs -/

/-- What is evaluated to any depth keeps to the contract. -/
theorem faithful_eval (P : Expr → Prop) (depth : ℕ) :
    (Contract.lambdaFree P).Faithful (eval depth) := by
  induction depth generalizing P with
  | zero => exact fun t _ => .exhausted
  | succ depth ih =>
    intro t ht
    exact (allows_evalStep ht.2 fun _ _ => trivial).meets (ih fun _ => True)

/-- A depth of evaluation that is not below the height of the expression is enough. -/
theorem eval_ne_exhausted {e : Expr} {E : Environment} {depth : ℕ} (hE : E.LambdaFree)
    (hdepth : e.height ≤ depth) (mode : Resolution) : eval depth e E mode ≠ .exhausted := by
  induction depth generalizing e E mode with
  | zero => exact absurd e.height_pos (by omega)
  | succ depth ih =>
    have hstep := allows_evalStep (P := fun d => d.Inside e) (t := ⟨e, E, mode⟩) hE fun _ h => h
    refine hstep.ne_exhausted (faithful_eval _ depth) fun t ⟨hinside, hfree⟩ => ?_
    have hlt : t.expr.height < e.height := hinside.height_lt
    exact ih hfree (by omega) t.mode

/-- A part of a step is written inside of the expression of the step. -/
theorem Consults.inside {depth : ℕ} {t part : Task} (h : Consults (eval depth) t part)
    (ht : t.env.LambdaFree) : part.expr.Inside t.expr ∧ part.env.LambdaFree :=
  (allows_evalStep (P := fun d => d.Inside t.expr) ht fun _ h => h).task_of_needs
    (faithful_eval _ depth) h

theorem Visits.nodeOf {depth : ℕ} {t u : Task} (h : Visits depth t u) (ht : t.env.LambdaFree) :
    u.expr.NodeOf t.expr ∧ u.env.LambdaFree := by
  induction h with
  | here => exact ⟨.root _, ht⟩
  | part hpart _ ih =>
    obtain ⟨hinside, hfree⟩ := hpart.inside ht
    obtain ⟨hnode, hfree'⟩ := ih hfree
    exact ⟨hnode.trans hinside.nodeOf, hfree'⟩

/-- **Only `fun` can make evaluation run forever.** Let no name be bound to a closure or to `fun`.
Then every expression has an outcome, which is reached at a depth of its height and does not change
at greater depths. No value or error on the way has a closure or `fun`, and no scope of a step has;
each step evaluates nodes below the root of its own expression. -/
theorem eval_of_lambdaFree (e : Expr) (E : Environment) (mode : Resolution) (hE : E.LambdaFree) :
    (∃ o, o ≠ .exhausted ∧ ∀ depth, e.height ≤ depth → eval depth e E mode = o) ∧
    (∀ depth v, eval depth e E mode = .done v → v.LambdaFree) ∧
    (∀ depth err, eval depth e E mode = .failed err → err.LambdaFree) ∧
    ∀ depth t, Visits depth ⟨e, E, mode⟩ t → t.env.LambdaFree ∧ t.expr.NodeOf e ∧
      ∀ n part, Consults (eval n) t part → part.expr.Inside t.expr := by
  have hmeets : ∀ depth, (eval depth e E mode).Meets EvalError.LambdaFree Value.LambdaFree :=
    fun depth => faithful_eval (fun _ => True) depth ⟨e, E, mode⟩ ⟨trivial, hE⟩
  refine ⟨⟨eval e.height e E mode, eval_ne_exhausted hE le_rfl mode, fun depth hdepth => ?_⟩,
    fun depth v h => (hmeets depth).of_done h, fun depth err h => (hmeets depth).of_failed h,
    fun depth t ht => ?_⟩
  · cases ho : eval e.height e E mode with
    | done v => exact eval_done_of_le hdepth ho
    | failed err => exact eval_failed_of_le hdepth ho
    | exhausted => exact absurd ho (eval_ne_exhausted hE le_rfl mode)
  · obtain ⟨hnode, hfree⟩ := ht.nodeOf hE
    exact ⟨hfree, hnode, fun n part hpart => (hpart.inside hfree).1⟩

/-- An environment in which `let`, `+` and `str-first` have other names. -/
def renamed : Environment :=
  ((Environment.empty.bind "where" (.builtin .binding)).bind "join" (.builtin .add)).bind "ab"
    (.builtin .first)

/-- `(where ((f (join a b))) (f "xy"))`. -/
def joined : Expr :=
  .list [.atom "where" ⟨1, 6⟩,
    .list [
      .list [.atom "f" ⟨9, 10⟩,
        .list [.atom "join" ⟨12, 16⟩, .atom "a" ⟨17, 18⟩, .atom "b" ⟨19, 20⟩] ⟨11, 21⟩] ⟨8, 22⟩]
      ⟨7, 23⟩,
    .list [.atom "f" ⟨25, 26⟩, .atom "\"xy\"" ⟨27, 31⟩] ⟨24, 32⟩] ⟨0, 33⟩

theorem renamed_lambdaFree : renamed.LambdaFree :=
  ((Environment.lambdaFree_empty.bind (by decide) _).bind (by decide) _).bind (by decide) _

/-- In the lenient mode `a` and `b` are joined into the name of an operation, which gets the name
`f` and is then applied; in the strict mode `a` is an error. Both ends are reached at a depth of
five. -/
theorem eval_of_lambdaFree_joined :
    renamed.LambdaFree ∧
    (∀ depth, 5 ≤ depth → eval depth joined renamed .lenient = .done (.string "x")) ∧
    ∀ depth, 5 ≤ depth →
      eval depth joined renamed .strict = .failed ⟨.unbound "a", .atom "a" ⟨17, 18⟩, renamed⟩ := by
  have hlenient : eval 5 joined renamed .lenient = .done (.string "x") := rfl
  have hstrict : eval 5 joined renamed .strict =
      .failed ⟨.unbound "a", .atom "a" ⟨17, 18⟩, renamed⟩ := rfl
  have hheight : joined.height = 5 := rfl
  refine ⟨renamed_lambdaFree, fun depth hdepth => ?_, fun depth hdepth => ?_⟩
  · obtain ⟨⟨o, -, ho⟩, -⟩ := eval_of_lambdaFree joined renamed .lenient renamed_lambdaFree
    rw [hheight] at ho
    rw [ho depth hdepth, ← ho 5 le_rfl, hlenient]
  · obtain ⟨⟨o, -, ho⟩, -⟩ := eval_of_lambdaFree joined renamed .strict renamed_lambdaFree
    rw [hheight] at ho
    rw [ho depth hdepth, ← ho 5 le_rfl, hstrict]

end FixpointLisp
