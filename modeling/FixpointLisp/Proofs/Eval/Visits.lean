import FixpointLisp.Proofs.Eval.Simulation
import Mathlib.Tactic

/-!
# What is evaluated on the way

Evaluating an expression evaluates others, in the same environment or in that of a closure. These
are found without a second definition of evaluation: a step leaves its parts to an evaluator, and it
evaluates a part if another outcome of that part alone can change the outcome of the step.

* `Task`: an expression to be evaluated, with its environment and mode.
* `Needs`: the outcome of a computation depends on that of a task.
* `Asking`: a computation uses the evaluator only by asking for the outcome of one task after the
  other. Then it needs every task that it asks for (`needs_of_bind`), since an outcome that is not a
  value ends it, and its own outcome depends on nothing else (`Asking.congr`).
* `Visits`: a task is evaluated, at any depth, in the course of another one. Steps of evaluation are
  asking (`asking_evalStep`), so nothing that is evaluated is left out (`evalStep_congr`).
* `Visits.alike`: if a likeness holds between a task and itself, it does so for every task visited
  from there. So an invariant of environments that is a likeness holds in every scope of a run.
-/

namespace FixpointLisp

/-- An expression to be evaluated. -/
structure Task where
  expr : Expr
  env : Environment
  mode : Resolution

/-- The outcome of a task by an evaluator. -/
def Task.outcome (t : Task) (ev : Evaluator) : Outcome Value := ev t.expr t.env t.mode

/-- Whether two evaluators differ at one task at most. -/
def AgreeOff (t : Task) (ev ev' : Evaluator) : Prop := ∀ u, u ≠ t → u.outcome ev' = u.outcome ev

/-- Whether the outcome of a computation depends on that of a task: another outcome there alone can
change it. -/
def Needs {α : Type} (f : Evaluator → Outcome α) (ev : Evaluator) (t : Task) : Prop :=
  ∃ ev', AgreeOff t ev ev' ∧ f ev' ≠ f ev

/-- Whether a step of evaluation, whose parts are evaluated by `ev`, evaluates a part. -/
def Consults (ev : Evaluator) (t part : Task) : Prop :=
  Needs (fun ev => t.outcome (evalStep ev)) ev part

/-- Whether a task is evaluated in the course of evaluating another one to a bounded depth. -/
inductive Visits : ℕ → Task → Task → Prop
  | here (depth : ℕ) (t : Task) : Visits depth t t
  | part {depth : ℕ} {t part u : Task} (h : Consults (eval depth) t part)
      (hpart : Visits depth part u) : Visits (depth + 1) t u

variable {R : Likeness} {ev ev' : Evaluator} {t u part : Task} {α β : Type}

/-! ### Computations that ask -/

/-- An evaluator can be given any outcome at any one task. -/
theorem exists_agreeOff (ev : Evaluator) (t : Task) (o : Outcome Value) :
    ∃ ev', AgreeOff t ev ev' ∧ t.outcome ev' = o := by
  classical
  refine ⟨fun e E mode => if (⟨e, E, mode⟩ : Task) = t then o else ev e E mode, ?_, ?_⟩
  · intro u hu
    simp [Task.outcome, hu]
  · simp [Task.outcome]

/-- A computation that goes on with the value of a task needs that task. -/
theorem needs_of_bind {f : Evaluator → Outcome α}
    (h : ∀ ev', AgreeOff t ev ev' → ∃ k, f ev' = t.outcome ev' >>= k) : Needs f ev t := by
  obtain ⟨stuck, hstuck, hexhausted⟩ := exists_agreeOff ev t .exhausted
  obtain ⟨broken, hbroken, hfailed⟩ :=
    exists_agreeOff ev t (.failed ⟨.emptyApplication, t.expr, t.env⟩)
  obtain ⟨k, hk⟩ := h stuck hstuck
  obtain ⟨k', hk'⟩ := h broken hbroken
  rw [hexhausted, Outcome.exhausted_bind] at hk
  rw [hfailed, Outcome.failed_bind] at hk'
  -- The two outcomes differ, so one of them is not that of the computation itself.
  by_cases hsame : f stuck = f ev
  · refine ⟨broken, hbroken, fun hsame' => ?_⟩
    rw [← hsame', hk, hk'] at hsame
    cases hsame
  · exact ⟨stuck, hstuck, hsame⟩

/-- Whether a computation uses the evaluator only by asking for the outcome of one task after the
other, and ends at the first one that is not a value. -/
inductive Asking : (Evaluator → Outcome α) → Prop
  | answer (o : Outcome α) : Asking fun _ => o
  | ask (t : Task) {k : Value → Evaluator → Outcome α} (hk : ∀ v, Asking (k v)) :
      Asking fun ev => t.outcome ev >>= fun v => k v ev

/-- The outcome of a computation that asks depends on nothing but the tasks that it needs. -/
theorem Asking.congr {f : Evaluator → Outcome α} (hf : Asking f)
    (h : ∀ t, Needs f ev t → t.outcome ev' = t.outcome ev) : f ev' = f ev := by
  induction hf with
  | answer o => rfl
  | @ask t k hk ih =>
    have ht : t.outcome ev' = t.outcome ev := h t (needs_of_bind fun ev' _ => ⟨_, rfl⟩)
    simp only [ht]
    cases hv : t.outcome ev with
    | failed err => rfl
    | exhausted => rfl
    | done v =>
      refine ih v fun u hu => ?_
      by_cases hut : u = t
      · rw [hut, ht]
      · obtain ⟨ev'', hagree, hne⟩ := hu
        have ht'' : t.outcome ev'' = .done v := by rw [hagree t (Ne.symm hut), hv]
        exact h u ⟨ev'', hagree, by simpa [ht'', hv] using hne⟩

theorem Asking.bind {f : Evaluator → Outcome α} {g : α → Evaluator → Outcome β} (hf : Asking f)
    (hg : ∀ a, Asking (g a)) : Asking fun ev => f ev >>= fun a => g a ev := by
  induction hf with
  | answer o =>
    cases o with
    | done a => exact hg a
    | failed err => exact .answer (.failed err)
    | exhausted => exact .answer .exhausted
  | ask t hk ih =>
    simp only [bind_assoc]
    exact .ask t ih

theorem Asking.mapM {f : α → Evaluator → Outcome β} (hf : ∀ x, Asking (f x)) (xs : List α) :
    Asking fun ev => xs.mapM fun x => f x ev := by
  induction xs with
  | nil => exact .answer (.done [])
  | cons x xs ih =>
    simp only [List.mapM_cons]
    exact (hf x).bind fun b => ih.bind fun bs => .answer (.done (b :: bs))

/-! ### Steps of evaluation ask -/

theorem asking_part (e : Expr) (E : Environment) (mode : Resolution) :
    Asking fun ev => ev e E mode := by
  have h := Asking.ask ⟨e, E, mode⟩ fun v => .answer (pure v)
  simp only [bind_pure] at h
  exact h

namespace CallSite

variable (site : CallSite) (args : List Expr) (arg : Expr)

theorem asking_operand : Asking fun ev => site.operand ev arg := asking_part arg site.env site.mode

theorem asking_number : Asking fun ev => site.number ev arg := by
  refine (site.asking_operand arg).bind fun v => ?_
  cases v <;> exact .answer _

theorem asking_boolean : Asking fun ev => site.boolean ev arg := by
  refine (site.asking_operand arg).bind fun v => ?_
  cases v <;> exact .answer _

theorem asking_nonFunction (expected : Expectation) :
    Asking fun ev => site.nonFunction ev expected arg := by
  refine (site.asking_operand arg).bind fun v => ?_
  cases v <;> exact .answer _

theorem asking_unary {op : Evaluator → Expr → Outcome α} (hop : ∀ arg, Asking fun ev => op ev arg) :
    Asking fun ev => site.unary (op ev) args := by
  unfold CallSite.unary
  split
  · exact hop _
  · exact .answer _

theorem asking_binary {op : Evaluator → Expr → Outcome α}
    (hop : ∀ arg, Asking fun ev => op ev arg) : Asking fun ev => site.binary (op ev) args := by
  unfold CallSite.binary
  split
  · exact (hop _).bind fun a => (hop _).bind fun b => .answer (.done (a, b))
  · exact .answer _

theorem asking_arithmetic (unit : Float) (op : Float → Float → Float) :
    Asking fun ev => site.arithmetic ev unit op args :=
  (Asking.mapM site.asking_number args).bind fun _ => .answer _

theorem asking_comparison (op : Float → Float → Bool) :
    Asking fun ev => site.comparison ev op args :=
  (site.asking_binary args site.asking_number).bind fun _ => .answer _

theorem asking_logic (op : Bool → Bool → Bool) : Asking fun ev => site.logic ev op args :=
  (site.asking_binary args site.asking_boolean).bind fun _ => .answer _

theorem asking_textual (op : List Char → List Char) : Asking fun ev => site.textual ev op args :=
  (site.asking_unary args fun arg => site.asking_nonFunction arg _).bind fun _ => .answer _

theorem asking_paramName : Asking fun ev => site.paramName ev arg := by
  refine (asking_part arg site.env .lenient).bind fun v => ?_
  cases v.text? <;> exact .answer _

theorem asking_closure (params : List Expr) (body : Expr) :
    Asking fun ev => site.closure ev params body :=
  (Asking.mapM site.asking_paramName params).bind fun _ => .answer _

theorem asking_lambda : Asking fun ev => site.lambda ev args := by
  unfold CallSite.lambda
  split
  · exact (site.asking_closure _ _).bind fun _ => .answer _
  · exact .answer _

end CallSite

theorem asking_passArguments (E : Environment) (mode : Resolution) :
    ∀ (c : Closure) (args : List Expr), Asking fun ev => passArguments ev E mode c args
  | .last none scope body, args => by
    simp only [passArguments]
    exact asking_part body scope mode
  | .link none _ next, args => by
    simp only [passArguments]
    exact .answer _
  | .last (some p) scope body, [] => .answer _
  | .link (some p) scope next, [] => .answer _
  | .last (some p) scope body, arg :: args =>
    (asking_part arg E mode).bind fun _ => asking_part body _ mode
  | .link (some p) scope next, arg :: args =>
    (asking_part arg E mode).bind fun _ => asking_passArguments E mode _ args

theorem asking_applyClosure (c : Closure) (args : List Expr) (E : Environment) (mode : Resolution)
    (form : Expr) : Asking fun ev => applyClosure ev c args E mode form := by
  unfold applyClosure
  split_ifs
  · exact .answer _
  · exact asking_passArguments E mode c args

namespace CallSite

variable (site : CallSite) (args : List Expr)

theorem asking_letIn : Asking fun ev => site.letIn ev args := by
  unfold CallSite.letIn
  split
  · refine (Asking.answer _).bind fun pairs => (site.asking_closure _ _).bind fun c => ?_
    exact asking_applyClosure c _ site.env site.mode site.form
  · exact .answer _
  · exact .answer _

theorem asking_branch : Asking fun ev => site.branch ev args := by
  unfold CallSite.branch
  split
  · exact (site.asking_boolean _).bind fun b => site.asking_operand _
  · exact .answer _

theorem asking_operate : Asking fun ev => site.operate ev args := by
  unfold CallSite.operate
  cases site.operator with
  | lambda => exact site.asking_lambda args
  | binding => exact site.asking_letIn args
  | branch => exact site.asking_branch args
  | add =>
    refine (Asking.mapM (fun arg => site.asking_nonFunction arg _) args).bind fun _ => ?_
    exact .answer _
  | sub => exact site.asking_arithmetic args _ _
  | mul => exact site.asking_arithmetic args _ _
  | div => exact site.asking_arithmetic args _ _
  | equal => exact (site.asking_binary args site.asking_operand).bind fun _ => .answer _
  | greater => exact site.asking_comparison args _
  | greaterEq => exact site.asking_comparison args _
  | less => exact site.asking_comparison args _
  | lessEq => exact site.asking_comparison args _
  | and => exact site.asking_logic args _
  | or => exact site.asking_logic args _
  | not => exact (site.asking_unary args site.asking_boolean).bind fun _ => .answer _
  | first => exact site.asking_textual args _
  | rest => exact site.asking_textual args _

end CallSite

theorem asking_call (callee : Value) (args : List Expr) (E : Environment) (mode : Resolution)
    (form : Expr) : Asking fun ev => call ev callee args E mode form := by
  unfold call
  split
  · exact CallSite.asking_operate _ args
  · exact asking_applyClosure _ args E mode form
  · exact .answer _

/-- A step of evaluation uses the evaluator of its parts only by asking for outcomes. -/
theorem asking_evalStep (t : Task) : Asking fun ev => t.outcome (evalStep ev) := by
  obtain ⟨e, E, mode⟩ := t
  match e with
  | .atom text span => exact .answer _
  | .list [] span => exact .answer _
  | .list (operator :: args) span =>
    refine (asking_part operator E mode).bind fun callee => ?_
    exact (asking_call callee args E mode _).bind fun v => .answer _

/-- The outcome of a step depends on nothing but the parts that it evaluates. -/
theorem evalStep_congr (h : ∀ part, Consults ev t part → part.outcome ev' = part.outcome ev) :
    t.outcome (evalStep ev') = t.outcome (evalStep ev) :=
  (asking_evalStep t).congr h

theorem consults_operator (ev : Evaluator) (operator : Expr) (args : List Expr) (span : Span)
    (E : Environment) (mode : Resolution) :
    Consults ev ⟨.list (operator :: args) span, E, mode⟩ ⟨operator, E, mode⟩ :=
  needs_of_bind fun _ _ => ⟨_, rfl⟩

/-! ### Invariants of a run -/

/-- Whether a task is like itself. -/
structure Task.Alike (R : Likeness) (t : Task) : Prop where
  expr : R.expr t.expr t.expr
  env : t.env.Like R t.env

/-- Of two evaluators that differ at most at one task, which is not like itself, either simulates
the other. -/
theorem AgreeOff.simulates (heq : ∀ {e f}, R.expr e f → e = f) (hloose : ¬R.loose)
    (hev : R.Simulates ev ev) (hagree : AgreeOff part ev ev') (hpart : ¬part.Alike R) :
    R.Simulates ev ev' ∧ R.Simulates ev' ev := by
  have hsame : ∀ {e f : Expr} {E F : Environment} {m n : Resolution}, R.expr e f → E.Like R F →
      m.Like R n → e = f ∧ E = F ∧ m = n ∧ ev' e E m = ev e E m := by
    intro e f E F m n he hE hm
    obtain rfl := heq he
    obtain rfl := hE.eq heq
    obtain rfl : m = n := by
      cases hm with
      | same => rfl
      | loosened h => exact absurd h hloose
    -- The task is like itself, so it is not the one at which the evaluators differ.
    refine ⟨rfl, rfl, rfl, hagree ⟨e, E, m⟩ ?_⟩
    rintro rfl
    exact hpart ⟨he, hE⟩
  constructor
  · intro e f E F m n he hE hm
    obtain ⟨rfl, rfl, rfl, h⟩ := hsame he hE hm
    rw [h]
    exact hev he hE hm
  · intro e f E F m n he hE hm
    obtain ⟨rfl, rfl, rfl, h⟩ := hsame he hE hm
    rw [h]
    exact hev he hE hm

/-- Outcomes that are alike both ways are equal, if values and errors that are alike are. -/
theorem Outcome.Like.eq_of_both (heq : ∀ {e f}, R.expr e f → e = f) (hloose : ¬R.loose)
    {o o' : Outcome Value} (h : o.Like R (Value.Like R) o') (h' : o'.Like R (Value.Like R) o) :
    o = o' := by
  cases h with
  | done h => rw [h.eq heq]
  | failed h => rw [h.eq heq]
  | excused h => exact absurd h hloose
  | exhausted =>
    cases h' with
    | excused h => exact absurd h hloose
    | exhausted => rfl

/-- A step from a task that is like itself evaluates only such tasks: it cannot tell evaluators apart
that differ elsewhere. -/
theorem Consults.alike (hR : R.Lawful) (heq : ∀ {e f}, R.expr e f → e = f) (hloose : ¬R.loose)
    (hev : R.Simulates ev ev) (h : Consults ev t part) (ht : t.Alike R) : part.Alike R := by
  obtain ⟨ev', hagree, hne⟩ := h
  by_contra hpart
  obtain ⟨hsim, hsim'⟩ := hagree.simulates heq hloose hev hpart
  apply hne
  refine Outcome.Like.eq_of_both heq hloose ?_ ?_
  · exact hsim'.evalStep hR ht.expr ht.env (.same t.mode)
  · exact hsim.evalStep hR ht.expr ht.env (.same t.mode)

/-- What is visited from a task that is like itself is like itself. -/
theorem Visits.alike (hR : R.Lawful) (heq : ∀ {e f}, R.expr e f → e = f) (hloose : ¬R.loose)
    {depth : ℕ} (h : Visits depth t u) (ht : t.Alike R) : u.Alike R := by
  induction h with
  | here => exact ht
  | part h hpart ih => exact ih (h.alike hR heq hloose (Likeness.simulates_eval hR le_rfl) ht)

end FixpointLisp
