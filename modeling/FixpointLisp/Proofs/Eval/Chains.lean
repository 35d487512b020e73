import FixpointLisp.Proofs.Eval.Application
import FixpointLisp.Proofs.Eval.Visits
import Mathlib.Tactic

/-!
# Chains of closures stay regular

A function is a chain of links. Made by currying, either each link has a parameter or there is a
single link without one, and applying it in part leaves a chain of the same kind. On other chains
the loop that passes arguments would leave out arguments without notice; here it is shown that no
run makes one.

* `Closure.Regular` and `Value.WellFormed`: the chains in a value, and in all environments captured
  in it, are regular.
* `Passes`: the loop that passes arguments goes from one chain to another.
* `Applied`: what comes out when all arguments have been received.
  `exists_applied_of_passArguments`: a regular chain receives every argument it is given.
* `Task.Calls`, `Task.Binds`: a step of evaluation applies a closure.
* `wellFormed_of_eval`: well-formed environments lead to well-formed values, errors and scopes only,
  so that all these facts hold throughout a run.
-/

namespace FixpointLisp

/-! ### Regular chains -/

namespace Closure

/-- Whether a chain is a single link without parameter, or each of its links has a parameter. -/
def Regular (c : Closure) : Prop := c.params = [none] ∨ ∀ p ∈ c.params, p.isSome

/-- A link without parameter is not followed by another one. -/
theorem Regular.ne_link_none {c : Closure} (hc : c.Regular) (E : Environment) (next : Closure) :
    c ≠ .link none E next := by
  rintro rfl
  rcases hc with h | h
  · exact next.params_ne_nil (by simpa [params] using h)
  · simpa using h none List.mem_cons_self

/-- What follows a link with a parameter is regular, whatever environment it takes over. -/
theorem Regular.rebind_next {p : String} {E F : Environment} {next : Closure}
    (h : (link (some p) E next).Regular) : (next.rebind F).Regular := by
  rcases h with h | h
  · simp [params] at h
  · refine .inr fun q hq => h q (List.mem_cons_of_mem _ ?_)
    rwa [params_rebind] at hq

end Closure

/-! ### Well-formed values -/

mutual

/-- Whether all closures in a value are regular, those in captured environments included. -/
def Value.WellFormed : Value → Prop
  | .closure c => c.Regular ∧ c.CapturesWellFormed
  | _ => True

/-- Whether the environments that the links of a chain captured are well formed. -/
def Closure.CapturesWellFormed : Closure → Prop
  | .last _ E _ => E.WellFormed
  | .link _ E next => E.WellFormed ∧ next.CapturesWellFormed

/-- Whether all values in an environment are well formed. -/
def Bindings.WellFormed {low : Option String} : Bindings low → Prop
  | .nil => True
  | .cons _ v rest _ => v.WellFormed ∧ rest.WellFormed

end

/-- Whether the values and the environment in an error are well formed. -/
structure EvalError.WellFormed (err : EvalError) : Prop where
  env : err.env.WellFormed
  found : ∀ b expected v, err.cause = .typeMismatch b expected v → v.WellFormed
  value : ∀ v, err.cause = .notCallable v → v.WellFormed
  callee : ∀ c given, err.cause = .tooManyArguments c given → (Value.closure c).WellFormed

/-- The condition that all closures are regular. -/
def Likeness.regular : Likeness where
  expr := Eq
  name _ := True
  plain _ := True
  params ps := ps = [none] ∨ ∀ p ∈ ps, p.isSome
  loose := False

theorem Likeness.lawful_regular : Likeness.regular.Lawful where
  toExprLawful := exprLawful_eq
  number _ := trivial
  boolean _ := trivial
  string _ := trivial
  symbol _ := trivial
  name _ _ := trivial
  paramless := .inl rfl
  curried := .inr (by simp)
  next {p ps} h hne := by
    rcases h with h | h
    · exact absurd (List.cons.inj h).2 hne
    · exact .inr fun q hq => h q (List.mem_cons_of_mem p hq)

mutual

theorem Value.wellFormed_iff (v : Value) : v.WellFormed ↔ v.Like .regular v := by
  match v with
  | .closure c => exact and_congr Iff.rfl (Closure.capturesWellFormed_iff c)
  | .number _ => simp [Value.WellFormed, Value.Like, Likeness.regular]
  | .boolean _ => simp [Value.WellFormed, Value.Like, Likeness.regular]
  | .string _ => simp [Value.WellFormed, Value.Like, Likeness.regular]
  | .symbol _ => simp [Value.WellFormed, Value.Like, Likeness.regular]
  | .builtin _ => simp [Value.WellFormed, Value.Like, Likeness.regular]
termination_by sizeOf v

theorem Closure.capturesWellFormed_iff (c : Closure) :
    c.CapturesWellFormed ↔ c.Like .regular c := by
  match c with
  | .last _ E _ =>
    simp [Closure.CapturesWellFormed, Closure.Like, Likeness.regular, Bindings.wellFormed_iff E]
  | .link _ E next =>
    simp [Closure.CapturesWellFormed, Closure.Like, Likeness.regular, Bindings.wellFormed_iff E,
      Closure.capturesWellFormed_iff next]
termination_by sizeOf c

theorem Bindings.wellFormed_iff {low : Option String} (E : Bindings low) :
    E.WellFormed ↔ E.Like .regular E := by
  match E with
  | .nil => simp [Bindings.WellFormed, Bindings.Like]
  | .cons _ v rest _ =>
    simp [Bindings.WellFormed, Bindings.Like, Likeness.regular, Value.wellFormed_iff v,
      Bindings.wellFormed_iff rest]
termination_by sizeOf E

end

theorem EvalError.Like.wellFormed {err : EvalError} (h : err.Like .regular err) :
    err.WellFormed := by
  obtain ⟨hcause, -, henv⟩ := h
  refine ⟨err.env.wellFormed_iff.2 henv, ?_, ?_, ?_⟩
  · intro b expected v hc
    rw [hc] at hcause
    cases hcause with
    | typeMismatch b expected h => exact v.wellFormed_iff.2 h
  · intro v hc
    rw [hc] at hcause
    cases hcause with
    | notCallable h => exact v.wellFormed_iff.2 h
  · intro c given hc
    rw [hc] at hcause
    cases hcause with
    | tooManyArguments h => exact (Value.closure c).wellFormed_iff.2 h

theorem global_regular : Environment.global.Like .regular Environment.global :=
  Bindings.like_global fun _ => ⟨trivial, trivial⟩

/-! ### Passing arguments -/

section

variable (ev : Evaluator) (E : Environment) (mode : Resolution)

/-- Whether the loop that passes arguments comes from one chain and the arguments left for it to
another: each turn gives the value of an argument to a link, and the next link takes over. -/
inductive Passes : Closure → List Expr → Closure → List Expr → Prop
  | here (c : Closure) (args : List Expr) : Passes c args c args
  | turn {p : String} {F : Environment} {next d : Closure} {arg : Expr} {args rest : List Expr}
      {v : Value} (hv : ev arg E mode = .done v)
      (h : Passes (next.rebind (Environment.bind F p v)) args d rest) :
      Passes (.link (some p) F next) (arg :: args) d rest

/-- What comes out when a chain has received values: the value of its body in the scope of all of
them, or the rest of the chain, which has captured that scope. -/
inductive Applied (c : Closure) (values : List Value) : Value → Prop
  | whole {v : Value} (hcount : values.length = c.arity)
      (h : ev c.body (c.scope values) mode = .done v) : Applied c values v
  | part {d : Closure} (hcount : values.length < c.arity)
      (hparams : d.params = c.params.drop values.length) (henv : d.env = c.scope values)
      (hbody : d.body = c.body) : Applied c values (.closure d)

variable {ev E mode}

/-- The outcome of the loop is the same from each chain that it goes through. -/
theorem Passes.passArguments_eq {c d : Closure} {args rest : List Expr}
    (h : Passes ev E mode c args d rest) :
    passArguments ev E mode c args = passArguments ev E mode d rest := by
  induction h with
  | here => rfl
  | turn hv _ ih => rw [passArguments, hv, Outcome.done_bind, ih]

theorem Passes.regular {c d : Closure} {args rest : List Expr} (h : Passes ev E mode c args d rest)
    (hc : c.Regular) : d.Regular := by
  induction h with
  | here => exact hc
  | turn _ _ ih => exact ih hc.rebind_next

/-- Receiving values in one step has one of these results. -/
theorem applied_of_receive {c : Closure} {values : List Value} {v : Value}
    (hc : ∀ p ∈ c.params, p.isSome) (hcount : values.length ≤ c.arity)
    (h : c.receive ev mode values = .done v) : Applied ev mode c values v := by
  rcases hcount.eq_or_lt with heq | hlt
  · rw [Closure.receive_of_eq heq] at h
    exact .whole heq h
  · rw [Closure.receive_of_lt hlt] at h
    cases h
    have hlength : values.length < c.params.length := by
      rwa [← Closure.arity_eq_length_params hc]
    exact .part hlt (by rw [Closure.params_rebind, Closure.params_drop hlength]) (by simp) (by simp)

/-- A regular chain receives every argument that it is given, if their number is not too large. -/
theorem exists_applied_of_passArguments {c : Closure} {args : List Expr} {v : Value}
    (hc : c.Regular) (hcount : args.length ≤ c.arity)
    (h : passArguments ev E mode c args = .done v) :
    ∃ values, List.Forall₂ (fun arg value => ev arg E mode = .done value) args values ∧
      Applied ev mode c values v := by
  rcases hc with hnone | hsome
  · -- Such a chain is a single link, and the count excludes an argument, which the loop would drop.
    match c, hnone, h with
    | .last none F body, _, h =>
      obtain rfl : args = [] := by simpa [Closure.arity, Closure.params] using hcount
      exact ⟨[], .nil, .whole rfl h⟩
    | .link p F next, hnone, _ =>
      exact absurd (List.cons.inj hnone).2 next.params_ne_nil
  · rw [passArguments_eq hsome hcount] at h
    obtain ⟨values, hvalues, h⟩ := Outcome.bind_eq_done_iff.1 h
    have hargs := Outcome.mapM_eq_done_iff.1 hvalues
    exact ⟨values, hargs, applied_of_receive hsome (hargs.length_eq ▸ hcount) h⟩

end

/-! ### Steps that apply a closure -/

namespace Task

/-- Whether a step applies a closure because its operator has it as value. -/
inductive Calls (ev : Evaluator) : Task → Closure → List Expr → Prop
  | intro {operator : Expr} {args : List Expr} {span : Span} {E : Environment} {mode : Resolution}
      {c : Closure} (h : ev operator E mode = .done (.closure c)) :
      Calls ev ⟨.list (operator :: args) span, E, mode⟩ c args

/-- Whether a step applies a closure because it is a `let`, the closure being made of the names and
the body and the arguments being the expressions for the values. -/
inductive Binds (ev : Evaluator) : Task → Closure → List Expr → Prop
  | intro {operator body : Expr} {bindings : List Expr} {span span' : Span} {E : Environment}
      {mode : Resolution} {site : CallSite} {pairs : List (Expr × Expr)} {c : Closure}
      (hsite : site = ⟨.binding, .list [operator, .list bindings span', body] span, E, mode⟩)
      (h : ev operator E mode = .done (.builtin .binding))
      (hpairs : bindings.mapM site.bindingPair = .done pairs)
      (hc : site.closure ev (pairs.map Prod.fst) body = .done c) :
      Binds ev ⟨site.form, E, mode⟩ c (pairs.map Prod.snd)

/-- Whether a step applies a closure to arguments. -/
def Applies (ev : Evaluator) (t : Task) (c : Closure) (args : List Expr) : Prop :=
  t.Calls ev c args ∨ t.Binds ev c args

variable {ev : Evaluator} {t : Task} {c : Closure} {args : List Expr}

/-- The outcome of a step that applies a closure is that of the application, settled. -/
theorem Applies.outcome_eq (h : t.Applies ev c args) :
    t.outcome (evalStep ev) =
      applyClosure ev c args t.env t.mode t.expr >>= fun v => .done (t.env.reinterpret v) := by
  rcases h with h | h
  · cases h with
    | intro h => simp only [Task.outcome, evalStep, h, Outcome.done_bind, call]
  · cases h with
    | intro hsite h hpairs hc =>
      subst hsite
      simp only [Task.outcome, evalStep, h, Outcome.done_bind, call, CallSite.operate,
        CallSite.letIn, hpairs, hc]

/-- The closure of a `let` takes as many arguments as there are values. -/
theorem Binds.length_eq_arity (h : t.Binds ev c args) : args.length = c.arity := by
  obtain ⟨hsite, h, hpairs, hc⟩ := h
  obtain ⟨names, hnames, hc⟩ := Outcome.bind_eq_done_iff.1 hc
  have hlength := (Outcome.forall₂_of_mapM_eq_done hnames).length_eq
  cases hc
  rw [Closure.arity_curried, ← hlength]
  simp

/-- A step that applies a regular chain and succeeds has evaluated all of its arguments, and the
chain has received their values. -/
theorem Applies.exists_applied (h : t.Applies ev c args) (hc : c.Regular) {r : Value}
    (hr : t.outcome (evalStep ev) = .done r) :
    ∃ values v, List.Forall₂ (fun arg value => ev arg t.env t.mode = .done value) args values ∧
      Applied ev t.mode c values v ∧ r = t.env.reinterpret v := by
  rw [h.outcome_eq] at hr
  obtain ⟨v, hv, hr⟩ := Outcome.bind_eq_done_iff.1 hr
  cases hr
  unfold applyClosure at hv
  split_ifs at hv with hcount
  obtain ⟨values, hvalues, happlied⟩ :=
    exists_applied_of_passArguments hc (Nat.le_of_not_lt hcount) hv
  exact ⟨values, v, hvalues, happlied, rfl⟩

/-- The closure that a step applies is well formed, if the environment of the step is. -/
theorem Applies.wellFormed {depth : ℕ} (h : t.Applies (eval depth) c args)
    (ht : t.env.WellFormed) : (Value.closure c).WellFormed := by
  rw [Bindings.wellFormed_iff] at ht
  rw [Value.wellFormed_iff]
  rcases h with h | h
  · cases h with
    | intro h => exact Likeness.lawful_regular.of_eval_done rfl ht h
  · cases h with
    | @intro operator body bindings span span' E mode site pairs c hsite h hpairs hc =>
      have hlike : site.Like .regular site := by
        subst hsite
        exact ⟨rfl, rfl, ht, .same mode⟩
      have hnames : List.Forall₂ Eq (pairs.map Prod.fst) (pairs.map Prod.fst) :=
        List.forall₂_refl _
      have hclosure := hlike.closure Likeness.lawful_regular
        (Likeness.simulates_eval Likeness.lawful_regular (le_refl depth)) hnames (rfl : body = body)
      rw [hc] at hclosure
      obtain ⟨d, hd, hcd⟩ := hclosure.exists_done
      cases hd
      exact hcd

end Task

/-! ### Whole runs -/

/-- **Chains of closures stay regular.** The global environment is well formed. In a well-formed
environment every expression evaluates to well-formed values and fails with well-formed errors, and
the scopes of all steps on the way are well formed. Hence no step that applies a closure comes to a
link without parameter that is followed by another one, a `let` never has more values than its
closure takes, and an application that succeeds has evaluated each argument and bound its value. -/
theorem wellFormed_of_eval :
    Environment.global.WellFormed ∧
    ∀ (depth : ℕ) (e : Expr) (E : Environment) (mode : Resolution), E.WellFormed →
      (∀ v, eval depth e E mode = .done v → v.WellFormed) ∧
      (∀ err, eval depth e E mode = .failed err → err.WellFormed) ∧
      ∀ t, Visits depth ⟨e, E, mode⟩ t → t.env.WellFormed ∧
        ∀ (n : ℕ) (c : Closure) (args : List Expr), t.Applies (eval n) c args →
          (∀ d rest, Passes (eval n) t.env t.mode c args d rest →
            ∀ F next, d ≠ .link none F next) ∧
          (t.Binds (eval n) c args → ¬c.arity < args.length) ∧
          ∀ r, t.outcome (eval (n + 1)) = .done r → ∃ values v,
            List.Forall₂ (fun arg value => eval n arg t.env t.mode = .done value) args values ∧
              Applied (eval n) t.mode c values v ∧ r = t.env.reinterpret v := by
  refine ⟨Environment.global.wellFormed_iff.2 global_regular, fun depth e E mode hE => ?_⟩
  have hlike : E.Like .regular E := E.wellFormed_iff.1 hE
  refine ⟨fun v h => ?_, fun err h => ?_, fun t ht => ?_⟩
  · exact v.wellFormed_iff.2 (Likeness.lawful_regular.of_eval_done rfl hlike h)
  · exact (Likeness.lawful_regular.of_eval_failed id rfl hlike h).wellFormed
  · have htenv : t.env.WellFormed :=
      t.env.wellFormed_iff.2 (ht.alike Likeness.lawful_regular id id ⟨rfl, hlike⟩).env
    refine ⟨htenv, fun n c args happlies => ?_⟩
    have hc : c.Regular := (happlies.wellFormed htenv).1
    refine ⟨fun d rest hpasses => (hpasses.regular hc).ne_link_none, fun hbinds => ?_, ?_⟩
    · rw [hbinds.length_eq_arity]
      exact lt_irrefl _
    · intro r hr
      rw [eval_succ] at hr
      exact happlies.exists_applied hc hr

/-- The global environment with a function `first` of the parameters `x` and `y`. -/
def withFirst : Environment :=
  Environment.global.bind "first"
    (.closure (.curried ["x", "y"] (.atom "x" ⟨12, 13⟩) Environment.global))

theorem withFirst_wellFormed : withFirst.WellFormed := by
  refine withFirst.wellFormed_iff.2 (global_regular.bind trivial ?_)
  exact Closure.Like.curried Likeness.lawful_regular global_regular rfl fun _ _ => trivial

/-- The expression `(first 1)` in this environment. -/
def firstApplied : Task :=
  ⟨.list [.atom "first" ⟨1, 6⟩, .atom "1" ⟨7, 8⟩] ⟨0, 9⟩, withFirst, .strict⟩

/-- Applied to one argument, a function of two parameters has received its value: what is left is a
regular chain whose scope binds it. -/
theorem wellFormed_of_eval_firstApplied :
    withFirst.WellFormed ∧
    firstApplied.Applies (eval 1)
      (.curried ["x", "y"] (.atom "x" ⟨12, 13⟩) Environment.global) [.atom "1" ⟨7, 8⟩] ∧
    ∃ r, firstApplied.outcome (eval 2) = .done r ∧ r.WellFormed ∧ ∃ values v,
      List.Forall₂ (fun arg value => eval 1 arg withFirst .strict = .done value)
        [.atom "1" ⟨7, 8⟩] values ∧
      Applied (eval 1) .strict (.curried ["x", "y"] (.atom "x" ⟨12, 13⟩) Environment.global)
        values v ∧ r = withFirst.reinterpret v := by
  have happlies : firstApplied.Applies (eval 1)
      (.curried ["x", "y"] (.atom "x" ⟨12, 13⟩) Environment.global) [.atom "1" ⟨7, 8⟩] :=
    .inl (.intro rfl)
  have hr : firstApplied.outcome (eval 2) = .done (.closure
      (.last (some "y") (Environment.global.bind "x" (.number 1)) (.atom "x" ⟨12, 13⟩))) := rfl
  obtain ⟨hvalue, -, hsteps⟩ :=
    wellFormed_of_eval.2 2 firstApplied.expr withFirst .strict withFirst_wellFormed
  refine ⟨withFirst_wellFormed, happlies, _, hr, hvalue _ hr, ?_⟩
  exact ((hsteps firstApplied (.here 2 _)).2 1 _ _ happlies).2.2 _ hr

end FixpointLisp
