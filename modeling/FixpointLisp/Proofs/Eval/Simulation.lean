import FixpointLisp.Eval.Basic
import FixpointLisp.Proofs.Value.Likeness
import Mathlib.Tactic

/-!
# Runs that are alike

Two runs from expressions and environments that are alike end alike: in values that are alike, or in
errors that are alike. This is shown for evaluators that are themselves parameters, operation by
operation, and then for evaluation to bounded depth, where the second run may go deeper.

* `Cause.Like`, `EvalError.Like` and `Outcome.Like` extend a likeness of values to the ends of runs.
  An exhausted run is like any other. When the second run may be lenient where the first one is
  strict, an atom without meaning ends the first run only, so that error is like any end.
* `Likeness.Simulates`: an evaluator takes what is alike to what is alike.
* `Likeness.Simulates.evalStep`: one level of evaluation keeps this.
* `Likeness.simulates_eval`: so evaluation has it at all depths.
-/

namespace FixpointLisp

variable {R : Likeness} {α β γ δ : Type}

/-! ### Ends of runs -/

/-- Whether two modes may stand against each other in two runs. -/
inductive Resolution.Like (R : Likeness) : Resolution → Resolution → Prop
  | same (mode : Resolution) : Like R mode mode
  | loosened (h : R.loose) : Like R .strict .lenient

/-- Whether two faults of form are alike. -/
inductive FormFault.Like (R : Likeness) : FormFault → FormFault → Prop
  | lambdaShape (given : ℕ) : Like R (.lambdaShape given) (.lambdaShape given)
  | bindingShape (given : ℕ) : Like R (.bindingShape given) (.bindingShape given)
  | bindingsNotList {e f : Expr} (h : R.expr e f) : Like R (.bindingsNotList e) (.bindingsNotList f)
  | bindingNotPair {e f : Expr} (h : R.expr e f) : Like R (.bindingNotPair e) (.bindingNotPair f)
  | branchShape (given : ℕ) : Like R (.branchShape given) (.branchShape given)

/-- Whether two causes of failure are alike. -/
inductive Cause.Like (R : Likeness) : Cause → Cause → Prop
  | unbound (name : String) : Like R (.unbound name) (.unbound name)
  | tooManyArguments {c d : Closure} (h : (Value.closure c).Like R (.closure d)) (given : ℕ) :
      Like R (.tooManyArguments c given) (.tooManyArguments d given)
  | wrongArgumentCount (b : Builtin) (wanted given : ℕ) :
      Like R (.wrongArgumentCount b wanted given) (.wrongArgumentCount b wanted given)
  | typeMismatch (b : Builtin) (expected : Expectation) {v w : Value} (h : v.Like R w) :
      Like R (.typeMismatch b expected v) (.typeMismatch b expected w)
  | malformed {f g : FormFault} (h : f.Like R g) : Like R (.malformed f) (.malformed g)
  | notCallable {v w : Value} (h : v.Like R w) : Like R (.notCallable v) (.notCallable w)
  | emptyApplication : Like R .emptyApplication .emptyApplication

/-- Whether two errors are alike. -/
structure EvalError.Like (R : Likeness) (err err' : EvalError) : Prop where
  cause : err.cause.Like R err'.cause
  expr : R.expr err.expr err'.expr
  env : err.env.Like R err'.env

/-- Whether the end of a first run is met by that of a second one, `V` saying which results are. -/
inductive Outcome.Like (R : Likeness) (V : α → β → Prop) : Outcome α → Outcome β → Prop
  | done {a : α} {b : β} (h : V a b) : Like R V (.done a) (.done b)
  | failed {err err' : EvalError} (h : err.Like R err') : Like R V (.failed err) (.failed err')
  | excused (h : R.loose) {err : EvalError} {name : String} (hname : err.cause = .unbound name)
      (o : Outcome β) : Like R V (.failed err) o
  | exhausted (o : Outcome β) : Like R V .exhausted o

/-- When only equal expressions may stand for each other, errors that are alike are equal. -/
theorem EvalError.Like.eq (hR : ∀ {e f}, R.expr e f → e = f) {err err' : EvalError}
    (h : err.Like R err') : err = err' := by
  obtain ⟨cause, e, E⟩ := err
  obtain ⟨cause', f, F⟩ := err'
  obtain ⟨hcause, hexpr, henv⟩ := h
  have hcauses : cause = cause' := by
    cases hcause with
    | tooManyArguments h given => rw [h.2.eq hR]
    | typeMismatch b expected h => rw [h.eq hR]
    | notCallable h => rw [h.eq hR]
    | malformed h =>
      cases h with
      | bindingsNotList h => rw [hR h]
      | bindingNotPair h => rw [hR h]
      | _ => rfl
    | _ => rfl
  have hexprs : e = f := hR hexpr
  have henvs : E = F := henv.eq hR
  rw [hcauses, hexprs, henvs]

namespace Outcome

variable {U : α → β → Prop} {V : γ → δ → Prop}

theorem Like.exists_done {a : α} {o : Outcome β} (h : (Outcome.done a).Like R U o) :
    ∃ b, o = .done b ∧ U a b := by
  cases h with
  | done h => exact ⟨_, rfl, h⟩

theorem Like.exists_failed {err : EvalError} {o : Outcome β} (h : (Outcome.failed err).Like R U o)
    (herr : R.loose → ∀ name, err.cause ≠ .unbound name) :
    ∃ err', o = .failed err' ∧ err.Like R err' := by
  cases h with
  | failed h => exact ⟨_, rfl, h⟩
  | excused h hname => exact absurd hname (herr h _)

theorem Like.bind {o : Outcome α} {o' : Outcome β} {f : α → Outcome γ} {g : β → Outcome δ}
    (ho : o.Like R U o') (hfg : ∀ a b, U a b → (f a).Like R V (g b)) :
    (o >>= f).Like R V (o' >>= g) := by
  cases ho with
  | done h => exact hfg _ _ h
  | failed h => exact .failed h
  | excused h hname => exact .excused h hname _
  | exhausted => exact .exhausted _

theorem Like.imp {U' : α → β → Prop} {o : Outcome α} {o' : Outcome β} (ho : o.Like R U o')
    (h : ∀ a b, U a b → U' a b) : o.Like R U' o' := by
  cases ho with
  | done hab => exact .done (h _ _ hab)
  | failed h => exact .failed h
  | excused h hname => exact .excused h hname _
  | exhausted => exact .exhausted _

theorem Like.mapM {xs : List α} {ys : List β} {f : α → Outcome γ} {g : β → Outcome δ}
    (h : List.Forall₂ U xs ys) (hfg : ∀ x y, U x y → (f x).Like R V (g y)) :
    (xs.mapM f).Like R (List.Forall₂ V) (ys.mapM g) := by
  induction h with
  | nil => exact .done .nil
  | cons hxy hrest ih =>
    rw [List.mapM_cons, List.mapM_cons]
    refine (hfg _ _ hxy).bind fun a b hab => ih.bind fun as bs habs => ?_
    exact .done (.cons hab habs)

end Outcome

/-- Whether the runs of one evaluator are met by those of another. -/
def Likeness.Simulates (R : Likeness) (ev ev' : Evaluator) : Prop :=
  ∀ ⦃e f : Expr⦄ ⦃E F : Environment⦄ ⦃m n : Resolution⦄, R.expr e f → E.Like R F → m.Like R n →
    (ev e E m).Like R (Value.Like R) (ev' f F n)

/-- Whether two results are alike before they are settled: a symbol that was joined from texts may be
any. -/
def Value.RawLike (R : Likeness) (v w : Value) : Prop :=
  v.Like R w ∨ ∃ s, v = .symbol s ∧ w = .symbol s

/-! ### Operands -/

/-- Whether two call sites are alike. -/
structure CallSite.Like (R : Likeness) (site site' : CallSite) : Prop where
  operator : site.operator = site'.operator
  form : R.expr site.form site'.form
  env : site.env.Like R site'.env
  mode : site.mode.Like R site'.mode

namespace CallSite

variable {site site' : CallSite} {ev ev' : Evaluator} {args args' : List Expr} {e f : Expr}
  {V : α → β → Prop}

theorem Like.mismatch (hs : site.Like R site') (expected : Expectation) {v w : Value}
    (hv : v.Like R w) (he : R.expr e f) :
    (site.mismatch expected v e).Like R V (site'.mismatch expected w f) := by
  refine .failed ⟨?_, he, hs.env⟩
  rw [← hs.operator]
  exact .typeMismatch _ _ hv

theorem Like.malformed (hs : site.Like R site') {fault fault' : FormFault}
    (h : fault.Like R fault') : (site.malformed fault).Like R V (site'.malformed fault') :=
  .failed ⟨.malformed h, hs.form, hs.env⟩

theorem Like.wrongCount (hs : site.Like R site') (wanted given : ℕ) :
    (site.wrongCount wanted given).Like R V (site'.wrongCount wanted given) := by
  refine .failed ⟨?_, hs.form, hs.env⟩
  rw [← hs.operator]
  exact .wrongArgumentCount _ _ _

theorem Like.operand (hs : site.Like R site') (hev : R.Simulates ev ev') (he : R.expr e f) :
    (site.operand ev e).Like R (Value.Like R) (site'.operand ev' f) :=
  hev he hs.env hs.mode

theorem Like.number (hs : site.Like R site') (hev : R.Simulates ev ev') (he : R.expr e f) :
    (site.number ev e).Like R Eq (site'.number ev' f) := by
  refine (hs.operand hev he).bind fun v w hv => ?_
  rcases hv.closure_or_eq with ⟨c, d, rfl, rfl⟩ | rfl
  · exact hs.mismatch _ hv he
  · cases v with
    | number x => exact .done rfl
    | _ => exact hs.mismatch _ hv he

theorem Like.boolean (hs : site.Like R site') (hev : R.Simulates ev ev') (he : R.expr e f) :
    (site.boolean ev e).Like R Eq (site'.boolean ev' f) := by
  refine (hs.operand hev he).bind fun v w hv => ?_
  rcases hv.closure_or_eq with ⟨c, d, rfl, rfl⟩ | rfl
  · exact hs.mismatch _ hv he
  · cases v with
    | boolean b => exact .done rfl
    | _ => exact hs.mismatch _ hv he

theorem Like.nonFunction (hs : site.Like R site') (hev : R.Simulates ev ev')
    (expected : Expectation) (he : R.expr e f) :
    (site.nonFunction ev expected e).Like R Eq (site'.nonFunction ev' expected f) := by
  refine (hs.operand hev he).bind fun v w hv => ?_
  rcases hv.closure_or_eq with ⟨c, d, rfl, rfl⟩ | rfl
  · exact hs.mismatch _ hv he
  · cases v with
    | closure c => exact hs.mismatch _ hv he
    | builtin b => exact hs.mismatch _ hv he
    | _ => exact .done rfl

theorem Like.unary (hs : site.Like R site') {op : Expr → Outcome α} {op' : Expr → Outcome β}
    (hop : ∀ {e f}, R.expr e f → (op e).Like R V (op' f)) (hargs : List.Forall₂ R.expr args args') :
    (site.unary op args).Like R V (site'.unary op' args') := by
  have hlength := hargs.length_eq
  match args, args', hargs with
  | _, _, .nil => exact hs.wrongCount 1 0
  | _, _, .cons h .nil => exact hop h
  | _ :: _ :: _, _ :: _ :: _, .cons _ (.cons _ _) =>
    simp only [CallSite.unary, hlength]
    exact hs.wrongCount 1 _

theorem Like.binary (hs : site.Like R site') {op : Expr → Outcome α} {op' : Expr → Outcome β}
    (hop : ∀ {e f}, R.expr e f → (op e).Like R V (op' f)) (hargs : List.Forall₂ R.expr args args') :
    (site.binary op args).Like R (fun p q => V p.1 q.1 ∧ V p.2 q.2) (site'.binary op' args') := by
  have hlength := hargs.length_eq
  match args, args', hargs with
  | _, _, .nil => exact hs.wrongCount 2 0
  | _, _, .cons _ .nil => exact hs.wrongCount 2 1
  | _, _, .cons h (.cons h' .nil) =>
    exact (hop h).bind fun a b hab => (hop h').bind fun a' b' hab' => .done ⟨hab, hab'⟩
  | _ :: _ :: _ :: _, _ :: _ :: _ :: _, .cons _ (.cons _ (.cons _ _)) =>
    simp only [CallSite.binary, hlength]
    exact hs.wrongCount 2 _

/-! ### Operations on evaluated operands -/

theorem Like.arithmetic (hR : R.Lawful) (hs : site.Like R site') (hev : R.Simulates ev ev')
    (unit : Float) (op : Float → Float → Float) (hargs : List.Forall₂ R.expr args args') :
    (site.arithmetic ev unit op args).Like R (Value.RawLike R)
      (site'.arithmetic ev' unit op args') := by
  refine (Outcome.Like.mapM hargs fun e f he => hs.number hev he).bind fun xs ys hxy => ?_
  rw [List.forall₂_eq_eq_eq] at hxy
  subst hxy
  exact .done (.inl ⟨rfl, hR.number _⟩)

theorem Like.comparison (hR : R.Lawful) (hs : site.Like R site') (hev : R.Simulates ev ev')
    (op : Float → Float → Bool) (hargs : List.Forall₂ R.expr args args') :
    (site.comparison ev op args).Like R (Value.RawLike R) (site'.comparison ev' op args') := by
  refine (hs.binary (hs.number hev) hargs).bind ?_
  rintro ⟨x, y⟩ ⟨_, _⟩ ⟨rfl, rfl⟩
  exact .done (.inl ⟨rfl, hR.boolean _⟩)

theorem Like.logic (hR : R.Lawful) (hs : site.Like R site') (hev : R.Simulates ev ev')
    (op : Bool → Bool → Bool) (hargs : List.Forall₂ R.expr args args') :
    (site.logic ev op args).Like R (Value.RawLike R) (site'.logic ev' op args') := by
  refine (hs.binary (hs.boolean hev) hargs).bind ?_
  rintro ⟨x, y⟩ ⟨_, _⟩ ⟨rfl, rfl⟩
  exact .done (.inl ⟨rfl, hR.boolean _⟩)

theorem Like.textual (hR : R.Lawful) (hs : site.Like R site') (hev : R.Simulates ev ev')
    (op : List Char → List Char) (hargs : List.Forall₂ R.expr args args') :
    (site.textual ev op args).Like R (Value.RawLike R) (site'.textual ev' op args') := by
  refine (hs.unary (hs.nonFunction hev .nonFunction) hargs).bind fun v w hvw => ?_
  rw [hvw]
  exact .done (.inl ⟨rfl, hR.string _⟩)

/-- What is joined or added up is a string, a symbol or a number. -/
theorem rawLike_total (hR : R.Lawful) (values : List Value) :
    Value.RawLike R (Value.total values) (Value.total values) := by
  unfold Value.total
  split_ifs
  · exact .inl ⟨rfl, hR.string _⟩
  · exact .inr ⟨_, rfl, rfl⟩
  · exact .inl ⟨rfl, hR.number _⟩

/-! ### Closures -/

theorem Like.paramName (hR : R.Lawful) (hs : site.Like R site') (hev : R.Simulates ev ev')
    (he : R.expr e f) :
    (site.paramName ev e).Like R (fun n m => n = m ∧ R.name n) (site'.paramName ev' f) := by
  refine (hev he hs.env (.same .lenient)).bind fun v w hv => ?_
  rw [← hv.text?_eq]
  cases ht : v.text? with
  | none => exact hs.mismatch _ hv he
  | some name => exact .done ⟨rfl, hR.name (hv.eq_of_text? ht).2 ht⟩

theorem Like.closure (hR : R.Lawful) (hs : site.Like R site') (hev : R.Simulates ev ev')
    {params params' : List Expr} (hparams : List.Forall₂ R.expr params params') (he : R.expr e f) :
    (site.closure ev params e).Like R (fun c d => (Value.closure c).Like R (.closure d))
      (site'.closure ev' params' f) := by
  refine (Outcome.Like.mapM hparams fun p q hp => hs.paramName hR hev hp).bind fun ns ms hnm => ?_
  obtain ⟨rfl, hnames⟩ : ns = ms ∧ ∀ n ∈ ns, R.name n := by
    induction hnm with
    | nil => simp
    | cons h hrest ih =>
      obtain ⟨rfl, hname⟩ := h
      obtain ⟨rfl, hnames⟩ := ih
      exact ⟨rfl, List.forall_mem_cons.2 ⟨hname, hnames⟩⟩
  exact .done (Closure.Like.curried hR hs.env he hnames)

theorem forall₂_paramsOf (hR : R.Lawful) (he : R.expr e f) :
    List.Forall₂ R.expr (paramsOf e) (paramsOf f) := by
  cases e with
  | atom text span =>
    obtain ⟨span', rfl⟩ := hR.atom he
    exact .cons he .nil
  | list es span =>
    obtain ⟨fs, span', rfl, hes⟩ := hR.list he
    exact hes

/-- The expressions of a binding are alike, or both bindings are malformed. -/
theorem Like.bindingPair (hR : R.Lawful) (hs : site.Like R site') (he : R.expr e f) :
    (site.bindingPair e).Like R (fun p q => R.expr p.1 q.1 ∧ R.expr p.2 q.2)
      (site'.bindingPair f) := by
  cases e with
  | atom text span =>
    obtain ⟨span', rfl⟩ := hR.atom he
    exact hs.malformed (.bindingNotPair he)
  | list es span =>
    obtain ⟨fs, span', rfl, hes⟩ := hR.list he
    match es, fs, hes with
    | _, _, .nil => exact hs.malformed (.bindingNotPair he)
    | _, _, .cons _ .nil => exact hs.malformed (.bindingNotPair he)
    | _, _, .cons hname (.cons hvalue .nil) => exact .done ⟨hname, hvalue⟩
    | _, _, .cons _ (.cons _ (.cons _ _)) => exact hs.malformed (.bindingNotPair he)

end CallSite

/-! ### Applications -/

section

variable {ev ev' : Evaluator} {E F : Environment} {m n : Resolution}

theorem Closure.Like.passArguments (hR : R.Lawful) (hev : R.Simulates ev ev') (hE : E.Like R F)
    (hm : m.Like R n) :
    ∀ {c d : Closure} {args args' : List Expr}, (Value.closure c).Like R (.closure d) →
      List.Forall₂ R.expr args args' →
        (passArguments ev E m c args).Like R (Value.Like R) (passArguments ev' F n d args')
  | .last p G b, _, _, _, h, hargs => by
    obtain ⟨H, b', rfl, hp, hG, hb⟩ := h.2.exists_last
    cases p with
    | none =>
      rw [FixpointLisp.passArguments, FixpointLisp.passArguments]
      exact hev hb hG hm
    | some p =>
      cases hargs with
      | nil => exact .done h
      | cons harg hrest =>
        refine (hev harg hE hm).bind fun v w hv => ?_
        exact hev hb (hG.bind (hp p rfl) hv) hm
  | .link p G next, _, _, _, h, hargs => by
    obtain ⟨H, next', rfl, hp, hG, hnext⟩ := h.2.exists_link
    have hparams : R.params next.params := hR.next h.1 next.params_ne_nil
    cases p with
    | none =>
      rw [FixpointLisp.passArguments, FixpointLisp.passArguments]
      exact .done ⟨hparams, hnext⟩
    | some p =>
      cases hargs with
      | nil => exact .done h
      | cons harg hrest =>
        -- The next link takes over the scope with the binding just made.
        refine (hev harg hE hm).bind fun v w hv => ?_
        refine Closure.Like.passArguments hR hev hE hm ⟨?_, ?_⟩ hrest
        · rwa [Closure.params_rebind]
        · exact hnext.rebind (hG.bind (hp p rfl) hv)

theorem Closure.Like.applyClosure (hR : R.Lawful) (hev : R.Simulates ev ev') (hE : E.Like R F)
    (hm : m.Like R n) {c d : Closure} {args args' : List Expr} {form form' : Expr}
    (h : (Value.closure c).Like R (.closure d)) (hargs : List.Forall₂ R.expr args args')
    (hform : R.expr form form') :
    (applyClosure ev c args E m form).Like R (Value.Like R)
      (applyClosure ev' d args' F n form') := by
  rw [FixpointLisp.applyClosure, FixpointLisp.applyClosure, Closure.arity, Closure.arity,
    ← h.2.params_eq, ← hargs.length_eq]
  split_ifs
  · exact .failed ⟨.tooManyArguments h _, hform, hE⟩
  · exact Closure.Like.passArguments hR hev hE hm h hargs

end

namespace CallSite

variable {site site' : CallSite} {ev ev' : Evaluator} {args args' : List Expr}

theorem Like.lambda (hR : R.Lawful) (hs : site.Like R site') (hev : R.Simulates ev ev')
    (hargs : List.Forall₂ R.expr args args') :
    (site.lambda ev args).Like R (Value.RawLike R) (site'.lambda ev' args') := by
  have hlength := hargs.length_eq
  match args, args', hargs with
  | _, _, .nil => exact hs.malformed (.lambdaShape 0)
  | _, _, .cons _ .nil => exact hs.malformed (.lambdaShape 1)
  | _, _, .cons hparams (.cons hbody .nil) =>
    refine (hs.closure hR hev (forall₂_paramsOf hR hparams) hbody).bind fun c d hc => ?_
    exact .done (.inl hc)
  | _ :: _ :: _ :: _, _ :: _ :: _ :: _, .cons _ (.cons _ (.cons _ _)) =>
    simp only [CallSite.lambda, hlength]
    exact hs.malformed (.lambdaShape _)

theorem Like.letIn (hR : R.Lawful) (hs : site.Like R site') (hev : R.Simulates ev ev')
    (hargs : List.Forall₂ R.expr args args') :
    (site.letIn ev args).Like R (Value.RawLike R) (site'.letIn ev' args') := by
  have hlength := hargs.length_eq
  match args, args', hargs with
  | _, _, .nil => exact hs.malformed (.bindingShape 0)
  | _, _, .cons _ .nil =>
    simp only [CallSite.letIn]
    exact hs.malformed (.bindingShape 1)
  | .atom text span :: _, _, .cons hgiven (.cons _ .nil) =>
    obtain ⟨span', rfl⟩ := hR.atom hgiven
    exact hs.malformed (.bindingsNotList hgiven)
  | .list es span :: _, _, .cons hgiven (.cons hbody .nil) =>
    obtain ⟨fs, span', rfl, hes⟩ := hR.list hgiven
    refine (Outcome.Like.mapM hes fun e f he => hs.bindingPair hR he).bind fun ps qs hpq => ?_
    have hnames : List.Forall₂ R.expr (ps.map Prod.fst) (qs.map Prod.fst) :=
      List.forall₂_map_left_iff.2 (List.forall₂_map_right_iff.2 (hpq.imp fun _ _ h => h.1))
    have hvalues : List.Forall₂ R.expr (ps.map Prod.snd) (qs.map Prod.snd) :=
      List.forall₂_map_left_iff.2 (List.forall₂_map_right_iff.2 (hpq.imp fun _ _ h => h.2))
    refine (hs.closure hR hev hnames hbody).bind fun c d hc => ?_
    exact (Closure.Like.applyClosure hR hev hs.env hs.mode hc hvalues hs.form).imp fun _ _ => .inl
  | _ :: _ :: _ :: _, _ :: _ :: _ :: _, .cons _ (.cons _ (.cons _ _)) =>
    simp only [CallSite.letIn, hlength]
    exact hs.malformed (.bindingShape _)

theorem Like.branch (hs : site.Like R site') (hev : R.Simulates ev ev')
    (hargs : List.Forall₂ R.expr args args') :
    (site.branch ev args).Like R (Value.RawLike R) (site'.branch ev' args') := by
  have hlength := hargs.length_eq
  match args, args', hargs with
  | _, _, .nil => exact hs.malformed (.branchShape 0)
  | _, _, .cons _ .nil => exact hs.malformed (.branchShape 1)
  | _, _, .cons _ (.cons _ .nil) => exact hs.malformed (.branchShape 2)
  | _, _, .cons hcondition (.cons hyes (.cons hno .nil)) =>
    refine (hs.boolean hev hcondition).bind fun b b' hb => ?_
    subst hb
    refine Outcome.Like.imp (hs.operand hev ?_) fun _ _ => .inl
    cases b
    · exact hno
    · exact hyes
  | _ :: _ :: _ :: _ :: _, _ :: _ :: _ :: _ :: _, .cons _ (.cons _ (.cons _ (.cons _ _))) =>
    simp only [CallSite.branch, hlength]
    exact hs.malformed (.branchShape _)

theorem Like.operate (hR : R.Lawful) (hs : site.Like R site') (hev : R.Simulates ev ev')
    (hargs : List.Forall₂ R.expr args args') :
    (site.operate ev args).Like R (Value.RawLike R) (site'.operate ev' args') := by
  unfold CallSite.operate
  rw [← hs.operator]
  cases site.operator with
  | lambda => exact hs.lambda hR hev hargs
  | binding => exact hs.letIn hR hev hargs
  | branch => exact hs.branch hev hargs
  | add =>
    refine (Outcome.Like.mapM hargs fun e f he => hs.nonFunction hev .addend he).bind ?_
    intro vs ws hvw
    rw [List.forall₂_eq_eq_eq] at hvw
    subst hvw
    exact .done (rawLike_total hR vs)
  | sub => exact hs.arithmetic hR hev _ _ hargs
  | mul => exact hs.arithmetic hR hev _ _ hargs
  | div => exact hs.arithmetic hR hev _ _ hargs
  | equal =>
    refine (hs.binary (hs.operand hev) hargs).bind ?_
    rintro ⟨a, b⟩ ⟨a', b'⟩ ⟨ha, hb⟩
    refine .done (.inl ⟨?_, hR.boolean _⟩)
    rw [ha.same_eq hR hb]
  | greater => exact hs.comparison hR hev _ hargs
  | greaterEq => exact hs.comparison hR hev _ hargs
  | less => exact hs.comparison hR hev _ hargs
  | lessEq => exact hs.comparison hR hev _ hargs
  | and => exact hs.logic hR hev _ hargs
  | or => exact hs.logic hR hev _ hargs
  | not =>
    refine (hs.unary (hs.boolean hev) hargs).bind fun b b' hb => ?_
    subst hb
    exact .done (.inl ⟨rfl, hR.boolean _⟩)
  | first => exact hs.textual hR hev _ hargs
  | rest => exact hs.textual hR hev _ hargs

end CallSite

/-! ### Evaluation -/

section

variable {ev ev' : Evaluator} {E F : Environment} {m n : Resolution}

theorem Value.Like.call (hR : R.Lawful) (hev : R.Simulates ev ev') (hE : E.Like R F)
    (hm : m.Like R n) {v w : Value} {args args' : List Expr} {form form' : Expr}
    (hv : v.Like R w) (hargs : List.Forall₂ R.expr args args') (hform : R.expr form form') :
    (call ev v args E m form).Like R (Value.RawLike R) (call ev' w args' F n form') := by
  rcases hv.closure_or_eq with ⟨c, d, rfl, rfl⟩ | rfl
  · exact (Closure.Like.applyClosure hR hev hE hm hv hargs hform).imp fun _ _ => .inl
  · cases v with
    | builtin b => exact CallSite.Like.operate hR ⟨rfl, hform, hE, hm⟩ hev hargs
    | closure c =>
      exact (Closure.Like.applyClosure hR hev hE hm hv hargs hform).imp fun _ _ => .inl
    | _ =>
      cases hargs with
      | nil => exact .done (.inl hv)
      | cons harg hrest => exact .failed ⟨.notCallable hv, hform, hE⟩

theorem Bindings.Like.resolveAtom (hR : R.Lawful) (hE : E.Like R F) (hm : m.Like R n)
    {text : String} {e f : Expr} (he : R.expr e f) :
    (resolveAtom text e E m).Like R (Value.Like R) (resolveAtom text f F n) := by
  unfold FixpointLisp.resolveAtom
  rcases hE.resolve? hR text with ⟨hnone, hnone'⟩ | ⟨v, w, hv, hw, hlike⟩
  · rw [hnone, hnone']
    cases hm with
    | same =>
      cases m with
      | strict => exact .failed ⟨.unbound text, he, hE⟩
      | lenient =>
        have hmeaning := Environment.resolve?_eq_none_iff.1 hnone
        exact .done ⟨rfl, hR.symbol (Environment.ofLiteral?_of_meaningless hmeaning)⟩
    | loosened h => exact .excused h rfl _
  · rw [hv, hw]
    exact .done hlike

/-- One level of evaluation takes what is alike to what is alike, if the evaluators of the parts
do. -/
theorem Likeness.Simulates.evalStep (hR : R.Lawful) (hev : R.Simulates ev ev') :
    R.Simulates (evalStep ev) (evalStep ev') := by
  intro e f E F m n he hE hm
  match e with
  | .atom text span =>
    obtain ⟨span', rfl⟩ := hR.atom he
    exact hE.resolveAtom hR hm he
  | .list [] span =>
    obtain ⟨fs, span', rfl, hes⟩ := hR.list he
    cases hes
    exact .failed ⟨.emptyApplication, he, hE⟩
  | .list (operator :: args) span =>
    obtain ⟨fs, span', rfl, hes⟩ := hR.list he
    cases hes with
    | cons hoperator hargs =>
      refine (hev hoperator hE hm).bind fun callee callee' hcallee => ?_
      refine (hcallee.call hR hev hE hm hargs he).bind fun v w hv => ?_
      -- A symbol joined by `+` may spell a literal; settling it gives what the literal means.
      rcases hv with hv | ⟨s, rfl, rfl⟩
      · exact .done (hE.reinterpret hR hv)
      · exact .done (hE.reinterpret_symbol hR s)

end

/-- Evaluation takes what is alike to what is alike, also when the second run goes deeper. -/
theorem Likeness.simulates_eval (hR : R.Lawful) {depth depth' : ℕ} (h : depth ≤ depth') :
    R.Simulates (eval depth) (eval depth') := by
  induction depth generalizing depth' with
  | zero => exact fun _ _ _ _ _ _ _ _ _ => .exhausted _
  | succ depth ih =>
    obtain ⟨depth', rfl⟩ : ∃ d, depth' = d + 1 := ⟨depth' - 1, by omega⟩
    rw [eval_succ, eval_succ]
    exact (ih (by omega)).evalStep hR

section

variable {depth : ℕ} {e : Expr} {E : Environment} {mode : Resolution}

/-- A value that comes out of a run is like itself, if what goes in is. -/
theorem Likeness.Lawful.of_eval_done (hR : R.Lawful) (he : R.expr e e) (hE : E.Like R E) {v : Value}
    (h : eval depth e E mode = .done v) : v.Like R v := by
  have hlike := Likeness.simulates_eval hR (le_refl depth) he hE (.same mode)
  rw [h] at hlike
  obtain ⟨w, hw, hvw⟩ := hlike.exists_done
  cases hw
  exact hvw

/-- An error that comes out of a run is like itself, if what goes in is. -/
theorem Likeness.Lawful.of_eval_failed (hR : R.Lawful) (hloose : ¬R.loose) (he : R.expr e e)
    (hE : E.Like R E) {err : EvalError} (h : eval depth e E mode = .failed err) :
    err.Like R err := by
  have hlike := Likeness.simulates_eval hR (le_refl depth) he hE (.same mode)
  rw [h] at hlike
  obtain ⟨err', herr', hlike'⟩ := hlike.exists_failed fun h => absurd h hloose
  cases herr'
  exact hlike'

end

end FixpointLisp
