import FixpointLisp.Proofs.Eval.Forms
import Mathlib.Tactic

/-!
# Applications in stages

A chain of closures can be given its arguments in two stages: an application to some of them has the
rest of the chain as its value, and that is applied to the others. The rest of the chain is made
anew and goes through evaluation once more, but the arguments are evaluated in the same order and
the body in the same scope.

* `Closure.receive_drop`: what comes of a chain that receives values in two stages.
* `evaluate_of_partial`: an application to too few arguments has the rest of the chain as its value.
* `application_splits`: an application can be split in front of any argument.
-/

namespace FixpointLisp

/-- A row of steps can be cut in two. -/
theorem Outcome.mapM_append_bind {α β γ : Type} (f : α → Outcome β) (front back : List α)
    (g : List β → Outcome γ) :
    (front ++ back).mapM f >>= g =
      front.mapM f >>= fun ys => back.mapM f >>= fun zs => g (ys ++ zs) := by
  simp only [List.mapM_append, bind_assoc, pure_bind]

/-- Receiving values and then, with the rest of the chain, other values is receiving all of them. -/
theorem Closure.receive_drop {c : Closure} {values : List Value} (hc : ∀ p ∈ c.params, p.isSome)
    (h : values.length < c.arity) (ev : Evaluator) (mode : Resolution) (others : List Value) :
    ((c.drop values.length).rebind (c.scope values)).receive ev mode others =
      c.receive ev mode (values ++ others) := by
  induction values generalizing c with
  | nil => rw [List.length_nil, drop, scope_nil, rebind_env, List.nil_append]
  | cons v values ih =>
    cases c with
    | last p E body =>
      have harity : (last p E body).arity ≤ 1 := List.countP_le_length
      rw [List.length_cons] at h
      omega
    | link p E next =>
      obtain ⟨p, rfl⟩ := Option.isSome_iff_exists.1 (hc p (by simp [params]))
      have hnext : ∀ q ∈ (next.rebind (Environment.bind E p v)).params, q.isSome := by
        rw [params_rebind]
        exact fun q hq => hc q (List.mem_cons_of_mem _ hq)
      have hcount : values.length < (next.rebind (Environment.bind E p v)).arity := by
        rw [arity_rebind]
        simpa [arity_link] using h
      rw [List.cons_append, receive_link, ← ih hnext hcount, scope_link, List.length_cons, drop,
        rebind_drop_rebind]

/-- When the first links of a chain have received their values, the others wait for the rest. -/
theorem Closure.params_rest {c : Closure} {n : ℕ} (hc : ∀ p ∈ c.params, p.isSome) (h : n < c.arity)
    (E : Environment) :
    (∀ p ∈ ((c.drop n).rebind E).params, p.isSome) ∧ ((c.drop n).rebind E).arity + n = c.arity := by
  rw [arity_eq_length_params hc] at h ⊢
  have hparams : ((c.drop n).rebind E).params = c.params.drop n := by
    rw [params_rebind, params_drop h]
  have hsome : ∀ p ∈ ((c.drop n).rebind E).params, p.isSome := by
    rw [hparams]
    exact fun p hp => hc p (List.mem_of_mem_drop hp)
  refine ⟨hsome, ?_⟩
  rw [arity_eq_length_params hsome, hparams, List.length_drop]
  omega

variable {E : Environment} {mode : Resolution} {operator : Expr} {c : Closure} {front : List Expr}

/-- An application to fewer arguments than the chain accepts evaluates them and has the rest of the
chain as its value. -/
theorem evaluate_of_partial (hoperator : evaluate operator E mode = .done (.closure c))
    (hc : ∀ p ∈ c.params, p.isSome) (h : front.length < c.arity) (span : Span) :
    evaluate (.list (operator :: front) span) E mode =
      front.mapM (fun arg => evaluate arg E mode) >>= fun values =>
        .done (.closure ((c.drop values.length).rebind (c.scope values))) := by
  rw [evaluate_of_closure hoperator, applyClosure_eq hc h.le, bind_assoc]
  refine Outcome.bind_congr_of_done fun values hvalues => ?_
  have hlength := (Outcome.forall₂_of_mapM_eq_done hvalues).length_eq
  rw [Closure.receive_of_lt (by omega), Outcome.done_bind]
  rfl

/-- **An application can be split.** Let an operator evaluate to a chain of closures whose links all
have a parameter. Applied to at least one argument and to no more than the chain accepts, it comes
to the same value or the same error, or to no end alike, as when it is applied to some of these
arguments first and the result to the others. The first part may be empty. -/
theorem application_splits (E : Environment) (mode : Resolution) (operator : Expr) (c : Closure)
    (hoperator : Yields E mode operator (.done (.closure c))) (hc : ∀ p ∈ c.params, p.isSome)
    (front back : List Expr) (hback : back ≠ []) (hcount : (front ++ back).length ≤ c.params.length)
    (s s' s'' : Span) :
    Equivalent E mode (.list (.list (operator :: front) s :: back) s')
      (.list (operator :: (front ++ back)) s'') := by
  have harity := Closure.arity_eq_length_params hc
  have hpos := List.length_pos_of_ne_nil hback
  rw [← harity] at hcount
  have hlengths : (front ++ back).length = front.length + back.length := List.length_append
  have hfront : front.length < c.arity := by omega
  rw [equivalent_iff, evaluate_eq, evalStep, evaluate_of_partial hoperator.evaluate_eq hc hfront,
    evaluate_of_closure hoperator.evaluate_eq, applyClosure_eq hc hcount, bind_assoc, bind_assoc,
    Outcome.mapM_append_bind]
  refine Outcome.bind_congr_of_done fun values hvalues => ?_
  have hlength := (Outcome.forall₂_of_mapM_eq_done hvalues).length_eq
  -- The operator of the second stage is the rest of the chain.
  obtain ⟨hrest, hroom⟩ := Closure.params_rest hc (n := values.length) (by omega) (c.scope values)
  rw [Outcome.done_bind, call, applyClosure_eq hrest (by omega), bind_assoc]
  refine Outcome.bind_congr_of_done fun others _ => ?_
  rw [Closure.receive_drop hc (by omega)]

/-- The chain that `(fun (x x) (! x))` makes in the global environment. -/
def lastNegated : Closure :=
  .link (some "x") Environment.global (.last (some "x") Environment.global
    (.list [.atom "!" ⟨12, 13⟩, .atom "x" ⟨14, 15⟩] ⟨11, 16⟩))

/-- The expression `(fun (x x) (! x))`. -/
def lastNegation : Expr :=
  .list [.atom "fun" ⟨1, 4⟩, .list [.atom "x" ⟨6, 7⟩, .atom "x" ⟨8, 9⟩] ⟨5, 10⟩,
    .list [.atom "!" ⟨12, 13⟩, .atom "x" ⟨14, 15⟩] ⟨11, 16⟩] ⟨0, 17⟩

/-- Applied to `true` and `1`, at once or one after the other, this function fails in its body, in a
scope where `x` was bound twice. -/
theorem application_splits_negation :
    let err : EvalError := ⟨.typeMismatch .not .boolean (.number 1), .atom "x" ⟨14, 15⟩,
      (Environment.global.bind "x" (.boolean true)).bind "x" (.number 1)⟩
    let yes : Expr := .atom "true" ⟨18, 22⟩
    let one : Expr := .atom "1" ⟨24, 25⟩
    Yields Environment.global .strict lastNegation (.done (.closure lastNegated)) ∧
    (∀ p ∈ lastNegated.params, p.isSome) ∧
    ∀ s s' s'',
      Yields Environment.global .strict (.list [lastNegation, yes, one] s'') (.failed err) ∧
      Yields Environment.global .strict (.list [.list [lastNegation, yes] s, one] s')
        (.failed err) ∧
      Yields Environment.global .strict (.list [.list [lastNegation] s, yes, one] s')
        (.failed err) := by
  intro err yes one
  have hoperator : Yields Environment.global .strict lastNegation (.done (.closure lastNegated)) :=
    ⟨by simp, 2, rfl⟩
  have hparams : ∀ p ∈ lastNegated.params, p.isSome := by decide
  refine ⟨hoperator, hparams, fun s s' s'' => ?_⟩
  have hflat : Yields Environment.global .strict (.list [lastNegation, yes, one] s'')
      (.failed err) := ⟨by simp, 3, rfl⟩
  have hone := application_splits _ _ _ _ hoperator hparams [yes] [one] (by simp) (by decide)
    s s' s''
  have hnone := application_splits _ _ _ _ hoperator hparams [] [yes, one] (by simp) (by decide)
    s s' s''
  exact ⟨hflat, (hone _).2 hflat, (hnone _).2 hflat⟩

end FixpointLisp
