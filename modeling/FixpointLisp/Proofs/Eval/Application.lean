import FixpointLisp.Proofs.Eval.Outcome
import FixpointLisp.Proofs.Eval.Visits
import Mathlib.Tactic

/-!
# Application to several arguments

Arguments are given to a chain of closures one by one: each is evaluated, bound in the scope that
its link has captured, and the next link takes this scope over. For a chain whose links all have a
parameter this comes to the same as evaluating all arguments first and then binding all values at
once in the scope of the first link; what the other links had captured is never looked at.

* `Closure.scope`: the scope of a chain that has received values.
* `Closure.drop`: what is left of a chain when its first links have received their values.
* `Closure.receive`: the result when a chain has received values, in one step.
* `passArguments_eq`: giving arguments one by one is evaluating them from left to right and giving
  the values in one step.
* `applyClosure_curried`: this for a new chain and all of its arguments.
* `applyClosure_nary`: a chain behaves as a function of several parameters.
-/

namespace FixpointLisp

namespace Closure

/-- The parameters of a chain that have a name. -/
def names (c : Closure) : List String := c.params.filterMap id

/-- The environment of the first link with values bound to the parameters, in order. -/
def scope (c : Closure) (values : List Value) : Environment :=
  Environment.extend c.env (c.names.zip values)

/-- The chain without its first `n` links. The last link always stays. -/
def drop : ℕ → Closure → Closure
  | 0, c => c
  | _ + 1, last p E body => last p E body
  | n + 1, link _ _ next => next.drop n

/-- What comes of a chain that receives values: with a value for each parameter its body is
evaluated in the scope of all of them, and with fewer values the rest of the chain captures that
scope. -/
def receive (ev : Evaluator) (mode : Resolution) (c : Closure) (values : List Value) :
    Outcome Value :=
  if values.length = c.arity then ev c.body (c.scope values) mode
  else .done (.closure ((c.drop values.length).rebind (c.scope values)))

theorem arity_curried (names : List String) (body : Expr) (E : Environment) :
    (curried names body E).arity = names.length := by
  cases names with
  | nil => rfl
  | cons n ns => simp [curried, arity, params_chain, List.countP_map, Function.comp_def]

@[simp] theorem env_rebind (c : Closure) (E : Environment) : (c.rebind E).env = E := by
  cases c <;> rfl

@[simp] theorem body_rebind (c : Closure) (E : Environment) : (c.rebind E).body = c.body := by
  cases c <;> rfl

@[simp] theorem names_rebind (c : Closure) (E : Environment) : (c.rebind E).names = c.names := by
  rw [names, params_rebind, names]

theorem names_link (p : String) (E : Environment) (next : Closure) :
    (link (some p) E next).names = p :: next.names := by
  simp [names, params]

@[simp] theorem scope_nil (c : Closure) : c.scope [] = c.env := by
  simp [scope, Environment.extend]

/-- The first value is bound by the first link, the others by what follows it. -/
theorem scope_link (p : String) (E : Environment) (next : Closure) (v : Value) (vs : List Value) :
    (link (some p) E next).scope (v :: vs) = (next.rebind (Environment.bind E p v)).scope vs := by
  rw [scope, scope, names_link, env_rebind, names_rebind]
  rfl

@[simp] theorem rebind_env (c : Closure) : c.rebind c.env = c := by
  cases c <;> rfl

@[simp] theorem rebind_rebind (c : Closure) (E F : Environment) :
    (c.rebind E).rebind F = c.rebind F := by
  cases c <;> rfl

/-- The environment of the first link is gone once that link has received its value. -/
theorem rebind_drop_rebind (n : ℕ) (c : Closure) (E F : Environment) :
    ((c.rebind E).drop n).rebind F = (c.drop n).rebind F := by
  cases n with
  | zero => exact c.rebind_rebind E F
  | succ n => cases c <;> rfl

theorem arity_rebind (c : Closure) (E : Environment) : (c.rebind E).arity = c.arity := by
  rw [arity, params_rebind, arity]

theorem arity_link (p : String) (E : Environment) (next : Closure) :
    (link (some p) E next).arity = next.arity + 1 := by
  simp [arity, params]

theorem params_drop {n : ℕ} {c : Closure} (h : n < c.params.length) :
    (c.drop n).params = c.params.drop n := by
  induction n generalizing c with
  | zero => rfl
  | succ n ih =>
    cases c with
    | last p E body => simp [params] at h
    | link p E next => exact ih (by simpa [params] using h)

@[simp] theorem body_drop (n : ℕ) (c : Closure) : (c.drop n).body = c.body := by
  induction n generalizing c with
  | zero => rfl
  | succ n ih =>
    cases c with
    | last p E body => rfl
    | link p E next => exact ih next

section

variable {ev : Evaluator} {mode : Resolution} {c : Closure} {values : List Value}

theorem arity_eq_length_params (hc : ∀ p ∈ c.params, p.isSome) : c.arity = c.params.length :=
  List.countP_eq_length.2 hc

theorem receive_of_eq (h : values.length = c.arity) :
    c.receive ev mode values = ev c.body (c.scope values) mode := by
  rw [receive, if_pos h]

theorem receive_of_lt (h : values.length < c.arity) :
    c.receive ev mode values =
      .done (.closure ((c.drop values.length).rebind (c.scope values))) := by
  rw [receive, if_neg h.ne]

/-- Without a value, a chain that waits for one stays as it is. -/
theorem receive_nil (hc : ∀ p ∈ c.params, p.isSome) :
    c.receive ev mode [] = .done (.closure c) := by
  have harity : ([] : List Value).length < c.arity := by
    rw [arity_eq_length_params hc]
    exact List.length_pos_of_ne_nil c.params_ne_nil
  rw [receive_of_lt harity, scope_nil, List.length_nil, drop, rebind_env]

end

/-- Receiving values is receiving the first one and then the others. -/
theorem receive_link (ev : Evaluator) (mode : Resolution) (p : String) (E : Environment)
    (next : Closure) (v : Value) (vs : List Value) :
    (link (some p) E next).receive ev mode (v :: vs) =
      (next.rebind (Environment.bind E p v)).receive ev mode vs := by
  simp only [receive, arity_link, arity_rebind, List.length_cons, Nat.add_right_cancel_iff,
    scope_link, body_rebind, rebind_drop_rebind, body, drop]

/-! ### Chains of given parameters -/

theorem names_curried (names : List String) (body : Expr) (E : Environment) :
    (curried names body E).names = names := by
  cases names with
  | nil => rfl
  | cons n ns => simp [curried, Closure.names, params_chain]

theorem env_curried (names : List String) (body : Expr) (E : Environment) :
    (curried names body E).env = E := by
  match names with
  | [] => rfl
  | [_] => rfl
  | _ :: _ :: _ => rfl

theorem body_chain (E : Environment) (body : Expr) (p : Option String) (ps : List (Option String)) :
    (chain E body p ps).body = body := by
  induction ps generalizing p with
  | nil => rfl
  | cons q ps ih => exact ih q

theorem body_curried (names : List String) (body : Expr) (E : Environment) :
    (curried names body E).body = body := by
  cases names with
  | nil => rfl
  | cons n ns => exact body_chain E body (some n) _

theorem isSome_of_mem_params_curried {n : String} {ns : List String} {body : Expr} {E : Environment}
    {p : Option String} (hp : p ∈ (curried (n :: ns) body E).params) : p.isSome := by
  rw [curried, params_chain, ← List.map_cons] at hp
  obtain ⟨m, -, rfl⟩ := List.mem_map.1 hp
  rfl

end Closure

/-! ### One by one and all at once -/

variable {ev : Evaluator} {E : Environment} {mode : Resolution} {c : Closure} {args : List Expr}

/-- Giving arguments to a chain one by one is evaluating them from left to right and giving the
values to the chain in one step. -/
theorem passArguments_eq (hc : ∀ p ∈ c.params, p.isSome) (hargs : args.length ≤ c.arity) :
    passArguments ev E mode c args =
      args.mapM (fun arg => ev arg E mode) >>= c.receive ev mode := by
  induction args generalizing c with
  | nil =>
    rw [List.mapM_nil, Outcome.pure_eq, Outcome.done_bind, Closure.receive_nil hc]
    cases c with
    | last p F body =>
      obtain ⟨p, rfl⟩ := Option.isSome_iff_exists.1 (hc p (by simp [Closure.params]))
      rfl
    | link p F next =>
      obtain ⟨p, rfl⟩ := Option.isSome_iff_exists.1 (hc p (by simp [Closure.params]))
      rfl
  | cons arg args ih =>
    rw [List.mapM_cons, bind_assoc]
    cases c with
    | last p F body =>
      obtain ⟨p, rfl⟩ := Option.isSome_iff_exists.1 (hc p (by simp [Closure.params]))
      obtain rfl : args = [] := by simpa [Closure.arity, Closure.params] using hargs
      rfl
    | link p F next =>
      obtain ⟨p, rfl⟩ := Option.isSome_iff_exists.1 (hc p (by simp [Closure.params]))
      rw [passArguments]
      refine Outcome.bind_congr_of_done fun v _ => ?_
      have hnext : ∀ q ∈ (next.rebind (Environment.bind F p v)).params, q.isSome := by
        intro q hq
        rw [Closure.params_rebind] at hq
        exact hc q (List.mem_cons_of_mem _ hq)
      have hcount : args.length ≤ (next.rebind (Environment.bind F p v)).arity := by
        rw [Closure.arity_rebind]
        simpa [Closure.arity_link] using hargs
      rw [ih hnext hcount, bind_assoc]
      exact Outcome.bind_congr_of_done fun vs _ => (Closure.receive_link ev mode p F next v vs).symm

theorem applyClosure_of_arity_lt (h : c.arity < args.length) (form : Expr) :
    applyClosure ev c args E mode form = .failed ⟨.tooManyArguments c args.length, form, E⟩ := by
  rw [applyClosure, if_pos h]

theorem applyClosure_eq (hc : ∀ p ∈ c.params, p.isSome) (hargs : args.length ≤ c.arity)
    (form : Expr) :
    applyClosure ev c args E mode form =
      args.mapM (fun arg => ev arg E mode) >>= c.receive ev mode := by
  rw [applyClosure, if_neg (by omega), passArguments_eq hc hargs]

theorem applyClosure_of_values {values : List Value} (hc : ∀ p ∈ c.params, p.isSome)
    (hargs : args.length ≤ c.arity)
    (hvalues : List.Forall₂ (fun arg value => ev arg E mode = .done value) args values)
    (form : Expr) : applyClosure ev c args E mode form = c.receive ev mode values := by
  rw [applyClosure_eq hc hargs, Outcome.mapM_eq_done_iff.2 hvalues, Outcome.done_bind]

/-- A new chain that is applied to as many arguments as it has parameters evaluates its body with
the values of all arguments bound. It need not have a parameter. -/
theorem applyClosure_curried {names : List String} (hargs : args.length = names.length)
    (body : Expr) (F : Environment) (form : Expr) :
    applyClosure ev (.curried names body F) args E mode form =
      args.mapM (fun arg => ev arg E mode) >>= fun values =>
        ev body (F.extend (names.zip values)) mode := by
  cases names with
  | nil =>
    obtain rfl : args = [] := List.length_eq_zero_iff.1 hargs
    rfl
  | cons n ns =>
    rw [applyClosure_eq (fun p => Closure.isSome_of_mem_params_curried)
      (by rw [Closure.arity_curried, hargs])]
    refine Outcome.bind_congr_of_done fun values hvalues => ?_
    have hlength := (Outcome.forall₂_of_mapM_eq_done hvalues).length_eq
    rw [Closure.receive_of_eq (by rw [Closure.arity_curried]; omega), Closure.body_curried,
      Closure.scope, Closure.env_curried, Closure.names_curried]

/-- **A chain of closures behaves as a function of several parameters.** Let every link have a
parameter, and let `c.scope values` be the scope of the first link with the values bound to the
parameters in order, so that of several parameters of one name the last one counts. Applied to more
arguments than there are parameters, the chain fails without evaluating any of them. Otherwise the
arguments are evaluated from left to right, and the first one that has no value decides the outcome.
When all have values and there are as many as parameters, the outcome is that of the body in the
scope of the values, whatever the links after the first one had captured. When there are fewer, the
result is the rest of the chain, the first link of which has captured that scope. -/
theorem applyClosure_nary (c : Closure) (hc : ∀ p ∈ c.params, p.isSome) (ev : Evaluator)
    (E : Environment) (mode : Resolution) (args : List Expr) (form : Expr) :
    (∀ values name, (c.scope values).lookup name =
      ((c.names.zip values).reverse.lookup name).or (c.env.lookup name)) ∧
    (c.arity < args.length →
      applyClosure ev c args E mode form = .failed ⟨.tooManyArguments c args.length, form, E⟩ ∧
      ∀ t, ¬Needs (fun ev => applyClosure ev c args E mode form) ev t) ∧
    (args.length ≤ c.arity →
      (∀ front arg rest values, args = front ++ arg :: rest →
        List.Forall₂ (fun arg value => ev arg E mode = .done value) front values →
        (∀ value, ev arg E mode ≠ .done value) →
          applyClosure ev c args E mode form = ev arg E mode) ∧
      ∀ values, List.Forall₂ (fun arg value => ev arg E mode = .done value) args values →
        (args.length = c.arity →
          applyClosure ev c args E mode form = ev c.body (c.scope values) mode ∧
          ∀ d : Closure, d.params = c.params → d.env = c.env → d.body = c.body →
            applyClosure ev d args E mode form = applyClosure ev c args E mode form) ∧
        (args.length < c.arity →
          applyClosure ev c args E mode form =
            .done (.closure ((c.drop args.length).rebind (c.scope values))) ∧
          (c.drop args.length).params = c.params.drop args.length)) := by
  refine ⟨fun values => Environment.lookup_extend _ _, fun hcount => ⟨?_, ?_⟩,
    fun hcount => ⟨?_, ?_⟩⟩
  · exact applyClosure_of_arity_lt hcount form
  · rintro t ⟨ev', -, hne⟩
    simp only [applyClosure_of_arity_lt hcount form] at hne
    exact hne rfl
  · rintro front arg rest values rfl hfront harg
    rw [applyClosure_eq hc hcount, Outcome.mapM_append_bind_of_ne_done hfront harg]
  · intro values hvalues
    have hlength := hvalues.length_eq
    rw [applyClosure_of_values hc hcount hvalues]
    refine ⟨fun heq => ⟨Closure.receive_of_eq (by omega), fun d hparams henv hbody => ?_⟩,
      fun hlt => ?_⟩
    · have harity : d.arity = c.arity := by rw [Closure.arity, hparams, Closure.arity]
      have hscope : d.scope values = c.scope values := by
        rw [Closure.scope, henv, Closure.names, hparams, Closure.scope, Closure.names]
      rw [applyClosure_of_values (by rwa [hparams]) (by omega) hvalues,
        Closure.receive_of_eq (by omega), Closure.receive_of_eq (by omega), hbody, hscope]
    · rw [Closure.receive_of_lt (by omega), hlength]
      exact ⟨rfl, Closure.params_drop (by rwa [← hlength, ← Closure.arity_eq_length_params hc])⟩

/-- A chain with the parameters `x`, `y` and `x`, whose links have captured different scopes. -/
def repeated : Closure :=
  .link (some "x") Environment.global
    (.link (some "y") (Environment.empty.bind "y" (.number 7))
      (.last (some "x") Environment.empty (.atom "x" ⟨0, 1⟩)))

/-- Applied to `1`, `true` and `2`, the chain evaluates its body in a scope where the last `x`
counts and the builtins are bound; applied to `1` and `true` it leaves a link with that scope; an
argument without meaning in the middle is what the application fails with; and a fourth argument is
too many. -/
theorem applyClosure_nary_repeated :
    (∀ p ∈ repeated.params, p.isSome) ∧
    applyClosure (eval 1) repeated [.atom "1" ⟨0, 1⟩, .atom "true" ⟨2, 6⟩, .atom "2" ⟨7, 8⟩]
      Environment.global .strict (.atom "f" ⟨0, 1⟩) = .done (.number 2) ∧
    applyClosure (eval 1) repeated [.atom "1" ⟨0, 1⟩, .atom "true" ⟨2, 6⟩] Environment.global
        .strict (.atom "f" ⟨0, 1⟩) =
      .done (.closure (.last (some "x")
        ((Environment.global.bind "x" (.number 1)).bind "y" (.boolean true)) (.atom "x" ⟨0, 1⟩))) ∧
    applyClosure (eval 1) repeated [.atom "1" ⟨0, 1⟩, .atom "z" ⟨2, 3⟩, .list [] ⟨4, 6⟩]
        Environment.global .strict (.atom "f" ⟨0, 1⟩) =
      .failed ⟨.unbound "z", .atom "z" ⟨2, 3⟩, Environment.global⟩ ∧
    applyClosure (eval 1) repeated (List.replicate 4 (.list [] ⟨0, 2⟩)) Environment.global .strict
        (.atom "f" ⟨0, 1⟩) =
      .failed ⟨.tooManyArguments repeated 4, .atom "f" ⟨0, 1⟩, Environment.global⟩ := by
  have hparams : ∀ p ∈ repeated.params, p.isSome := by decide
  have hone : eval 1 (.atom "1" ⟨0, 1⟩) Environment.global .strict = .done (.number 1) := rfl
  have htrue : eval 1 (.atom "true" ⟨2, 6⟩) Environment.global .strict = .done (.boolean true) :=
    rfl
  have htwo : eval 1 (.atom "2" ⟨7, 8⟩) Environment.global .strict = .done (.number 2) := rfl
  have hz : eval 1 (.atom "z" ⟨2, 3⟩) Environment.global .strict =
      .failed ⟨.unbound "z", .atom "z" ⟨2, 3⟩, Environment.global⟩ := rfl
  refine ⟨hparams, ?_, ?_, ?_, ?_⟩
  · obtain ⟨-, -, h⟩ := applyClosure_nary repeated hparams (eval 1) Environment.global .strict
      [.atom "1" ⟨0, 1⟩, .atom "true" ⟨2, 6⟩, .atom "2" ⟨7, 8⟩] (.atom "f" ⟨0, 1⟩)
    exact (((h (by decide)).2 _ (.cons hone (.cons htrue (.cons htwo .nil)))).1 rfl).1
  · obtain ⟨-, -, h⟩ := applyClosure_nary repeated hparams (eval 1) Environment.global .strict
      [.atom "1" ⟨0, 1⟩, .atom "true" ⟨2, 6⟩] (.atom "f" ⟨0, 1⟩)
    exact (((h (by decide)).2 _ (.cons hone (.cons htrue .nil))).2 (by decide)).1
  · obtain ⟨-, -, h⟩ := applyClosure_nary repeated hparams (eval 1) Environment.global .strict
      [.atom "1" ⟨0, 1⟩, .atom "z" ⟨2, 3⟩, .list [] ⟨4, 6⟩] (.atom "f" ⟨0, 1⟩)
    refine ((h (by decide)).1 [_] _ _ _ rfl (.cons hone .nil) ?_).trans hz
    rw [hz]
    exact fun v hv => by cases hv
  · obtain ⟨-, h, -⟩ := applyClosure_nary repeated hparams (eval 1) Environment.global .strict
      (List.replicate 4 (.list [] ⟨0, 2⟩)) (.atom "f" ⟨0, 1⟩)
    exact (h (by decide)).1

end FixpointLisp
