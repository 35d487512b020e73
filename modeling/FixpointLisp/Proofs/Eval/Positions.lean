import FixpointLisp.Proofs.Eval.Modes
import FixpointLisp.Proofs.Expr.Spans
import Mathlib.Tactic

/-!
# Positions do not matter

Spans are read by reports only. Evaluation carries them along, in the bodies of closures and in
errors, but no lookup, no comparison and no message depends on them. So two runs that start from
expressions and environments with different spans end in the same way, up to spans.

* `Likeness.respanned`: values, closures and environments that differ in spans at most.
* `Outcome.Agrees`: two runs end in the same way, up to a likeness. A simulation in both directions
  gives this (`Outcome.Like.agrees`).
* `EvalError.Like.message_eq`: errors that are alike have the same message, if expressions that may
  stand for each other have the same text.
* `eval_respanned`: evaluation does not depend on spans, and hence the first expression of a source
  text is worth the same however its tokens are spaced.
-/

namespace FixpointLisp

variable {R : Likeness}

/-! ### Likeness in both directions -/

mutual

theorem Value.Like.symm (hR : ∀ {e f}, R.expr e f → R.expr f e) {v w : Value} (h : v.Like R w) :
    w.Like R v := by
  match v, h with
  | .closure c, h =>
    obtain ⟨d, rfl, hparams, hc⟩ := h.exists_closure
    exact ⟨hc.params_eq ▸ hparams, Closure.Like.symm hR hc⟩
  | .number _, h => exact (h.eq_of_text? rfl).1 ▸ h
  | .boolean _, h => exact (h.eq_of_text? rfl).1 ▸ h
  | .string _, h => exact (h.eq_of_text? rfl).1 ▸ h
  | .symbol _, h => exact (h.eq_of_text? rfl).1 ▸ h
  | .builtin _, h => exact (h.eq_of_text? rfl).1 ▸ h
termination_by sizeOf v

theorem Closure.Like.symm (hR : ∀ {e f}, R.expr e f → R.expr f e) {c d : Closure}
    (h : c.Like R d) : d.Like R c := by
  match c, h with
  | .last p E b, h =>
    obtain ⟨F, b', rfl, hp, hE, hb⟩ := h.exists_last
    exact ⟨rfl, hp, Bindings.Like.symm hR hE, hR hb⟩
  | .link p E c, h =>
    obtain ⟨F, c', rfl, hp, hE, hc⟩ := h.exists_link
    exact ⟨rfl, hp, Bindings.Like.symm hR hE, Closure.Like.symm hR hc⟩
termination_by sizeOf c

theorem Bindings.Like.symm (hR : ∀ {e f}, R.expr e f → R.expr f e) {low low' : Option String}
    {E : Bindings low} {F : Bindings low'} (h : E.Like R F) : F.Like R E := by
  match E, h with
  | .nil, h =>
    obtain rfl := h.eq_nil
    trivial
  | .cons n v E _, h =>
    obtain ⟨w, F, _, rfl, hn, hv, hE⟩ := h.exists_cons
    exact ⟨rfl, hn, Value.Like.symm hR hv, Bindings.Like.symm hR hE⟩
termination_by sizeOf E

end

/-- Whether two runs end in the same way: in values that are alike, in errors that are alike, or
both at the bound on the depth. -/
inductive Outcome.Agrees (R : Likeness) : Outcome Value → Outcome Value → Prop
  | done {v w : Value} (h : v.Like R w) : Agrees R (.done v) (.done w)
  | failed {err err' : EvalError} (h : err.Like R err') : Agrees R (.failed err) (.failed err')
  | exhausted : Agrees R .exhausted .exhausted

/-- Two runs that meet each other end in the same way. -/
theorem Outcome.Like.agrees (hloose : ¬R.loose) {o o' : Outcome Value}
    (h : o.Like R (Value.Like R) o') (h' : o'.Like R (Value.Like R) o) : o.Agrees R o' := by
  cases h with
  | done h => exact .done h
  | failed h => exact .failed h
  | excused h => exact absurd h hloose
  | exhausted =>
    cases h' with
    | excused h => exact absurd h hloose
    | exhausted => exact .exhausted

/-! ### Texts -/

/-- What is told of the end of a run: the text of its value, or the message of its error. -/
def Outcome.text? : Outcome Value → Option (Except String String)
  | .done v => some (.ok v.write)
  | .failed err => some (.error err.message)
  | .exhausted => none

theorem Closure.head?_params (c : Closure) : c.params.head? = some c.param := by
  cases c <;> rfl

theorem Closure.Like.write_eq {c d : Closure} (h : c.Like R d) : c.write = d.write := by
  have hparam : some c.param = some d.param := by
    rw [← c.head?_params, ← d.head?_params, h.params_eq]
  unfold Closure.write
  rw [Option.some.inj hparam]

theorem Value.Like.write_eq {v w : Value} (h : v.Like R w) : v.write = w.write := by
  rcases h.closure_or_eq with ⟨c, d, rfl, rfl⟩ | rfl
  · exact h.2.write_eq
  · rfl

section

variable (hR : ∀ {e f : Expr}, R.expr e f → e.write = f.write)
include hR

theorem FormFault.Like.write_eq {f g : FormFault} (h : f.Like R g) :
    f.form = g.form ∧ f.write = g.write := by
  cases h with
  | bindingsNotList h => exact ⟨rfl, congrArg (String.append _) (hR h)⟩
  | bindingNotPair h => exact ⟨rfl, congrArg (String.append _) (hR h)⟩
  | _ => exact ⟨rfl, rfl⟩

/-- Errors that are alike have the same message. -/
theorem EvalError.Like.message_eq {err err' : EvalError} (h : err.Like R err') :
    err.message = err'.message := by
  obtain ⟨cause, e, E⟩ := err
  obtain ⟨cause', f, F⟩ := err'
  obtain ⟨hcause, -, -⟩ := h
  unfold EvalError.message
  cases hcause with
  | tooManyArguments h given => simp only [h.2.write_eq, Closure.arity, h.2.params_eq]
  | typeMismatch b expected h => simp only [h.write_eq]
  | notCallable h => simp only [h.write_eq]
  | malformed h =>
    obtain ⟨hform, hwrite⟩ := h.write_eq hR
    simp only [hform, hwrite]
  | _ => rfl

/-- Of runs that end in the same way the same is told. -/
theorem Outcome.Agrees.text?_eq {o o' : Outcome Value} (h : o.Agrees R o') :
    o.text? = o'.text? := by
  cases h with
  | done h => simp [Outcome.text?, h.write_eq]
  | failed h => simp [Outcome.text?, h.message_eq hR]
  | exhausted => rfl

end

/-! ### Spans -/

/-- Values, closures and environments that differ in spans at most. -/
def Likeness.respanned : Likeness where
  expr e f := e.same f
  name _ := True
  plain _ := True
  params _ := True
  loose := False

theorem exprLawful_same : ExprLawful fun e f => e.same f where
  atom {text s f} h := by
    cases f with
    | atom text' s' =>
      obtain rfl : text = text' := by simpa [Expr.same] using h
      exact ⟨s', rfl⟩
    | list fs s' => simp [Expr.same] at h
  list {es s f} h := by
    cases f with
    | atom text' s' => simp [Expr.same] at h
    | list fs s' =>
      rw [Expr.same, Expr.sameAll_iff_forall₂] at h
      exact ⟨fs, s', rfl, h⟩
  same {e f e' f'} h h' := by
    rw [Expr.same_iff_bare] at h h'
    rw [Bool.eq_iff_iff, Expr.same_iff_bare, Expr.same_iff_bare, h, h']

theorem Likeness.lawful_respanned : Likeness.respanned.Lawful where
  toExprLawful := exprLawful_same
  number _ := trivial
  boolean _ := trivial
  string _ := trivial
  symbol _ := trivial
  name _ _ := trivial
  paramless := trivial
  curried := trivial
  next _ _ := trivial

theorem Likeness.symm_respanned {e f : Expr} (h : Likeness.respanned.expr e f) :
    Likeness.respanned.expr f e := by
  have h := (Expr.same_iff_bare e f).1 h
  exact (Expr.same_iff_bare f e).2 h.symm

theorem Likeness.reflexive_respanned : Likeness.respanned.Reflexive where
  expr e := e.same_self
  name _ := trivial
  plain _ := trivial
  params _ := trivial

theorem Likeness.write_respanned {e f : Expr} (h : Likeness.respanned.expr e f) :
    e.write = f.write :=
  Expr.write_eq_of_bare ((Expr.same_iff_bare e f).1 h)

theorem global_respanned : Environment.global.Like .respanned Environment.global :=
  Environment.global.like_self Likeness.reflexive_respanned

theorem eval_agrees_respanned {depth : ℕ} {e f : Expr} {E F : Environment} {mode : Resolution}
    (he : e.same f) (hE : E.Like .respanned F) :
    (eval depth e E mode).Agrees .respanned (eval depth f F mode) := by
  have hsim := Likeness.simulates_eval Likeness.lawful_respanned (le_refl depth)
  refine Outcome.Like.agrees id (hsim he hE (.same mode)) ?_
  exact hsim (Likeness.symm_respanned he) (hE.symm Likeness.symm_respanned) (.same mode)

/-- Source texts with the same tokens, wherever these are placed, have the same first expression up
to spans. -/
theorem parse_same {s t : String}
    (h : (tokenize s).map Token.kind = (tokenize t).map Token.kind) : (parse s).same (parse t) := by
  rw [Expr.same_iff_bare, bare_parse, bare_parse, h]

/-- **Positions never influence meaning.** From expressions that differ in spans at most, in
environments that differ in spans at most, evaluation ends in values or in errors that differ in
spans at most, with the same text or the same message. Hence the same is told of the first
expressions of two source texts that have the same tokens, however these are spaced. -/
theorem eval_respanned (depth : ℕ) :
    (∀ (e f : Expr) (E F : Environment) (mode : Resolution), e.same f → E.Like .respanned F →
      (eval depth e E mode).Agrees .respanned (eval depth f F mode) ∧
        (eval depth e E mode).text? = (eval depth f F mode).text?) ∧
    ∀ (s t : String) (E F : Environment),
      (tokenize s).map Token.kind = (tokenize t).map Token.kind → E.Like .respanned F →
        (run depth s E).text? = (run depth t F).text? := by
  have htext : ∀ (e f : Expr) (E F : Environment) (mode : Resolution), e.same f →
      E.Like .respanned F → (eval depth e E mode).text? = (eval depth f F mode).text? :=
    fun e f E F mode he hE =>
      (eval_agrees_respanned he hE).text?_eq Likeness.write_respanned
  refine ⟨fun e f E F mode he hE => ⟨eval_agrees_respanned he hE, htext e f E F mode he hE⟩, ?_⟩
  intro s t E F hkinds hE
  exact htext _ _ E F .strict (parse_same hkinds) hE

/-- The global environment with a function `id` whose body was read from the bytes `s`. -/
def withIdentity (s : Span) : Environment :=
  Environment.global.bind "id" (.closure (.last (some "x") Environment.global (.atom "x" s)))

theorem withIdentity_respanned (s t : Span) :
    (withIdentity s).Like .respanned (withIdentity t) := by
  refine global_respanned.bind trivial ⟨trivial, rfl, fun _ _ => trivial, global_respanned, ?_⟩
  simp [Likeness.respanned, Expr.same]

theorem parse_conjunction :
    parse "(& (id true) 1)" =
      .list
        [.atom "&" ⟨1, 2⟩, .list [.atom "id" ⟨4, 6⟩, .atom "true" ⟨7, 11⟩] ⟨3, 12⟩,
          .atom "1" ⟨13, 14⟩] ⟨0, 15⟩ := by
  cbv

/-- An error raised behind a closure whose body was read elsewhere, in a source text that is spaced
in another way: its message is the one computed for the first text. -/
theorem eval_respanned_withIdentity :
    ((tokenize "(& (id true) 1)").map Token.kind = (tokenize "( &\n (id\ttrue)1 )").map Token.kind ∧
      (withIdentity ⟨0, 1⟩).Like .respanned (withIdentity ⟨7, 8⟩) ∧
      (run 3 "( &\n (id\ttrue)1 )" (withIdentity ⟨7, 8⟩)).text? =
        some (.error "Type mismatch: '&' expected boolean, got 1")) ∧
    (conjoined "1").same (conjoined "1").bare ∧
      (eval 3 (conjoined "1") Environment.global .strict).Agrees .respanned
        (eval 3 (conjoined "1").bare Environment.global .strict) := by
  have hkinds : (tokenize "(& (id true) 1)").map Token.kind =
      (tokenize "( &\n (id\ttrue)1 )").map Token.kind := by cbv
  have hlike := withIdentity_respanned ⟨0, 1⟩ ⟨7, 8⟩
  have hsame : (conjoined "1").same (conjoined "1").bare := by decide
  refine ⟨⟨hkinds, hlike, ?_⟩, hsame, ?_⟩
  · rw [← (eval_respanned 3).2 _ _ _ _ hkinds hlike, run, parse_conjunction]
    rfl
  · exact ((eval_respanned 3).1 _ _ _ _ .strict hsame global_respanned).1

end FixpointLisp
