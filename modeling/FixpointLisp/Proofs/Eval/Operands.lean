import FixpointLisp.Proofs.Eval.Forms
import Mathlib.Tactic

/-!
# Operands are taken from left to right

Apart from the special forms, every builtin evaluates all of its operands, in order, and checks each
one before it goes on to the next. Some fold or compare numbers, some join texts, some first collect
all values; which of this is done to the values afterwards makes no difference to errors.

* `Builtin.signature?`: how many operands an operation takes and what it expects of each.
* `CallSite.checked`: an operand is evaluated and checked.
* `CallSite.combines_operate`: every operation checks its operands in order and combines their
  values.
* `Signature.Passes`, `Signature.Spoils`: what becomes of a single operand.
* `leftmost_operand_decides`: the first operand that does not pass decides about the call.
-/

namespace FixpointLisp

variable {α : Type} {E : Environment} {mode : Resolution} {ev : Evaluator} {arg operator : Expr}
  {args front others : List Expr} {v : Value} {err : EvalError} {b : Builtin} {span : Span}

/-! ### What operations take -/

/-- Whether a value is of the kind that is expected. -/
def Expectation.admits : Expectation → Value → Bool
  | .number, .number _ => true
  | .number, _ => false
  | .boolean, .boolean _ => true
  | .boolean, _ => false
  | _, .closure _ => false
  | .parameterName, _ => true
  | _, .builtin _ => false
  | _, _ => true

/-- What an operation takes. -/
structure Signature where
  /-- The number of operands, if it is fixed. -/
  count : Option ℕ
  /-- What is expected of each operand, if anything is. -/
  expected : Option Expectation

/-- What a builtin takes, if it is an operation and no special form. -/
def Builtin.signature? : Builtin → Option Signature
  | lambda | binding | branch => none
  | add => some ⟨none, some .addend⟩
  | sub | mul | div => some ⟨none, some .number⟩
  | equal => some ⟨some 2, none⟩
  | greater | greaterEq | less | lessEq => some ⟨some 2, some .number⟩
  | and | or => some ⟨some 2, some .boolean⟩
  | not => some ⟨some 1, some .boolean⟩
  | first | rest => some ⟨some 1, some .nonFunction⟩

namespace Signature

variable (sig : Signature)

/-- Whether an operation can be given `n` operands. -/
def Takes (n : ℕ) : Prop := ∀ count, sig.count = some count → n = count

/-- Whether an operation accepts a value as an operand. -/
def Accepts (v : Value) : Prop := ∀ expected, sig.expected = some expected → expected.admits v

end Signature

variable {sig : Signature}

/-! ### Every operation combines checked operands -/

namespace CallSite

variable (site : CallSite)

/-- Evaluates an operand and checks that it is accepted. -/
def checked (ev : Evaluator) (expected : Option Expectation) (arg : Expr) : Outcome Value := do
  let v ← site.operand ev arg
  match expected with
  | none => .done v
  | some expected => if expected.admits v then .done v else site.mismatch expected v arg

theorem operand_eq_checked (ev : Evaluator) (arg : Expr) :
    site.operand ev arg = site.checked ev none arg >>= fun v => .done v := by
  rw [checked, bind_assoc]
  exact (bind_pure _).symm

theorem number_eq_checked (ev : Evaluator) (arg : Expr) :
    site.number ev arg =
      site.checked ev (some .number) arg >>= fun v => .done (v.number?.getD 0) := by
  rw [number, checked, bind_assoc]
  refine Outcome.bind_congr_of_done fun v _ => ?_
  cases v <;> rfl

theorem boolean_eq_checked (ev : Evaluator) (arg : Expr) :
    site.boolean ev arg =
      site.checked ev (some .boolean) arg >>= fun v =>
        .done (match v with | .boolean b => b | _ => false) := by
  rw [boolean, checked, bind_assoc]
  refine Outcome.bind_congr_of_done fun v _ => ?_
  cases v <;> rfl

theorem nonFunction_eq_checked (ev : Evaluator) {expected : Expectation}
    (h : expected = .addend ∨ expected = .nonFunction) (arg : Expr) :
    site.nonFunction ev expected arg =
      site.checked ev (some expected) arg >>= fun v => .done v := by
  rw [nonFunction, checked, bind_assoc]
  refine Outcome.bind_congr_of_done fun v _ => ?_
  rcases h with rfl | rfl <;> cases v <;> rfl

/-- Whether what is done to a row of operands is as the signature says: a wrong number of them is an
error, and else they are checked in order before their values are combined. -/
structure Combines (ev : Evaluator) (sig : Signature) (o : List Expr → Outcome Value) : Prop where
  wrongCount : ∀ count args, sig.count = some count → args.length ≠ count →
    o args = site.wrongCount count args.length
  values : ∃ combine : List Value → Value, ∀ args, sig.Takes args.length →
    o args = args.mapM (site.checked ev sig.expected) >>= fun vs => .done (combine vs)

variable {site} {expected : Option Expectation} {operand : Expr → Outcome α} {get : Value → α}

theorem unary_of_length_ne (h : args.length ≠ 1) :
    site.unary operand args = site.wrongCount 1 args.length := by
  match args with
  | [] => rfl
  | [_] => exact absurd rfl h
  | _ :: _ :: _ => rfl

theorem binary_of_length_ne (h : args.length ≠ 2) :
    site.binary operand args = site.wrongCount 2 args.length := by
  match args with
  | [] => rfl
  | [_] => rfl
  | [_, _] => exact absurd rfl h
  | _ :: _ :: _ :: _ => rfl

theorem combines_all
    (h : ∀ arg, operand arg = site.checked ev expected arg >>= fun v => .done (get v))
    (k : List α → Value) :
    site.Combines ev ⟨none, expected⟩ fun args =>
      args.mapM operand >>= fun xs => .done (k xs) where
  wrongCount _ _ hcount := nomatch hcount
  values := by
    refine ⟨fun vs => k (vs.map get), fun args _ => ?_⟩
    simp only [funext h, Outcome.mapM_bind_done, bind_assoc, Outcome.done_bind]

theorem combines_unary
    (h : ∀ arg, operand arg = site.checked ev expected arg >>= fun v => .done (get v))
    (k : α → Value) :
    site.Combines ev ⟨some 1, expected⟩ fun args =>
      site.unary operand args >>= fun x => .done (k x) where
  wrongCount _ args hcount hargs := by
    cases hcount
    rw [unary_of_length_ne hargs]
    rfl
  values := by
    refine ⟨fun vs => (vs.head?.map fun v => k (get v)).getD (.boolean false),
      fun args hargs => ?_⟩
    obtain ⟨arg, rfl⟩ := List.length_eq_one_iff.1 (hargs 1 rfl)
    simp only [unary, h, List.mapM_cons, List.mapM_nil, bind_assoc, Outcome.done_bind,
      Outcome.pure_eq, List.head?_cons, Option.map_some, Option.getD_some]

theorem combines_binary
    (h : ∀ arg, operand arg = site.checked ev expected arg >>= fun v => .done (get v))
    (k : α × α → Value) :
    site.Combines ev ⟨some 2, expected⟩ fun args =>
      site.binary operand args >>= fun p => .done (k p) where
  wrongCount _ args hcount hargs := by
    cases hcount
    rw [binary_of_length_ne hargs]
    rfl
  values := by
    refine ⟨fun vs => (vs.head?.bind fun v => vs.tail.head?.map fun w =>
      k (get v, get w)).getD (.boolean false), fun args hargs => ?_⟩
    obtain ⟨left, right, rfl⟩ := List.length_eq_two.1 (hargs 2 rfl)
    simp only [binary, h, List.mapM_cons, List.mapM_nil, bind_assoc, Outcome.done_bind,
      Outcome.pure_eq, List.head?_cons, List.tail_cons, Option.bind_some, Option.map_some,
      Option.getD_some]

variable (site) in
/-- Every operation checks its operands in order and combines their values. -/
theorem combines_operate (ev : Evaluator) (h : site.operator.signature? = some sig) :
    site.Combines ev sig fun args => site.operate ev args := by
  obtain ⟨b, form, E, mode⟩ := site
  cases b <;> cases h
  case add => exact combines_all (nonFunction_eq_checked _ ev (.inl rfl)) Value.total
  case sub | mul | div => exact combines_all (number_eq_checked _ ev) _
  case equal => exact combines_binary (operand_eq_checked _ ev) fun p => .boolean (p.1.same p.2)
  case greater | greaterEq | less | lessEq => exact combines_binary (number_eq_checked _ ev) _
  case and | or => exact combines_binary (boolean_eq_checked _ ev) _
  case not => exact combines_unary (boolean_eq_checked _ ev) _
  case first | rest => exact combines_unary (nonFunction_eq_checked _ ev (.inr rfl)) _

end CallSite

/-! ### What becomes of an operand -/

namespace Signature

variable (sig) (b : Builtin) (E : Environment) (mode : Resolution) (arg : Expr)

/-- Whether an operand evaluates to a value that is accepted. -/
def Passes : Prop := ∃ v, Yields E mode arg (.done v) ∧ sig.Accepts v

/-- Whether an operand of the builtin `b` is bad, and what the error is. -/
inductive Spoils : EvalError → Prop
  /-- The error of its own evaluation. -/
  | evaluation {err : EvalError} (h : Yields E mode arg (.failed err)) : Spoils err
  /-- It has a value that is not as expected. -/
  | kind {expected : Expectation} {v : Value} (h : Yields E mode arg (.done v))
      (hexpected : sig.expected = some expected) (hv : expected.admits v = false) :
      Spoils ⟨.typeMismatch b expected v, arg, E⟩

variable {sig b E mode arg}

theorem checked_of_accepts {site : CallSite} {ev : Evaluator}
    (h : site.operand ev arg = .done v) (hv : sig.Accepts v) :
    site.checked ev sig.expected arg = .done v := by
  rw [CallSite.checked, h, Outcome.done_bind]
  cases he : sig.expected with
  | none => rfl
  | some expected => exact if_pos (hv expected he)

theorem checked_of_not_admits {site : CallSite} {ev : Evaluator} {expected : Expectation}
    (h : site.operand ev arg = .done v) (he : sig.expected = some expected)
    (hv : expected.admits v = false) :
    site.checked ev sig.expected arg = site.mismatch expected v arg := by
  rw [CallSite.checked, h, Outcome.done_bind, he]
  exact if_neg (by simp [hv])

theorem accepts_or (sig : Signature) (v : Value) :
    sig.Accepts v ∨ ∃ expected, sig.expected = some expected ∧ expected.admits v = false := by
  by_cases h : sig.Accepts v
  · exact .inl h
  · exact .inr (by simpa [Accepts] using h)

/-- An operand passes if checking it gives a value. -/
theorem passes_iff (form : Expr) :
    sig.Passes E mode arg ↔
      ∃ v, CallSite.checked ⟨b, form, E, mode⟩ evaluate sig.expected arg = .done v := by
  constructor
  · rintro ⟨v, hv, haccepts⟩
    exact ⟨v, checked_of_accepts hv.evaluate_eq haccepts⟩
  · rintro ⟨w, hw⟩
    obtain ⟨v, hv, -⟩ := Outcome.bind_eq_done_iff.1 hw
    rcases sig.accepts_or v with haccepts | ⟨expected, hexpected, hadmits⟩
    · exact ⟨v, yields_done_iff.2 hv, haccepts⟩
    · rw [checked_of_not_admits hv hexpected hadmits] at hw
      cases hw

/-- An operand is bad if checking it is an error. -/
theorem spoils_iff (form : Expr) :
    sig.Spoils b E mode arg err ↔
      CallSite.checked ⟨b, form, E, mode⟩ evaluate sig.expected arg = .failed err := by
  constructor
  · rintro (h | ⟨h, hexpected, hadmits⟩)
    · rw [CallSite.checked, CallSite.operand, h.evaluate_eq, Outcome.failed_bind]
    · exact checked_of_not_admits h.evaluate_eq hexpected hadmits
  · intro h
    rcases Outcome.bind_eq_failed_iff.1 h with hfailed | ⟨v, hv, -⟩
    · exact .evaluation (yields_failed_iff.2 hfailed)
    · rcases sig.accepts_or v with haccepts | ⟨expected, hexpected, hadmits⟩
      · rw [checked_of_accepts hv haccepts] at h
        cases h
      · rw [checked_of_not_admits hv hexpected hadmits] at h
        cases h
        exact .kind (yields_done_iff.2 hv) hexpected hadmits

theorem Spoils.not_passes (h : sig.Spoils b E mode arg err) : ¬sig.Passes E mode arg := by
  intro hpasses
  obtain ⟨v, hv⟩ := (passes_iff (b := b) arg).1 hpasses
  rw [(spoils_iff arg).1 h] at hv
  cases hv

/-- Where not every operand passes, there is a first one that does not. -/
theorem exists_first_not_passes (h : ¬∀ arg ∈ args, sig.Passes E mode arg) :
    ∃ front arg others, args = front ++ arg :: others ∧ (∀ arg ∈ front, sig.Passes E mode arg) ∧
      ¬sig.Passes E mode arg := by
  classical
  have hsome : (args.find? fun arg => decide ¬sig.Passes E mode arg).isSome := by
    simpa [List.find?_isSome] using h
  obtain ⟨arg, hfind⟩ := Option.isSome_iff_exists.1 hsome
  obtain ⟨harg, front, others, rfl, hfront⟩ := List.find?_eq_some_iff_append.1 hfind
  exact ⟨front, arg, others, rfl, by simpa using hfront, by simpa using harg⟩

/-- An operand whose evaluation ends either passes or is bad. -/
theorem exists_spoils {o : Outcome Value} (h : Yields E mode arg o)
    (hpasses : ¬sig.Passes E mode arg) : ∃ err, sig.Spoils b E mode arg err := by
  cases o with
  | exhausted => exact absurd rfl h.1
  | failed err => exact ⟨err, .evaluation h⟩
  | done v =>
    obtain haccepts | ⟨expected, hexpected, hadmits⟩ := sig.accepts_or v
    · exact absurd ⟨v, h, haccepts⟩ hpasses
    · exact ⟨_, .kind h hexpected hadmits⟩

end Signature

/-! ### Calls -/

theorem evalStep_of_length_ne {count : ℕ} (h : ev operator E mode = .done (.builtin b))
    (hsig : b.signature? = some sig) (hcount : sig.count = some count) (hargs : args.length ≠ count)
    (span : Span) :
    evalStep ev (.list (operator :: args) span) E mode =
      .failed ⟨.wrongArgumentCount b count args.length, .list (operator :: args) span, E⟩ := by
  rw [evalStep, h, Outcome.done_bind, call,
    (CallSite.combines_operate _ ev hsig).wrongCount count args hcount hargs]
  rfl

/-- With a wrong number of operands, the operator is the only part that is evaluated. -/
theorem eq_of_consults_of_length_ne {count depth : ℕ} {part : Task}
    (hoperator : Yields E mode operator (.done (.builtin b))) (hsig : b.signature? = some sig)
    (hcount : sig.count = some count) (hargs : args.length ≠ count)
    (h : Consults (eval depth) ⟨.list (operator :: args) span, E, mode⟩ part) :
    part = ⟨operator, E, mode⟩ := by
  obtain ⟨ev', hagree, hne⟩ := h
  by_contra hpart
  have hoperator' : ev' operator E mode = eval depth operator E mode :=
    hagree ⟨operator, E, mode⟩ (Ne.symm hpart)
  refine hne ?_
  simp only [Task.outcome]
  rcases eval_eq_exhausted_or depth operator E mode with ho | ho
  · simp only [evalStep, hoperator', ho, Outcome.exhausted_bind]
  · rw [hoperator.evaluate_eq] at ho
    rw [evalStep_of_length_ne ho hsig hcount hargs,
      evalStep_of_length_ne (hoperator'.trans ho) hsig hcount hargs]

/-- A call with an allowed number of operands checks them in order and then gives a value. -/
theorem evaluate_operation (hoperator : Yields E mode operator (.done (.builtin b)))
    (hsig : b.signature? = some sig) (hargs : sig.Takes args.length) (span : Span) :
    ∃ combine : List Value → Value, evaluate (.list (operator :: args) span) E mode =
      args.mapM (CallSite.checked ⟨b, .list (operator :: args) span, E, mode⟩ evaluate sig.expected)
        >>= fun vs => .done (combine vs) := by
  obtain ⟨combine, hcombine⟩ :=
    (CallSite.combines_operate ⟨b, .list (operator :: args) span, E, mode⟩ evaluate hsig).values
  refine ⟨fun vs => E.reinterpret (combine vs), ?_⟩
  rw [evaluate_of_builtin hoperator.evaluate_eq, hcombine args hargs, bind_assoc]
  rfl

/-- The first operand that does not pass decides, whatever follows it. -/
theorem evaluate_of_not_passes (hoperator : Yields E mode operator (.done (.builtin b)))
    (hsig : b.signature? = some sig) (hfront : ∀ arg ∈ front, sig.Passes E mode arg)
    (harg : ¬sig.Passes E mode arg) (hargs : sig.Takes (front ++ arg :: others).length)
    (span : Span) :
    evaluate (.list (operator :: (front ++ arg :: others)) span) E mode =
      CallSite.checked ⟨b, operator, E, mode⟩ evaluate sig.expected arg := by
  obtain ⟨combine, hcombine⟩ := evaluate_operation hoperator hsig hargs span
  obtain ⟨vs, hvs⟩ := Outcome.exists_mapM_eq_done_iff.2 fun arg harg =>
    (Signature.passes_iff (b := b) operator).1 (hfront arg harg)
  rw [hcombine]
  exact Outcome.mapM_append_bind_of_ne_done (Outcome.forall₂_of_mapM_eq_done hvs) fun v hv =>
    harg ((Signature.passes_iff _).2 ⟨v, hv⟩)

/-- A call gives a value if every operand passes. -/
theorem exists_yields_operation_iff (hoperator : Yields E mode operator (.done (.builtin b)))
    (hsig : b.signature? = some sig) (hargs : sig.Takes args.length) (span : Span) :
    (∃ v, Yields E mode (.list (operator :: args) span) (.done v)) ↔
      ∀ arg ∈ args, sig.Passes E mode arg := by
  obtain ⟨combine, hcombine⟩ := evaluate_operation hoperator hsig hargs span
  simp only [yields_done_iff, hcombine, Outcome.bind_eq_done_iff,
    Signature.passes_iff (b := b) (.list (operator :: args) span),
    ← Outcome.exists_mapM_eq_done_iff]
  constructor
  · rintro ⟨_, vs, hvs, -⟩
    exact ⟨vs, hvs⟩
  · rintro ⟨vs, hvs⟩
    exact ⟨_, vs, hvs, rfl⟩

/-- A call gives an error if there is a bad operand that gives it and all those in front pass. -/
theorem yields_failed_operation_iff (hoperator : Yields E mode operator (.done (.builtin b)))
    (hsig : b.signature? = some sig) (hargs : sig.Takes args.length) (span : Span)
    (err : EvalError) :
    Yields E mode (.list (operator :: args) span) (.failed err) ↔
      ∃ front arg others, args = front ++ arg :: others ∧
        (∀ arg ∈ front, sig.Passes E mode arg) ∧ sig.Spoils b E mode arg err := by
  constructor
  · intro h
    have hnot : ¬∀ arg ∈ args, sig.Passes E mode arg := fun hpass => by
      obtain ⟨v, hv⟩ := (exists_yields_operation_iff hoperator hsig hargs span).2 hpass
      cases hv.evaluate_eq.symm.trans h.evaluate_eq
    obtain ⟨front, arg, others, rfl, hfront, harg⟩ := Signature.exists_first_not_passes hnot
    refine ⟨front, arg, others, rfl, hfront, (Signature.spoils_iff operator).2 ?_⟩
    rw [← evaluate_of_not_passes hoperator hsig hfront harg hargs span, h.evaluate_eq]
  · rintro ⟨front, arg, others, rfl, hfront, hspoils⟩
    rw [yields_failed_iff, evaluate_of_not_passes hoperator hsig hfront hspoils.not_passes hargs]
    exact (Signature.spoils_iff operator).1 hspoils

/-- **The leftmost bad operand decides.** Let an expression evaluate to a builtin that is an
operation, which is to say no special form. A wrong number of operands is an error about the whole
form, and nothing but the operator is evaluated. With an allowed number of operands,

* the call gives a value if and only if every operand evaluates to a value that is accepted;
* it gives an error if and only if the first operand that does not is bad with this very error,
  which is that of its own evaluation or says that its value is of the wrong type;
* if each of the operands ends, the call fails if and only if one of them is bad;
* what stands to the right of an operand that does not pass makes no difference. -/
theorem leftmost_operand_decides (E : Environment) (mode : Resolution) (operator : Expr)
    (b : Builtin) (sig : Signature) (hsig : b.signature? = some sig)
    (hoperator : Yields E mode operator (.done (.builtin b))) (args : List Expr) (span : Span) :
    (∀ count, sig.count = some count → args.length ≠ count →
      Yields E mode (.list (operator :: args) span)
          (.failed ⟨.wrongArgumentCount b count args.length, .list (operator :: args) span, E⟩) ∧
        ∀ depth part, Consults (eval depth) ⟨.list (operator :: args) span, E, mode⟩ part →
          part = ⟨operator, E, mode⟩) ∧
    (sig.Takes args.length →
      ((∃ v, Yields E mode (.list (operator :: args) span) (.done v)) ↔
        ∀ arg ∈ args, sig.Passes E mode arg) ∧
      (∀ err, Yields E mode (.list (operator :: args) span) (.failed err) ↔
        ∃ front arg others, args = front ++ arg :: others ∧
          (∀ arg ∈ front, sig.Passes E mode arg) ∧ sig.Spoils b E mode arg err) ∧
      ((∀ arg ∈ args, ∃ o, Yields E mode arg o) →
        ((∃ err, Yields E mode (.list (operator :: args) span) (.failed err)) ↔
          ∃ arg ∈ args, ∃ err, sig.Spoils b E mode arg err)) ∧
      ∀ front arg others, args = front ++ arg :: others →
        (∀ arg ∈ front, sig.Passes E mode arg) → ¬sig.Passes E mode arg →
          ∀ others' span', sig.Takes (front ++ arg :: others').length →
            Equivalent E mode (.list (operator :: args) span)
              (.list (operator :: (front ++ arg :: others')) span')) := by
  refine ⟨fun count hcount hargs => ⟨?_, fun depth part => ?_⟩, fun hargs => ⟨?_, ?_, ?_, ?_⟩⟩
  · rw [yields_failed_iff, evaluate_eq,
      evalStep_of_length_ne hoperator.evaluate_eq hsig hcount hargs]
  · exact eq_of_consults_of_length_ne hoperator hsig hcount hargs
  · exact exists_yields_operation_iff hoperator hsig hargs span
  · exact yields_failed_operation_iff hoperator hsig hargs span
  · intro hends
    constructor
    · rintro ⟨err, h⟩
      obtain ⟨front, arg, others, rfl, -, hspoils⟩ :=
        (yields_failed_operation_iff hoperator hsig hargs span err).1 h
      exact ⟨arg, by simp, err, hspoils⟩
    · rintro ⟨arg, harg, err, hspoils⟩
      -- The first operand that does not pass need not be this one, but it ends and so is bad, too.
      obtain ⟨front, first, others, rfl, hfront, hfirst⟩ :=
        Signature.exists_first_not_passes fun hpass => hspoils.not_passes (hpass arg harg)
      obtain ⟨o, ho⟩ := hends first (by simp)
      obtain ⟨err', hspoils'⟩ := Signature.exists_spoils (b := b) ho hfirst
      exact ⟨err', (yields_failed_operation_iff hoperator hsig hargs span err').2
        ⟨front, first, others, rfl, hfront, hspoils'⟩⟩
  · rintro front arg others rfl hfront harg others' span' hargs'
    rw [equivalent_iff, evaluate_of_not_passes hoperator hsig hfront harg hargs,
      evaluate_of_not_passes hoperator hsig hfront harg hargs']

/-- In `(& + other)` the builtin is no truth value, and in `(& missing other)` the name is unbound,
whatever the other operand is; a third operand is an error before either of them. -/
theorem leftmost_operand_decides_and :
    let andAtom : Expr := .atom "&" ⟨1, 2⟩
    let plus : Expr := .atom "+" ⟨3, 4⟩
    let missing : Expr := .atom "missing" ⟨3, 10⟩
    Yields Environment.global .strict andAtom (.done (.builtin .and)) ∧
    (∀ other span, Yields Environment.global .strict (.list [andAtom, plus, other] span)
      (.failed ⟨.typeMismatch .and .boolean (.builtin .add), plus, Environment.global⟩)) ∧
    (∀ other span, Yields Environment.global .strict (.list [andAtom, missing, other] span)
      (.failed ⟨.unbound "missing", missing, Environment.global⟩)) ∧
    ∀ other span, Yields Environment.global .strict (.list [andAtom, plus, missing, other] span)
      (.failed ⟨.wrongArgumentCount .and 2 3, .list [andAtom, plus, missing, other] span,
        Environment.global⟩) := by
  intro andAtom plus missing
  have hand : Yields Environment.global .strict andAtom (.done (.builtin .and)) :=
    ⟨by simp, 1, rfl⟩
  have hplus : Yields Environment.global .strict plus (.done (.builtin .add)) := ⟨by simp, 1, rfl⟩
  have hmissing : Yields Environment.global .strict missing
      (.failed ⟨.unbound "missing", missing, Environment.global⟩) := ⟨by simp, 1, rfl⟩
  have hdecides := leftmost_operand_decides Environment.global .strict andAtom .and
    ⟨some 2, some .boolean⟩ rfl hand
  have htakes (e e' : Expr) : Signature.Takes ⟨some 2, some .boolean⟩ [e, e'].length :=
    fun count hcount => Option.some.inj hcount
  refine ⟨hand, fun other span => ?_, fun other span => ?_, fun other span => ?_⟩
  · exact (((hdecides _ span).2 (htakes plus other)).2.1 _).2
      ⟨[], plus, [other], rfl, by simp, .kind hplus rfl rfl⟩
  · exact (((hdecides _ span).2 (htakes missing other)).2.1 _).2
      ⟨[], missing, [other], rfl, by simp, .evaluation hmissing⟩
  · exact ((hdecides _ span).1 2 rfl (by simp)).1

end FixpointLisp
