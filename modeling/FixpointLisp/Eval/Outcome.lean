import FixpointLisp.Eval.Error

/-!
# Outcomes of evaluation

Evaluation need not end, so it is carried out to a bounded depth, and reaching the bound is an
outcome of its own, apart from values and errors.

* `Outcome` is the result type; it is a monad in which the first outcome that is not a value ends a
  computation.
-/

namespace FixpointLisp

/-- How an evaluation to bounded depth ends. -/
inductive Outcome (α : Type) where
  | done (a : α)
  | failed (err : EvalError)
  /-- The bound on the depth was reached. -/
  | exhausted

namespace Outcome

variable {α β : Type}

/-- Continues with the value, if there is one. -/
def bind (o : Outcome α) (f : α → Outcome β) : Outcome β :=
  match o with
  | done a => f a
  | failed err => failed err
  | exhausted => exhausted

instance : Monad Outcome where
  pure := done
  bind := bind

@[simp] theorem pure_eq (a : α) : (pure a : Outcome α) = done a := rfl

@[simp] theorem done_bind (a : α) (f : α → Outcome β) : (done a >>= f) = f a := rfl

@[simp] theorem failed_bind (err : EvalError) (f : α → Outcome β) :
    (failed err >>= f) = failed err := rfl

@[simp] theorem exhausted_bind (f : α → Outcome β) :
    ((exhausted : Outcome α) >>= f) = exhausted := rfl

instance : LawfulMonad Outcome :=
  LawfulMonad.mk' Outcome
    (by rintro α (_ | _ | _) <;> rfl)
    (fun _ _ => rfl)
    (by rintro α β γ (_ | _ | _) _ _ <;> rfl)

end Outcome
end FixpointLisp
