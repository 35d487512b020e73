import FixpointLisp.Eval.Outcome
import Mathlib.Tactic

/-!
# Taking outcomes apart

A computation in several steps gives a value only if every step does, and an error only if one of
its steps gives that very error: errors are passed on as they are.

* `bind_eq_done_iff` and `bind_eq_failed_iff` invert two steps in a row.
* `exists_of_mapM_eq_failed` finds the step that failed in a row of equal steps, and
  `mapM_eq_done_iff` says that none did.
* `mapM_append_bind_of_ne_done`: the first step that gives no value decides.
-/

namespace FixpointLisp
namespace Outcome

variable {α β : Type} {o : Outcome α} {f : α → Outcome β}

theorem bind_eq_done_iff {b : β} : (o >>= f) = done b ↔ ∃ a, o = done a ∧ f a = done b := by
  cases o with
  | done a => simp
  | failed err => simp
  | exhausted => simp

theorem bind_eq_failed_iff {err : EvalError} :
    (o >>= f) = failed err ↔ o = failed err ∨ ∃ a, o = done a ∧ f a = failed err := by
  cases o with
  | done a => simp
  | failed err => simp
  | exhausted => simp

theorem exists_of_mapM_eq_failed {xs : List α} {err : EvalError} (h : xs.mapM f = failed err) :
    ∃ x ∈ xs, f x = failed err := by
  induction xs with
  | nil => cases h
  | cons x xs ih =>
    rw [List.mapM_cons, bind_eq_failed_iff] at h
    rcases h with h | ⟨b, -, h⟩
    · exact ⟨x, List.mem_cons_self, h⟩
    · rw [bind_eq_failed_iff] at h
      rcases h with h | ⟨bs, -, h⟩
      · obtain ⟨y, hy, hfail⟩ := ih h
        exact ⟨y, List.mem_cons_of_mem x hy, hfail⟩
      · cases h

theorem forall₂_of_mapM_eq_done {xs : List α} {ys : List β} (h : xs.mapM f = done ys) :
    List.Forall₂ (fun x y => f x = done y) xs ys := by
  induction xs generalizing ys with
  | nil =>
    cases h
    exact .nil
  | cons x xs ih =>
    rw [List.mapM_cons, bind_eq_done_iff] at h
    obtain ⟨y, hy, h⟩ := h
    obtain ⟨ys, hys, h⟩ := bind_eq_done_iff.1 h
    cases h
    exact .cons hy (ih hys)

theorem mapM_eq_done_iff {xs : List α} {ys : List β} :
    xs.mapM f = done ys ↔ List.Forall₂ (fun x y => f x = done y) xs ys := by
  refine ⟨forall₂_of_mapM_eq_done, fun h => ?_⟩
  induction h with
  | nil => rfl
  | cons hxy _ ih => rw [List.mapM_cons, hxy, done_bind, ih, done_bind, pure_eq]

/-- A row of steps gives values if each step does. -/
theorem exists_mapM_eq_done_iff {xs : List α} :
    (∃ ys, xs.mapM f = done ys) ↔ ∀ x ∈ xs, ∃ y, f x = done y := by
  simp only [mapM_eq_done_iff]
  induction xs with
  | nil => simp
  | cons x xs ih => simp [List.forall₂_cons_left_iff, ← ih]

/-- What is done to the value of each step can be done to all values in the end. -/
theorem mapM_bind_done {γ : Type} (f : α → Outcome β) (g : β → γ) (xs : List α) :
    (xs.mapM fun x => f x >>= fun y => done (g y)) =
      xs.mapM f >>= fun ys => done (ys.map g) := by
  induction xs with
  | nil => rfl
  | cons x xs ih => simp [List.mapM_cons, ih, bind_assoc]

/-- Two ways to continue may be exchanged if they agree on the value. -/
theorem bind_congr_of_done {g : α → Outcome β} (h : ∀ a, o = done a → f a = g a) :
    (o >>= f) = (o >>= g) := by
  cases o with
  | done a => exact h a rfl
  | failed err => rfl
  | exhausted => rfl

/-- A step that gives no value ends a row of steps, and what continues the row has no part in it. -/
theorem mapM_append_bind_of_ne_done {front rest : List α} {ys : List β} {x : α}
    {g : List β → Outcome β} (hfront : List.Forall₂ (fun x y => f x = done y) front ys)
    (hx : ∀ y, f x ≠ done y) :
    ((front ++ x :: rest).mapM f >>= g) = f x := by
  rw [List.mapM_append, mapM_eq_done_iff.2 hfront, done_bind, List.mapM_cons]
  cases h : f x with
  | done y => exact absurd h (hx y)
  | failed err => rfl
  | exhausted => rfl

end Outcome
end FixpointLisp
