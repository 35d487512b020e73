import FixpointLisp.Proofs.Eval.Positions
import FixpointLisp.Proofs.Value.Bindings
import Mathlib.Tactic

/-!
# Equality of values

Equal values are equal throughout: in the numbers, texts and builtins in them, and in the
parameters, bodies and captured environments of closures, to any depth. Only numbers are compared in
a way of their own, where zero has no sign and what is not a number equals nothing. So equality is
an equivalence on the values in which no such number occurs.

* `Number.key`: what equality compares in a number. `Number.beq_iff` says so.
* `Closure.scopes`: the environments that a chain captured. `Closure.same_iff` compares chains by
  them, as `Bindings.same_iff` compares environments by what their names are bound to.
* `Value.captured_induction`: induction on values through what is bound in captured environments.
* `Value.OccursIn`: a value is another one or is bound in an environment captured in it.
* `Value.same_symm`, `Value.same_trans`, `Value.same_self_iff`: the three laws.
* `equality_of_values`: the laws, and that neither spans nor the order of bindings matter.
-/

namespace FixpointLisp

/-! ### Numbers -/

namespace Number

open Float.Model

/-- What equality compares in a number: zero is taken without its sign, and there is nothing to
compare in what is not a number. -/
def key (x : Float) : Option UnpackedFloat :=
  match x.toModel.unpack with
  | .notANumber => none
  | .zero _ => some (.zero .positive)
  | u => some u

theorem compare_eq_iff (u v : UnpackedFloat) :
    u.compare v = some .eq ↔
      u ≠ .notANumber ∧ (u = v ∨ (∃ s, u = .zero s) ∧ ∃ s, v = .zero s) := by
  have hnegative : compare UnpackedFloat.Sign.negative .negative = .eq := rfl
  have hpositive : compare UnpackedFloat.Sign.positive .positive = .eq := rfl
  rcases u with s | _ | s | ⟨s, m, e, hm⟩ <;> rcases v with t | _ | t | ⟨t, n, f, hn⟩ <;>
    try cases s <;> try cases t
  all_goals simp [UnpackedFloat.compare, hnegative, hpositive, and_comm]

/-- Numbers are equal if they have the same key. -/
theorem beq_iff {x y : Float} : x == y ↔ ∃ k, key x = some k ∧ key y = some k := by
  show (x.toModel.unpack.compare y.toModel.unpack == some .eq) = true ↔ _
  rw [beq_iff_eq, compare_eq_iff]
  unfold key
  cases x.toModel.unpack <;> cases y.toModel.unpack <;> simp [eq_comm]

theorem isNaN_iff {x : Float} : x.isNaN ↔ key x = none := by
  show x.toModel.unpack.isNaN = true ↔ _
  unfold key
  cases x.toModel.unpack <;> simp [UnpackedFloat.isNaN]

theorem beq_symm {x y : Float} (h : x == y) : y == x := by
  obtain ⟨k, hx, hy⟩ := beq_iff.1 h
  exact beq_iff.2 ⟨k, hy, hx⟩

theorem beq_trans {x y z : Float} (h : x == y) (h' : y == z) : x == z := by
  obtain ⟨k, hx, hy⟩ := beq_iff.1 h
  obtain ⟨k', hy', hz⟩ := beq_iff.1 h'
  rw [hy] at hy'
  exact beq_iff.2 ⟨k, hx, hy' ▸ hz⟩

theorem beq_self_iff {x : Float} : x == x ↔ ¬x.isNaN := by
  rw [beq_iff, isNaN_iff]
  simp [Option.ne_none_iff_exists']

end Number

/-! ### Chains and what they captured -/

/-- Rows of related elements can be put together, as long as relations of single elements can. -/
theorem forall₂_trans_of_mem {α : Type} {r : α → α → Prop} {as bs cs : List α}
    (h : List.Forall₂ r as bs) (h' : List.Forall₂ r bs cs)
    (htrans : ∀ a ∈ as, ∀ b c, r a b → r b c → r a c) : List.Forall₂ r as cs := by
  induction h generalizing cs with
  | nil => exact h'
  | cons hab _ ih =>
    cases h' with
    | cons hbc h' =>
      obtain ⟨hfirst, hrest⟩ := List.forall_mem_cons.1 htrans
      exact .cons (hfirst _ _ hab hbc) (ih h' hrest)

namespace Closure

/-- The environments that the links of a chain captured, in order. -/
def scopes : Closure → List Environment
  | last _ E _ => [E]
  | link _ E next => E :: next.scopes

/-- Chains are equal if their parameters, bodies and captured environments are. -/
theorem same_iff : ∀ {c d : Closure}, c.same d ↔
    c.params = d.params ∧ c.body.same d.body ∧
      List.Forall₂ (fun E F => E.same F) c.scopes d.scopes
  | last p E b, last q F e => by
    simp [same, params, body, scopes, and_assoc]
  | last p E b, link q F d => by
    have := d.params_ne_nil
    simp [same, params, Ne.symm this]
  | link p E c, last q F e => by
    have := c.params_ne_nil
    simp [same, params, this]
  | link p E c, link q F d => by
    have ih : c.same d ↔ _ := same_iff
    simp only [same, params, body, scopes, Bool.and_eq_true, beq_iff_eq, ih, List.cons.injEq,
      List.forall₂_cons]
    tauto

theorem sizeOf_lt_of_mem_scopes {E : Environment} :
    ∀ {c : Closure}, E ∈ c.scopes → sizeOf E < sizeOf c
  | last p F b, h => by
    obtain rfl := List.mem_singleton.1 h
    simp
    omega
  | link p F next, h => by
    rcases List.mem_cons.1 h with rfl | h
    · simp
      omega
    · have := sizeOf_lt_of_mem_scopes h
      simp
      omega

end Closure

theorem Bindings.sizeOf_lt_of_lookup {n : String} {v : Value} :
    ∀ {low : Option String} {E : Bindings low}, E.lookup n = some v → sizeOf v < sizeOf E
  | _, .nil, h => by cases h
  | _, .cons m w E above, h => by
    rw [lookup] at h
    split_ifs at h
    · cases h
      simp
      omega
    · have := sizeOf_lt_of_lookup h
      simp
      omega

namespace Value

/-- Whether a value is bound in one of the environments that a chain captured. -/
def CapturedBy (v : Value) (c : Closure) : Prop := ∃ E ∈ c.scopes, ∃ n, E.lookup n = some v

/-- Induction on values: a closure comes after all values that are bound in what it captured. -/
@[elab_as_elim]
theorem captured_induction {P : Value → Prop} (plain : ∀ v, (∀ c, v ≠ closure c) → P v)
    (closure : ∀ c, (∀ v, v.CapturedBy c → P v) → P (.closure c)) (v : Value) : P v := by
  cases v with
  | closure c =>
    refine closure c fun w hw => ?_
    have : sizeOf w < sizeOf (Value.closure c) := by
      obtain ⟨E, hE, n, hn⟩ := hw
      have := Bindings.sizeOf_lt_of_lookup hn
      have := Closure.sizeOf_lt_of_mem_scopes hE
      simp
      omega
    exact captured_induction plain closure w
  | _ => exact plain _ (by simp)
termination_by sizeOf v

/-- Whether a value is another one or is bound, to any depth, in an environment captured in it. -/
inductive OccursIn : Value → Value → Prop
  | self (v : Value) : OccursIn v v
  | captured {v w : Value} {c : Closure} (hw : w.CapturedBy c) (h : OccursIn v w) :
      OccursIn v (.closure c)

end Value

/-! ### The laws -/

namespace Bindings

variable {E F G : Environment}

theorem same_symm_of_values
    (hvalues : ∀ n v, E.lookup n = some v → ∀ w, v.same w → w.same v) (h : E.same F) :
    F.same E := by
  rw [same_iff] at h ⊢
  intro n
  have hn := h n
  cases hv : E.lookup n with
  | none =>
    rw [hv] at hn
    generalize F.lookup n = o at hn ⊢
    cases hn
    exact .none
  | some v =>
    rw [hv] at hn
    generalize F.lookup n = o at hn ⊢
    cases hn with
    | some hvw => exact .some (hvalues n v hv _ hvw)

theorem same_trans_of_values
    (hvalues : ∀ n u, E.lookup n = some u → ∀ v w, u.same v → v.same w → u.same w)
    (h : E.same F) (h' : F.same G) : E.same G := by
  rw [same_iff] at h h' ⊢
  intro n
  have hn := h n
  have hn' := h' n
  cases hu : E.lookup n with
  | none =>
    rw [hu] at hn
    generalize F.lookup n = o at hn hn'
    cases hn
    exact hn'
  | some u =>
    rw [hu] at hn
    generalize F.lookup n = o at hn hn'
    generalize G.lookup n = o' at hn' ⊢
    cases hn with
    | some huv =>
      cases hn' with
      | some hvw => exact .some (hvalues n u hu _ _ huv hvw)

theorem same_self_iff_of_values : E.same E ↔ ∀ n v, E.lookup n = some v → v.same v := by
  rw [same_iff]
  refine forall_congr' fun n => ?_
  cases E.lookup n with
  | none => simp
  | some v =>
    refine ⟨fun h w hw => ?_, fun h => .some (h v rfl)⟩
    cases h with
    | some hv => exact Option.some.inj hw ▸ hv

end Bindings

namespace Value

/-- Equal values that are no closures are the same value or numbers that are equal. -/
theorem eq_or_numbers_of_same {v w : Value} (hv : ∀ c, v ≠ closure c) (h : v.same w) :
    v = w ∨ ∃ x y, v = number x ∧ w = number y ∧ x == y := by
  cases v with
  | closure c => exact absurd rfl (hv c)
  | number x =>
    cases w with
    | number y => exact .inr ⟨x, y, rfl, rfl, h⟩
    | _ => cases h
  | _ => cases w <;> simp_all [same]

theorem same_symm {v w : Value} (h : v.same w) : w.same v := by
  induction v using captured_induction generalizing w with
  | plain v hv =>
    rcases eq_or_numbers_of_same hv h with rfl | ⟨x, y, rfl, rfl, hxy⟩
    · exact h
    · exact Number.beq_symm hxy
  | closure c ih =>
    cases w with
    | closure d =>
      rw [same, Closure.same_iff] at h ⊢
      obtain ⟨hparams, hbody, hscopes⟩ := h
      have hback : ∀ E ∈ c.scopes, ∀ F : Environment, E.same F → F.same E := fun E hE F =>
        Bindings.same_symm_of_values fun n v hv w => ih v ⟨E, hE, n, hv⟩
      refine ⟨hparams.symm, Likeness.symm_respanned hbody, .flip ?_⟩
      exact ((List.forall₂_and_left _ _).2 ⟨hback, hscopes⟩).imp fun E F h => h.1 F h.2
    | _ => cases h

theorem same_trans {u v w : Value} (h : u.same v) (h' : v.same w) : u.same w := by
  induction u using captured_induction generalizing v w with
  | plain u hu =>
    rcases eq_or_numbers_of_same hu h with rfl | ⟨x, y, rfl, rfl, hxy⟩
    · exact h'
    · rcases eq_or_numbers_of_same (by simp) h' with rfl | ⟨y', z, hy, rfl, hyz⟩
      · exact h
      · cases hy
        exact Number.beq_trans hxy hyz
  | closure c ih =>
    cases v with
    | closure d =>
      cases w with
      | closure e =>
        rw [same, Closure.same_iff] at h h' ⊢
        obtain ⟨hparams, hbody, hscopes⟩ := h
        obtain ⟨hparams', hbody', hscopes'⟩ := h'
        refine ⟨hparams.trans hparams', ?_, forall₂_trans_of_mem hscopes hscopes' ?_⟩
        · rw [Expr.same_iff_bare] at hbody hbody' ⊢
          exact hbody.trans hbody'
        · exact fun E hE F G =>
            Bindings.same_trans_of_values fun n u hu v w => ih u ⟨E, hE, n, hu⟩
      | _ => cases h'
    | _ => cases h

/-- A value equals itself if nothing in it is not a number. -/
theorem same_self_iff (v : Value) : v.same v ↔ ∀ x, OccursIn (number x) v → ¬x.isNaN := by
  induction v using captured_induction with
  | plain v hv =>
    have hoccurs : ∀ x, OccursIn (number x) v ↔ v = number x := by
      intro x
      refine ⟨fun h => ?_, fun h => h ▸ .self _⟩
      cases h with
      | self => rfl
      | captured _ _ => exact absurd rfl (hv _)
    cases v with
    | closure c => exact absurd rfl (hv c)
    | number x =>
      have hself : (number x).same (number x) ↔ ¬x.isNaN := Number.beq_self_iff
      refine hself.trans ⟨fun h y hy => ?_, fun h => h x (.self _)⟩
      cases (hoccurs y).1 hy
      exact h
    | _ => simp [hoccurs, same]
  | closure c ih =>
    have hself : (closure c).same (closure c) ↔ ∀ v : Value, v.CapturedBy c → v.same v := by
      rw [same, Closure.same_iff, List.forall₂_same, and_iff_right rfl,
        and_iff_right c.body.same_self]
      refine ⟨fun h v hv => ?_, fun h E hE => ?_⟩
      · obtain ⟨E, hE, n, hn⟩ := hv
        exact Bindings.same_self_iff_of_values.1 (h E hE) n v hn
      · exact Bindings.same_self_iff_of_values.2 fun n v hv => h v ⟨E, hE, n, hv⟩
    rw [hself]
    refine ⟨fun h x hx => ?_, fun h v hv => (ih v hv).2 fun x hx => h x (.captured hv hx)⟩
    cases hx with
    | captured hw hx => exact (ih _ hw).1 (h _ hw) x hx

end Value

/-- **Equality is an equivalence where no number is missing.** Equality of values is symmetric and
transitive, and a value equals itself just if nothing that is not a number occurs in it, in any
environment captured by any link of a closure, to any depth. It does not depend on spans. Captured
environments are compared by what each name is bound to, and how an environment was made by binding
names, in whatever order, matters only for which binding of a name was the last. -/
theorem equality_of_values :
    (∀ v w : Value, v.same w = w.same v) ∧
    (∀ u v w : Value, u.same v → v.same w → u.same w) ∧
    (∀ v : Value, v.same v ↔ ∀ x, (Value.number x).OccursIn v → ¬x.isNaN) ∧
    (∀ v v' w w' : Value, v.Like .respanned v' → w.Like .respanned w' → v.same w = v'.same w') ∧
    (∀ E F : Environment,
      E.same F ↔ ∀ n, Option.Rel (fun v w => v.same w) (E.lookup n) (F.lookup n)) ∧
    ∀ (E : Environment) (bs cs : List (String × Value)),
      (∀ n, bs.reverse.lookup n = cs.reverse.lookup n) → E.extend bs = E.extend cs := by
  refine ⟨fun v w => ?_, fun u v w => Value.same_trans, Value.same_self_iff, ?_,
    fun E F => Bindings.same_iff, fun E bs cs => E.extend_congr⟩
  · rw [Bool.eq_iff_iff]
    exact ⟨Value.same_symm, Value.same_symm⟩
  · exact fun v v' w w' => Value.Like.same_eq Likeness.lawful_respanned

/-- A closure of two links; what the first one captured binds a closure that captured a number. -/
def capturing (x : Float) (s : Span) : Value :=
  .closure (.link (some "a")
    (Environment.empty.bind "f"
      (.closure (.last (some "b") (Environment.empty.bind "n" (.number x)) (.atom "n" s))))
    (.last (some "c") Environment.empty (.atom "a" s)))

theorem capturing_respanned (x : Float) (s t : Span) :
    (capturing x s).Like .respanned (capturing x t) := by
  simp [capturing, Environment.empty, Environment.bind, Bindings.insert, Value.Like, Closure.Like,
    Bindings.Like, Likeness.respanned, Expr.same]

theorem occursIn_capturing (x : Float) (s : Span) : (Value.number x).OccursIn (capturing x s) := by
  have hinner : (Value.number x).CapturedBy
      (.last (some "b") (Environment.empty.bind "n" (.number x)) (.atom "n" s)) :=
    ⟨_, List.mem_singleton_self _, "n", by simp⟩
  exact .captured ⟨_, List.mem_cons_self, "f", by simp⟩ (.captured hinner (.self _))

/-- Closures that captured zero and negative zero deep inside are equal, wherever they were read
from, and a closure that captured what is not a number is not equal to itself. An environment does
not tell in which order two names were bound, nor that one of them had another value before. -/
theorem equality_of_values_capturing :
    let z : Value := capturing 0 ⟨0, 1⟩
    let z' : Value := capturing (-0.0) ⟨0, 1⟩
    let bs : List (String × Value) := [("a", .number 1), ("b", z), ("a", z')]
    let cs : List (String × Value) := [("a", z'), ("b", z)]
    z.same z' ∧ z'.same (capturing 0 ⟨7, 8⟩) ∧ z.same (capturing 0 ⟨7, 8⟩) ∧
      (capturing Number.nan ⟨0, 1⟩).same (capturing Number.nan ⟨0, 1⟩) = false ∧
      z.Like .respanned (capturing 0 ⟨7, 8⟩) ∧ z'.Like .respanned (capturing (-0.0) ⟨9, 9⟩) ∧
      z.same z' = (capturing 0 ⟨7, 8⟩).same (capturing (-0.0) ⟨9, 9⟩) ∧
      (∀ n, bs.reverse.lookup n = cs.reverse.lookup n) ∧
      Environment.empty.extend bs = Environment.empty.extend cs := by
  intro z z' bs cs
  obtain ⟨-, htrans, hself, hspans, -, horder⟩ := equality_of_values
  have h : z.same z' := by decide
  have h' : z'.same (capturing 0 ⟨7, 8⟩) := by decide
  have hnan : ¬(capturing Number.nan ⟨0, 1⟩).same (capturing Number.nan ⟨0, 1⟩) := fun h =>
    (hself _).1 h _ (occursIn_capturing _ _) rfl
  have hz := capturing_respanned 0 ⟨0, 1⟩ ⟨7, 8⟩
  have hz' := capturing_respanned (-0.0) ⟨0, 1⟩ ⟨9, 9⟩
  have hlast : ∀ n, bs.reverse.lookup n = cs.reverse.lookup n := by
    intro n
    by_cases ha : n = "a"
    · subst ha
      rfl
    · have ha' : (n == "a") = false := beq_eq_false_iff_ne.2 ha
      simp [bs, cs, List.lookup_cons, ha']
  exact ⟨h, h', htrans _ _ _ h h', Bool.eq_false_iff.2 hnan, hz, hz', hspans _ _ _ _ hz hz', hlast,
    horder _ _ _ hlast⟩

end FixpointLisp
