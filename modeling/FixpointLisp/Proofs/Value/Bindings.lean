import FixpointLisp.Value.Environment
import Mathlib.Tactic

/-!
# Rows of bindings, name by name

The order of a row and its lower bound are part of its type. So a row is known from what each name
is bound to: looking up all names tells two rows apart, and comparing two rows one binding after the
other comes to the same as comparing them name by name.

* `above_of_lookup`: the names of a row lie above its lower bound.
* `mem_names_iff`, `pairwise_names`: the list of names holds just the bound ones, each once and in
  increasing order.
* `forall₂_toList`: rows that are related name by name are related binding by binding.
* `same_iff`: two rows are equal if each name is bound in neither or to values that are equal.
* `ext_lookup`: rows that give every name the same value are the same row.
  `Environment.extend_congr`: so only the last binding of each name counts, wherever it stands.
-/

namespace FixpointLisp

theorem Above.of_lt {low : Option String} {m n : String} (hm : Above low m) (h : m < n) :
    Above low n := by
  cases low with
  | none => trivial
  | some low => exact String.lt_trans hm h

namespace Bindings

variable {low low' : Option String}

theorem above_of_lookup {n : String} {v : Value} :
    ∀ {low : Option String} {E : Bindings low}, E.lookup n = some v → Above low n
  | _, .nil, h => by cases h
  | _, .cons m w rest above, h => by
    rw [lookup] at h
    split_ifs at h with hm
    · exact hm ▸ above
    · exact above.of_lt (above_of_lookup h)

/-- The first name of a row is not bound in the rest of it. -/
theorem lookup_rest_self {n : String} (E : Bindings (some n)) : E.lookup n = none := by
  by_contra h
  obtain ⟨v, hv⟩ := Option.ne_none_iff_exists'.1 h
  exact String.lt_irrefl n (above_of_lookup hv)

/-! ### The names of a row -/

theorem mem_names_iff {n : String} :
    ∀ {low : Option String} {E : Bindings low}, n ∈ E.names ↔ ∃ v, E.lookup n = some v
  | _, .nil => by simp [names, toList, lookup]
  | _, .cons m v rest above => by
    have ih : n ∈ rest.names ↔ ∃ v, rest.lookup n = some v := mem_names_iff
    rw [names, toList, List.map_cons, List.mem_cons, ← names, ih, lookup]
    split_ifs with hm
    · simp [hm]
    · simp [Ne.symm hm]

theorem pairwise_names :
    ∀ {low : Option String} (E : Bindings low), E.names.Pairwise (· < ·)
  | _, .nil => .nil
  | _, .cons m v rest above => by
    refine .cons (fun n hn => ?_) (pairwise_names rest)
    obtain ⟨w, hw⟩ := mem_names_iff.1 hn
    exact above_of_lookup hw

/-! ### Comparing rows -/

/-- Rows that are related name by name have the same names and are related binding by binding. -/
theorem forall₂_toList {r : Value → Value → Prop} :
    ∀ {low low' : Option String} {E : Bindings low} {F : Bindings low'},
      (∀ n, Option.Rel r (E.lookup n) (F.lookup n)) →
        List.Forall₂ (fun b c => b.1 = c.1 ∧ r b.2 c.2) E.toList F.toList
  | _, _, .nil, .nil, _ => .nil
  | _, _, .nil, .cons m w F above, h => by
    have hm := h m
    simp only [lookup, if_true] at hm
    cases hm
  | _, _, .cons n v E above, .nil, h => by
    have hn := h n
    simp only [lookup, if_true] at hn
    cases hn
  | _, _, .cons n v E above, .cons m w F above', h => by
    -- The smaller one of two different first names would be bound in one row only.
    obtain rfl : n = m := by
      have hn := h n
      have hm := h m
      by_contra hne
      simp only [lookup, if_true, if_neg hne, if_neg (Ne.symm hne)] at hn hm
      generalize hF : F.lookup n = o at hn
      generalize hE : E.lookup m = o' at hm
      cases hn
      cases hm
      exact String.lt_irrefl n (String.lt_trans (above_of_lookup hE) (above_of_lookup hF))
    have hrest : ∀ k, Option.Rel r (E.lookup k) (F.lookup k) := by
      intro k
      by_cases hk : n = k
      · rw [← hk, lookup_rest_self, lookup_rest_self]
        exact .none
      · simpa [lookup, hk] using h k
    have hfirst := h n
    simp only [lookup, if_true] at hfirst
    cases hfirst with
    | some hv => exact .cons ⟨rfl, hv⟩ (forall₂_toList hrest)

theorem lookup_eq_lookup_toList (n : String) :
    ∀ {low : Option String} (E : Bindings low), E.lookup n = E.toList.lookup n
  | _, .nil => rfl
  | _, .cons m v E _ => by
    rw [lookup, toList, List.lookup_cons, lookup_eq_lookup_toList n E]
    by_cases hm : m = n
    · simp [hm]
    · simp [hm, beq_eq_false_iff_ne.2 (Ne.symm hm)]

theorem same_iff_forall₂ :
    ∀ {low low' : Option String} {E : Bindings low} {F : Bindings low'},
      E.same F ↔ List.Forall₂ (fun b c => b.1 = c.1 ∧ b.2.same c.2) E.toList F.toList
  | _, _, .nil, .nil => by simp [same, toList]
  | _, _, .nil, .cons m w F _ => by simp [same, toList]
  | _, _, .cons n v E _, .nil => by simp [same, toList]
  | _, _, .cons n v E _, .cons m w F _ => by
    have ih : E.same F ↔ _ := same_iff_forall₂
    simp [same, toList, ih]

/-- Rows are equal if each name is bound in neither of them or to values that are equal. -/
theorem same_iff {E : Bindings low} {F : Bindings low'} :
    E.same F ↔ ∀ n, Option.Rel (fun v w => v.same w) (E.lookup n) (F.lookup n) := by
  refine ⟨fun h n => ?_, fun h => same_iff_forall₂.2 (forall₂_toList h)⟩
  rw [lookup_eq_lookup_toList, lookup_eq_lookup_toList]
  have h := same_iff_forall₂.1 h
  generalize E.toList = bs at h
  generalize F.toList = cs at h
  induction h with
  | nil => exact .none
  | @cons b c bs cs hbc _ ih =>
    obtain ⟨hname, hvalue⟩ := hbc
    rw [List.lookup_cons, List.lookup_cons, hname]
    cases n == c.1 with
    | true => exact .some hvalue
    | false => exact ih

theorem toList_injective :
    ∀ {low : Option String} {E F : Bindings low}, E.toList = F.toList → E = F
  | _, .nil, .nil, _ => rfl
  | _, .nil, .cons _ _ _ _, h => by cases h
  | _, .cons _ _ _ _, .nil, h => by cases h
  | _, .cons n v E _, .cons m w F _, h => by
    obtain ⟨hfirst, hrest⟩ := List.cons.inj h
    cases hfirst
    rw [toList_injective hrest]

/-- Rows that give every name the same value are the same row. -/
theorem ext_lookup {E F : Bindings low} (h : ∀ n, E.lookup n = F.lookup n) : E = F := by
  have hrel : ∀ n, Option.Rel Eq (E.lookup n) (F.lookup n) := by
    intro n
    rw [h n]
    cases F.lookup n with
    | none => exact .none
    | some v => exact .some rfl
  refine toList_injective (List.forall₂_eq_eq_eq ▸ (forall₂_toList hrel).imp fun b c hbc => ?_)
  exact Prod.ext hbc.1 hbc.2

end Bindings

/-- Of the bindings that an environment is extended by, the last one of each name counts, wherever
it stands among the others. -/
theorem Environment.extend_congr (E : Environment) {bs cs : List (String × Value)}
    (h : ∀ n, bs.reverse.lookup n = cs.reverse.lookup n) : E.extend bs = E.extend cs :=
  Bindings.ext_lookup fun n => by rw [lookup_extend, lookup_extend, h n]

end FixpointLisp
