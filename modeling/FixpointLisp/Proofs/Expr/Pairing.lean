import FixpointLisp.Proofs.Expr.Readback
import Mathlib.Order.Bounds.Basic
import Mathlib.Tactic

/-!
# Pairs of brackets

An opening and a closing bracket belong together when all brackets between them match. Each bracket
belongs to at most one other. Those that belong to none are a stray closing bracket, which has
nothing to close, and an opening bracket that is left open.

* `IsPair`, `IsStray`, `IsLeftOpen` say this of the tokens at given indices.
* `exists_isPair_iff`, `exists_isPair_iff_closes`: a bracket belongs to another one if it closes or
  is closed. `IsPair.unique_open`, `IsPair.unique_close`: and to no more than one.
* `nesting_eq_none_iff`, `isLeast_isStray_iff`: counting the open brackets fails at the first stray
  one. `openAfter_pos_iff`: what is counted at the end was left open.
* `OpenBrackets`: the stack of the brackets that are open behind some tokens. `OpenBrackets.push`,
  `OpenBrackets.pop`, `OpenBrackets.stray` and `OpenBrackets.append_matched` say what further tokens
  do to it.
-/

namespace FixpointLisp

variable {ks ls : List TokenKind} {i j n depth : ℕ}

/-- Whether the token at index `i` is an opening bracket, the one at index `j` a closing bracket
behind it, and all brackets between the two match. -/
def IsPair (ks : List TokenKind) (i j : ℕ) : Prop :=
  (ks.take j)[i]? = some .openParen ∧ ks[j]? = some .closeParen ∧
    nesting 0 ((ks.take j).drop (i + 1)) = some 0

instance (ks : List TokenKind) (i j : ℕ) : Decidable (IsPair ks i j) :=
  inferInstanceAs (Decidable (_ ∧ _ ∧ _))

/-- Whether the token at index `j` is a closing bracket without an opening one. -/
def IsStray (ks : List TokenKind) (j : ℕ) : Prop :=
  ks[j]? = some .closeParen ∧ ∀ i, ¬IsPair ks i j

/-- Whether the token at index `i` is an opening bracket without a closing one. -/
def IsLeftOpen (ks : List TokenKind) (i : ℕ) : Prop :=
  ks[i]? = some .openParen ∧ ∀ j, ¬IsPair ks i j

/-! ### Which brackets belong together -/

theorem eq_append_of_getElem? {α : Type*} {l : List α} {a : α} (h : l[n]? = some a) :
    l = l.take n ++ a :: l.drop (n + 1) := by
  obtain ⟨hlt, rfl⟩ := List.getElem?_eq_some_iff.1 h
  rw [List.getElem_cons_drop, List.take_append_drop]

theorem lt_of_getElem?_take {α : Type*} {l : List α} {a : α} (h : (l.take n)[i]? = some a) :
    i < n := by
  obtain ⟨hlt, -⟩ := List.getElem?_eq_some_iff.1 h
  exact lt_of_lt_of_le hlt (List.length_take_le n l)

theorem opens_iff_exists :
    Opens n ks ↔ ∃ i : ℕ, ks[i]? = some .openParen ∧ nesting 0 (ks.drop (i + 1)) = some n := by
  constructor
  · rintro ⟨before, between, rfl, h⟩
    exact ⟨before.length, by simp, by simpa using h⟩
  · rintro ⟨i, hi, h⟩
    exact ⟨ks.take i, ks.drop (i + 1), eq_append_of_getElem? hi, h⟩

theorem closes_iff_exists :
    Closes n ks ↔ ∃ j : ℕ, ks[j]? = some .closeParen ∧ nesting n (ks.take j) = some 0 := by
  constructor
  · rintro ⟨between, behind, rfl, h⟩
    exact ⟨between.length, by simp, by simpa using h⟩
  · rintro ⟨j, hj, h⟩
    exact ⟨ks.take j, ks.drop (j + 1), eq_append_of_getElem? hj, h⟩

theorem exists_isPair_iff :
    (∃ i, IsPair ks i j) ↔ ks[j]? = some .closeParen ∧ Opens 0 (ks.take j) := by
  rw [opens_iff_exists]
  constructor
  · rintro ⟨i, hopen, hclose, hbetween⟩
    exact ⟨hclose, i, hopen, hbetween⟩
  · rintro ⟨hclose, i, hopen, hbetween⟩
    exact ⟨i, hopen, hclose, hbetween⟩

theorem isStray_iff : IsStray ks j ↔ ks[j]? = some .closeParen ∧ ¬Opens 0 (ks.take j) := by
  rw [IsStray, ← not_exists, exists_isPair_iff]
  tauto

theorem IsPair.lt (h : IsPair ks i j) : i < j := lt_of_getElem?_take h.1

theorem IsPair.lt_length (h : IsPair ks i j) : j < ks.length :=
  (List.getElem?_eq_some_iff.1 h.2.1).1

theorem IsPair.getElem?_open (h : IsPair ks i j) : ks[i]? = some .openParen := by
  rw [← h.1, List.getElem?_take_of_lt h.lt]

theorem exists_isPair_iff_closes :
    (∃ j, IsPair ks i j) ↔ ks[i]? = some .openParen ∧ Closes 0 (ks.drop (i + 1)) := by
  rw [closes_iff_exists]
  constructor
  · rintro ⟨j, h⟩
    obtain ⟨m, rfl⟩ := Nat.exists_eq_add_of_le h.lt
    refine ⟨h.getElem?_open, m, ?_, ?_⟩
    · rw [List.getElem?_drop, h.2.1]
    · rw [List.take_drop, h.2.2]
  · rintro ⟨hopen, m, hclose, hbetween⟩
    rw [List.getElem?_drop] at hclose
    rw [List.take_drop] at hbetween
    exact ⟨i + 1 + m, by rwa [List.getElem?_take_of_lt (by omega)], hclose, hbetween⟩

theorem isLeftOpen_iff :
    IsLeftOpen ks i ↔ ks[i]? = some .openParen ∧ ¬Closes 0 (ks.drop (i + 1)) := by
  rw [IsLeftOpen, ← not_exists, exists_isPair_iff_closes]
  tauto

/-- Pairs are not changed by what follows them. -/
theorem isPair_append (h : j < ks.length) : IsPair (ks ++ ls) i j ↔ IsPair ks i j := by
  rw [IsPair, IsPair, List.take_append_of_le_length h.le, List.getElem?_append_left h]

theorem getElem?_concat_eq_some_iff {α : Type*} {l : List α} {a b : α} :
    (l ++ [a])[n]? = some b ↔ l[n]? = some b ∨ n = l.length ∧ a = b := by
  rcases lt_trichotomy n l.length with h | rfl | h
  · rw [List.getElem?_append_left h]
    simp [h.ne]
  · simp
  · have hout : (l ++ [a])[n]? = none := by
      rw [List.getElem?_eq_none_iff, List.length_append, List.length_singleton]
      omega
    simp [hout, List.getElem?_eq_none h.le, h.ne']

/-- One more token adds pairs only if it is their closing bracket. -/
theorem isPair_concat_iff {k : TokenKind} :
    IsPair (ks ++ [k]) i j ↔ IsPair ks i j ∨ j = ks.length ∧ IsPair (ks ++ [k]) i j := by
  by_cases hlt : j < ks.length
  · rw [isPair_append hlt]
    simp [hlt.ne]
  · have hks : ¬IsPair ks i j := fun h => hlt h.lt_length
    constructor
    · intro h
      have := h.lt_length
      rw [List.length_append, List.length_singleton] at this
      exact .inr ⟨by omega, h⟩
    · rintro (h | ⟨-, h⟩)
      · exact absurd h hks
      · exact h

/-- A token that adds no pair is stray if it is a closing bracket. -/
theorem isStray_concat_iff {k : TokenKind} (hpair : ∀ i, IsPair (ks ++ [k]) i n ↔ IsPair ks i n) :
    IsStray (ks ++ [k]) n ↔ IsStray ks n ∨ n = ks.length ∧ k = .closeParen := by
  simp only [IsStray, hpair, getElem?_concat_eq_some_iff, or_and_right]
  refine or_congr_right (and_iff_left_of_imp ?_)
  rintro ⟨rfl, -⟩ i h
  exact lt_irrefl _ h.lt_length

theorem isPair_concat_of_ne {k : TokenKind} (hk : k ≠ .closeParen) :
    IsPair (ks ++ [k]) i j ↔ IsPair ks i j := by
  rw [isPair_concat_iff, or_iff_left]
  rintro ⟨rfl, h⟩
  have hclose := h.2.1
  rw [List.getElem?_concat_length, Option.some_inj] at hclose
  exact hk hclose

theorem isStray_take (h : j < n) : IsStray (ks.take n) j ↔ IsStray ks j := by
  rw [isStray_iff, isStray_iff, List.getElem?_take_of_lt h, List.take_take, min_eq_left h.le]

/-- More brackets that are open in front of some tokens are still open behind them. -/
theorem nesting_add (h : nesting depth ks = some n) (m : ℕ) :
    nesting (depth + m) ks = some (n + m) := by
  fun_induction nesting depth ks with
  | case1 depth =>
    cases h
    rfl
  | case2 depth ks ih =>
    rw [nesting, ← ih h]
    congr 1
    omega
  | case3 ks => cases h
  | case4 depth ks ih => rw [show depth + 1 + m = depth + m + 1 by omega, nesting, ih h]
  | case5 depth text ks ih => rw [nesting, ih h]
  | case6 depth text ks ih => rw [nesting, ih h]

theorem IsPair.unique_close {j' : ℕ} (h : IsPair ks i j) (h' : IsPair ks i j') : j = j' := by
  by_contra hne
  wlog hlt : j < j' generalizing j j'
  · exact this h' h (Ne.symm hne) (by omega)
  have hclose : (ks.take j')[j]? = some .closeParen := by
    rw [List.getElem?_take_of_lt hlt, h.2.1]
  have hbetween := h'.2.2
  have hle : i + 1 ≤ ((ks.take j').take j).length := by
    have := h.lt_length
    have := h.lt
    simp only [List.length_take]
    omega
  -- The first closing bracket stands between the opening one and the second.
  rw [eq_append_of_getElem? hclose, List.drop_append_of_le_length hle, List.take_take,
    min_eq_left hlt.le, nesting_append, h.2.2] at hbetween
  cases hbetween

theorem IsPair.unique_open {i' : ℕ} (h : IsPair ks i j) (h' : IsPair ks i' j) : i = i' := by
  by_contra hne
  wlog hlt : i < i' generalizing i i'
  · exact this h' h (Ne.symm hne) (by omega)
  have hbetween := h.2.2
  have hle : i + 1 ≤ ((ks.take j).take i').length := by
    have := h'.lt_length
    have := h'.lt
    simp only [List.length_take]
    omega
  -- The second opening bracket stands between the first one and the closing bracket.
  rw [eq_append_of_getElem? h'.1, List.drop_append_of_le_length hle, nesting_append,
    Option.bind_eq_some_iff] at hbetween
  obtain ⟨m, -, hrest⟩ := hbetween
  have hmore := nesting_add h'.2.2 (m + 1)
  rw [nesting] at hrest
  rw [Nat.zero_add, hrest] at hmore
  cases hmore

/-! ### Where counting fails -/

theorem openAfter_of_nesting (h : nesting depth ks = some n) : openAfter depth ks = n := by
  fun_induction nesting depth ks with simp_all [openAfter]

theorem nesting_eq_none_iff_openAfter :
    nesting depth ks = none ↔
      ∃ j : ℕ, ks[j]? = some .closeParen ∧ openAfter depth (ks.take j) = 0 := by
  induction ks generalizing depth with
  | nil => simp [nesting]
  | cons k ks ih =>
    rw [← Nat.or_exists_add_one]
    cases k with
    | openParen => simp [nesting, openAfter, ih]
    | closeParen => cases depth <;> simp [nesting, openAfter, ih]
    | quoted text => simp [nesting, openAfter, ih]
    | atom text => simp [nesting, openAfter, ih]

/-- Counting the open brackets fails if there is a stray one. -/
theorem nesting_eq_none_iff : nesting 0 ks = none ↔ ∃ j, IsStray ks j := by
  simp only [nesting_eq_none_iff_openAfter, isStray_iff, ← lt_openAfter_iff, Nat.pos_iff_ne_zero,
    not_not]

/-- The first stray bracket is a closing bracket in front of which all brackets match. -/
theorem isLeast_isStray_iff :
    IsLeast {j | IsStray ks j} j ↔ ks[j]? = some .closeParen ∧ nesting 0 (ks.take j) = some 0 := by
  constructor
  · rintro ⟨hstray, hleast⟩
    obtain ⟨hclose, hopens⟩ := isStray_iff.1 hstray
    rw [← lt_openAfter_iff, Nat.pos_iff_ne_zero, not_not] at hopens
    refine ⟨hclose, ?_⟩
    cases hnesting : nesting 0 (ks.take j) with
    | some n => rw [← openAfter_of_nesting hnesting, hopens]
    | none =>
      obtain ⟨j', hj'⟩ := nesting_eq_none_iff.1 hnesting
      have hlt : j' < j := lt_of_getElem?_take hj'.1
      exact absurd (hleast ((isStray_take hlt).1 hj')) (Nat.not_le_of_lt hlt)
  · rintro ⟨hclose, hnesting⟩
    refine ⟨isStray_iff.2 ⟨hclose, ?_⟩, fun j' hj' => ?_⟩
    · rw [← lt_openAfter_iff, openAfter_of_nesting hnesting]
      exact Nat.not_lt_zero 0
    · by_contra hlt
      have hnone := nesting_eq_none_iff.2 ⟨j', (isStray_take (Nat.lt_of_not_le hlt)).2 hj'⟩
      rw [hnesting] at hnone
      cases hnone

/-- Brackets are left open if some opening bracket has no closing one. -/
theorem leftOpenCount_pos_iff : 0 < leftOpenCount ks ↔ ∃ i, IsLeftOpen ks i := by
  simp only [isLeftOpen_iff]
  induction ks with
  | nil => simp [leftOpenCount]
  | cons k ks ih =>
    rw [leftOpenCount, ← Nat.or_exists_add_one]
    simp only [List.getElem?_cons_zero, List.getElem?_cons_succ, List.drop_succ_cons, ← ih,
      List.drop_zero, Option.some.injEq]
    split_ifs with h
    · simp [h]
    · simp [h]

theorem opens_zero_iff : Opens 0 ks ↔ ∃ i, IsLeftOpen ks i := by
  rw [← lt_openAfter_iff, openAfter_eq, Nat.zero_sub, Nat.zero_add, leftOpenCount_pos_iff]

/-! ### The open brackets -/

/-- Whether the brackets at the given indices, the innermost first, are those that are open behind
some tokens. -/
inductive OpenBrackets : List ℕ → List TokenKind → Prop
  | nil {ks : List TokenKind} (h : ¬Opens 0 ks) : OpenBrackets [] ks
  | cons {is : List ℕ} {before between : List TokenKind} (h : OpenBrackets is before)
      (hbetween : nesting 0 between = some 0) :
      OpenBrackets (before.length :: is) (before ++ .openParen :: between)

namespace OpenBrackets

variable {is : List ℕ}

/-- Tokens whose brackets match leave the open brackets as they are. -/
theorem append_matched (h : OpenBrackets is ks) (hls : nesting 0 ls = some 0) :
    OpenBrackets is (ks ++ ls) := by
  cases h with
  | nil h =>
    refine .nil ?_
    rw [← lt_openAfter_iff] at h ⊢
    rw [openAfter_append, Nat.eq_zero_of_not_pos h, openAfter_of_nesting hls]
    exact Nat.not_lt_zero 0
  | @cons is before between h hbetween =>
    rw [List.append_assoc, List.cons_append]
    refine .cons h ?_
    rw [nesting_append, hbetween]
    exact hls

theorem push (h : OpenBrackets is ks) : OpenBrackets (ks.length :: is) (ks ++ [.openParen]) :=
  .cons h rfl

/-- A closing bracket belongs to the innermost bracket that is open. -/
theorem pop (h : OpenBrackets (i :: is) ks) :
    OpenBrackets is (ks ++ [.closeParen]) ∧ IsPair (ks ++ [.closeParen]) i ks.length := by
  cases h with
  | @cons is before between h hbetween =>
    constructor
    · rw [List.append_assoc]
      refine h.append_matched ?_
      rw [List.cons_append, nesting, nesting_append, nesting_add hbetween 1]
      rfl
    · rw [IsPair, List.take_left]
      exact ⟨by simp, by simp, by simpa using hbetween⟩

/-- A closing bracket behind which nothing is open is stray. -/
theorem stray (h : OpenBrackets [] ks) :
    OpenBrackets [] (ks ++ [.closeParen]) ∧ IsStray (ks ++ [.closeParen]) ks.length := by
  cases h with
  | nil h =>
    refine ⟨.nil ?_, isStray_iff.2 ⟨by simp, by simpa using h⟩⟩
    rw [← lt_openAfter_iff] at h ⊢
    rw [openAfter_append]
    simp only [openAfter]
    omega

/-- So the closing bracket adds this pair and no other one. -/
theorem isPair_concat (h : OpenBrackets (i :: is) ks) {i' j : ℕ} :
    IsPair (ks ++ [.closeParen]) i' j ↔ IsPair ks i' j ∨ i' = i ∧ j = ks.length := by
  rw [isPair_concat_iff]
  refine or_congr_right ⟨?_, ?_⟩
  · rintro ⟨rfl, h'⟩
    exact ⟨h'.unique_open h.pop.2, rfl⟩
  · rintro ⟨rfl, rfl⟩
    exact ⟨rfl, h.pop.2⟩

/-- And no bracket becomes stray. -/
theorem isStray_concat (h : OpenBrackets (i :: is) ks) :
    IsStray (ks ++ [.closeParen]) n ↔ IsStray ks n := by
  simp only [IsStray, h.isPair_concat, getElem?_concat_eq_some_iff, not_or, forall_and]
  constructor
  · rintro ⟨hclose | ⟨rfl, -⟩, hnone, hne⟩
    · exact ⟨hclose, hnone⟩
    · exact absurd ⟨rfl, rfl⟩ (hne i)
  · rintro ⟨hclose, hnone⟩
    refine ⟨.inl hclose, hnone, ?_⟩
    rintro _ ⟨-, rfl⟩
    simp at hclose

/-- A stray bracket adds no pair. -/
theorem isPair_concat_stray (h : OpenBrackets [] ks) :
    IsPair (ks ++ [.closeParen]) i j ↔ IsPair ks i j := by
  rw [isPair_concat_iff, or_iff_left]
  rintro ⟨rfl, h'⟩
  exact h.stray.2.2 i h'

/-- Every open bracket is one of the tokens. -/
theorem lt_length (h : OpenBrackets is ks) : ∀ i ∈ is, i < ks.length := by
  induction h with
  | nil h => simp
  | @cons is before between h hbetween ih =>
    refine List.forall_mem_cons.2 ⟨by simp, fun i hi => ?_⟩
    have := ih i hi
    rw [List.length_append]
    omega

/-- The other open brackets stand in front of the innermost one. -/
theorem lt_head (h : OpenBrackets (i :: is) ks) : ∀ i' ∈ is, i' < i := by
  cases h with
  | cons h hbetween => exact h.lt_length

end OpenBrackets
end FixpointLisp
