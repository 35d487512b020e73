import FixpointLisp.Proofs.Number.RoundTrip
import FixpointLisp.Value.Literal
import Mathlib.Tactic

/-!
# Canonical spellings of literals

A value that a literal can spell is spelled by its own canonical text.

* `ofLiteral?_write`, `ofLiteral?_boolText`, `ofLiteral?_quote`: the canonical text of a number, of a
  truth value and of a string is a literal for that value.
* `exists_canonical`: every literal has a canonical spelling, which is a fixed point: it spells the
  same value and is the canonical text of that value.
* `ofLiteral?_name`: the name of a builtin is no literal.
-/

namespace FixpointLisp
namespace Value

theorem ofLiteral?_write (x : Float) : ofLiteral? (Number.write x) = some (number x) := by
  rw [ofLiteral?, Number.read?_write]

theorem ofLiteral?_boolText (b : Bool) : ofLiteral? (boolText b) = some (boolean b) := by
  cases b <;> rfl

theorem toList_quote (s : String) : (quote s).toList = '"' :: (s.toList ++ ['"']) := by
  simp [quote]

/-- A word of the language does not start with a double quote. -/
theorem sameWord_quote (s : String) {w : String} {c : Char} (hw : w.toList.head? = some c)
    (hc : c.toLower ≠ '"') : Text.sameWord (quote s) w = false := by
  obtain ⟨cs, hcs⟩ := List.head?_eq_some_iff.1 hw
  rw [Text.sameWord, toList_quote, hcs]
  simp only [List.map_cons, beq_eq_false_iff_ne]
  intro h
  exact hc (List.head_eq_of_cons_eq h).symm

theorem read?_quote (s : String) : Number.read? (quote s) = none := by
  have hsign : Number.cutSign (quote s).toList = (false, (quote s).toList) := by
    rw [toList_quote]
    rfl
  have hdecimal : Number.readDecimal? (quote s).toList = none := by
    rw [toList_quote]
    rfl
  have hinf : Text.sameWord (quote s) "inf" = false := sameWord_quote s rfl (by decide)
  have hinfinity : Text.sameWord (quote s) "infinity" = false := sameWord_quote s rfl (by decide)
  have hnan : Text.sameWord (quote s) "nan" = false := sameWord_quote s rfl (by decide)
  simp [Number.read?, hsign, hdecimal, Number.readWord?, hinf, hinfinity, hnan]

theorem ofLiteral?_quote (s : String) : ofLiteral? (quote s) = some (string s) := by
  have htrue : Text.sameWord (quote s) "true" = false := sameWord_quote s rfl (by decide)
  have hfalse : Text.sameWord (quote s) "false" = false := sameWord_quote s rfl (by decide)
  simp [ofLiteral?, read?_quote, htrue, hfalse, toList_quote, unquote?]

theorem ofLiteral?_name (b : Builtin) : ofLiteral? b.name = none := by
  cases b <;> decide

/-- A literal spells a number, a truth value or a string. -/
theorem ofLiteral?_cases {text : String} {v : Value} (h : ofLiteral? text = some v) :
    (∃ x, v = number x) ∨ (∃ b, v = boolean b) ∨ ∃ s, v = string s := by
  unfold ofLiteral? at h
  split at h
  · cases h
    exact .inl ⟨_, rfl⟩
  · split_ifs at h
    · cases h
      exact .inr (.inl ⟨true, rfl⟩)
    · cases h
      exact .inr (.inl ⟨false, rfl⟩)
    · obtain ⟨s, -, rfl⟩ := Option.map_eq_some_iff.1 h
      exact .inr (.inr ⟨s, rfl⟩)

/-- The canonical text of a literal's value spells that value. -/
theorem exists_canonical {text : String} {v : Value} (h : ofLiteral? text = some v) :
    ∃ s, v.text? = some s ∧ ofLiteral? s = some v := by
  rcases ofLiteral?_cases h with ⟨x, rfl⟩ | ⟨b, rfl⟩ | ⟨s, rfl⟩
  · exact ⟨_, rfl, ofLiteral?_write x⟩
  · exact ⟨_, rfl, ofLiteral?_boolText b⟩
  · exact ⟨_, rfl, ofLiteral?_quote s⟩

end Value
end FixpointLisp
