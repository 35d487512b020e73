import FixpointLisp.Proofs.Value.Bindings
import FixpointLisp.Proofs.Value.Canonical
import FixpointLisp.Value.Resolve
import Mathlib.Data.List.Perm.Subperm
import Mathlib.Tactic

/-!
# Settling ends, and where it ends it stays

Settling follows canonical texts. The texts met on the way form a *trail*; they are different from
each other, and the bound on the steps is never what ends the trail.

* `Trail E seen v`: the texts `seen` were met one after the other, the last one first, and the last
  one means `v`.
* `Ends E seen v`: the trail goes no further from `v`.
* `Trail.length_le`: a trail has at most `2 * size + 2` texts. A bound text may be followed by a
  literal that is not bound and that by its canonical text; two literals that are not bound come in
  a row only at the end.
* `resolve?_eq_some_iff`: the settled meaning of a text is where the trail from it ends.
  `resolve?_of_not_mem`: it is that of the text it leads to, if that trail does not come back.
* `reinterpret_of_resolve?`, `reinterpret_reinterpret`: a settled value is not changed by settling it
  again, also when it was found on a cycle.
-/

namespace FixpointLisp

namespace Environment

variable {E : Environment} {seen front back : List String} {text : String} {v w : Value}

theorem meaning?_of_lookup {v : Value} (h : E.lookup text = some v) : E.meaning? text = some v := by
  simp [meaning?, h]

theorem meaning?_of_unbound (h : E.lookup text = none) :
    E.meaning? text = Value.ofLiteral? text := by
  simp [meaning?, h]

theorem ofLiteral?_of_meaningless (h : E.meaning? text = none) : Value.ofLiteral? text = none := by
  cases hl : E.lookup text with
  | none => rwa [meaning?_of_unbound hl] at h
  | some v =>
    rw [meaning?_of_lookup hl] at h
    cases h

/-! ### Trails -/

/-- The texts met when canonical texts are followed, the last one first, and what the last one
means. -/
inductive Trail (E : Environment) : List String → Value → Prop
  | start {text : String} {v : Value} (h : E.meaning? text = some v) : Trail E [text] v
  | step {seen : List String} {v : Value} {text : String} {next : Value} (trail : Trail E seen v)
      (htext : v.text? = some text) (hnew : text ∉ seen) (h : E.meaning? text = some next) :
      Trail E (text :: seen) next

/-- Following canonical texts stops at `v` when the texts `seen` have been met. -/
def Ends (E : Environment) (seen : List String) (v : Value) : Prop :=
  ∀ text, v.text? = some text → text ∈ seen ∨ E.meaning? text = none

theorem Trail.ne_nil (h : Trail E seen v) : seen ≠ [] := by
  cases h <;> simp

theorem Trail.nodup (h : Trail E seen v) : seen.Nodup := by
  induction h with
  | start h => simp
  | step trail htext hnew h ih => exact List.nodup_cons.2 ⟨hnew, ih⟩

/-- The later part of a trail is a trail. -/
theorem Trail.later (h : Trail E (front ++ text :: back) v) : Trail E (front ++ [text]) v := by
  induction front generalizing v with
  | nil =>
    cases h with
    | start h => exact .start h
    | step trail htext hnew h => exact .start h
  | cons t front ih =>
    rw [List.cons_append] at h ⊢
    generalize hseen : front ++ text :: back = seen at h
    cases h with
    | start h => simp at hseen
    | step trail htext hnew h =>
      subst hseen
      refine .step (ih trail) htext (fun hmem => hnew ?_) h
      simp only [List.mem_append, List.mem_cons, List.not_mem_nil, or_false] at hmem ⊢
      tauto

/-- A trail can be entered from a text that leads to its first one. -/
theorem Trail.prepend {first : String} (h : Trail E (front ++ [text]) w)
    (hfirst : E.meaning? first = some v) (htext : v.text? = some text)
    (hnew : first ∉ front ++ [text]) : Trail E (front ++ [text, first]) w := by
  induction front generalizing w with
  | nil =>
    refine .step (.start hfirst) htext (by simpa [eq_comm] using hnew) ?_
    cases h with
    | start h => exact h
    | step trail htext hnew h => exact h
  | cons t front ih =>
    rw [List.cons_append] at h hnew ⊢
    generalize hseen : front ++ [text] = seen at h
    cases h with
    | start h => simp at hseen
    | step trail htext' hnew' h =>
      subst hseen
      obtain ⟨hne, hnew⟩ := not_or.1 (mt List.mem_cons.2 hnew)
      refine .step (ih trail hnew) htext' ?_ h
      simp only [List.mem_append, List.mem_cons, List.not_mem_nil, or_false] at hnew' ⊢
      tauto

/-! ### The length of a trail -/

/-- The number of texts that are bound. -/
def boundCount (E : Environment) (seen : List String) : ℕ :=
  seen.countP fun text => (E.lookup text).isSome

/-- The number of texts that are not bound. -/
def literalCount (E : Environment) (seen : List String) : ℕ :=
  seen.countP fun text => ¬(E.lookup text).isSome

theorem boundCount_le (E : Environment) (h : seen.Nodup) : E.boundCount seen ≤ E.size := by
  rw [boundCount, List.countP_eq_length_filter]
  have hsub : seen.filter (fun text => (E.lookup text).isSome) ⊆ E.names := by
    intro text ht
    obtain ⟨v, hv⟩ := Option.isSome_iff_exists.1 (List.mem_filter.1 ht).2
    exact Bindings.mem_names_iff.2 ⟨v, hv⟩
  have hle := (List.subperm_of_subset (h.filter _) hsub).length_le
  simpa [Bindings.names, Bindings.size] using hle

theorem counts_cons_of_lookup (seen : List String) (h : E.lookup text = some v) :
    E.boundCount (text :: seen) = E.boundCount seen + 1 ∧
      E.literalCount (text :: seen) = E.literalCount seen := by
  simp [boundCount, literalCount, h]

theorem counts_cons_of_unbound (seen : List String) (h : E.lookup text = none) :
    E.boundCount (text :: seen) = E.boundCount seen ∧
      E.literalCount (text :: seen) = E.literalCount seen + 1 := by
  simp [boundCount, literalCount, h]

theorem ofLiteral?_text? (h : Value.ofLiteral? text = some v) {t : String} (ht : v.text? = some t) :
    Value.ofLiteral? t = some v := by
  obtain ⟨s, hs, hcanonical⟩ := Value.exists_canonical h
  rw [ht] at hs
  cases hs
  exact hcanonical

/-- Literals that are not bound hardly outnumber the bound texts of a trail. When the trail can go
on, there is at most one more of them, and if there is one more and the next text is not bound
either, that text spells the value just found, so the trail ends there. -/
theorem Trail.literalCount_le (h : Trail E seen v) :
    E.literalCount seen ≤ E.boundCount seen + 2 ∧
      ∀ text, v.text? = some text → text ∉ seen →
        E.literalCount seen ≤ E.boundCount seen ∨
          E.literalCount seen ≤ E.boundCount seen + 1 ∧
            (E.lookup text = none → Value.ofLiteral? text = some v) := by
  induction h with
  | @start text v h =>
    cases hl : E.lookup text with
    | some u => simp [boundCount, literalCount, hl]
    | none =>
      rw [meaning?_of_unbound hl] at h
      have hcounts := counts_cons_of_unbound [] hl
      simp only [boundCount, literalCount, List.countP_nil] at hcounts ⊢
      exact ⟨by omega, fun t ht _ => Or.inr ⟨by omega, fun _ => ofLiteral?_text? h ht⟩⟩
  | @step seen v text next trail htext hnew h ih =>
    have ih := ih.2 text htext hnew
    cases hl : E.lookup text with
    | some u =>
      obtain ⟨hb, hu⟩ := counts_cons_of_lookup seen hl
      exact ⟨by omega, fun _ _ _ => Or.inl (by omega)⟩
    | none =>
      obtain ⟨hb, hu⟩ := counts_cons_of_unbound seen hl
      rw [meaning?_of_unbound hl] at h
      rcases ih with hle | ⟨hle, hspell⟩
      · exact ⟨by omega, fun t ht _ => Or.inr ⟨by omega, fun _ => ofLiteral?_text? h ht⟩⟩
      · -- Two literals in a row that are not bound: the second one spells the value already found.
        have hsame : next = v := Option.some.inj (h.symm.trans (hspell hl))
        refine ⟨by omega, fun t ht hfresh => ?_⟩
        rw [hsame, htext] at ht
        cases ht
        simp at hfresh

/-- A trail has at most `2 * size + 2` texts. -/
theorem Trail.length_le (h : Trail E seen v) : seen.length ≤ 2 * E.size + 2 := by
  have hcount : seen.length = E.boundCount seen + E.literalCount seen :=
    List.length_eq_countP_add_countP (fun text => (E.lookup text).isSome)
  have := E.boundCount_le h.nodup
  have := h.literalCount_le.1
  omega

/-! ### Where trails end -/

theorem follow_of_ends (h : E.Ends seen v) (steps : ℕ) : E.follow steps seen v = v := by
  cases steps with
  | zero => rfl
  | succ steps =>
    rw [follow]
    cases ht : v.text? with
    | none => rfl
    | some text =>
      rcases h text ht with hmem | hnone
      · simp [hmem]
      · simp [hnone]

theorem follow_of_step (htext : v.text? = some text) (hnew : text ∉ seen)
    (h : E.meaning? text = some w) (steps : ℕ) :
    E.follow (steps + 1) seen v = E.follow steps (text :: seen) w := by
  simp [follow, htext, hnew, h]

/-- With steps for the longest possible trail, following ends because the trail does. -/
theorem Trail.exists_ends {steps : ℕ} (h : Trail E seen v)
    (hsteps : 2 * E.size + 2 < steps + seen.length) :
    ∃ front, Trail E (front ++ seen) (E.follow steps seen v) ∧
      E.Ends (front ++ seen) (E.follow steps seen v) := by
  induction steps generalizing seen v with
  | zero =>
    have := h.length_le
    omega
  | succ steps ih =>
    by_cases hends : E.Ends seen v
    · rw [follow_of_ends hends]
      exact ⟨[], h, hends⟩
    · simp only [Ends, not_forall, not_or] at hends
      obtain ⟨text, htext, hnew, hmeaning⟩ := hends
      obtain ⟨next, hnext⟩ := Option.ne_none_iff_exists'.1 hmeaning
      have htrail := Trail.step h htext hnew hnext
      rw [follow_of_step htext hnew hnext]
      obtain ⟨front, htrail', hends'⟩ := ih htrail (by simp only [List.length_cons]; omega)
      exact ⟨front ++ [text], by simpa using htrail', by simpa using hends'⟩

/-- Following from the first text of a trail passes through its last value. -/
theorem Trail.follow_eq (h : Trail E (front ++ [text]) w) :
    ∃ v, E.meaning? text = some v ∧
      ∀ steps, E.follow (front.length + steps) [text] v = E.follow steps (front ++ [text]) w := by
  induction front generalizing w with
  | nil =>
    cases h with
    | start h => exact ⟨w, h, fun steps => by simp⟩
    | step trail htext hnew h => exact absurd rfl trail.ne_nil
  | cons t front ih =>
    rw [List.cons_append] at h
    generalize hseen : front ++ [text] = seen at h
    cases h with
    | start h => simp at hseen
    | step trail htext hnew h =>
      subst hseen
      obtain ⟨v, hv, hfollow⟩ := ih trail
      refine ⟨v, hv, fun steps => ?_⟩
      rw [List.length_cons, Nat.add_right_comm, Nat.add_assoc, hfollow,
        follow_of_step htext hnew h, List.cons_append]

/-- The settled meaning of a text is the value where the trail from that text ends. -/
theorem resolve?_eq_some_iff :
    E.resolve? text = some w ↔ ∃ front, Trail E (front ++ [text]) w ∧ E.Ends (front ++ [text]) w := by
  constructor
  · intro h
    obtain ⟨v, hv, rfl⟩ := Option.map_eq_some_iff.1 h
    apply (Trail.start hv).exists_ends
    simp [settleBound]
  · rintro ⟨front, htrail, hends⟩
    obtain ⟨v, hv, hfollow⟩ := htrail.follow_eq
    have hlen := htrail.length_le
    rw [List.length_append, List.length_singleton] at hlen
    obtain ⟨steps, hsteps⟩ : ∃ steps, E.settleBound = front.length + steps :=
      ⟨E.settleBound - front.length, by unfold settleBound; omega⟩
    rw [resolve?, hv, Option.map_some, settle, hsteps, hfollow, follow_of_ends hends]

/-- A text that means a value whose text it is means this value for good. -/
theorem resolve?_of_text? (h : E.meaning? text = some v) (htext : v.text? = some text) :
    E.resolve? text = some v := by
  refine resolve?_eq_some_iff.2 ⟨[], .start h, fun t ht => ?_⟩
  cases htext.symm.trans ht
  exact .inl List.mem_cons_self

/-- A text that is not on the trail of the text it leads to has the same settled meaning. -/
theorem resolve?_of_not_mem {first : String} (hfirst : E.meaning? first = some v)
    (htext : v.text? = some text) (htrail : Trail E (front ++ [text]) w)
    (hends : E.Ends (front ++ [text]) w) (hnew : first ∉ front ++ [text]) :
    E.resolve? first = some w := by
  refine resolve?_eq_some_iff.2 ⟨front ++ [text], ?_, fun t ht => ?_⟩
  · simpa using htrail.prepend hfirst htext hnew
  · rcases hends t ht with hmem | hnone
    · exact .inl (List.mem_append_left [first] hmem)
    · exact .inr hnone

theorem resolve?_eq_none_iff : E.resolve? text = none ↔ E.meaning? text = none :=
  Option.map_eq_none_iff

theorem exists_resolve?_of_literal (E : Environment) (h : Value.ofLiteral? text = some v) :
    ∃ w, E.resolve? text = some w := by
  refine Option.ne_none_iff_exists'.1 fun hnone => ?_
  rw [ofLiteral?_of_meaningless (resolve?_eq_none_iff.1 hnone)] at h
  cases h

/-! ### Settled values -/

theorem reinterpret_of_meaningless (h : ∀ text, v.text? = some text → E.meaning? text = none) :
    E.reinterpret v = v := by
  rw [reinterpret]
  cases ht : v.text? with
  | none => rfl
  | some text => simp [resolve?_eq_none_iff.2 (h text ht)]

/-- A settled value is not changed by settling its canonical text. When the trail was cut because it
met one of its texts again, the trail from that text goes once round and ends at the same value. -/
theorem reinterpret_of_resolve? (h : E.resolve? text = some w) : E.reinterpret w = w := by
  obtain ⟨front, htrail, hends⟩ := resolve?_eq_some_iff.1 h
  cases ht : w.text? with
  | none => simp [reinterpret, ht]
  | some t =>
    rcases hends t ht with hmem | hnone
    · -- The part of the trail from `t` on is a whole cycle, and it ends where it began.
      obtain ⟨later, earlier, hsplit⟩ := List.append_of_mem hmem
      rw [hsplit] at htrail
      have hround : E.resolve? t = some w := by
        refine resolve?_eq_some_iff.2 ⟨later, htrail.later, fun t' ht' => Or.inl ?_⟩
        rw [ht] at ht'
        cases ht'
        simp
      simp [reinterpret, ht, hround]
    · exact reinterpret_of_meaningless fun t' ht' => by
        rw [ht] at ht'
        cases ht'
        exact hnone

/-- A value that its own text means is settled. -/
theorem reinterpret_of_text? (h : E.meaning? text = some v) (htext : v.text? = some text) :
    E.reinterpret v = v :=
  reinterpret_of_resolve? (resolve?_of_text? h htext)

/-- Settling a value again changes nothing. -/
theorem reinterpret_reinterpret (E : Environment) (v : Value) :
    E.reinterpret (E.reinterpret v) = E.reinterpret v := by
  cases ht : v.text? with
  | none => simp [reinterpret, ht]
  | some text =>
    cases hr : E.resolve? text with
    | none =>
      have hsame : E.reinterpret v = v := by simp [reinterpret, ht, hr]
      rw [hsame, hsame]
    | some w =>
      have hw : E.reinterpret v = w := by simp [reinterpret, ht, hr]
      rw [hw]
      exact reinterpret_of_resolve? hr

end Environment
end FixpointLisp
