import FixpointLisp.Proofs.Eval.Settled
import Mathlib.Logic.Relation
import Mathlib.Tactic

/-!
# Cycles of bindings

A text leads to the canonical text of what it means. One would like both to evaluate to the same
value. They do, unless the texts lead round in a circle: then settling comes back to the text it
started from, which is another one for each of them.

* `Environment.Leads` and `Environment.OnCycle`: texts as a graph.
* `Trail.mem_of_reaches` and `Trail.reaches`: a trail that has come to its end consists of the texts
  with a meaning that can be reached from the first one.
* `resolve?_of_mem`: the settled meanings of two texts of which each is on the trail of the other.
* `resolveAtom_consistent`: a text and the one it leads to evaluate to the same value unless they
  are on a cycle, and each text of a cycle evaluates to the value that has it as text.
-/

namespace FixpointLisp
namespace Environment

variable {E : Environment} {seen front : List String} {s t : String} {v w : Value}

/-- Whether settling goes on from the text `s` to the text `t`. -/
def Leads (E : Environment) (s t : String) : Prop := ∃ v, E.meaning? s = some v ∧ v.text? = some t

/-- Whether a text leads back to itself. -/
def OnCycle (E : Environment) (s : String) : Prop := Relation.TransGen E.Leads s s

theorem Leads.unique {t' : String} (h : E.Leads s t) (h' : E.Leads s t') : t' = t := by
  obtain ⟨v, hv, ht⟩ := h
  obtain ⟨v', hv', ht'⟩ := h'
  cases hv.symm.trans hv'
  exact Option.some.inj (ht'.symm.trans ht)

theorem Leads.meaning?_ne_none (h : E.Leads s t) : E.meaning? s ≠ none := by
  obtain ⟨v, hv, -⟩ := h
  simp [hv]

/-! ### Trails as paths -/

/-- Where the texts of a trail lead is on the trail, or it is the text of the last value. -/
theorem Trail.mem_or_text? (h : Trail E seen v) (hs : s ∈ seen) (hst : E.Leads s t) :
    t ∈ seen ∨ v.text? = some t := by
  induction h with
  | start hv =>
    obtain ⟨u, hu, ht⟩ := hst
    rw [List.mem_singleton] at hs
    subst hs
    cases hv.symm.trans hu
    exact .inr ht
  | step _ htext _ hv ih =>
    rcases List.mem_cons.1 hs with rfl | hs
    · obtain ⟨u, hu, ht⟩ := hst
      cases hv.symm.trans hu
      exact .inr ht
    · rcases ih hs with ht | ht
      · exact .inl (List.mem_cons_of_mem _ ht)
      · cases htext.symm.trans ht
        exact .inl List.mem_cons_self

/-- A trail that has come to its end contains all texts with a meaning that it leads to. -/
theorem Trail.mem_of_reaches (h : Trail E seen v) (hends : E.Ends seen v) (hs : s ∈ seen)
    (hreach : Relation.ReflTransGen E.Leads s t) (ht : E.meaning? t ≠ none) : t ∈ seen := by
  induction hreach with
  | refl => exact hs
  | tail _ hlead ih =>
    rcases h.mem_or_text? (ih hlead.meaning?_ne_none) hlead with hmem | htext
    · exact hmem
    · exact (hends _ htext).resolve_right ht

/-- The first text of a trail leads to all others, and to the text of the last value. -/
theorem Trail.reaches (h : Trail E seen v) (hs : seen.getLast? = some s) :
    (∀ t ∈ seen, Relation.ReflTransGen E.Leads s t) ∧
      ∀ t, v.text? = some t → Relation.ReflTransGen E.Leads s t := by
  induction h with
  | start hv =>
    cases hs
    exact ⟨by simp [Relation.ReflTransGen.refl], fun t ht => .single ⟨_, hv, ht⟩⟩
  | step trail htext _ hv ih =>
    rw [List.getLast?_cons_of_ne_nil trail.ne_nil] at hs
    obtain ⟨hseen, hnext⟩ := ih hs
    have hreach := hnext _ htext
    exact ⟨List.forall_mem_cons.2 ⟨hreach, hseen⟩, fun t ht => hreach.tail ⟨_, hv, ht⟩⟩

/-- The earlier part of a trail is a trail. -/
theorem Trail.earlier (h : Trail E (front ++ seen) v) (hseen : seen ≠ []) :
    ∃ u, Trail E seen u := by
  induction front generalizing v with
  | nil => exact ⟨v, h⟩
  | cons text front ih =>
    rw [List.cons_append] at h
    generalize hrest : front ++ seen = rest at h
    cases h with
    | start hv => exact absurd (List.append_eq_nil_iff.1 hrest).2 hseen
    | step trail _ _ _ =>
      subst hrest
      exact ih trail

/-! ### Texts on the trail -/

/-- When a text is on the trail of the text it leads to, the trails of both go once round and end
where they began. -/
theorem resolve?_of_mem (hs : E.meaning? s = some v) (ht : v.text? = some t) (hne : s ≠ t)
    (htrail : Trail E (front ++ [t]) w) (hmem : s ∈ front ++ [t]) :
    (∃ u, E.resolve? s = some u ∧ u.text? = some s) ∧ E.resolve? t = some v := by
  have hfront : s ∈ front := by simpa [hne] using hmem
  obtain ⟨later, earlier, rfl⟩ := List.append_of_mem hfront
  rw [List.append_assoc, List.cons_append] at htrail
  obtain ⟨u, htrail⟩ := htrail.earlier (List.cons_ne_nil _ _)
  generalize hrest : earlier ++ [t] = rest at htrail
  cases htrail with
  | start _ => simp at hrest
  | step trail htext hnew hu =>
    subst hrest
    cases hs.symm.trans hu
    constructor
    · -- From `s` to `t` and on, until the text `s` comes up again.
      refine ⟨_, resolve?_eq_some_iff.2 ⟨earlier ++ [t], ?_, fun text ht' => .inl ?_⟩, htext⟩
      · simpa using trail.prepend hs ht hnew
      · cases htext.symm.trans ht'
        simp
    · -- From `t` on to `s`, which means `v`, with the text `t` again.
      refine resolve?_eq_some_iff.2 ⟨s :: earlier, ?_, fun text ht' => .inl ?_⟩
      · exact trail.step htext hnew hs
      · cases ht.symm.trans ht'
        simp

/-- The settled meanings of a text and of the text it leads to. -/
theorem resolve?_of_leads (hs : E.meaning? s = some v) (ht : v.text? = some t)
    (hmeaning : E.meaning? t ≠ none) :
    ∃ r r', E.resolve? s = some r ∧ E.resolve? t = some r' ∧
      (¬(s ≠ t ∧ E.OnCycle s) → r = r') ∧ (s ≠ t ∧ E.OnCycle s → r.text? = some s ∧ r' = v) := by
  obtain ⟨w, hw⟩ := Option.ne_none_iff_exists'.1 (mt resolve?_eq_none_iff.1 hmeaning)
  obtain ⟨front, htrail, hends⟩ := resolve?_eq_some_iff.1 hw
  have hlead : E.Leads s t := ⟨v, hs, ht⟩
  by_cases hne : s = t
  · subst hne
    exact ⟨w, w, hw, hw, fun _ => rfl, fun h => absurd rfl h.1⟩
  by_cases hmem : s ∈ front ++ [t]
  · obtain ⟨⟨u, hu, htext⟩, hv⟩ := resolve?_of_mem hs ht hne htrail hmem
    have hcycle : E.OnCycle s := .head' hlead ((htrail.reaches (by simp)).1 s hmem)
    exact ⟨u, v, hu, hv, fun h => absurd ⟨hne, hcycle⟩ h, fun _ => ⟨htext, rfl⟩⟩
  · refine ⟨w, w, resolve?_of_not_mem hs ht htrail hends hmem, hw, fun _ => rfl, fun h => ?_⟩
    -- On a cycle `t` would lead back to `s`, which would then be on the trail of `t`.
    obtain ⟨t', hlead', hreach⟩ := Relation.TransGen.head'_iff.1 h.2
    cases hlead.unique hlead'
    exact absurd (htrail.mem_of_reaches hends (by simp) hreach hlead.meaning?_ne_none) hmem

theorem OnCycle.exists_resolve? (h : E.OnCycle s) :
    ∃ r, E.resolve? s = some r ∧ r.text? = some s := by
  obtain ⟨t, ⟨v, hs, ht⟩, hreach⟩ := Relation.TransGen.head'_iff.1 h
  by_cases hne : s = t
  · subst hne
    refine ⟨v, resolve?_eq_some_iff.2 ⟨[], .start hs, fun text htext => .inl ?_⟩, ht⟩
    cases ht.symm.trans htext
    simp
  · have hmeaning : E.meaning? t ≠ none := by
      rcases Relation.ReflTransGen.cases_head hreach with rfl | ⟨u, hlead, -⟩
      · simp [hs]
      · exact hlead.meaning?_ne_none
    obtain ⟨r, _, hr, -, -, hcycle⟩ := resolve?_of_leads hs ht hmeaning
    exact ⟨r, hr, (hcycle ⟨hne, h⟩).1⟩

/-- **Resolution is consistent off cycles.** Let the text `s` mean a value with the canonical text
`t`, and let `t` be bound or a literal. Then both texts evaluate to the same value, unless they are
different and `s` is on a cycle: then `s` evaluates to a value whose canonical text is `s`, and `t`
evaluates to what `s` means, whose canonical text is `t`. Every text on a cycle evaluates to a value
of which it is the canonical text. -/
theorem resolveAtom_consistent (E : Environment) :
    (∀ s v t, E.meaning? s = some v → v.text? = some t →
      E.lookup t ≠ none ∨ Value.ofLiteral? t ≠ none →
        ∃ r r', (∀ culprit mode, resolveAtom s culprit E mode = .done r) ∧
          (∀ culprit mode, resolveAtom t culprit E mode = .done r') ∧
          (¬(s ≠ t ∧ E.OnCycle s) → r = r') ∧
          (s ≠ t ∧ E.OnCycle s → r.text? = some s ∧ r' = v)) ∧
    ∀ s, E.OnCycle s →
      ∃ r, (∀ culprit mode, resolveAtom s culprit E mode = .done r) ∧ r.text? = some s := by
  refine ⟨fun s v t hs ht hmeaning => ?_, fun s hs => ?_⟩
  · have hmeaning : E.meaning? t ≠ none := by
      intro hnone
      rcases hmeaning with hbound | hliteral
      · obtain ⟨u, hu⟩ := Option.ne_none_iff_exists'.1 hbound
        cases (meaning?_of_lookup hu).symm.trans hnone
      · exact hliteral (ofLiteral?_of_meaningless hnone)
    obtain ⟨r, r', hr, hr', hsame, hcycle⟩ := resolve?_of_leads hs ht hmeaning
    exact ⟨r, r', resolveAtom_of_resolve? hr, resolveAtom_of_resolve? hr', hsame, hcycle⟩
  · obtain ⟨r, hr, htext⟩ := hs.exists_resolve?
    exact ⟨r, resolveAtom_of_resolve? hr, htext⟩

theorem onCycle_swapped : swapped.OnCycle "1" :=
  .tail (.single ⟨.number 2, rfl, rfl⟩) ⟨.number 1, rfl, rfl⟩

/-- Where `1` and `2` are bound to each other they evaluate to different values, each to its own
number. The literal `1e0` leads to `1` and is not on the cycle, so these two evaluate to the same
value. -/
theorem resolveAtom_consistent_swapped :
    (swapped.meaning? "1" = some (.number 2) ∧ swapped.lookup "2" ≠ none ∧ swapped.OnCycle "1" ∧
      ∃ r r', resolveAtom "1" (.atom "1" ⟨0, 1⟩) swapped .strict = .done r ∧
        resolveAtom "2" (.atom "2" ⟨0, 1⟩) swapped .strict = .done r' ∧ r.text? = some "1" ∧
          r' = .number 2) ∧
    swapped.meaning? "1e0" = some (.number 1) ∧ swapped.lookup "1" ≠ none ∧
      ¬swapped.OnCycle "1e0" ∧
      ∃ r, resolveAtom "1e0" (.atom "1e0" ⟨0, 3⟩) swapped .strict = .done r ∧
        resolveAtom "1" (.atom "1" ⟨0, 1⟩) swapped .strict = .done r := by
  have hone : swapped.meaning? "1" = some (.number 2) := rfl
  have hliteral : swapped.meaning? "1e0" = some (.number 1) := rfl
  have hbound : swapped.lookup "1" ≠ none := by simp [swapped]
  have hbound' : swapped.lookup "2" ≠ none := by simp [swapped]
  obtain ⟨r, r', hr, hr', -, hcycle⟩ :=
    (resolveAtom_consistent swapped).1 "1" (.number 2) "2" hone rfl (.inl hbound')
  obtain ⟨u, u', hu, hu', hsame, -⟩ :=
    (resolveAtom_consistent swapped).1 "1e0" (.number 1) "1" hliteral rfl (.inl hbound)
  have hoff : ¬swapped.OnCycle "1e0" := by
    intro h
    obtain ⟨w, hw, htext⟩ := (resolveAtom_consistent swapped).2 "1e0" h
    have hnumber : resolveAtom "1e0" (.atom "1e0" ⟨0, 3⟩) swapped .strict = .done (.number 1) := rfl
    rw [hw] at hnumber
    cases hnumber
    exact absurd htext (by decide)
  cases hsame fun h => hoff h.2
  obtain ⟨htext, hvalue⟩ := hcycle ⟨by decide, onCycle_swapped⟩
  exact ⟨⟨hone, hbound', onCycle_swapped, r, r', hr _ _, hr' _ _, htext, hvalue⟩, hliteral, hbound,
    hoff, u, hu _ _, hu' _ _⟩

end Environment
end FixpointLisp
