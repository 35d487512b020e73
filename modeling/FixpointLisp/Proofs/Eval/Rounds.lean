import FixpointLisp.Proofs.Eval.Settled
import Mathlib.Tactic

/-!
# The rounds of settling

Settling is a loop: each round takes the canonical text of the value found last, looks up what that
text means and goes on with it. Here the loop is described without a bound on the number of its
rounds, and it is shown to end within the bound that settling works with.

* `Environment.Rounds`: the loop looks up certain texts, one after the other, and ends with a value.
* `Rounds.unique`: the loop can go one way only.
* `Trail.exists_rounds`: it ends. The texts looked up make a trail, and trails are not longer than
  `2 * size + 2`.
* `Rounds.nodup_and_length_le`: no text is looked up twice, and this bound also holds when a text
  without meaning, at which the loop gives up, is counted in.
* `Rounds.follow_eq`: following canonical texts with steps for all rounds gives the value.
* `settle_ends`: all this for the loops that start from an atom or from a value.
-/

namespace FixpointLisp
namespace Environment

variable {E : Environment} {seen texts texts' : List String} {text : String} {v w w' : Value}

/-- The rounds of the loop from `v` on, when the texts `seen` have been met before: it looks up the
texts in the third place one after the other and ends with the value in the last place. -/
inductive Rounds (E : Environment) : List String → Value → List String → Value → Prop
  /-- The value has no canonical text, or one that has been met. -/
  | stop {seen : List String} {v : Value} (h : ∀ text, v.text? = some text → text ∈ seen) :
      Rounds E seen v [] v
  /-- Its canonical text is looked up and has no meaning. -/
  | giveUp {seen : List String} {v : Value} {text : String} (htext : v.text? = some text)
      (hnew : text ∉ seen) (h : E.meaning? text = none) : Rounds E seen v [text] v
  /-- Its canonical text is looked up, and the loop goes on with what it means. -/
  | goOn {seen texts : List String} {v next w : Value} {text : String}
      (htext : v.text? = some text) (hnew : text ∉ seen) (h : E.meaning? text = some next)
      (rest : Rounds E (text :: seen) next texts w) : Rounds E seen v (text :: texts) w

theorem Rounds.unique (h : E.Rounds seen v texts w) (h' : E.Rounds seen v texts' w') :
    texts' = texts ∧ w' = w := by
  induction h generalizing texts' w' with
  | stop hstop =>
    cases h' with
    | stop _ => exact ⟨rfl, rfl⟩
    | giveUp htext hnew _ => exact absurd (hstop _ htext) hnew
    | goOn htext hnew _ _ => exact absurd (hstop _ htext) hnew
  | giveUp htext hnew hnone =>
    cases h' with
    | stop hstop => exact absurd (hstop _ htext) hnew
    | giveUp htext' _ _ =>
      cases htext.symm.trans htext'
      exact ⟨rfl, rfl⟩
    | goOn htext' _ hsome _ =>
      cases htext.symm.trans htext'
      cases hnone.symm.trans hsome
  | goOn htext hnew hsome _ ih =>
    cases h' with
    | stop hstop => exact absurd (hstop _ htext) hnew
    | giveUp htext' _ hnone =>
      cases htext.symm.trans htext'
      cases hsome.symm.trans hnone
    | goOn htext' _ hsome' rest' =>
      cases htext.symm.trans htext'
      cases hsome.symm.trans hsome'
      obtain ⟨rfl, rfl⟩ := ih rest'
      exact ⟨rfl, rfl⟩

/-- With as many steps as there are rounds, following canonical texts goes through all of them. -/
theorem Rounds.follow_eq (h : E.Rounds seen v texts w) {steps : ℕ} (hsteps : texts.length ≤ steps) :
    E.follow steps seen v = w := by
  induction h generalizing steps with
  | stop hstop => exact follow_of_ends (fun text ht => .inl (hstop text ht)) steps
  | giveUp htext _ hnone =>
    refine follow_of_ends (fun text ht => ?_) steps
    cases htext.symm.trans ht
    exact .inr hnone
  | @goOn _ texts _ _ _ _ htext hnew hsome _ ih =>
    rw [List.length_cons] at hsteps
    obtain ⟨steps, rfl⟩ : ∃ n, steps = n + 1 := ⟨steps - 1, by omega⟩
    rw [follow_of_step htext hnew hsome]
    exact ih (by omega)

/-- The loop ends, since a trail of texts cannot become longer and longer. -/
theorem Trail.exists_rounds {n : ℕ} (h : Trail E seen v) (hn : 2 * E.size + 2 < n + seen.length) :
    ∃ texts w, E.Rounds seen v texts w := by
  induction n generalizing seen v with
  | zero =>
    have := h.length_le
    omega
  | succ n ih =>
    by_cases hstop : ∀ text, v.text? = some text → text ∈ seen
    · exact ⟨[], v, .stop hstop⟩
    · push Not at hstop
      obtain ⟨text, htext, hnew⟩ := hstop
      cases hmeaning : E.meaning? text with
      | none => exact ⟨[text], v, .giveUp htext hnew hmeaning⟩
      | some next =>
        have htrail := h.step htext hnew hmeaning
        obtain ⟨texts, w, hrest⟩ := ih htrail (by rw [List.length_cons]; omega)
        exact ⟨text :: texts, w, .goOn htext hnew hmeaning hrest⟩

/-- A trail that comes to a text without meaning is shorter than the bound: a literal always leads
to another literal, so it came from a bound text. -/
theorem Trail.length_lt_of_meaningless (h : Trail E seen v) (htext : v.text? = some text)
    (hnew : text ∉ seen) (hnone : E.meaning? text = none) : seen.length < 2 * E.size + 2 := by
  have hcount : seen.length = E.boundCount seen + E.literalCount seen :=
    List.length_eq_countP_add_countP (fun text => (E.lookup text).isSome)
  have hbound := E.boundCount_le h.nodup
  rcases h.literalCount_le.2 text htext hnew with hle | ⟨-, hspell⟩
  · omega
  · have hunbound : E.lookup text = none := by
      cases hl : E.lookup text with
      | none => rfl
      | some u => cases (meaning?_of_lookup hl).symm.trans hnone
    cases (hspell hunbound).symm.trans (ofLiteral?_of_meaningless hnone)

/-- The texts that are looked up are different from each other and from those met before, and all of
them together are not more than the bound. -/
theorem Rounds.nodup_and_length_le (h : E.Rounds seen v texts w) (htrail : Trail E seen v) :
    (texts.reverse ++ seen).Nodup ∧ texts.length + seen.length ≤ 2 * E.size + 2 := by
  induction h with
  | stop _ => simpa using ⟨htrail.nodup, htrail.length_le⟩
  | giveUp htext hnew hnone =>
    have hlength := htrail.length_lt_of_meaningless htext hnew hnone
    exact ⟨List.nodup_cons.2 ⟨hnew, htrail.nodup⟩, by rw [List.length_singleton]; omega⟩
  | goOn htext hnew hsome _ ih =>
    obtain ⟨hnodup, hlength⟩ := ih (htrail.step htext hnew hsome)
    refine ⟨by simpa using hnodup, ?_⟩
    simp only [List.length_cons] at hlength ⊢
    omega

/-- **Settling ends.** When a text has a meaning, the loop that starts from it comes to an end, in
only one way. The text and those that the loop looks up are all different, and there are at most
`2 * size + 2` of them, so following canonical texts for that many steps gives the value in which
the loop ends. This is the value of an atom with that text, and the one into which every value with
that canonical text is settled. -/
theorem settle_ends (E : Environment) (text : String) (v : Value) (h : E.meaning? text = some v) :
    ∃ texts w, E.Rounds [text] v texts w ∧
      (∀ texts' w', E.Rounds [text] v texts' w' → texts' = texts ∧ w' = w) ∧
      (text :: texts).Nodup ∧ (text :: texts).length ≤ 2 * E.size + 2 ∧
      (∀ steps, 2 * E.size + 2 ≤ steps → E.follow steps [text] v = w) ∧
      (∀ culprit mode, resolveAtom text culprit E mode = .done w) ∧
      ∀ u : Value, u.text? = some text → E.reinterpret u = w := by
  have htrail : Trail E [text] v := .start h
  obtain ⟨texts, w, hrounds⟩ := htrail.exists_rounds (n := 2 * E.size + 2) (by simp)
  obtain ⟨hnodup, hlength⟩ := hrounds.nodup_and_length_le htrail
  rw [List.length_singleton] at hlength
  have hfollow : ∀ steps, 2 * E.size + 2 ≤ steps → E.follow steps [text] v = w :=
    fun steps hsteps => hrounds.follow_eq (by omega)
  have hresolve : E.resolve? text = some w := by
    rw [resolve?, h, Option.map_some, settle, settleBound, hfollow _ le_rfl]
  refine ⟨texts, w, hrounds, fun _ _ => hrounds.unique, ?_, hlength, hfollow, ?_, ?_⟩
  · rw [← List.reverse_cons, List.nodup_reverse] at hnodup
    exact hnodup
  · exact resolveAtom_of_resolve? hresolve
  · intro u hu
    rw [reinterpret, hu]
    simp [hresolve]

/-- Where `1` and `2` are bound to each other, the loop that starts from the literal `1e0` looks up
`1` and `2` and ends with the number one, whose text it has met. -/
theorem settle_ends_swapped :
    swapped.meaning? "1e0" = some (.number 1) ∧
    swapped.Rounds ["1e0"] (.number 1) ["1", "2"] (.number 1) ∧
    ["1e0", "1", "2"].Nodup ∧ ["1e0", "1", "2"].length ≤ 2 * swapped.size + 2 ∧
    swapped.follow (2 * swapped.size + 2) ["1e0"] (.number 1) = .number 1 ∧
    resolveAtom "1e0" (.atom "1e0" ⟨0, 3⟩) swapped .strict = .done (.number 1) := by
  have hmeaning : swapped.meaning? "1e0" = some (.number 1) := rfl
  have hone : swapped.meaning? "1" = some (.number 2) := rfl
  have htwo : swapped.meaning? "2" = some (.number 1) := rfl
  have hrounds : swapped.Rounds ["1e0"] (.number 1) ["1", "2"] (.number 1) := by
    refine .goOn rfl (by decide) hone (.goOn rfl (by decide) htwo (.stop fun text ht => ?_))
    cases ht
    decide
  obtain ⟨texts, w, -, hunique, hnodup, hlength, hfollow, hatom, -⟩ :=
    settle_ends swapped "1e0" (.number 1) hmeaning
  obtain ⟨rfl, rfl⟩ := hunique _ _ hrounds
  exact ⟨hmeaning, hrounds, hnodup, hlength, hfollow _ le_rfl, hatom _ _⟩

end Environment
end FixpointLisp
