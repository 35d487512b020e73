import FixpointLisp.Proofs.Eval.Cycles
import FixpointLisp.Proofs.Eval.Forms
import Mathlib.Tactic

/-!
# A name means what it was bound to

A `let` does not bind the atom that is written as its name but the text to which that atom settles.
Inside of it the atom still leads to this text, along the same bindings as before, and from there to
the value. The value stays as it is if its own text does not lead anywhere else, and this is so when
no texts lead round in a circle of two or more.

* `Environment.OnlyLoops`: every cycle of bindings is a loop at a single text.
* `Trail.exists_bind`: a text that leads to `t` has a trail to the value that `t` is bound to.
* `OnlyLoops.meaning?_of_settled`: the text of a settled value means that value or nothing.
* `resolve?_bind_of_reaches`: after `t` is bound to a settled value, every text that leads to `t`
  has this value as its settled meaning.
* `let_name_yields`: a `let` with an atom as name and the same atom as body has the value of the
  binding.
-/

namespace FixpointLisp
namespace Environment

variable {E : Environment} {s t : String} {v w : Value}

/-- Whether every cycle of bindings is a loop at a single text. -/
def OnlyLoops (E : Environment) : Prop := ∀ s, E.OnCycle s → E.Leads s s

/-- There are only loops if some rank goes down whenever a text leads to a different one. -/
theorem onlyLoops_of_rank (rank : String → ℕ)
    (h : ∀ s t, E.Leads s t → s = t ∨ rank t < rank s) : E.OnlyLoops := by
  intro s hcycle
  obtain ⟨t, hlead, hreach⟩ := Relation.TransGen.head'_iff.1 hcycle
  have hrank : ∀ {u}, Relation.ReflTransGen E.Leads t u → rank u ≤ rank t := by
    intro u hreach
    induction hreach with
    | refl => exact le_rfl
    | tail _ hstep ih =>
      rcases h _ _ hstep with rfl | hlt
      · exact ih
      · exact hlt.le.trans ih
  rcases h s t hlead with rfl | hlt
  · exact hlead
  · exact absurd (hrank hreach) (Nat.not_le_of_lt hlt)

/-! ### One more binding -/

theorem meaning?_bind (E : Environment) (t s : String) (v : Value) :
    (E.bind t v).meaning? s = if t = s then some v else E.meaning? s := by
  unfold meaning?
  rw [lookup_bind]
  split_ifs <;> rfl

/-- When a text that leads to `t` is followed after `t` is bound to a value, the trail comes to that
value: a text in front of `t` leads where it led before. -/
theorem Trail.exists_bind (v : Value) (h : Relation.ReflTransGen E.Leads s t) :
    ∃ front, Trail (E.bind t v) (front ++ [s]) v := by
  induction h using Relation.ReflTransGen.head_induction_on with
  | refl => exact ⟨[], .start (by rw [meaning?_bind, if_pos rfl])⟩
  | @head s s' hlead _ ih =>
    obtain ⟨front, htrail⟩ := ih
    by_cases hst : t = s
    · exact ⟨[], .start (by rw [meaning?_bind, if_pos hst])⟩
    obtain ⟨w, hw, htext⟩ := hlead
    have hmeaning : (E.bind t v).meaning? s = some w := by rw [meaning?_bind, if_neg hst, hw]
    by_cases hmem : s ∈ front ++ [s']
    · -- The trail comes through `s` again, so its part from there on is enough.
      obtain ⟨later, earlier, hsplit⟩ := List.append_of_mem hmem
      rw [hsplit] at htrail
      exact ⟨later, htrail.later⟩
    · exact ⟨front ++ [s'], by simpa using htrail.prepend hmeaning htext hmem⟩

/-- A trail ends at a value whose text means that value or nothing. -/
theorem Trail.resolve?_eq {front : List String} (h : Trail E (front ++ [s]) v)
    (hv : ∀ t, v.text? = some t → E.meaning? t = none ∨ E.meaning? t = some v) :
    E.resolve? s = some v := by
  by_cases hends : E.Ends (front ++ [s]) v
  · exact resolve?_eq_some_iff.2 ⟨front, h, hends⟩
  · simp only [Ends, not_forall, not_or] at hends
    obtain ⟨t, ht, hnew, hmeaning⟩ := hends
    have htrail := h.step ht hnew ((hv t ht).resolve_left hmeaning)
    refine resolve?_eq_some_iff.2 ⟨t :: front, htrail, ?_⟩
    intro t' ht'
    cases ht.symm.trans ht'
    exact .inl List.mem_cons_self

/-! ### Settled values -/

/-- A text that is the text of its own settled meaning is on a cycle. -/
theorem onCycle_of_resolve? (h : E.resolve? t = some v) (ht : v.text? = some t) : E.OnCycle t := by
  obtain ⟨front, htrail, -⟩ := resolve?_eq_some_iff.1 h
  generalize hseen : front ++ [t] = seen at htrail
  have hlast : seen.getLast? = some t := by rw [← hseen, List.getLast?_concat]
  cases htrail with
  | start hv =>
    cases hlast
    exact .single ⟨v, hv, ht⟩
  | step trail htext _ hv =>
    rw [List.getLast?_cons_of_ne_nil trail.ne_nil] at hlast
    exact Relation.TransGen.tail' ((trail.reaches hlast).2 _ htext) ⟨v, hv, ht⟩

/-- Where all cycles are loops, the text of a settled value means that value or nothing. -/
theorem OnlyLoops.meaning?_of_settled (hE : E.OnlyLoops) (hv : E.reinterpret v = v)
    (ht : v.text? = some t) : E.meaning? t = none ∨ E.meaning? t = some v := by
  cases hr : E.resolve? t with
  | none => exact .inl (resolve?_eq_none_iff.1 hr)
  | some w =>
    obtain rfl : w = v := by simpa [reinterpret, ht, hr] using hv
    obtain ⟨u, hu, htext⟩ := hE t (onCycle_of_resolve? hr ht)
    cases (resolve?_of_text? hu htext).symm.trans hr
    exact .inr hu

/-- After `t` is bound to a settled value, every text that leads to `t` settles to this value. -/
theorem resolve?_bind_of_reaches (hE : E.OnlyLoops) (h : Relation.ReflTransGen E.Leads s t)
    (hv : E.reinterpret v = v) : (E.bind t v).resolve? s = some v := by
  obtain ⟨front, htrail⟩ := Trail.exists_bind v h
  refine htrail.resolve?_eq fun u hu => ?_
  rw [meaning?_bind]
  split_ifs
  · exact .inr rfl
  · exact hE.meaning?_of_settled hv hu

/-- Evaluated leniently, an atom has a value whose text can be reached from the atom. -/
theorem reaches_of_resolveAtom {culprit : Expr}
    (h : resolveAtom s culprit E .lenient = .done v) (ht : v.text? = some t) :
    Relation.ReflTransGen E.Leads s t := by
  unfold resolveAtom at h
  split at h
  case h_1 hresolve =>
    cases h
    obtain ⟨front, htrail, -⟩ := resolve?_eq_some_iff.1 hresolve
    exact (htrail.reaches List.getLast?_concat).2 t ht
  case h_2 =>
    cases h
    cases ht
    exact .refl
  case h_3 hmode => cases hmode

end Environment

/-- Evaluated leniently, every atom has a value. -/
theorem exists_resolveAtom_lenient (text : String) (culprit : Expr) (E : Environment) :
    ∃ r, resolveAtom text culprit E .lenient = .done r := by
  unfold resolveAtom
  cases E.resolve? text with
  | none => exact ⟨_, rfl⟩
  | some r => exact ⟨r, rfl⟩

/-- **A name that is bound by `let` means what it was bound to.** Let every cycle of bindings be a
loop at a single text. Take an atom, bound or not, a literal or the name of a builtin, that does not
evaluate leniently to a closure, and an expression `e` with a value. Then `(let ((atom e)) atom)`
has this very value. -/
theorem let_name_yields (E : Environment) (hE : E.OnlyLoops) (mode : Resolution) (keyword : Expr)
    (hlet : Yields E mode keyword (.done (.builtin .binding))) (text : String) (s₁ : Span)
    (hname : ∀ c, ¬Yields E .lenient (.atom text s₁) (.done (.closure c))) (e : Expr) (v : Value)
    (he : Yields E mode e (.done v)) (s₂ s₃ s₄ s₅ : Span) :
    Yields E mode (letForm keyword [⟨.atom text s₁, e, s₂⟩] (.atom text s₄) s₃ s₅) (.done v) := by
  obtain ⟨r, hr⟩ := exists_resolveAtom_lenient text (.atom text s₁) E
  obtain ⟨t, ht⟩ : ∃ t, r.text? = some t := by
    cases r with
    | closure c => exact absurd (yields_done_iff.2 ((evaluate_atom _ _ _ _).trans hr)) (hname c)
    | _ => exact ⟨_, rfl⟩
  -- The body is evaluated where the text of the name is bound to the value.
  have hbody : evaluate (.atom text s₄) (E.bind t v) mode = .done v := by
    rw [evaluate_atom]
    refine resolveAtom_of_resolve? ?_ _ mode
    exact Environment.resolve?_bind_of_reaches hE (Environment.reaches_of_resolveAtom hr ht)
      he.reinterpret_eq
  have hnames : paramTexts .binding E [.atom text s₁] = .done [t] := by
    rw [paramTexts_cons_of_text _ ((evaluate_atom _ _ _ _).trans hr) ht]
    rfl
  have hvalues : [e].mapM (fun value => evaluate value E mode) = .done [v] :=
    Outcome.mapM_eq_done_iff.2 (.cons he.evaluate_eq .nil)
  rw [yields_done_iff, evaluate_letForm hlet.evaluate_eq, List.map_singleton, List.map_singleton,
    hnames, hvalues, Outcome.done_bind, Outcome.done_bind]
  change evaluate (.atom text s₄) (E.bind t v) mode >>= _ = _
  rw [hbody, Outcome.done_bind, he.reinterpret_eq]

/-- On a longer cycle this is different: where `1` and `2` are bound to each other, `2` evaluates to
two, but `(let ((1 2)) 1)` comes back to one. -/
example :
    let E := swapped.bind "let" (.builtin .binding)
    eval 1 (.atom "2" ⟨9, 10⟩) E .strict = .done (.number 2) ∧
      eval 2 (letForm (.atom "let" ⟨1, 4⟩) [⟨.atom "1" ⟨7, 8⟩, .atom "2" ⟨9, 10⟩, ⟨6, 11⟩⟩]
        (.atom "1" ⟨13, 14⟩) ⟨5, 12⟩ ⟨0, 15⟩) E .strict = .done (.number 1) :=
  ⟨rfl, rfl⟩

/-- An environment with nothing but `let` and, as the meaning of `10`, twenty. -/
def promoted : Environment :=
  (Environment.empty.bind "let" (.builtin .binding)).bind "10" (.number 20)

/-- A rank of texts that goes down from any spelling of a literal to the canonical one, and from
`10` to `20`. -/
def promotedRank (s : String) : ℕ :=
  if s = "10" then 1 else if (Value.ofLiteral? s).bind Value.text? = some s then 0 else 2

theorem promotedRank_le_one {t : String} (h : (Value.ofLiteral? t).bind Value.text? = some t) :
    promotedRank t ≤ 1 := by
  unfold promotedRank
  split_ifs <;> omega

theorem promoted_onlyLoops : promoted.OnlyLoops := by
  refine Environment.onlyLoops_of_rank promotedRank ?_
  rintro s t ⟨v, hv, ht⟩
  rw [promoted, Environment.meaning?_bind, Environment.meaning?_bind] at hv
  split_ifs at hv with hten hlet
  · subst hten
    cases hv
    cases ht
    exact .inr (by decide)
  · subst hlet
    cases hv
    exact .inl (Option.some.inj ht)
  · rw [Environment.meaning?_of_unbound rfl] at hv
    have htext : (Value.ofLiteral? t).bind Value.text? = some t := by
      rw [Environment.ofLiteral?_text? hv ht, Option.bind_some, ht]
    by_cases hst : s = t
    · exact .inl hst
    · have hspelling : (Value.ofLiteral? s).bind Value.text? ≠ some s := by
        rw [hv, Option.bind_some, ht]
        exact fun h => hst (Option.some.inj h).symm
      have hrank : promotedRank s = 2 := by
        rw [promotedRank, if_neg (Ne.symm hten), if_neg hspelling]
      have := promotedRank_le_one htext
      exact .inr (by omega)

/-- Where `10` means twenty, `(let ((1e1 true)) 1e1)` binds `20`, to which `1e1` settles by way of
`10`, and its value is `true`. -/
theorem let_name_yields_promoted :
    promoted.OnlyLoops ∧
    resolveAtom "1e1" (.atom "1e1" ⟨7, 10⟩) promoted .lenient = .done (.number 20) ∧
    (∀ c, ¬Yields promoted .lenient (.atom "1e1" ⟨7, 10⟩) (.done (.closure c))) ∧
    ∀ mode, Yields promoted mode (.atom "let" ⟨1, 4⟩) (.done (.builtin .binding)) ∧
      Yields promoted mode (.atom "true" ⟨11, 15⟩) (.done (.boolean true)) ∧
      Yields promoted mode
        (letForm (.atom "let" ⟨1, 4⟩) [⟨.atom "1e1" ⟨7, 10⟩, .atom "true" ⟨11, 15⟩, ⟨6, 16⟩⟩]
          (.atom "1e1" ⟨18, 21⟩) ⟨5, 17⟩ ⟨0, 22⟩) (.done (.boolean true)) := by
  have hresolve : resolveAtom "1e1" (.atom "1e1" ⟨7, 10⟩) promoted .lenient = .done (.number 20) :=
    rfl
  have hname : ∀ c, ¬Yields promoted .lenient (.atom "1e1" ⟨7, 10⟩) (.done (.closure c)) := by
    intro c h
    cases ((evaluate_atom _ _ _ _).trans hresolve).symm.trans h.evaluate_eq
  refine ⟨promoted_onlyLoops, hresolve, hname, fun mode => ?_⟩
  have hlet : Yields promoted mode (.atom "let" ⟨1, 4⟩) (.done (.builtin .binding)) :=
    ⟨by simp, 1, by cases mode <;> rfl⟩
  have htrue : Yields promoted mode (.atom "true" ⟨11, 15⟩) (.done (.boolean true)) :=
    ⟨by simp, 1, by cases mode <;> rfl⟩
  have hvalue := let_name_yields promoted promoted_onlyLoops mode _ hlet "1e1" _ hname _ _ htrue
  exact ⟨hlet, htrue, hvalue _ _ _ _⟩

end FixpointLisp
