import FixpointLisp.Proofs.Value.Settle

/-!
# Values that are alike

Two runs of a program are compared, and facts about one run are carried along, by a relation between
the values, closures and environments that occur in them. It is determined by what may stand at the
leaves; between them the structure has to be the same.

* `Likeness` says which expressions may stand for each other, which names may be bound, which values
  other than closures may occur and which rows of parameters closures may have.
* `Value.Like`, `Closure.Like` and `Bindings.Like` extend this through the structure.
* `Likeness.Lawful` lists what evaluation relies on.
* `Bindings.Like.lookup`, `Bindings.Like.bind`, `Closure.Like.rebind`, `Value.Like.same_eq` and others
  say that the operations on environments and closures respect it, and `Bindings.Like.resolve?` and
  `Bindings.Like.reinterpret` that settling does.
* `Bindings.Like.trail_names`: what is required of bound names holds of all texts met in settling.
* `Likeness.equal` is the likeness of values that are equal.
* `Value.like_self` and the lemmas with it: where everything may stand for itself, values are like
  themselves.
-/

namespace FixpointLisp

/-- What may stand at the leaves of two values that are alike. -/
structure Likeness where
  /-- Expressions that may stand for each other. -/
  expr : Expr → Expr → Prop
  /-- Names that may be bound. -/
  name : String → Prop
  /-- Values other than closures that may occur. -/
  plain : Value → Prop
  /-- Rows of parameters that closures may have. -/
  params : List (Option String) → Prop
  /-- Whether the second run may be lenient where the first one is strict. -/
  loose : Prop

mutual

/-- Whether two values are alike. -/
def Value.Like (R : Likeness) : Value → Value → Prop
  | .closure c, .closure d => R.params c.params ∧ c.Like R d
  | .closure _, _ => False
  | v, w => v = w ∧ R.plain v

/-- Whether two chains have the same parameters, and bodies and captured environments that are
alike. -/
def Closure.Like (R : Likeness) : Closure → Closure → Prop
  | .last p E b, .last q F c => p = q ∧ (∀ n ∈ p, R.name n) ∧ E.Like R F ∧ R.expr b c
  | .link p E next, .link q F next' => p = q ∧ (∀ n ∈ p, R.name n) ∧ E.Like R F ∧ next.Like R next'
  | _, _ => False

/-- Whether two rows bind the same names to values that are alike. -/
def Bindings.Like (R : Likeness) {low low' : Option String} : Bindings low → Bindings low' → Prop
  | .nil, .nil => True
  | .cons n v rest _, .cons m w rest' _ => n = m ∧ R.name n ∧ v.Like R w ∧ rest.Like R rest'
  | _, _ => False

end

/-- What evaluation relies on in expressions that may stand for each other. -/
structure ExprLawful (r : Expr → Expr → Prop) : Prop where
  atom {text : String} {s : Span} {f : Expr} (h : r (.atom text s) f) : ∃ s', f = .atom text s'
  list {es : List Expr} {s : Span} {f : Expr} (h : r (.list es s) f) :
    ∃ fs s', f = .list fs s' ∧ List.Forall₂ r es fs
  same {e f e' f' : Expr} (h : r e f) (h' : r e' f') : e.same e' = f.same f'

theorem exprLawful_eq : ExprLawful Eq where
  atom h := ⟨_, h.symm⟩
  list h := ⟨_, _, h.symm, List.forall₂_refl _⟩
  same h h' := by rw [h, h']

/-- What evaluation relies on. -/
structure Likeness.Lawful (R : Likeness) : Prop extends ExprLawful R.expr where
  number (x : Float) : R.plain (.number x)
  boolean (b : Bool) : R.plain (.boolean b)
  string (s : String) : R.plain (.string s)
  symbol {s : String} (h : Value.ofLiteral? s = none) : R.plain (.symbol s)
  name {v : Value} {n : String} (hv : R.plain v) (hn : v.text? = some n) : R.name n
  paramless : R.params [none]
  curried {n : String} {ns : List String} : R.params ((n :: ns).map some)
  next {p : Option String} {ps : List (Option String)} (h : R.params (p :: ps)) (hne : ps ≠ []) :
    R.params ps

variable {R : Likeness}

/-! ### Values -/

namespace Value

theorem Like.text?_eq {v w : Value} (h : v.Like R w) : v.text? = w.text? := by
  cases v with
  | closure c =>
    cases w with
    | closure d => rfl
    | _ => exact absurd h (by simp [Like])
  | _ => rw [h.1]

theorem Like.eq_of_text? {v w : Value} {text : String} (h : v.Like R w) (ht : v.text? = some text) :
    v = w ∧ R.plain v := by
  cases v with
  | closure c => cases ht
  | _ => exact h

theorem Like.of_literal (hR : R.Lawful) {text : String} {v : Value}
    (h : ofLiteral? text = some v) : v.Like R v := by
  rcases ofLiteral?_cases h with ⟨x, rfl⟩ | ⟨b, rfl⟩ | ⟨s, rfl⟩
  · exact ⟨rfl, hR.number x⟩
  · exact ⟨rfl, hR.boolean b⟩
  · exact ⟨rfl, hR.string s⟩

theorem Like.exists_closure {c : Closure} {w : Value} (h : (closure c).Like R w) :
    ∃ d, w = closure d ∧ R.params c.params ∧ c.Like R d := by
  cases w with
  | closure d => exact ⟨d, rfl, h⟩
  | _ => exact absurd h (by simp [Like])

/-- Values that are alike are closures or equal. -/
theorem Like.closure_or_eq {v w : Value} (h : v.Like R w) :
    (∃ c d, v = closure c ∧ w = closure d) ∨ v = w := by
  cases v with
  | closure c =>
    obtain ⟨d, rfl, -⟩ := h.exists_closure
    exact .inl ⟨c, d, rfl, rfl⟩
  | _ => exact .inr h.1

end Value

/-! ### Environments -/

namespace Bindings

theorem Like.eq_nil {low low' : Option String} {F : Bindings low'}
    (h : (nil : Bindings low).Like R F) : F = nil := by
  cases F with
  | nil => rfl
  | cons m w rest above => exact absurd h (by simp [Like])

theorem Like.exists_cons {low low' : Option String} {n : String} {v : Value}
    {rest : Bindings (some n)} {above : Above low n} {F : Bindings low'}
    (h : (cons n v rest above).Like R F) :
    ∃ w rest' above', F = cons n w rest' above' ∧ R.name n ∧ v.Like R w ∧ rest.Like R rest' := by
  cases F with
  | nil => exact absurd h (by simp [Like])
  | cons m w rest' above' =>
    obtain ⟨rfl, h⟩ := h
    exact ⟨w, rest', above', rfl, h⟩

/-- A name is bound in both rows, to values that are alike, or in neither. -/
theorem Like.lookup (n : String) :
    ∀ {low low' : Option String} {E : Bindings low} {F : Bindings low'}, E.Like R F →
      (E.lookup n = none ∧ F.lookup n = none) ∨
        ∃ v w, E.lookup n = some v ∧ F.lookup n = some w ∧ v.Like R w ∧ R.name n
  | _, _, .nil, _, h => by
    obtain rfl := h.eq_nil
    exact .inl ⟨rfl, rfl⟩
  | _, _, .cons m v rest _, _, h => by
    obtain ⟨w, rest', above', rfl, hm, hv, hrest⟩ := h.exists_cons
    by_cases hn : m = n
    · subst hn
      exact .inr ⟨v, w, by simp [Bindings.lookup], by simp [Bindings.lookup], hv, hm⟩
    · simpa [Bindings.lookup, hn] using Like.lookup n hrest

theorem Like.names_eq :
    ∀ {low low' : Option String} {E : Bindings low} {F : Bindings low'}, E.Like R F →
      E.names = F.names
  | _, _, .nil, _, h => by
    obtain rfl := h.eq_nil
    rfl
  | _, _, .cons m v rest _, _, h => by
    obtain ⟨w, rest', above', rfl, -, -, hrest⟩ := h.exists_cons
    simpa [names, toList] using Like.names_eq hrest

theorem Like.size_eq {low low' : Option String} {E : Bindings low} {F : Bindings low'}
    (h : E.Like R F) : E.size = F.size := by
  simpa [names, size] using congrArg List.length h.names_eq

theorem Like.insert {n : String} {v w : Value} (hn : R.name n) (hv : v.Like R w) :
    ∀ {low low' : Option String} {E : Bindings low} {F : Bindings low'} (above : Above low n)
      (above' : Above low' n), E.Like R F → (E.insert n v above).Like R (F.insert n w above')
  | _, _, .nil, _, _, _, h => by
    obtain rfl := h.eq_nil
    exact ⟨rfl, hn, hv, trivial⟩
  | _, _, .cons m u rest _, _, _, _, h => by
    obtain ⟨u', rest', _, rfl, hm, hu, hrest⟩ := h.exists_cons
    unfold Bindings.insert
    split
    · exact ⟨rfl, hn, hv, rfl, hm, hu, hrest⟩
    · split
      · exact ⟨rfl, hm, hv, hrest⟩
      · exact ⟨rfl, hm, hu, Like.insert hn hv _ _ hrest⟩

theorem Like.bind {E F : Environment} {n : String} {v w : Value} (h : E.Like R F) (hn : R.name n)
    (hv : v.Like R w) : (E.bind n v).Like R (F.bind n w) :=
  Like.insert hn hv _ _ h

theorem Like.extend {E F : Environment} {bindings : List (String × Value)} (h : E.Like R F)
    (hb : ∀ b ∈ bindings, R.name b.1 ∧ b.2.Like R b.2) :
    (E.extend bindings).Like R (F.extend bindings) := by
  induction bindings generalizing E F with
  | nil => exact h
  | cons b bindings ih =>
    obtain ⟨⟨hn, hv⟩, hrest⟩ := List.forall_mem_cons.1 hb
    exact ih (h.bind hn hv) hrest

/-- The global environment is like itself if the builtins and their names may occur. -/
theorem like_global (hb : ∀ b : Builtin, R.name b.name ∧ R.plain (.builtin b)) :
    Environment.global.Like R Environment.global := by
  refine Like.extend (E := .nil) (F := .nil) trivial fun p hp => ?_
  obtain ⟨b, -, rfl⟩ := List.mem_map.1 hp
  exact ⟨(hb b).1, rfl, (hb b).2⟩

end Bindings

/-! ### Closures -/

namespace Closure

theorem Like.exists_last {p : Option String} {E : Environment} {b : Expr} {d : Closure}
    (h : (last p E b).Like R d) :
    ∃ F c, d = last p F c ∧ (∀ n ∈ p, R.name n) ∧ E.Like R F ∧ R.expr b c := by
  cases d with
  | last q F c =>
    obtain ⟨rfl, h⟩ := h
    exact ⟨F, c, rfl, h⟩
  | link q F next => exact absurd h (by simp [Like])

theorem Like.exists_link {p : Option String} {E : Environment} {next d : Closure}
    (h : (link p E next).Like R d) :
    ∃ F next', d = link p F next' ∧ (∀ n ∈ p, R.name n) ∧ E.Like R F ∧ next.Like R next' := by
  cases d with
  | last q F c => exact absurd h (by simp [Like])
  | link q F next' =>
    obtain ⟨rfl, h⟩ := h
    exact ⟨F, next', rfl, h⟩

theorem Like.params_eq : ∀ {c d : Closure}, c.Like R d → c.params = d.params
  | .last p E b, _, h => by
    obtain ⟨F, b', rfl, -⟩ := h.exists_last
    rfl
  | .link p E next, _, h => by
    obtain ⟨F, next', rfl, -, -, hnext⟩ := h.exists_link
    simp [params, Like.params_eq hnext]

theorem Like.rebind {c d : Closure} {E F : Environment} (h : c.Like R d) (hE : E.Like R F) :
    (c.rebind E).Like R (d.rebind F) := by
  cases c with
  | last p G b =>
    obtain ⟨H, b', rfl, hp, -, hb⟩ := h.exists_last
    exact ⟨rfl, hp, hE, hb⟩
  | link p G next =>
    obtain ⟨H, next', rfl, hp, -, hnext⟩ := h.exists_link
    exact ⟨rfl, hp, hE, hnext⟩

@[simp] theorem params_rebind (c : Closure) (E : Environment) : (c.rebind E).params = c.params := by
  cases c <;> rfl

theorem params_ne_nil (c : Closure) : c.params ≠ [] := by
  cases c <;> simp [params]

theorem params_chain (E : Environment) (b : Expr) (p : Option String) (ps : List (Option String)) :
    (chain E b p ps).params = p :: ps := by
  induction ps generalizing p with
  | nil => rfl
  | cons q ps ih => simp [chain, params, ih]

theorem Like.chain {E F : Environment} {b c : Expr} (hE : E.Like R F) (hb : R.expr b c)
    {p : Option String} {ps : List (Option String)} (hp : ∀ q ∈ p :: ps, ∀ n ∈ q, R.name n) :
    (Closure.chain E b p ps).Like R (Closure.chain F c p ps) := by
  induction ps generalizing p with
  | nil => exact ⟨rfl, hp p List.mem_cons_self, hE, hb⟩
  | cons q ps ih =>
    refine ⟨rfl, hp p List.mem_cons_self, hE, ih fun r hr => hp r ?_⟩
    exact List.mem_cons_of_mem p hr

theorem Like.curried (hR : R.Lawful) {E F : Environment} {b c : Expr} {names : List String}
    (hE : E.Like R F) (hb : R.expr b c) (hn : ∀ n ∈ names, R.name n) :
    (Value.closure (Closure.curried names b E)).Like R (.closure (Closure.curried names c F)) := by
  cases names with
  | nil => exact ⟨hR.paramless, rfl, by simp, hE, hb⟩
  | cons n ns =>
    refine ⟨?_, Like.chain hE hb ?_⟩
    · rw [Closure.curried, params_chain]
      exact hR.curried
    · intro q hq m hm
      rw [← List.map_cons, List.mem_map] at hq
      obtain ⟨n', hn', rfl⟩ := hq
      cases hm
      exact hn m hn'

end Closure

/-! ### Structural equality -/

theorem Value.Like.same_eq_of_text? {v v' w w' : Value} {text : String} (ht : v.text? = some text)
    (h : v.Like R v') (h' : w.Like R w') : v.same w = v'.same w' := by
  obtain ⟨rfl, -⟩ := h.eq_of_text? ht
  cases w with
  | closure d =>
    obtain ⟨d', rfl, -⟩ := h'.exists_closure
    cases v with
    | closure c => cases ht
    | _ => simp [same]
  | _ =>
    obtain ⟨rfl, -⟩ := h'.eq_of_text? rfl
    rfl

mutual

/-- Likeness carries over whether two values are equal. -/
theorem Value.Like.same_eq (hR : R.Lawful) {v v' w w' : Value} (h : v.Like R v')
    (h' : w.Like R w') : v.same w = v'.same w' := by
  match v, h with
  | .closure c, h =>
    obtain ⟨c', rfl, -, hc⟩ := h.exists_closure
    cases w with
    | closure d =>
      obtain ⟨d', rfl, -, hd⟩ := h'.exists_closure
      simpa [Value.same] using Closure.Like.same_eq hR hc hd
    | _ =>
      obtain ⟨rfl, -⟩ := h'
      simp [Value.same]
  | .number _, h => exact Value.Like.same_eq_of_text? rfl h h'
  | .boolean _, h => exact Value.Like.same_eq_of_text? rfl h h'
  | .string _, h => exact Value.Like.same_eq_of_text? rfl h h'
  | .symbol _, h => exact Value.Like.same_eq_of_text? rfl h h'
  | .builtin _, h => exact Value.Like.same_eq_of_text? rfl h h'
termination_by sizeOf v

theorem Closure.Like.same_eq (hR : R.Lawful) {c c' d d' : Closure} (h : c.Like R c')
    (h' : d.Like R d') : c.same d = c'.same d' := by
  match c, h with
  | .last p E b, h =>
    obtain ⟨E', b', rfl, -, hE, hb⟩ := h.exists_last
    cases d with
    | last q F e =>
      obtain ⟨F', e', rfl, -, hF, he⟩ := h'.exists_last
      simp [Closure.same, hR.same hb he, Bindings.Like.same_eq hR hE hF]
    | link q F d =>
      obtain ⟨F', d', rfl, -⟩ := h'.exists_link
      simp [Closure.same]
  | .link p E c, h =>
    obtain ⟨E', c', rfl, -, hE, hc⟩ := h.exists_link
    cases d with
    | last q F e =>
      obtain ⟨F', e', rfl, -⟩ := h'.exists_last
      simp [Closure.same]
    | link q F d =>
      obtain ⟨F', d', rfl, -, hF, hd⟩ := h'.exists_link
      simp [Closure.same, Closure.Like.same_eq hR hc hd, Bindings.Like.same_eq hR hE hF]
termination_by sizeOf c

theorem Bindings.Like.same_eq (hR : R.Lawful) {l₁ l₂ l₃ l₄ : Option String} {E : Bindings l₁}
    {E' : Bindings l₂} {F : Bindings l₃} {F' : Bindings l₄} (h : E.Like R E') (h' : F.Like R F') :
    E.same F = E'.same F' := by
  match E, h with
  | .nil, h =>
    obtain rfl := h.eq_nil
    cases F with
    | nil =>
      obtain rfl := h'.eq_nil
      simp [Bindings.same]
    | cons m w F _ =>
      obtain ⟨w', F', _, rfl, -⟩ := h'.exists_cons
      simp [Bindings.same]
  | .cons n v E _, h =>
    obtain ⟨v', E', _, rfl, -, hv, hE⟩ := h.exists_cons
    cases F with
    | nil =>
      obtain rfl := h'.eq_nil
      simp [Bindings.same]
    | cons m w F _ =>
      obtain ⟨w', F', _, rfl, -, hw, hF⟩ := h'.exists_cons
      simp [Bindings.same, Value.Like.same_eq hR hv hw, Bindings.Like.same_eq hR hE hF]
termination_by sizeOf E

end

/-! ### Settling -/

namespace Bindings

variable {E F : Environment}

/-- A text has a meaning in both environments, and these are alike, or in neither. -/
theorem Like.meaning? (hR : R.Lawful) (h : E.Like R F) (text : String) :
    (Environment.meaning? E text = none ∧ Environment.meaning? F text = none) ∨
      ∃ v w, Environment.meaning? E text = some v ∧ Environment.meaning? F text = some w ∧
        v.Like R w := by
  rcases h.lookup text with ⟨hE, hF⟩ | ⟨v, w, hE, hF, hv, -⟩
  · rw [Environment.meaning?_of_unbound hE, Environment.meaning?_of_unbound hF]
    cases hlit : Value.ofLiteral? text with
    | none => exact .inl ⟨rfl, rfl⟩
    | some v => exact .inr ⟨v, v, rfl, rfl, Value.Like.of_literal hR hlit⟩
  · exact .inr ⟨v, w, Environment.meaning?_of_lookup hE, Environment.meaning?_of_lookup hF, hv⟩

theorem Like.of_meaning? (hR : R.Lawful) (h : E.Like R E) {text : String} {v : Value}
    (hv : Environment.meaning? E text = some v) : v.Like R v := by
  rcases h.meaning? hR text with ⟨hnone, -⟩ | ⟨v', w', hv', hw', hlike⟩
  · rw [hnone] at hv
    cases hv
  · rw [hv] at hv' hw'
    cases hv'
    cases hw'
    exact hlike

theorem Like.follow (hR : R.Lawful) (h : E.Like R F) (steps : ℕ) (seen : List String) {v w : Value}
    (hv : v.Like R w) :
    (Environment.follow E steps seen v).Like R (Environment.follow F steps seen w) := by
  induction steps generalizing seen v w with
  | zero => exact hv
  | succ steps ih =>
    simp only [Environment.follow, ← hv.text?_eq]
    cases ht : v.text? with
    | none => exact hv
    | some text =>
      by_cases hmem : text ∈ seen
      · simpa [hmem] using hv
      · rcases h.meaning? hR text with ⟨hE, hF⟩ | ⟨v', w', hE, hF, hnext⟩
        · simpa [hmem, hE, hF] using hv
        · simpa [hmem, hE, hF] using ih (text :: seen) hnext

/-- A text has a settled meaning in both environments, and these are alike, or in neither. -/
theorem Like.resolve? (hR : R.Lawful) (h : E.Like R F) (text : String) :
    (Environment.resolve? E text = none ∧ Environment.resolve? F text = none) ∨
      ∃ v w, Environment.resolve? E text = some v ∧ Environment.resolve? F text = some w ∧
        v.Like R w := by
  rcases h.meaning? hR text with ⟨hE, hF⟩ | ⟨v, w, hE, hF, hv⟩
  · exact .inl ⟨Environment.resolve?_eq_none_iff.2 hE, Environment.resolve?_eq_none_iff.2 hF⟩
  · refine .inr ⟨_, _, congrArg _ hE, congrArg _ hF, ?_⟩
    rw [Environment.settle, Environment.settle, Environment.settleBound, Environment.settleBound,
      h.size_eq]
    exact h.follow hR _ _ hv

/-- Settling a symbol leaves no symbol that is a literal. -/
theorem Like.reinterpret_symbol (hR : R.Lawful) (h : E.Like R F) (s : String) :
    (Environment.reinterpret E (.symbol s)).Like R (Environment.reinterpret F (.symbol s)) := by
  simp only [Environment.reinterpret, Value.text?]
  rcases h.resolve? hR s with ⟨hE, hF⟩ | ⟨v, w, hE, hF, hv⟩
  · rw [hE, hF]
    exact ⟨rfl, hR.symbol (Environment.ofLiteral?_of_meaningless
      (Environment.resolve?_eq_none_iff.1 hE))⟩
  · rw [hE, hF]
    exact hv

theorem Like.reinterpret (hR : R.Lawful) (h : E.Like R F) {v w : Value} (hv : v.Like R w) :
    (Environment.reinterpret E v).Like R (Environment.reinterpret F w) := by
  simp only [Environment.reinterpret, ← hv.text?_eq]
  cases ht : v.text? with
  | none => exact hv
  | some text =>
    rcases h.resolve? hR text with ⟨hE, hF⟩ | ⟨v', w', hE, hF, hv'⟩
    · simpa [hE, hF] using hv
    · simpa [hE, hF] using hv'

/-- If the names in an environment are restricted and the first text of a trail obeys this, so do all
texts of the trail: they are texts of values. -/
theorem Like.trail_names (hR : R.Lawful) (h : E.Like R E) {front : List String} {text : String}
    {v : Value} (htrail : Environment.Trail E (front ++ [text]) v) (hname : R.name text) :
    (∀ s ∈ front ++ [text], R.name s) ∧ v.Like R v := by
  induction front generalizing v with
  | nil =>
    cases htrail with
    | start hv => exact ⟨by simpa using hname, h.of_meaning? hR hv⟩
    | step trail => exact absurd rfl trail.ne_nil
  | cons t front ih =>
    rw [List.cons_append] at htrail ⊢
    generalize hseen : front ++ [text] = seen at htrail
    cases htrail with
    | start hv => simp at hseen
    | step trail ht hnew hv =>
      subst hseen
      obtain ⟨hnames, hlike⟩ := ih trail
      refine ⟨List.forall_mem_cons.2 ⟨hR.name (hlike.eq_of_text? ht).2 ht, hnames⟩, ?_⟩
      exact h.of_meaning? hR hv

end Bindings

/-! ### Equality as a likeness -/

mutual

/-- When only equal expressions may stand for each other, values that are alike are equal. -/
theorem Value.Like.eq (hR : ∀ {e f}, R.expr e f → e = f) {v w : Value} (h : v.Like R w) :
    v = w := by
  match v, h with
  | .closure c, h =>
    obtain ⟨d, rfl, -, hc⟩ := h.exists_closure
    rw [Closure.Like.eq hR hc]
  | .number _, h => exact h.1
  | .boolean _, h => exact h.1
  | .string _, h => exact h.1
  | .symbol _, h => exact h.1
  | .builtin _, h => exact h.1
termination_by sizeOf v

theorem Closure.Like.eq (hR : ∀ {e f}, R.expr e f → e = f) {c d : Closure}
    (h : c.Like R d) : c = d := by
  match c, h with
  | .last p E b, h =>
    obtain ⟨F, b', rfl, -, hE, hb⟩ := h.exists_last
    rw [hR hb, Bindings.Like.eq hR hE]
  | .link p E c, h =>
    obtain ⟨F, c', rfl, -, hE, hc⟩ := h.exists_link
    rw [Bindings.Like.eq hR hE, Closure.Like.eq hR hc]
termination_by sizeOf c

theorem Bindings.Like.eq (hR : ∀ {e f}, R.expr e f → e = f) {low : Option String}
    {E F : Bindings low} (h : E.Like R F) : E = F := by
  match E, h with
  | .nil, h => exact h.eq_nil.symm
  | .cons n v E _, h =>
    obtain ⟨w, F, _, rfl, -, hv, hE⟩ := h.exists_cons
    rw [Value.Like.eq hR hv, Bindings.Like.eq hR hE]
termination_by sizeOf E

end

/-- The likeness of values that are equal. -/
def Likeness.equal (loose : Prop) : Likeness where
  expr := Eq
  name _ := True
  plain _ := True
  params _ := True
  loose := loose

theorem Likeness.lawful_equal (loose : Prop) : (Likeness.equal loose).Lawful where
  toExprLawful := exprLawful_eq
  number _ := trivial
  boolean _ := trivial
  string _ := trivial
  symbol _ := trivial
  name _ _ := trivial
  paramless := trivial
  curried := trivial
  next _ _ := trivial

/-- Whether everything may stand for itself. -/
structure Likeness.Reflexive (R : Likeness) : Prop where
  expr (e : Expr) : R.expr e e
  name (n : String) : R.name n
  plain (v : Value) : R.plain v
  params (ps : List (Option String)) : R.params ps

theorem Likeness.reflexive_equal (loose : Prop) : (Likeness.equal loose).Reflexive where
  expr _ := rfl
  name _ := trivial
  plain _ := trivial
  params _ := trivial

mutual

theorem Value.like_self (hR : R.Reflexive) (v : Value) : v.Like R v := by
  match v with
  | .closure c => exact ⟨hR.params _, Closure.like_self hR c⟩
  | .number _ => exact ⟨rfl, hR.plain _⟩
  | .boolean _ => exact ⟨rfl, hR.plain _⟩
  | .string _ => exact ⟨rfl, hR.plain _⟩
  | .symbol _ => exact ⟨rfl, hR.plain _⟩
  | .builtin _ => exact ⟨rfl, hR.plain _⟩
termination_by sizeOf v

theorem Closure.like_self (hR : R.Reflexive) (c : Closure) : c.Like R c := by
  match c with
  | .last _ E b => exact ⟨rfl, fun n _ => hR.name n, Bindings.like_self hR E, hR.expr b⟩
  | .link _ E next =>
    exact ⟨rfl, fun n _ => hR.name n, Bindings.like_self hR E, Closure.like_self hR next⟩
termination_by sizeOf c

theorem Bindings.like_self (hR : R.Reflexive) {low : Option String} (E : Bindings low) :
    E.Like R E := by
  match E with
  | .nil => trivial
  | .cons n v rest _ =>
    exact ⟨rfl, hR.name n, Value.like_self hR v, Bindings.like_self hR rest⟩
termination_by sizeOf E

end

section

variable {loose : Prop}

theorem Bindings.like_equal_self (E : Environment) : E.Like (.equal loose) E :=
  E.like_self (Likeness.reflexive_equal loose)

theorem Value.like_equal_iff {v w : Value} : v.Like (.equal loose) w ↔ v = w :=
  ⟨Value.Like.eq id, fun h => h ▸ v.like_self (Likeness.reflexive_equal loose)⟩

end

end FixpointLisp
