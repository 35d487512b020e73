import FixpointLisp.Eval.Basic
import FixpointLisp.Proofs.Console.Completion
import FixpointLisp.Proofs.Value.Equality
import Mathlib.Tactic

/-!
# Environments after a sequence of bindings

However an environment was made, it can be told apart from another one only by what the names are
bound to. This holds of the environments that closures captured as well, to any depth, so values
that agree in this sense are the same value.

* `Value.Agrees`: closures agree if their captured environments do, name by name.
  `Value.Agrees.eq`: values that agree are equal.
* `Edit`: some bindings, made one by one or several at once. `Environment.edited` makes them in
  order.
* `lastValue?`: the last value that some edits give to a name. `Environment.lookup_edited`: this is
  what the name is bound to afterwards.
* `Environment.write_eq`: the text of an environment shows the names in order, each with its value.
* `edited_extensional`: edits that give the same last value to each name make environments that
  nothing tells apart, evaluation included.
-/

namespace FixpointLisp

open Text

/-! ### Values that agree -/

/-- Whether two values are the same up to how the environments captured in them were made. -/
inductive Value.Agrees : Value → Value → Prop
  | plain {v : Value} (hv : ∀ c, v ≠ .closure c) : Agrees v v
  /-- The environments captured by the links bind the same names, to values that agree. -/
  | closure {c d : Closure} (hparams : c.params = d.params) (hbody : c.body = d.body)
      (hscopes : List.Forall₂ (fun E F => ∀ n, Option.Rel Agrees (E.lookup n) (F.lookup n))
        c.scopes d.scopes) : Agrees (.closure c) (.closure d)

/-- Options that are related are equal if related values are. -/
theorem eq_of_optionRel {α : Type} {r : α → α → Prop} {o o' : Option α}
    (h : Option.Rel r o o') (heq : ∀ a, o = some a → ∀ b, r a b → a = b) : o = o' := by
  cases h with
  | none => rfl
  | some hab => rw [heq _ rfl _ hab]

/-- A chain is known from its parameters, its body and what its links captured. -/
theorem Closure.ext_scopes : ∀ {c d : Closure}, c.params = d.params → c.body = d.body →
    c.scopes = d.scopes → c = d
  | last p E b, last q F e, hparams, hbody, hscopes => by
    cases hparams
    cases hscopes
    cases hbody
    rfl
  | last p E b, link q F d, hparams, _, _ =>
    absurd (List.cons.inj hparams).2.symm d.params_ne_nil
  | link p E c, last q F e, hparams, _, _ =>
    absurd (List.cons.inj hparams).2 c.params_ne_nil
  | link p E c, link q F d, hparams, hbody, hscopes => by
    obtain ⟨hp, hparams⟩ := List.cons.inj hparams
    obtain ⟨hE, hscopes⟩ := List.cons.inj hscopes
    rw [hp, hE, ext_scopes hparams hbody hscopes]

namespace Value

theorem Agrees.refl (v : Value) : v.Agrees v := by
  induction v using captured_induction with
  | plain v hv => exact .plain hv
  | closure c ih =>
    refine .closure rfl rfl (List.forall₂_same.2 fun E hE n => ?_)
    cases hn : E.lookup n with
    | none => exact .none
    | some v => exact .some (ih v ⟨E, hE, n, hn⟩)

theorem Agrees.eq {v w : Value} (h : v.Agrees w) : v = w := by
  induction v using captured_induction generalizing w with
  | plain v hv =>
    cases h with
    | plain => rfl
    | closure => exact absurd rfl (hv _)
  | closure c ih =>
    cases h with
    | plain hv => rfl
    | closure hparams hbody hscopes =>
      have heq : ∀ E ∈ c.scopes, ∀ F : Environment,
          (∀ n, Option.Rel Agrees (E.lookup n) (F.lookup n)) → E = F := fun E hE F h =>
        Bindings.ext_lookup fun n => eq_of_optionRel (h n) fun v hv w => ih v ⟨E, hE, n, hv⟩
      have hscopes := (List.forall₂_and_left _ _).2 ⟨heq, hscopes⟩
      rw [Closure.ext_scopes hparams hbody
        (List.forall₂_eq_eq_eq ▸ hscopes.imp fun E F h => h.1 F h.2)]

end Value

/-! ### Edits -/

/-- One way to make bindings. -/
inductive Edit where
  /-- A single binding. -/
  | bind (name : String) (value : Value)
  /-- Several bindings, one after the other. -/
  | extend (bindings : List (String × Value))

/-- The bindings that an edit makes, in order. -/
def Edit.bindings : Edit → List (String × Value)
  | bind name value => [(name, value)]
  | extend bindings => bindings

/-- The last value that some edits give to a name. -/
def lastValue? (es : List Edit) (name : String) : Option Value :=
  (es.flatMap Edit.bindings).reverse.lookup name

theorem lastValue?_eq_none_iff {es : List Edit} {name : String} :
    lastValue? es name = none ↔ ∀ e ∈ es, ∀ b ∈ e.bindings, b.1 ≠ name := by
  simp only [lastValue?, List.lookup_eq_none_iff, List.mem_reverse, List.mem_flatMap]
  constructor
  · intro h e he b hb
    exact fun hname => by simpa [hname] using h b ⟨e, he, hb⟩
  · rintro h b ⟨e, he, hb⟩
    exact bne_iff_ne.2 (Ne.symm (h e he b hb))

namespace Environment

variable (E : Environment)

/-- The environment after an edit. -/
def edit : Edit → Environment
  | .bind name value => E.bind name value
  | .extend bindings => E.extend bindings

/-- The environment after several edits. -/
def edited (es : List Edit) : Environment := es.foldl edit E

theorem edit_eq_extend (e : Edit) : E.edit e = E.extend e.bindings := by
  cases e <;> rfl

theorem extend_append (bs cs : List (String × Value)) :
    E.extend (bs ++ cs) = (E.extend bs).extend cs :=
  List.foldl_append

theorem edited_eq_extend (es : List Edit) : E.edited es = E.extend (es.flatMap Edit.bindings) := by
  induction es generalizing E with
  | nil => rfl
  | cons e es ih =>
    rw [edited, List.foldl_cons, ← edited, ih, edit_eq_extend, List.flatMap_cons, extend_append]

/-- After some edits, a name is bound to the last value that they give to it; a name to which they
give none is bound as before. -/
theorem lookup_edited (es : List Edit) (name : String) :
    (E.edited es).lookup name = (lastValue? es name).or (E.lookup name) := by
  rw [edited_eq_extend, lookup_extend, lastValue?]

end Environment

/-! ### What is listed of an environment -/

namespace Bindings

theorem lookup_of_mem_toList {n : String} {v : Value} :
    ∀ {low : Option String} {E : Bindings low}, (n, v) ∈ E.toList → E.lookup n = some v
  | _, .cons m w rest above, h => by
    rw [toList, List.mem_cons] at h
    rcases h with h | h
    · cases h
      simp [lookup]
    · have hrest : rest.lookup n = some v := lookup_of_mem_toList h
      have hne : m ≠ n := fun hmn => String.lt_irrefl m (hmn ▸ above_of_lookup hrest)
      rw [lookup, if_neg hne, hrest]

end Bindings

namespace Environment

/-- The text of an environment shows the names in order, each with what it is bound to. -/
theorem write_eq (E : Environment) :
    E.write = "\x7b" ++ String.intercalate ", " (E.names.filterMap fun n =>
      (E.lookup n).map fun v => n ++ " -> " ++ v.write) ++ "\x7d" := by
  rw [write, Bindings.names, List.filterMap_map, ← List.filterMap_eq_map]
  congr 3
  refine List.filterMap_congr fun b hb => ?_
  simp [Bindings.lookup_of_mem_toList hb]

/-- What is listed of an environment follows from what its names are bound to. -/
structure Listed (E : Environment) : Prop where
  /-- The names are listed in the order of their bytes, so each of them once. -/
  ordered : E.names.Pairwise fun m n => bytes m < bytes n
  /-- They are the bound ones. -/
  bound : ∀ n, n ∈ E.names ↔ ∃ v, E.lookup n = some v
  size : E.size = E.names.length
  write : E.write = "\x7b" ++ String.intercalate ", " (E.names.filterMap fun n =>
    (E.lookup n).map fun v => n ++ " -> " ++ v.write) ++ "\x7d"

theorem listed (E : Environment) : E.Listed where
  ordered := E.pairwise_names.imp bytes_lt
  bound _ := Bindings.mem_names_iff
  size := by rw [Bindings.names, List.length_map, Bindings.size]
  write := E.write_eq

/-! ### Environments that nothing tells apart -/

/-- Whether two environments look the same wherever a program or its user can see them. -/
structure Indistinguishable (E F : Environment) : Prop where
  lookup : ∀ n, E.lookup n = F.lookup n
  size : E.size = F.size
  names : E.names = F.names
  write : E.write = F.write
  /-- The outcomes are equal with all environments that are captured or reported in them. -/
  outcome : ∀ depth e mode, eval depth e E mode = eval depth e F mode

theorem indistinguishable_of_lookup {E F : Environment} (h : ∀ n, E.lookup n = F.lookup n) :
    E.Indistinguishable F := by
  obtain rfl := Bindings.ext_lookup h
  exact ⟨fun _ => rfl, rfl, rfl, rfl, fun _ _ _ => rfl⟩

end Environment

/-- **Environments are extensional.** Let two sequences of edits of an environment give the same
last value to each name, where closures count as the same however the environments captured in them
were made. Then nothing tells the two environments apart that they lead to: neither what is looked
up or listed in them nor the outcome of any evaluation. Each name is bound to the last value given
to it, or else as it was before. -/
theorem edited_extensional (E : Environment) (es fs : List Edit)
    (h : ∀ n, Option.Rel Value.Agrees (lastValue? es n) (lastValue? fs n)) :
    (E.edited es).Indistinguishable (E.edited fs) ∧ (E.edited es).Listed ∧
      (∀ n, (E.edited es).lookup n = (lastValue? es n).or (E.lookup n)) ∧
      ∀ n, (∀ e ∈ es, ∀ b ∈ e.bindings, b.1 ≠ n) → (E.edited es).lookup n = E.lookup n := by
  refine ⟨Environment.indistinguishable_of_lookup fun n => ?_, (E.edited es).listed,
    E.lookup_edited es, fun n hn => ?_⟩
  · have hlast : lastValue? es n = lastValue? fs n :=
      eq_of_optionRel (h n) fun v _ w => Value.Agrees.eq
    rw [E.lookup_edited, E.lookup_edited, hlast]
  · rw [E.lookup_edited, lastValue?_eq_none_iff.2 hn, Option.none_or]

/-- A closure that captured an environment, with the parameter `p` and the body `(+ x)`. -/
def capturedPair (scope : Environment) : Value :=
  .closure (.last (some "p") scope (.list [.atom "+" ⟨1, 2⟩, .atom "x" ⟨3, 4⟩] ⟨0, 5⟩))

theorem agrees_capturedPair {E F : Environment}
    (h : ∀ n, Option.Rel Value.Agrees (E.lookup n) (F.lookup n)) :
    (capturedPair E).Agrees (capturedPair F) :=
  .closure rfl rfl (.cons h .nil)

/-- The global environment with `a` and `b` bound to a closure, once by three bindings and once by
two in the other order, where the closure captured an environment that was made in the other order,
too. -/
theorem edited_extensional_swapped :
    let v := capturedPair ((Environment.empty.bind "x" (.number 1)).bind "y" (.number 2))
    let w := capturedPair ((Environment.empty.bind "y" (.number 2)).bind "x" (.number 1))
    let es : List Edit := [.bind "a" (.number 1), .extend [("b", v), ("a", v)]]
    let fs : List Edit := [.extend [("a", w)], .bind "b" w]
    (∀ n, Option.Rel Value.Agrees (lastValue? es n) (lastValue? fs n)) ∧
      (Environment.global.edited es).Indistinguishable (Environment.global.edited fs) ∧
      (Environment.global.edited es).lookup "a" = some w ∧
      (Environment.global.edited es).lookup "+" = some (.builtin .add) := by
  intro v w es fs
  have hvw : v.Agrees w := by
    refine agrees_capturedPair fun n => ?_
    simp only [Environment.lookup_bind]
    by_cases hy : "y" = n
    · subst hy
      exact .some (.refl _)
    · by_cases hx : "x" = n
      · subst hx
        exact .some (.refl _)
      · simp [hx, hy, Environment.empty, Bindings.lookup]
  have h : ∀ n, Option.Rel Value.Agrees (lastValue? es n) (lastValue? fs n) := by
    intro n
    by_cases ha : n = "a"
    · subst ha
      exact .some hvw
    · by_cases hb : n = "b"
      · subst hb
        exact .some hvw
      · have ha' : (n == "a") = false := beq_eq_false_iff_ne.2 ha
        have hb' : (n == "b") = false := beq_eq_false_iff_ne.2 hb
        simp [es, fs, lastValue?, Edit.bindings, List.lookup_cons, ha', hb']
  obtain ⟨hsame, -, hlookup, hold⟩ := edited_extensional Environment.global es fs h
  refine ⟨h, hsame, ?_, ?_⟩
  · rw [hlookup, ← hvw.eq]
    rfl
  · rw [hold "+" (lastValue?_eq_none_iff.1 rfl)]
    rfl

end FixpointLisp
