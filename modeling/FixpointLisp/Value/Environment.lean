import FixpointLisp.Value.Basic

/-!
# Operations on environments

An environment is changed by making a new one; the old one stays as it was.

* `Bindings.lookup` finds what a name is bound to.
* `Bindings.insert` puts a binding in its place, over an earlier one of the same name;
  `Environment.bind` and `Environment.extend` do this for environments.
* `Bindings.toList` lists the bindings in increasing order of names.
* `Environment.global` binds every builtin to its name.
-/

namespace FixpointLisp

namespace Bindings

variable {low : Option String}

/-- What a name is bound to. -/
def lookup (name : String) : {low : Option String} → Bindings low → Option Value
  | _, nil => none
  | _, cons name' value rest _ => if name' = name then some value else rest.lookup name

/-- The bindings in increasing order of names. -/
def toList : {low : Option String} → Bindings low → List (String × Value)
  | _, nil => []
  | _, cons name value rest _ => (name, value) :: rest.toList

/-- The number of bindings. -/
def size (E : Bindings low) : Nat := E.toList.length

/-- The bound names in increasing order. -/
def names (E : Bindings low) : List String := E.toList.map Prod.fst

/-- The row with one more binding, which takes the place of an earlier one of the same name. -/
def insert (name : String) (value : Value) :
    {low : Option String} → Bindings low → Above low name → Bindings low
  | _, nil, above => cons name value nil above
  | _, cons name' value' rest above', above =>
    if below : name < name' then cons name value (cons name' value' rest below) above
    else if eq : name' = name then cons name' value rest above'
    else
      cons name' value'
        (rest.insert name value (Std.lt_of_le_of_ne (Std.not_lt.1 below) eq)) above'

/-- Inserting a binding changes what its name is bound to and nothing else. -/
theorem lookup_insert (name m : String) (value : Value) :
    ∀ {low : Option String} (E : Bindings low) (above : Above low name),
      (E.insert name value above).lookup m = if name = m then some value else E.lookup m
  | _, nil, _ => by simp [insert, lookup]
  | _, cons name' value' rest above', above => by
    unfold insert
    split
    · simp [lookup]
    · split
      · next h =>
        subst h
        by_cases hm : name' = m <;> simp [lookup, hm]
      · next h =>
        by_cases hm : name' = m
        · subst hm
          simp [lookup, Ne.symm h]
        · simp only [lookup, hm, if_false]
          exact lookup_insert name m value rest _

end Bindings

namespace Environment

/-- The environment without bindings. -/
def empty : Environment := .nil

/-- The environment in which `name` is bound to `value`, and all other names as before. -/
def bind (E : Environment) (name : String) (value : Value) : Environment :=
  Bindings.insert name value E trivial

@[simp] theorem lookup_bind (E : Environment) (name m : String) (value : Value) :
    (E.bind name value).lookup m = if name = m then some value else E.lookup m :=
  Bindings.lookup_insert name m value E trivial

/-- The environment with all given bindings made in order, so the last one of a name counts. -/
def extend (E : Environment) (bindings : List (String × Value)) : Environment :=
  bindings.foldl (fun E b => E.bind b.1 b.2) E

/-- Of several bindings of a name the last one counts, and without any the name stays as it was. -/
theorem lookup_extend (E : Environment) (bindings : List (String × Value)) (m : String) :
    (E.extend bindings).lookup m = (bindings.reverse.lookup m).or (E.lookup m) := by
  induction bindings generalizing E with
  | nil => simp [extend]
  | cons b bindings ih =>
    obtain ⟨name, value⟩ := b
    have hone : List.lookup m [(name, value)] = if name = m then some value else none := by
      by_cases h : name = m
      · simp [h]
      · simp [List.lookup_cons, h, beq_eq_false_iff_ne.2 (Ne.symm h)]
    rw [extend, List.foldl_cons, ← extend, ih, lookup_bind, List.reverse_cons, List.lookup_append,
      hone]
    split <;> simp

/-- The environment that binds every builtin to its name. -/
def global : Environment := empty.extend (Builtin.all.map fun b => (b.name, .builtin b))

/-- The text of an environment. -/
def write (E : Environment) : String :=
  "\x7b" ++ String.intercalate ", " (E.toList.map fun b => b.1 ++ " -> " ++ b.2.write) ++ "\x7d"

end Environment
end FixpointLisp
