import FixpointLisp.Proofs.Eval.Forms
import FixpointLisp.Proofs.Eval.Literals
import FixpointLisp.Proofs.Eval.Positions
import Mathlib.Tactic

/-!
# Taking strings apart

The first character of a text and the rest of it are strings again, and each of them is put between
quotes, looked up and read as a literal before the next operation sees it. Where no text that starts
with a quote is bound, all of this changes nothing: a piece of a string stays that piece, whatever it
looks like.

* `Yields.of_same`: an expression that stands somewhere else yields the same value.
* `evaluate_first`, `evaluate_rest`: the operations on the text of a value.
* `restCalls`: an expression below a number of `str-rest` calls.
* `exists_evaluate_restCalls`: each of them takes off one character.
* `slicing_loses_nothing`: the first character and the rest make up the text, and each character is
  found below as many `str-rest` calls as there are characters in front of it.
-/

namespace FixpointLisp

variable {E : Environment} {mode : Resolution} {e e' operator : Expr} {v : Value} {span : Span}

/-- Whether a value is no function. -/
def Value.IsData (v : Value) : Prop := (∀ c, v ≠ .closure c) ∧ ∀ b, v ≠ .builtin b

theorem Value.isData_string (c : String) : (Value.string c).IsData := by simp [Value.IsData]

/-- A value that is no function contributes a text: a string its content, and every other value its
canonical text. -/
theorem Value.IsData.content_eq (h : v.IsData) :
    v = .string v.content ∨ (∀ t, v ≠ .string t) ∧ v.text? = some v.content := by
  cases v with
  | string s => exact .inl rfl
  | number x => exact .inr ⟨by simp, rfl⟩
  | boolean b => exact .inr ⟨by simp, rfl⟩
  | symbol s => exact .inr ⟨by simp, rfl⟩
  | builtin b => exact absurd rfl (h.2 b)
  | closure c => exact absurd rfl (h.1 c)

/-- An expression that differs in spans only yields the same value, unless it is a closure. -/
theorem Yields.of_same (h : Yields E mode e (.done v)) (hv : ∀ c, v ≠ .closure c)
    (hsame : e.same e') : Yields E mode e' (.done v) := by
  obtain ⟨hne, depth, hdepth⟩ := h
  have hagrees : (eval depth e E mode).Agrees .respanned (eval depth e' E mode) :=
    eval_agrees_respanned hsame (E.like_self Likeness.reflexive_respanned)
  rw [hdepth] at hagrees
  cases hev : eval depth e' E mode with
  | done w =>
    rw [hev] at hagrees
    obtain ⟨hlike⟩ := hagrees
    obtain ⟨c, -, rfl, -⟩ | rfl := hlike.closure_or_eq
    · exact absurd rfl (hv c)
    · exact ⟨hne, depth, hev⟩
  | failed err => rw [hev] at hagrees; cases hagrees
  | exhausted => rw [hev] at hagrees; cases hagrees

/-! ### Operations on texts -/

theorem nonFunction_of_yields (he : Yields E mode e (.done v)) (hv : v.IsData) (b : Builtin)
    (form : Expr) (expected : Expectation) :
    CallSite.nonFunction ⟨b, form, E, mode⟩ evaluate expected e = .done v := by
  rw [CallSite.nonFunction, CallSite.operand, he.evaluate_eq, Outcome.done_bind]
  cases v with
  | closure c => exact absurd rfl (hv.1 c)
  | builtin b => exact absurd rfl (hv.2 b)
  | _ => rfl

/-- An operation on the text of a value gives a string, which stays as it is. -/
theorem yields_textual {b : Builtin} {op : List Char → List Char} (hE : E.LeavesQuotes)
    (hoperator : Yields E mode operator (.done (.builtin b)))
    (hoperate : ∀ form, CallSite.operate ⟨b, form, E, mode⟩ evaluate [e] =
      CallSite.textual ⟨b, form, E, mode⟩ evaluate op [e])
    (he : Yields E mode e (.done v)) (hv : v.IsData) (span : Span) :
    Yields E mode (.list [operator, e] span)
      (.done (.string (String.ofList (op v.content.toList)))) := by
  rw [yields_done_iff, evaluate_of_builtin hoperator.evaluate_eq, hoperate, CallSite.textual,
    CallSite.unary, nonFunction_of_yields he hv, Outcome.done_bind, Outcome.done_bind,
    hE.reinterpret_string]

theorem yields_first (hE : E.LeavesQuotes)
    (hoperator : Yields E mode operator (.done (.builtin .first)))
    (he : Yields E mode e (.done v)) (hv : v.IsData) (span : Span) :
    Yields E mode (.list [operator, e] span)
      (.done (.string (String.ofList (v.content.toList.take 1)))) :=
  yields_textual hE hoperator (fun _ => rfl) he hv span

theorem yields_rest (hE : E.LeavesQuotes)
    (hoperator : Yields E mode operator (.done (.builtin .rest)))
    (he : Yields E mode e (.done v)) (hv : v.IsData) (span : Span) :
    Yields E mode (.list [operator, e] span)
      (.done (.string (String.ofList (v.content.toList.drop 1)))) :=
  yields_textual hE hoperator (fun _ => rfl) he hv span

/-- Two strings are joined. -/
theorem yields_add_strings {c c' : String} (hE : E.LeavesQuotes)
    (hoperator : Yields E mode operator (.done (.builtin .add)))
    (he : Yields E mode e (.done (.string c))) (he' : Yields E mode e' (.done (.string c')))
    (span : Span) :
    Yields E mode (.list [operator, e, e'] span) (.done (.string (c ++ c'))) := by
  have hvalues (form : Expr) :
      [e, e'].mapM (CallSite.nonFunction ⟨.add, form, E, mode⟩ evaluate .addend) =
        .done ([c, c'].map .string) :=
    Outcome.mapM_eq_done_iff.2 <| .cons (nonFunction_of_yields he (Value.isData_string c) _ _ _) <|
      .cons (nonFunction_of_yields he' (Value.isData_string c') _ _ _) .nil
  have hoperate (form : Expr) : CallSite.operate ⟨.add, form, E, mode⟩ evaluate [e, e'] =
      .done (.string (c ++ c')) := by
    simp only [CallSite.operate, hvalues, Outcome.done_bind]
    rw [total_string (List.cons_ne_nil c [c'])]
    simp [String.join]
  rw [yields_done_iff, evaluate_of_builtin hoperator.evaluate_eq, hoperate, Outcome.done_bind,
    hE.reinterpret_string]

/-! ### Repeated calls -/

/-- An expression below calls of `str-rest`, each with an expression for the operator and a span. -/
def restCalls (calls : List (Expr × Span)) (e : Expr) : Expr :=
  calls.foldr (fun call inner => .list [call.1, inner] call.2) e

/-- Each of the calls takes off one character. -/
theorem exists_yields_restCalls (hE : E.LeavesQuotes) (he : Yields E mode e (.done v))
    (hv : v.IsData) {calls : List (Expr × Span)}
    (hcalls : ∀ call ∈ calls, Yields E mode call.1 (.done (.builtin .rest))) :
    ∃ w, Yields E mode (restCalls calls e) (.done w) ∧ w.IsData ∧
      w.content.toList = v.content.toList.drop calls.length := by
  induction calls with
  | nil => exact ⟨v, he, hv, rfl⟩
  | cons call calls ih =>
    obtain ⟨hcall, hcalls⟩ := List.forall_mem_cons.1 hcalls
    obtain ⟨w, hw, hdata, hcontent⟩ := ih hcalls
    refine ⟨_, yields_rest hE hcall hw hdata call.2, Value.isData_string _, ?_⟩
    rw [Value.content, String.toList_ofList, hcontent, List.drop_drop, List.length_cons]

/-- **Taking strings apart loses nothing.** Let no text that starts with a quote be bound, and let an
expression evaluate to a value that is no function. This has a text: its content if it is a string,
and else its canonical text. The sum of the first character and the rest is this text, as a string.
The first character below a number of `str-rest` calls is that of the text at this index, or nothing
where the text has no more characters than that. -/
theorem slicing_loses_nothing (E : Environment) (mode : Resolution) (hE : E.LeavesQuotes) (e : Expr)
    (v : Value) (he : Yields E mode e (.done v)) (hclosure : ∀ c, v ≠ .closure c)
    (hbuiltin : ∀ b, v ≠ .builtin b) :
    ∃ text, (v = .string text ∨ (∀ t, v ≠ .string t) ∧ v.text? = some text) ∧
      (∀ plus head tail e' s s' s'', Yields E mode plus (.done (.builtin .add)) →
        Yields E mode head (.done (.builtin .first)) → Yields E mode tail (.done (.builtin .rest)) →
          e.same e' →
            Yields E mode (.list [plus, .list [head, e] s, .list [tail, e'] s'] s'')
              (.done (.string text))) ∧
      ∀ head calls span, Yields E mode head (.done (.builtin .first)) →
        (∀ call ∈ calls, Yields E mode call.1 (.done (.builtin .rest))) →
          Yields E mode (.list [head, restCalls calls e] span)
            (.done (.string (String.ofList text.toList[calls.length]?.toList))) := by
  have hv : v.IsData := ⟨hclosure, hbuiltin⟩
  refine ⟨v.content, hv.content_eq, ?_, ?_⟩
  · intro plus head tail e' s s' s'' hplus hhead htail hsame
    have hsum := yields_add_strings hE hplus (yields_first hE hhead he hv s)
      (yields_rest hE htail (he.of_same hclosure hsame) hv s') s''
    have hparts : v.content.toList.take 1 ++ v.content.toList.drop 1 = v.content.toList :=
      List.take_append_drop 1 _
    rwa [← String.ofList_append, hparts, String.ofList_toList] at hsum
  · intro head calls span hhead hcalls
    obtain ⟨w, hw, hdata, hcontent⟩ := exists_yields_restCalls hE he hv hcalls
    have hfirst := yields_first hE hhead hw hdata span
    rwa [hcontent, List.take_one, List.head?_drop] at hfirst

/-- Where `1` and `2` are bound to each other, the string `"12"` is still made up of its first
character and the rest, and its characters are `"1"` and `"2"`, in this order. The truth value
`true` is taken apart like the string `"true"`. -/
theorem slicing_loses_nothing_swapped :
    let twelve : Expr := .atom (Value.quote "12") ⟨0, 4⟩
    let yes : Expr := .atom "true" ⟨0, 4⟩
    let plus : Expr := .atom "+" ⟨1, 2⟩
    let head : Expr := .atom "str-first" ⟨1, 10⟩
    let tail : Expr := .atom "str-rest" ⟨1, 9⟩
    swappedGlobal.LeavesQuotes ∧
    Yields swappedGlobal .strict twelve (.done (.string "12")) ∧
    (∀ s s' s'', Yields swappedGlobal .strict
      (.list [plus, .list [head, twelve] s, .list [tail, twelve] s'] s'')
        (.done (.string "12"))) ∧
    (∀ s, Yields swappedGlobal .strict (.list [head, twelve] s) (.done (.string "1"))) ∧
    (∀ s s', Yields swappedGlobal .strict (.list [head, .list [tail, twelve] s] s')
      (.done (.string "2"))) ∧
    Yields swappedGlobal .strict yes (.done (.boolean true)) ∧
    (∀ s s' s'', Yields swappedGlobal .strict
      (.list [plus, .list [head, yes] s, .list [tail, yes] s'] s'') (.done (.string "true"))) ∧
    ∀ s s', Yields swappedGlobal .strict (.list [head, .list [tail, yes] s] s')
      (.done (.string "r")) := by
  intro twelve yes plus head tail
  have hquotes : swappedGlobal.LeavesQuotes :=
    (leavesQuotes_global.bind (by decide) _).bind (by decide) _
  have htwelve : Yields swappedGlobal .strict twelve (.done (.string "12")) :=
    ⟨by simp, 1, by rw [eval_quote, hquotes.reinterpret_string]⟩
  have hyes : Yields swappedGlobal .strict yes (.done (.boolean true)) := ⟨by simp, 1, rfl⟩
  have hplus : Yields swappedGlobal .strict plus (.done (.builtin .add)) := ⟨by simp, 1, rfl⟩
  have hhead : Yields swappedGlobal .strict head (.done (.builtin .first)) := ⟨by simp, 1, rfl⟩
  have htail : Yields swappedGlobal .strict tail (.done (.builtin .rest)) := ⟨by simp, 1, rfl⟩
  obtain ⟨digits, ⟨⟨⟩⟩ | ⟨hstring, -⟩, hsum, hcharacter⟩ :=
    slicing_loses_nothing swappedGlobal .strict hquotes twelve _ htwelve (by simp) (by simp)
  · obtain ⟨letters, ⟨⟨⟩⟩ | ⟨-, ⟨⟩⟩, hsum', hcharacter'⟩ :=
      slicing_loses_nothing swappedGlobal .strict hquotes yes _ hyes (by simp) (by simp)
    refine ⟨hquotes, htwelve, fun s s' s'' => ?_, fun s => ?_, fun s s' => ?_, hyes,
      fun s s' s'' => ?_, fun s s' => ?_⟩
    · exact hsum plus head tail twelve s s' s'' hplus hhead htail (by decide)
    · exact hcharacter head [] s hhead (by simp)
    · exact hcharacter head [(tail, s)] s' hhead (by simpa using htail)
    · exact hsum' plus head tail yes s s' s'' hplus hhead htail (by decide)
    · exact hcharacter' head [(tail, s)] s' hhead (by simpa using htail)
  · exact absurd rfl (hstring "12")

end FixpointLisp
