import FixpointLisp.Expr.Parser
import Mathlib.Tactic

/-!
# Parsing and spans

The parser chooses the shape of a tree by the kinds of the tokens alone. Spans are only carried
along and merged, so moving the tokens moves the trees, and tokens of the same kinds give trees that
differ in their spans at most. For the same reason a span of a tree lies where the spans of its
tokens lie.

* `Expr.mapSpan` changes all spans of an expression, `Expr.bare` makes them all the same.
* `Expr.same_iff_bare`: expressions are equal up to spans if they are equal without them.
* `firstOf_mapSpan`, `forestOf_mapSpan`: parsing commutes with a change of spans that respects
  merging.
* `Expr.NodeOf`: an expression occurs in another one.
* `span_of_parse`, `span_of_parseAll`: the nodes of a parsed source text have spans inside of it.
-/

namespace FixpointLisp

variable {g : Span → Span}

/-! ### Expressions with other spans -/

namespace Expr

mutual

/-- The expression with its span and those of all nodes in it changed by `g`. -/
def mapSpan (g : Span → Span) : Expr → Expr
  | atom text s => atom text (g s)
  | list es s => list (mapSpanAll g es) (g s)

/-- Several expressions with all spans in them changed by `g`. -/
def mapSpanAll (g : Span → Span) : List Expr → List Expr
  | [] => []
  | e :: es => mapSpan g e :: mapSpanAll g es

end

@[simp] theorem mapSpanAll_eq_map (g : Span → Span) (es : List Expr) :
    mapSpanAll g es = es.map (mapSpan g) := by
  induction es with
  | nil => rfl
  | cons e es ih => simp [mapSpanAll, ih]

@[simp] theorem span_mapSpan (g : Span → Span) (e : Expr) : (e.mapSpan g).span = g e.span := by
  cases e <;> rfl

/-- The expression with all spans empty. -/
def bare (e : Expr) : Expr := e.mapSpan fun _ => .point 0

@[simp] theorem bare_atom (text : String) (s : Span) :
    (atom text s).bare = atom text (.point 0) := rfl

@[simp] theorem bare_list (es : List Expr) (s : Span) :
    (list es s).bare = list (es.map bare) (.point 0) := by
  rw [bare, mapSpan, mapSpanAll_eq_map]
  rfl

theorem bare_bare (e : Expr) : e.bare.bare = e.bare := by
  match e with
  | atom _ _ => rfl
  | list es _ =>
    have hes : ∀ e ∈ es, e.bare.bare = e.bare := fun e _ => bare_bare e
    simpa using hes

mutual

/-- Expressions are equal up to spans if and only if they are equal without them. -/
theorem same_iff_bare (e f : Expr) : e.same f ↔ e.bare = f.bare := by
  match e, f with
  | atom s _, atom t _ => simp [same]
  | list es _, list fs _ => simp [same, sameAll_iff_bare es fs]
  | atom _ _, list _ _ => simp [same]
  | list _ _, atom _ _ => simp [same]

theorem sameAll_iff_bare (es fs : List Expr) : sameAll es fs ↔ es.map bare = fs.map bare := by
  match es, fs with
  | [], [] => simp [sameAll]
  | e :: es, f :: fs => simp [sameAll, same_iff_bare e f, sameAll_iff_bare es fs]
  | [], _ :: _ => simp [sameAll]
  | _ :: _, [] => simp [sameAll]

end

theorem same_self (e : Expr) : e.same e := (same_iff_bare e e).2 rfl

theorem sameAll_iff_forall₂ {es fs : List Expr} :
    sameAll es fs ↔ List.Forall₂ (fun e f => e.same f) es fs := by
  induction es generalizing fs with
  | nil => cases fs <;> simp [sameAll]
  | cons e es ih => cases fs <;> simp [sameAll, ih]

mutual

theorem write_mapSpan (g : Span → Span) (e : Expr) : (e.mapSpan g).write = e.write := by
  match e with
  | atom _ _ => rfl
  | list es _ => simp [mapSpan, write, writeAll_mapSpan g es]

theorem writeAll_mapSpan (g : Span → Span) (es : List Expr) :
    writeAll (es.map (mapSpan g)) = writeAll es := by
  match es with
  | [] => rfl
  | [e] => simp [writeAll, write_mapSpan g e]
  | e :: f :: es =>
    have hrest := writeAll_mapSpan g (f :: es)
    simp only [List.map_cons] at hrest
    simp [writeAll, write_mapSpan g e, hrest]

end

theorem write_eq_of_bare {e f : Expr} (h : e.bare = f.bare) : e.write = f.write := by
  rw [← write_mapSpan (fun _ => .point 0) e, ← write_mapSpan (fun _ => .point 0) f]
  exact congrArg write h

end Expr

/-! ### Parsing carries spans along -/

/-- A token with another span. -/
def Token.mapSpan (g : Span → Span) (t : Token) : Token := ⟨t.kind, g t.span⟩

@[simp] theorem Token.mapSpan_mk (g : Span → Span) (kind : TokenKind) (s : Span) :
    Token.mapSpan g ⟨kind, s⟩ = ⟨kind, g s⟩ := rfl

/-- A frame with its span and those of its children changed. -/
def Frame.mapSpan (g : Span → Span) (f : Frame) : Frame := ⟨g f.span, f.children.map (·.mapSpan g)⟩

/-- The outcome of reading one node, with its spans changed. -/
def Step.mapSpan (g : Span → Span) : Step → Step
  | .expr e => .expr (e.mapSpan g)
  | .closed s => .closed (g s)
  | .exhausted => .exhausted

/-- Whether a change of spans respects merging. -/
def Merging (g : Span → Span) : Prop := ∀ s t, g (s.merge t) = (g s).merge (g t)

theorem merging_const (s : Span) : Merging fun _ => s := fun _ _ => s.merge_self.symm

namespace Frame

theorem opened_mapSpan (g : Span → Span) (s : Span) :
    opened (g s) = (opened s).mapSpan g := rfl

theorem add_mapSpan (hg : Merging g) (f : Frame) (e : Expr) :
    (f.mapSpan g).add (e.mapSpan g) = (f.add e).mapSpan g := by
  simp [add, mapSpan, hg f.span e.span]

theorem toExpr_mapSpan (g : Span → Span) (f : Frame) :
    (f.mapSpan g).toExpr = f.toExpr.mapSpan g := by
  simp [toExpr, mapSpan, Expr.mapSpan]

theorem close_mapSpan (hg : Merging g) (f : Frame) (s : Span) :
    (f.mapSpan g).close (g s) = (f.close s).mapSpan g := by
  simp [close, mapSpan, Expr.mapSpan, hg f.span s]

end Frame

theorem closeAll_mapSpan (hg : Merging g) (f : Frame) (fs : List Frame) :
    closeAll (f.mapSpan g) (fs.map (·.mapSpan g)) = (closeAll f fs).mapSpan g := by
  induction fs generalizing f with
  | nil => exact f.toExpr_mapSpan g
  | cons h fs ih => simp only [List.map_cons, closeAll, f.toExpr_mapSpan, h.add_mapSpan hg, ih]

theorem readList_mapSpan (hg : Merging g) (f : Frame) (fs : List Frame) (ts : List Token) :
    readList (f.mapSpan g) (fs.map (·.mapSpan g)) (ts.map (·.mapSpan g)) =
      ((readList f fs ts).1.mapSpan g, (readList f fs ts).2.map (·.mapSpan g)) := by
  fun_induction readList f fs ts with
  | case1 f fs => simp [readList, closeAll_mapSpan hg]
  | case2 f fs s ts ih => simpa [readList, Frame.opened_mapSpan] using ih
  | case3 f s ts => simp [readList, f.close_mapSpan hg]
  | case4 f h fs s ts ih => simpa [readList, f.close_mapSpan hg, h.add_mapSpan hg] using ih
  | case5 f fs text s ts ih => simpa [readList, ← f.add_mapSpan hg, Expr.mapSpan] using ih
  | case6 f fs text s ts ih => simpa [readList, ← f.add_mapSpan hg, Expr.mapSpan] using ih

theorem step_mapSpan (hg : Merging g) (ts : List Token) :
    step (ts.map (·.mapSpan g)) = ((step ts).1.mapSpan g, (step ts).2.map (·.mapSpan g)) := by
  match ts with
  | [] => rfl
  | ⟨.openParen, s⟩ :: ts =>
    have hread := readList_mapSpan hg (.opened s) [] ts
    rw [List.map_nil] at hread
    simp [step, Step.mapSpan, Frame.opened_mapSpan, hread]
  | ⟨.closeParen, s⟩ :: ts => rfl
  | ⟨.quoted text, s⟩ :: ts => rfl
  | ⟨.atom text, s⟩ :: ts => rfl

/-- Parsing the first expression commutes with a change of spans. -/
theorem firstOf_mapSpan (hg : Merging g) (ts : List Token) {stop stop' : ℕ}
    (hstop : g (.point stop) = .point stop') :
    firstOf (ts.map (·.mapSpan g)) stop' = (firstOf ts stop).mapSpan g := by
  unfold firstOf
  rw [step_mapSpan hg]
  cases (step ts).1 with
  | expr e => rfl
  | closed s => simp [Step.mapSpan, Expr.null, Expr.mapSpan, hstop]
  | exhausted => simp [Step.mapSpan, Expr.null, Expr.mapSpan, hstop]

/-- Parsing all expressions commutes with a change of spans. -/
theorem forestOf_mapSpan (hg : Merging g) (ts : List Token) :
    forestOf (ts.map (·.mapSpan g)) = (forestOf ts).map (·.mapSpan g) := by
  fun_induction forestOf ts with
  | case1 => simp [forestOf]
  | case2 t ts e he ih =>
    have hstep := step_mapSpan hg (t :: ts)
    rw [List.map_cons] at hstep
    rw [List.map_cons, forestOf, hstep, he]
    simp [Step.mapSpan, ih]
  | case3 t ts hne ih =>
    have hstep := step_mapSpan hg (t :: ts)
    rw [List.map_cons] at hstep
    rw [List.map_cons, forestOf, hstep]
    cases hs : (step (t :: ts)).1 with
    | expr e => exact absurd hs (hne e)
    | closed s => simpa [Step.mapSpan] using ih
    | exhausted => simpa [Step.mapSpan] using ih

/-- Tokens of the given kinds, all with empty spans. -/
def bareTokens (kinds : List TokenKind) : List Token := kinds.map fun kind => ⟨kind, .point 0⟩

theorem map_mapSpan_const (ts : List Token) :
    ts.map (·.mapSpan fun _ => .point 0) = bareTokens (ts.map Token.kind) := by
  simp [bareTokens, Token.mapSpan, Function.comp_def]

/-- Without spans, the expressions of a source text depend only on the kinds of its tokens. -/
theorem bare_parseAll (source : String) :
    (parseAll source).map Expr.bare = forestOf (bareTokens ((tokenize source).map Token.kind)) := by
  rw [← map_mapSpan_const, forestOf_mapSpan (merging_const _)]
  rfl

theorem bare_parse (source : String) :
    (parse source).bare = firstOf (bareTokens ((tokenize source).map Token.kind)) 0 := by
  rw [← map_mapSpan_const, firstOf_mapSpan (merging_const _) _ rfl]
  rfl

/-! ### Where the nodes of a tree are -/

/-- Whether an expression is a node of another one: the expression itself, one of its children, or
one further inside. -/
inductive Expr.NodeOf : Expr → Expr → Prop
  | root (e : Expr) : NodeOf e e
  | inside {e f : Expr} {es : List Expr} {s : Span} (hf : f ∈ es) (h : NodeOf e f) :
      NodeOf e (.list es s)

theorem Expr.NodeOf.child {t f : Expr} {es : List Expr} {s : Span} (h : NodeOf (.list es s) t)
    (hf : f ∈ es) : NodeOf f t := by
  generalize he : Expr.list es s = e at h
  induction h with
  | root =>
    subst he
    exact .inside hf (.root f)
  | inside hmem _ ih => exact .inside hmem ih

/-- Whether the spans of all nodes of an expression have the property `Q`. -/
def Expr.SpansIn (Q : Span → Prop) (e : Expr) : Prop := ∀ d : Expr, d.NodeOf e → Q d.span

/-- Whether the spans of a frame and of all nodes read for it have the property `Q`. -/
structure Frame.SpansIn (Q : Span → Prop) (f : Frame) : Prop where
  span : Q f.span
  children : ∀ e ∈ f.children, e.SpansIn Q

section

variable {Q : Span → Prop}

theorem Expr.spansIn_atom {text : String} {s : Span} (h : Q s) : (Expr.atom text s).SpansIn Q := by
  rintro d ⟨⟩
  exact h

theorem Expr.spansIn_list {es : List Expr} {s : Span} (h : Q s) (hes : ∀ e ∈ es, e.SpansIn Q) :
    (Expr.list es s).SpansIn Q := by
  rintro d (_ | ⟨hmem, hnode⟩)
  · exact h
  · exact hes _ hmem d hnode

variable (hQ : ∀ {s t}, Q s → Q t → Q (s.merge t))
include hQ

theorem Frame.SpansIn.add {f : Frame} {e : Expr} (hf : f.SpansIn Q) (he : e.SpansIn Q) :
    (f.add e).SpansIn Q :=
  ⟨hQ hf.span (he e (.root e)), List.forall_mem_cons.2 ⟨he, hf.children⟩⟩

omit hQ in
theorem Frame.SpansIn.toExpr {f : Frame} (hf : f.SpansIn Q) : f.toExpr.SpansIn Q :=
  Expr.spansIn_list hf.span fun e he => hf.children e (List.mem_reverse.1 he)

theorem Frame.SpansIn.close {f : Frame} {s : Span} (hf : f.SpansIn Q) (hs : Q s) :
    (f.close s).SpansIn Q :=
  Expr.spansIn_list (hQ hf.span hs) fun e he => hf.children e (List.mem_reverse.1 he)

theorem closeAll_spansIn {f : Frame} {fs : List Frame} (hf : f.SpansIn Q)
    (hfs : ∀ f ∈ fs, f.SpansIn Q) : (closeAll f fs).SpansIn Q := by
  induction fs generalizing f with
  | nil => exact hf.toExpr
  | cons h fs ih =>
    obtain ⟨hh, hfs⟩ := List.forall_mem_cons.1 hfs
    exact ih (hh.add hQ hf.toExpr) hfs

/-- A list that is read has its spans where the tokens have theirs. -/
theorem readList_spansIn (f : Frame) (fs : List Frame) (ts : List Token) (hf : f.SpansIn Q)
    (hfs : ∀ f ∈ fs, f.SpansIn Q) (hts : ∀ t ∈ ts, Q t.span) :
    (readList f fs ts).1.SpansIn Q ∧ ∀ t ∈ (readList f fs ts).2, Q t.span := by
  fun_induction readList f fs ts with
  | case1 f fs => exact ⟨closeAll_spansIn hQ hf hfs, hts⟩
  | case2 f fs s ts ih =>
    obtain ⟨hs, hts⟩ := List.forall_mem_cons.1 hts
    exact ih ⟨hs, by simp [Frame.opened]⟩ (List.forall_mem_cons.2 ⟨hf, hfs⟩) hts
  | case3 f s ts =>
    obtain ⟨hs, hts⟩ := List.forall_mem_cons.1 hts
    exact ⟨hf.close hQ hs, hts⟩
  | case4 f h fs s ts ih =>
    obtain ⟨hs, hts⟩ := List.forall_mem_cons.1 hts
    obtain ⟨hh, hfs⟩ := List.forall_mem_cons.1 hfs
    exact ih (hh.add hQ (hf.close hQ hs)) hfs hts
  | case5 f fs text s ts ih =>
    obtain ⟨hs, hts⟩ := List.forall_mem_cons.1 hts
    exact ih (hf.add hQ (Expr.spansIn_atom hs)) hfs hts
  | case6 f fs text s ts ih =>
    obtain ⟨hs, hts⟩ := List.forall_mem_cons.1 hts
    exact ih (hf.add hQ (Expr.spansIn_atom hs)) hfs hts

theorem step_spansIn {ts : List Token} (hts : ∀ t ∈ ts, Q t.span) :
    (∀ e, (step ts).1 = .expr e → e.SpansIn Q) ∧ ∀ t ∈ (step ts).2, Q t.span := by
  match ts with
  | [] => exact ⟨by rintro e ⟨⟩, hts⟩
  | ⟨.openParen, s⟩ :: ts =>
    obtain ⟨hs, hts⟩ := List.forall_mem_cons.1 hts
    obtain ⟨hlist, hrest⟩ :=
      readList_spansIn hQ (.opened s) [] ts ⟨hs, by simp [Frame.opened]⟩ (by simp) hts
    exact ⟨by rintro e ⟨⟩; exact hlist, hrest⟩
  | ⟨.closeParen, s⟩ :: ts => exact ⟨by rintro e ⟨⟩, (List.forall_mem_cons.1 hts).2⟩
  | ⟨.quoted text, s⟩ :: ts =>
    obtain ⟨hs, hts⟩ := List.forall_mem_cons.1 hts
    exact ⟨by rintro e ⟨⟩; exact Expr.spansIn_atom hs, hts⟩
  | ⟨.atom text, s⟩ :: ts =>
    obtain ⟨hs, hts⟩ := List.forall_mem_cons.1 hts
    exact ⟨by rintro e ⟨⟩; exact Expr.spansIn_atom hs, hts⟩

theorem firstOf_spansIn {ts : List Token} {stop : ℕ} (hts : ∀ t ∈ ts, Q t.span)
    (hstop : Q (.point stop)) : (firstOf ts stop).SpansIn Q := by
  unfold firstOf
  split
  · next e he => exact (step_spansIn hQ hts).1 e he
  · exact Expr.spansIn_atom hstop

theorem forestOf_spansIn (ts : List Token) (hts : ∀ t ∈ ts, Q t.span) :
    ∀ e ∈ forestOf ts, e.SpansIn Q := by
  fun_induction forestOf ts with
  | case1 => simp
  | case2 t ts e he ih =>
    obtain ⟨hexpr, hrest⟩ := step_spansIn hQ hts
    exact List.forall_mem_cons.2 ⟨hexpr e he, ih hrest⟩
  | case3 t ts hne ih => exact ih (step_spansIn hQ hts).2

end

/-- Whether a span lies within the first `n` bytes. -/
def Span.Within (n : ℕ) (s : Span) : Prop := s.start ≤ s.stop ∧ s.stop ≤ n

theorem Span.Within.merge {n : ℕ} {s t : Span} (hs : s.Within n) (ht : t.Within n) :
    (s.merge t).Within n := by
  obtain ⟨_, _⟩ := hs
  obtain ⟨_, _⟩ := ht
  simp only [Within, Span.merge]
  omega

theorem span_of_tokensFrom (pos : ℕ) (cs : List Char) :
    ∀ t ∈ tokensFrom pos cs, t.span.Within (pos + Text.byteLength cs) := by
  fun_induction tokensFrom pos cs with
  | case1 pos => simp
  | case2 pos c cs hblank ih =>
    intro t ht
    simpa [Text.byteLength_cons, Nat.add_assoc] using ih t ht
  | case3 pos c cs hblank lexeme stop ih =>
    have hcut : Text.byteLength (c :: cs) =
        Text.byteLength lexeme + Text.byteLength (cutLexeme c cs).2 := by
      rw [← Text.byteLength_append, cutLexeme_append]
    rw [hcut]
    intro t ht
    rcases List.mem_cons.1 ht with rfl | ht
    · simp only [Span.Within, stop]
      omega
    · have := ih t ht
      simpa [stop, Nat.add_assoc] using this

theorem span_of_tokenize (source : String) :
    ∀ t ∈ tokenize source, t.span.Within source.utf8ByteSize := by
  intro t ht
  have := span_of_tokensFrom 0 source.toList t ht
  rwa [Nat.zero_add, Text.byteLength_toList] at this

/-- The nodes of the first expression of a source text have spans inside of the text. -/
theorem span_of_parse (source : String) :
    (parse source).SpansIn (Span.Within source.utf8ByteSize) :=
  firstOf_spansIn Span.Within.merge (span_of_tokenize source) ⟨le_rfl, le_rfl⟩

/-- The nodes of all expressions of a source text have spans inside of the text. -/
theorem span_of_parseAll (source : String) :
    ∀ e ∈ parseAll source, e.SpansIn (Span.Within source.utf8ByteSize) :=
  forestOf_spansIn Span.Within.merge _ (span_of_tokenize source)

end FixpointLisp
