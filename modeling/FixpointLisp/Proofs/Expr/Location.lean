import FixpointLisp.Proofs.Token.Layout
import Mathlib.Tactic

/-!
# Where the nodes of a forest stand

Each node of a forest is read from a run of tokens of its own. Its span reaches from the first of
them to the last, the children of a list are read from runs behind its opening bracket, one after
the other, and a node is the first expression of the piece of text that its span cuts out.

* `Expr.ReadFrom`: a run of tokens is read as one expression, to its end.
* `readList_eq_step`: the children of a list are read one after the other. So the tokens of a list
  divide into those of its children (`exists_children_of_readFrom`).
* `exists_readFrom_of_nodeOf`: every node of an expression is read from some of its tokens.
* `span_of_readFrom`: from where to where an expression reaches; `encloses_of_readFrom`: a list
  reaches around its children.
* `tokensFrom_add`: it does not matter to the tokens where a text starts.
* `location_of_node`: spans locate the nodes of a forest.
-/

namespace FixpointLisp

open Text

/-! ### One node after the other -/

theorem closeAll_append (f : Frame) (hs : List Frame) (g : Frame) (gs : List Frame) :
    closeAll f (hs ++ g :: gs) = closeAll (g.add (closeAll f hs)) gs := by
  induction hs generalizing f with
  | nil => rfl
  | cons h hs ih => exact ih _

/-- Open lists further out do not matter until those further in are closed. -/
theorem readList_append_frames (f : Frame) (hs : List Frame) (g : Frame) (gs : List Frame)
    (ts : List Token) :
    readList f (hs ++ g :: gs) ts =
      readList (g.add (readList f hs ts).1) gs (readList f hs ts).2 := by
  fun_induction readList f hs ts with
  | case1 f hs => simp [readList, closeAll_append]
  | case2 f hs s ts ih => simpa [readList] using ih
  | case3 f s ts => rfl
  | case4 f h hs s ts ih => simpa [readList] using ih
  | case5 f hs text s ts ih => simpa [readList] using ih
  | case6 f hs text s ts ih => simpa [readList] using ih

/-- A list goes on with one node after the other, until it is closed or no token is left. -/
theorem readList_eq_step (f : Frame) (ts : List Token) :
    readList f [] ts =
      match step ts with
      | (.expr e, rest) => readList (f.add e) [] rest
      | (.closed s, rest) => (f.close s, rest)
      | (.exhausted, rest) => (f.toExpr, rest) := by
  match ts with
  | [] => rfl
  | ⟨.openParen, s⟩ :: ts => exact readList_append_frames (.opened s) [] f [] ts
  | ⟨.closeParen, s⟩ :: ts => rfl
  | ⟨.quoted text, s⟩ :: ts => rfl
  | ⟨.atom text, s⟩ :: ts => rfl

/-! ### The tokens of a node -/

/-- Whether some tokens are read as one expression, to the last of them. -/
def Expr.ReadFrom (e : Expr) (ts : List Token) : Prop := step ts = (.expr e, [])

instance : Std.Associative Span.merge := ⟨Span.merge_assoc⟩

/-- It does not matter when a span is merged. -/
theorem foldl_merge_merge (l : List Span) (s t : Span) :
    l.foldl Span.merge (s.merge t) = (l.foldl Span.merge s).merge t := by
  rw [s.merge_comm, List.foldl_assoc, Span.merge_comm]

theorem closeAll_span (f : Frame) (fs : List Frame) :
    (closeAll f fs).span = (fs.map Frame.span).foldl Span.merge f.span := by
  induction fs generalizing f with
  | nil => rfl
  | cons g gs ih =>
    rw [closeAll, ih, List.map_cons, List.foldl_cons, f.span.merge_comm]
    rfl

/-- A list is read the same without the tokens that are left, and its span is the least one around
those that are read. -/
theorem exists_readList_eq (f : Frame) (fs : List Frame) (ts : List Token) :
    ∃ us, ts = us ++ (readList f fs ts).2 ∧ readList f fs us = ((readList f fs ts).1, []) ∧
      (readList f fs ts).1.span =
        (us.map Token.span).foldl Span.merge ((fs.map Frame.span).foldl Span.merge f.span) := by
  fun_induction readList f fs ts with
  | case1 f fs => exact ⟨[], rfl, rfl, closeAll_span f fs⟩
  | case2 f fs s ts ih =>
    -- The new frame starts with the span of the bracket, in front of the spans of the other frames.
    obtain ⟨us, hts, hread, hspan⟩ := ih
    refine ⟨⟨.openParen, s⟩ :: us, congrArg _ hts, hread, ?_⟩
    rw [hspan, List.map_cons, List.foldl_cons, List.map_cons, List.foldl_cons, Span.merge_comm,
      foldl_merge_merge]
    rfl
  | case3 f s ts => exact ⟨[⟨.closeParen, s⟩], rfl, rfl, rfl⟩
  | case4 f g gs s ts ih =>
    obtain ⟨us, hts, hread, hspan⟩ := ih
    -- What the closed list covers goes over to the list around it.
    have hadd : (g.add (f.close s)).span = (f.span.merge g.span).merge s := by
      show g.span.merge (f.span.merge s) = _
      rw [← Span.merge_assoc, g.span.merge_comm]
    refine ⟨⟨.closeParen, s⟩ :: us, congrArg _ hts, hread, ?_⟩
    rw [hspan, hadd, foldl_merge_merge]
    rfl
  | case5 f fs text s ts ih =>
    obtain ⟨us, hts, hread, hspan⟩ := ih
    refine ⟨⟨.quoted text, s⟩ :: us, congrArg _ hts, hread, ?_⟩
    rw [hspan, show (f.add (.atom text s)).span = f.span.merge s from rfl, foldl_merge_merge]
    rfl
  | case6 f fs text s ts ih =>
    obtain ⟨us, hts, hread, hspan⟩ := ih
    refine ⟨⟨.atom text, s⟩ :: us, congrArg _ hts, hread, ?_⟩
    rw [hspan, show (f.add (.atom text s)).span = f.span.merge s from rfl, foldl_merge_merge]
    rfl

/-- A node is an expression, read from the first tokens, or a closing bracket, or there is none. -/
theorem step_cases (ts : List Token) :
    (∃ e us rest, ts = us ++ rest ∧ e.ReadFrom us ∧ step ts = (.expr e, rest)) ∨
    (∃ s rest, ts = ⟨.closeParen, s⟩ :: rest ∧ step ts = (.closed s, rest)) ∨
    (ts = [] ∧ step ts = (.exhausted, [])) := by
  match ts with
  | [] => exact .inr (.inr ⟨rfl, rfl⟩)
  | ⟨.openParen, s⟩ :: ts =>
    obtain ⟨us, hts, hread, -⟩ := exists_readList_eq (.opened s) [] ts
    refine .inl ⟨_, ⟨.openParen, s⟩ :: us, _, congrArg _ hts, ?_, rfl⟩
    rw [Expr.ReadFrom, step, hread]
  | ⟨.closeParen, s⟩ :: ts => exact .inr (.inl ⟨s, ts, rfl, rfl⟩)
  | ⟨.quoted text, s⟩ :: ts => exact .inl ⟨_, [⟨.quoted text, s⟩], ts, rfl, rfl, rfl⟩
  | ⟨.atom text, s⟩ :: ts => exact .inl ⟨_, [⟨.atom text, s⟩], ts, rfl, rfl, rfl⟩

/-- The span of an expression is the least one around its tokens. -/
theorem exists_span_eq {e : Expr} {ts : List Token} (h : e.ReadFrom ts) :
    ∃ t us, ts = t :: us ∧ e.span = (us.map Token.span).foldl Span.merge t.span := by
  match ts with
  | ⟨.openParen, s⟩ :: ts =>
    obtain ⟨us, hts, -, hspan⟩ := exists_readList_eq (.opened s) [] ts
    simp only [Expr.ReadFrom, step, Prod.mk.injEq, Step.expr.injEq] at h
    rw [h.1, show (Frame.opened s).span = s from rfl] at hspan
    rw [h.2, List.append_nil] at hts
    exact ⟨_, us, congrArg _ hts, hspan⟩
  | ⟨.quoted text, s⟩ :: ts =>
    cases h
    exact ⟨_, [], rfl, rfl⟩
  | ⟨.atom text, s⟩ :: ts =>
    cases h
    exact ⟨_, [], rfl, rfl⟩

/-- The tokens of a list divide into those of its children and perhaps a closing bracket. -/
theorem exists_children_readList (f : Frame) (ts : List Token) :
    ∃ es runs closing s, (readList f [] ts).1 = .list (f.children.reverse ++ es) s ∧
      ts = runs.flatten ++ (closing ++ (readList f [] ts).2) ∧
      List.Forall₂ Expr.ReadFrom es runs := by
  rcases step_cases ts with ⟨e, us, rest, hts, hread, hstep⟩ | ⟨s, rest, rfl, -⟩ | ⟨rfl, -⟩
  · obtain ⟨t, us', hus, -⟩ := exists_span_eq hread
    have hlt : rest.length < ts.length := by simp [hts, hus]
    obtain ⟨es, runs, closing, s, hlist, hrest, hruns⟩ := exists_children_readList (f.add e) rest
    rw [readList_eq_step, hstep]
    refine ⟨e :: es, us :: runs, closing, s, ?_, ?_, .cons hread hruns⟩
    · rw [hlist]
      simp [Frame.add]
    · rw [hts, List.flatten_cons, List.append_assoc, ← hrest]
  · exact ⟨[], [], [⟨.closeParen, s⟩], f.span.merge s, by simp [readList, Frame.close], rfl, .nil⟩
  · exact ⟨[], [], [], f.span, by simp [readList, closeAll, Frame.toExpr], rfl, .nil⟩
termination_by ts.length

/-- The children of a list are read from runs of its tokens, one after the other, behind its opening
bracket. -/
theorem exists_children_of_readFrom {es : List Expr} {s : Span} {ts : List Token}
    (h : (Expr.list es s).ReadFrom ts) :
    ∃ s' runs closing, ts = ⟨.openParen, s'⟩ :: (runs.flatten ++ closing) ∧
      List.Forall₂ Expr.ReadFrom es runs := by
  match ts with
  | ⟨.openParen, s'⟩ :: ts =>
    obtain ⟨fs, runs, closing, s'', hlist, hts, hruns⟩ := exists_children_readList (.opened s') ts
    simp only [Expr.ReadFrom, step, Prod.mk.injEq, Step.expr.injEq] at h
    rw [h.1] at hlist
    cases hlist
    rw [h.2, List.append_nil] at hts
    exact ⟨s', runs, closing, congrArg _ hts, hruns⟩

/-- Every node of an expression is read from a run of its tokens. -/
theorem exists_readFrom_of_nodeOf {n e : Expr} {ts : List Token} (hn : n.NodeOf e)
    (h : e.ReadFrom ts) : ∃ us vs ws, ts = us ++ (vs ++ ws) ∧ n.ReadFrom vs := by
  induction hn generalizing ts with
  | root => exact ⟨[], ts, [], by simp, h⟩
  | inside hf hnode ih =>
    obtain ⟨s', runs, closing, rfl, hruns⟩ := exists_children_of_readFrom h
    obtain ⟨i, rfl⟩ := List.get_of_mem hf
    have hi : i < runs.length := hruns.length_eq ▸ i.2
    obtain ⟨us, vs, ws, hrun, hread⟩ := ih (hruns.get i.2 hi)
    obtain ⟨front, back, hsplit⟩ := List.append_of_mem (runs.get_mem ⟨i, hi⟩)
    refine ⟨⟨.openParen, s'⟩ :: (front.flatten ++ us), vs, ws ++ (back.flatten ++ closing), ?_,
      hread⟩
    rw [hsplit, List.flatten_append, List.flatten_cons, hrun]
    simp only [List.append_assoc, List.cons_append]

/-- Every expression of a forest is read from a run of its tokens. -/
theorem exists_readFrom_of_forestOf {e : Expr} (ts : List Token) (he : e ∈ forestOf ts) :
    ∃ us vs ws, ts = us ++ (vs ++ ws) ∧ e.ReadFrom vs := by
  fun_induction forestOf ts with
  | case1 => simp at he
  | case2 t ts f hstep ih =>
    rcases step_cases (t :: ts) with ⟨f', run, rest, hts, hread, hf⟩ | ⟨s, rest, -, hs⟩ | ⟨h, -⟩
    · rw [hf] at hstep he ih
      cases hstep
      rcases List.mem_cons.1 he with rfl | he
      · exact ⟨[], run, rest, hts, hread⟩
      · obtain ⟨us, vs, ws, hrest, hread⟩ := ih he
        refine ⟨run ++ us, vs, ws, ?_, hread⟩
        rw [hts, List.append_assoc, ← hrest]
    · rw [hs] at hstep
      cases hstep
    · cases h
  | case3 t ts hstep ih =>
    rcases step_cases (t :: ts) with ⟨f', run, rest, -, -, hf⟩ | ⟨s, rest, hts, hs⟩ | ⟨h, -⟩
    · exact absurd (congrArg Prod.fst hf) (hstep f')
    · rw [hs] at he ih
      obtain ⟨us, vs, ws, hrest, hread⟩ := ih he
      refine ⟨⟨.closeParen, s⟩ :: us, vs, ws, ?_, hread⟩
      rw [hts, List.cons_append, ← hrest]
    · cases h

/-! ### From where to where a node reaches -/

theorem InOrder.sublist {ts us : List Token} (h : InOrder ts) (hus : us.Sublist ts) :
    InOrder us :=
  ⟨fun t ht => h.nonempty t (hus.subset ht), h.ordered.sublist hus⟩

/-- The least span around tokens that are in order reaches from the first one to the last one. -/
theorem foldl_merge_eq {t : Token} {ts : List Token} (h : InOrder (t :: ts)) :
    ∃ u, (t :: ts).getLast? = some u ∧
      (ts.map Token.span).foldl Span.merge t.span = ⟨t.span.start, u.span.stop⟩ := by
  induction ts using List.reverseRecOn with
  | nil => exact ⟨t, rfl, rfl⟩
  | append_singleton ts v ih =>
    obtain ⟨u, hlast, hspan⟩ := ih (h.sublist (List.cons_sublist_cons.2 (by simp)))
    obtain ⟨-, -, hordered⟩ := List.pairwise_append.1 (show ((t :: ts) ++ [v]).Pairwise _ from
      h.ordered)
    have hu := hordered u (List.mem_of_getLast? hlast) v (by simp)
    have ht := hordered t (by simp) v (by simp)
    have htlt := h.nonempty t (by simp)
    have hvlt := h.nonempty v (by simp)
    -- The new token ends behind all others, so the span now reaches to its end.
    refine ⟨v, by simp [List.getLast?_cons], ?_⟩
    rw [List.map_append, List.foldl_append, hspan]
    simp only [List.map_cons, List.map_nil, List.foldl_cons, List.foldl_nil, Span.merge,
      Span.mk.injEq]
    omega

/-- An expression reaches from the start of its first token to the end of its last one. -/
theorem span_of_readFrom {e : Expr} {ts : List Token} (hts : InOrder ts) (h : e.ReadFrom ts) :
    ∃ t u, ts.head? = some t ∧ ts.getLast? = some u ∧ e.span = ⟨t.span.start, u.span.stop⟩ := by
  obtain ⟨t, us, rfl, hspan⟩ := exists_span_eq h
  obtain ⟨u, hlast, hfold⟩ := foldl_merge_eq hts
  exact ⟨t, u, rfl, hlast, hspan.trans hfold⟩

/-- Expressions that are read one after the other reach over their own tokens, one behind the
other. -/
theorem ordered_of_readFrom {es : List Expr} {runs : List (List Token)}
    (h : List.Forall₂ Expr.ReadFrom es runs) (hts : InOrder runs.flatten) :
    (∀ e ∈ es, ∃ t ∈ runs.flatten, ∃ u ∈ runs.flatten, e.span = ⟨t.span.start, u.span.stop⟩) ∧
      es.Pairwise fun e f => e.span.stop ≤ f.span.start := by
  induction h with
  | nil => exact ⟨by simp, .nil⟩
  | @cons e run es runs hread _ ih =>
    rw [List.flatten_cons] at hts ⊢
    obtain ⟨hspans, hordered⟩ := ih (hts.sublist (List.sublist_append_right _ _))
    obtain ⟨t, u, ht, hu, hspan⟩ := span_of_readFrom (hts.sublist (List.sublist_append_left _ _))
      hread
    obtain ⟨-, -, hbehind⟩ := List.pairwise_append.1 hts.ordered
    have hu := List.mem_of_getLast? hu
    refine ⟨List.forall_mem_cons.2 ⟨?_, fun f hf => ?_⟩, .cons (fun f hf => ?_) hordered⟩
    · exact ⟨t, List.mem_append_left _ (List.mem_of_head? ht), u, List.mem_append_left _ hu, hspan⟩
    · obtain ⟨t', ht', u', hu', hspan'⟩ := hspans f hf
      exact ⟨t', List.mem_append_right _ ht', u', List.mem_append_right _ hu', hspan'⟩
    · obtain ⟨t', ht', u', -, hspan'⟩ := hspans f hf
      rw [hspan, hspan']
      exact hbehind u hu t' ht'

/-- Whether expressions stand inside of a span, one behind the other, and after its first byte. -/
structure Span.Encloses (s : Span) (es : List Expr) : Prop where
  behind : ∀ e ∈ es, s.start + 1 ≤ e.span.start
  inside : ∀ e ∈ es, e.span.stop ≤ s.stop
  ordered : es.Pairwise fun e f => e.span.stop ≤ f.span.start

theorem InOrder.stop_le {ts : List Token} {t u : Token} (h : InOrder ts) (ht : t ∈ ts)
    (hu : ts.getLast? = some u) : t.span.stop ≤ u.span.stop := by
  obtain ⟨front, rfl⟩ := List.getLast?_eq_some_iff.1 hu
  rcases List.mem_append.1 ht with ht | ht
  · obtain ⟨-, -, hordered⟩ := List.pairwise_append.1 h.ordered
    have := hordered t ht u (by simp)
    have := h.nonempty u (by simp)
    omega
  · rw [List.mem_singleton.1 ht]

/-- A list encloses its children, which stand behind its opening bracket. -/
theorem encloses_of_readFrom {es : List Expr} {s : Span} {ts : List Token} (hts : InOrder ts)
    (h : (Expr.list es s).ReadFrom ts) : s.Encloses es := by
  obtain ⟨t, u, ht, hu, hspan⟩ := span_of_readFrom hts h
  obtain ⟨s', runs, closing, rfl, hruns⟩ := exists_children_of_readFrom h
  cases ht
  cases show s = ⟨s'.start, u.span.stop⟩ from hspan
  obtain ⟨hbehind, -⟩ := List.pairwise_cons.1 hts.ordered
  obtain ⟨hspans, hordered⟩ := ordered_of_readFrom hruns (hts.sublist (by simp))
  refine ⟨fun e he => ?_, fun e he => ?_, hordered⟩
  · obtain ⟨t, ht, _, -, hchild⟩ := hspans e he
    have hopen := hts.nonempty ⟨.openParen, s'⟩ (by simp)
    have := hbehind t (List.mem_append_left _ ht)
    rw [hchild]
    exact Nat.lt_of_lt_of_le hopen this
  · obtain ⟨_, -, v, hv, hchild⟩ := hspans e he
    rw [hchild]
    exact hts.stop_le (List.mem_cons_of_mem _ (List.mem_append_left _ hv)) hu

/-! ### Nodes and the pieces of a text -/

theorem merging_shift (n : ℕ) : Merging (Span.shift n) := fun s t => by
  simp [Span.shift, Span.merge, Nat.add_min_add_right, Nat.add_max_add_right]

/-- The tokens of a text that starts further on are the same, further on. -/
theorem tokensFrom_add (n pos : ℕ) (cs : List Char) :
    tokensFrom (pos + n) cs = (tokensFrom pos cs).map (Token.mapSpan (.shift n)) := by
  fun_induction tokensFrom pos cs with
  | case1 => simp [tokensFrom]
  | case2 pos c cs hc ih =>
    rw [tokensFrom, if_pos hc, ← ih, Nat.add_right_comm]
  | case3 pos c cs hc lexeme stop ih =>
    rw [tokensFrom_cons hc, List.map_cons, ← ih, Nat.add_right_comm]
    rfl

/-- The first expression of a piece of text is the one that is read from all of its tokens. -/
theorem parse_of_readFrom {n : Expr} {pos : ℕ} {cs : List Char}
    (h : n.ReadFrom (tokensFrom pos cs)) :
    (parse (String.ofList cs)).mapSpan (.shift pos) = n := by
  have htokens := tokensFrom_add pos 0 cs
  rw [Nat.zero_add] at htokens
  have hstop : (Span.point (String.ofList cs).utf8ByteSize).shift pos =
      .point ((String.ofList cs).utf8ByteSize + pos) := rfl
  rw [parse, tokenize, String.toList_ofList, ← firstOf_mapSpan (merging_shift pos) _ hstop,
    ← htokens, firstOf, h]

/-- A text whose first token is an opening bracket, at its start, starts with this bracket. -/
theorem head_of_tokensFrom {pos : ℕ} {cs : List Char} {t : Token} {ts : List Token}
    (h : tokensFrom pos cs = t :: ts) (hkind : t.kind = .openParen) (hstart : t.span.start = pos) :
    cs.head? = some '(' := by
  match cs with
  | [] => simp [tokensFrom] at h
  | c :: cs =>
    by_cases hc : isBlank c
    · -- Behind a blank, the first token would start further on.
      rw [tokensFrom, if_pos hc] at h
      have := le_start_of_mem_tokensFrom t (h ▸ List.mem_cons_self)
      have := c.utf8Size_pos
      omega
    · rw [tokensFrom_cons hc] at h
      obtain ⟨rfl, -⟩ := List.cons.inj h
      rcases cutLexeme_cases c cs with
        ⟨rfl, hcut⟩ | ⟨rfl, hcut⟩ | ⟨rfl, hcut⟩ | ⟨hopen, hclose, hquote, hcut⟩
      · rfl
      · simp [hcut, TokenKind.ofLexeme] at hkind
      · simp [hcut, TokenKind.ofLexeme] at hkind
      · simp [hcut, TokenKind.ofLexeme, hopen, hclose, hquote] at hkind

/-- **Spans locate the nodes of a forest.** The span of a node is not empty and cuts whole
characters out of the source text. The node is the first expression of these characters, moved to
where they stand. If it is a list, then they start with its opening bracket, and the children stand
behind it, inside of the span and one behind the other. -/
theorem location_of_node {source : String} {e n : Expr} (he : e ∈ parseAll source)
    (hn : n.NodeOf e) :
    n.span.start < n.span.stop ∧ n.span.stop ≤ source.utf8ByteSize ∧
      ∃ front slice back, n.span.Cuts source.toList front slice back ∧
        (parse (String.ofList slice)).mapSpan (.shift n.span.start) = n ∧
        ∀ es s, n = .list es s → slice.head? = some '(' ∧ s.Encloses es := by
  obtain ⟨us, vs, ws, htokens, hroot⟩ := exists_readFrom_of_forestOf _ he
  obtain ⟨us', ts, ws', rfl, hread⟩ := exists_readFrom_of_nodeOf hn hroot
  have hsplit : tokensFrom 0 source.toList = (us ++ us') ++ (ts ++ (ws' ++ ws)) := by
    rw [← tokenize, htokens]
    simp only [List.append_assoc]
  have horder : InOrder ts := by
    refine (inOrder_tokensFrom 0 source.toList).sublist ?_
    rw [hsplit]
    exact (List.sublist_append_left _ _).trans (List.sublist_append_right _ _)
  obtain ⟨t, u, ht, hu, hspan⟩ := span_of_readFrom horder hread
  obtain ⟨front, slice, back, hcuts, hslice⟩ := exists_cut_tokensFrom hsplit ht hu
  rw [← hspan] at hcuts
  have hstart : t.span.start = n.span.start := by rw [hspan]
  refine ⟨?_, ?_, front, slice, back, hcuts, ?_, ?_⟩
  · rw [hspan]
    exact Nat.lt_of_lt_of_le (horder.nonempty t (List.mem_of_head? ht))
      (horder.stop_le (List.mem_of_head? ht) hu)
  · rw [hcuts.stop, ← byteLength_toList source, hcuts.text, byteLength_append, byteLength_append]
    omega
  · rw [← hstart]
    exact parse_of_readFrom (hslice ▸ hread)
  · rintro es s rfl
    refine ⟨?_, encloses_of_readFrom horder hread⟩
    obtain ⟨s', runs, closing, rfl, -⟩ := exists_children_of_readFrom hread
    cases ht
    exact head_of_tokensFrom hslice rfl rfl

/-- A text that ends inside of two lists and a quoted text, behind a backslash. -/
def unfinished : String := "λ (a(b (\"é\\"

/-- The inner one of the two lists. -/
def unfinishedTail : Expr := .list [.atom "\"é" ⟨9, 13⟩] ⟨8, 13⟩

theorem parseAll_unfinished :
    parseAll unfinished =
      [.atom "λ" ⟨0, 2⟩, .list [.atom "a(b" ⟨4, 7⟩, unfinishedTail] ⟨3, 13⟩] := by
  cbv

/-- The inner list is found again in the piece of the text behind its opening bracket. -/
theorem location_of_node_unfinished :
    (.list [.atom "a(b" ⟨4, 7⟩, unfinishedTail] ⟨3, 13⟩ ∈ parseAll unfinished ∧
      unfinishedTail.NodeOf (.list [.atom "a(b" ⟨4, 7⟩, unfinishedTail] ⟨3, 13⟩)) ∧
    8 < 13 ∧ 13 ≤ unfinished.utf8ByteSize ∧
      ∃ front slice back, Span.Cuts ⟨8, 13⟩ unfinished.toList front slice back ∧
        (parse (String.ofList slice)).mapSpan (.shift 8) = unfinishedTail ∧
        ∀ es s, unfinishedTail = .list es s → slice.head? = some '(' ∧ s.Encloses es := by
  have hmem : .list [.atom "a(b" ⟨4, 7⟩, unfinishedTail] ⟨3, 13⟩ ∈ parseAll unfinished := by
    rw [parseAll_unfinished]
    simp
  have hnode : unfinishedTail.NodeOf (.list [.atom "a(b" ⟨4, 7⟩, unfinishedTail] ⟨3, 13⟩) :=
    .inside (by simp) (.root unfinishedTail)
  exact ⟨⟨hmem, hnode⟩, location_of_node hmem hnode⟩

end FixpointLisp
