import FixpointLisp.Proofs.Expr.Readback
import Mathlib.Tactic

/-!
# Printing and parsing

An expression that is printed and parsed again is the same, up to spans, as long as each of its
atoms is a single token when it is written: a bare atom, or a quoted text without quotes and
backslashes inside. Several expressions can be printed with any blanks between them.

* `Expr.Printable`: the atoms of an expression are single tokens. `writeSpaced` prints expressions
  with the given gaps between them.
* `Spelled`: a text spells some tokens, and other text can follow it. It is cut where the lexemes
  are (`Spelled.append`); `spelled_write` is the case of a printed expression.
* `mendFrom_spellingAll`, `sameAll_of_spellingAll`: the brackets of printed expressions are in
  order, and the tokens determine the expressions.
* `parseAll_writeSpaced`: printing and parsing.
-/

namespace FixpointLisp

open Text

/-! ### What is printed -/

/-- Whether a text is one bare atom. -/
def IsBareAtom : List Char → Prop
  | [] => False
  | c :: cs =>
    ¬isBlank c ∧ c ≠ '(' ∧ c ≠ ')' ∧ c ≠ '"' ∧ ∀ d ∈ cs, ¬isBlank d ∧ d ≠ ')'

instance : DecidablePred IsBareAtom
  | [] => .isFalse id
  | c :: cs =>
    letI : Decidable (∀ d ∈ cs, ¬isBlank d ∧ d ≠ ')') := List.decidableBAll _ cs
    inferInstanceAs (Decidable
      (¬isBlank c ∧ c ≠ '(' ∧ c ≠ ')' ∧ c ≠ '"' ∧ ∀ d ∈ cs, ¬isBlank d ∧ d ≠ ')'))

/-- Whether a text is one quoted text in which nothing had to be escaped. -/
def IsPlainQuoted (cs : List Char) : Prop :=
  ∃ body, cs = '"' :: (body ++ ['"']) ∧ '"' ∉ body ∧ '\\' ∉ body

/-- Whether all atoms of an expression are written as single tokens. -/
inductive Expr.Printable : Expr → Prop
  | atom {text : String} {s : Span} (h : IsBareAtom text.toList ∨ IsPlainQuoted text.toList) :
      Printable (.atom text s)
  | list {es : List Expr} {s : Span} (h : ∀ e ∈ es, Printable e) : Printable (.list es s)

/-- The texts of several expressions, with `gap i` behind the one at index `i`; the last one has no
gap behind it. -/
def writeSpaced (gap : ℕ → String) : List Expr → String
  | [] => ""
  | [e] => e.write
  | e :: f :: es => e.write ++ gap 0 ++ writeSpaced (fun i => gap (i + 1)) (f :: es)

theorem writeAll_eq_writeSpaced (es : List Expr) :
    Expr.writeAll es = writeSpaced (fun _ => " ") es := by
  induction es with
  | nil => rfl
  | cons e es ih =>
    cases es with
    | nil => rfl
    | cons f es =>
      rw [Expr.writeAll, writeSpaced, ih]
      simp

/-! ### Texts that spell tokens -/

/-- Whether a text spells the given tokens and leaves no quoted text open. -/
structure Spelled (cs : List Char) (ks : List TokenKind) : Prop where
  kinds : (kinds cs).map TokenKind.asAtom = ks
  closed : endsInString cs = false

theorem endsInString_append {cs ds : List Char} (hcs : endsInString cs = false)
    (hds : endsInString ds = false) (hhead : ∀ d ∈ ds.head?, isAtomChar d = false) :
    endsInString (cs ++ ds) = false := by
  rw [endsInString, lexemes_append hcs hhead, List.getLast?_append]
  unfold endsInString at hcs hds
  cases hlast : (lexemes ds).getLast? with
  | none => simpa using hcs
  | some lexeme => simpa [hlast] using hds

theorem Spelled.append {cs ds : List Char} {ks ls : List TokenKind} (hcs : Spelled cs ks)
    (hds : Spelled ds ls) (hhead : ∀ d ∈ ds.head?, isAtomChar d = false) :
    Spelled (cs ++ ds) (ks ++ ls) where
  kinds := by rw [kinds_append hcs.closed hhead, List.map_append, hcs.kinds, hds.kinds]
  closed := endsInString_append hcs.closed hds.closed hhead

theorem Spelled.blanks_append {bs cs : List Char} {ks : List TokenKind} (hbs : ∀ b ∈ bs, isBlank b)
    (h : Spelled cs ks) : Spelled (bs ++ cs) ks where
  kinds := by rw [FixpointLisp.kinds, lexemes_append_of_blank hbs, ← h.kinds, FixpointLisp.kinds]
  closed := by rw [endsInString, lexemes_append_of_blank hbs, ← endsInString, h.closed]

/-- A text that is a single closed lexeme spells one token. -/
theorem spelled_of_cutLexeme {c : Char} {cs : List Char} (hc : ¬isBlank c)
    (hcut : cutLexeme c cs = (c :: cs, [])) (hclosed : isUnclosed (c :: cs) = false) :
    Spelled (c :: cs) [(TokenKind.ofLexeme (c :: cs)).asAtom] := by
  have hlexemes : lexemes (c :: cs) = [c :: cs] := by rw [lexemes_cons hc, hcut, lexemes_nil]
  constructor
  · rw [kinds, hlexemes]
    rfl
  · rw [endsInString, hlexemes]
    exact hclosed

theorem Spelled.openParen_cons {cs : List Char} {ks : List TokenKind} (h : Spelled cs ks) :
    Spelled ('(' :: cs) (.openParen :: ks) where
  kinds := by
    rw [kinds_cons (by decide), ← h.kinds]
    rfl
  closed := by
    rw [endsInString_cons (by decide), ← h.closed]
    rfl

theorem spelled_closeParen : Spelled [')'] [.closeParen] :=
  spelled_of_cutLexeme (by decide) rfl rfl

theorem spelled_of_isBareAtom {text : String} (h : IsBareAtom text.toList) :
    Spelled text.toList [.atom text] := by
  rw [← String.ofList_toList (s := text), String.toList_ofList]
  generalize text.toList = cs at h
  match cs, h with
  | c :: cs, ⟨hblank, hopen, hclose, hquote, hcs⟩ =>
    have hatom : ∀ d ∈ cs, isAtomChar d := fun d hd => by simpa [isAtomChar] using hcs d hd
    have hspelled : Spelled (c :: cs) [(TokenKind.ofLexeme (c :: cs)).asAtom] := by
      refine spelled_of_cutLexeme hblank ?_ (by simp [isUnclosed, hquote])
      simp only [cutLexeme, hopen, hclose, hquote, or_self, if_false,
        List.takeWhile_eq_self_iff.2 hatom, List.dropWhile_eq_nil_iff.2 hatom]
    simpa [TokenKind.ofLexeme, TokenKind.asAtom, hopen, hclose, hquote] using hspelled

/-- Without quotes and backslashes inside, a quoted text ends at the next quote. -/
theorem cutQuoted_of_plain {body : List Char} (hquote : '"' ∉ body) (hescape : '\\' ∉ body) :
    cutQuoted (body ++ ['"']) = (body ++ ['"'], []) ∧ hasClosingQuote (body ++ ['"']) := by
  induction body with
  | nil => exact ⟨rfl, rfl⟩
  | cons c body ih =>
    simp only [List.mem_cons, not_or] at hquote hescape
    obtain ⟨hcut, hclosed⟩ := ih hquote.2 hescape.2
    rw [List.cons_append, cutQuoted_cons (Ne.symm hquote.1) (Ne.symm hescape.1), hcut,
      hasClosingQuote_cons (Ne.symm hquote.1) (Ne.symm hescape.1)]
    exact ⟨rfl, hclosed⟩

theorem unescape_of_not_mem {cs : List Char} (h : '\\' ∉ cs) : unescape cs = cs := by
  fun_induction unescape cs with
  | case1 => rfl
  | case2 => simp at h
  | case3 c cs ih => simp at h
  | case4 c cs hlast hescape ih => rw [ih fun hmem => h (List.mem_cons_of_mem _ hmem)]

theorem spelled_of_isPlainQuoted {text : String} (h : IsPlainQuoted text.toList) :
    Spelled text.toList [.atom text] := by
  rw [← String.ofList_toList (s := text), String.toList_ofList]
  obtain ⟨body, hcs, hquote, hescape⟩ := h
  rw [hcs]
  obtain ⟨hcut, hclosed⟩ := cutQuoted_of_plain hquote hescape
  have hspelled : Spelled ('"' :: (body ++ ['"']))
      [(TokenKind.ofLexeme ('"' :: (body ++ ['"']))).asAtom] := by
    refine spelled_of_cutLexeme (by decide) ?_ (by simp [isUnclosed, hclosed])
    simp [cutLexeme, hcut]
  have hkind : TokenKind.ofLexeme ('"' :: (body ++ ['"'])) =
      .quoted (String.ofList ('"' :: (body ++ ['"']))) := by
    show TokenKind.quoted _ = _
    rw [unescape_of_not_mem (by simp [hescape])]
  rwa [hkind] at hspelled

theorem spelled_writeSpaced {gap : ℕ → String} {es : List Expr}
    (hes : ∀ e ∈ es, Spelled e.write.toList e.spelling)
    (hgap : ∀ i, gap i ≠ "" ∧ ∀ c ∈ (gap i).toList, isBlank c) :
    Spelled (writeSpaced gap es).toList (Expr.spellingAll es) := by
  induction es generalizing gap with
  | nil =>
    exact ⟨by simp [writeSpaced, kinds, Expr.spellingAll], by simp [writeSpaced, endsInString]⟩
  | cons e es ih =>
    obtain ⟨he, hes⟩ := List.forall_mem_cons.1 hes
    cases es with
    | nil => simpa [writeSpaced, Expr.spellingAll] using he
    | cons f es =>
      obtain ⟨hne, hblank⟩ := hgap 0
      have hrest := (ih hes fun i => hgap (i + 1)).blanks_append hblank
      have hhead : ∀ d ∈ ((gap 0).toList ++
          (writeSpaced (fun i => gap (i + 1)) (f :: es)).toList).head?, isAtomChar d = false := by
        cases hgap : (gap 0).toList with
        | nil => exact absurd (String.toList_eq_nil_iff.1 hgap) hne
        | cons b bs => simp [isAtomChar_of_blank (hblank b (by simp [hgap]))]
      have := he.append hrest hhead
      rw [writeSpaced, String.toList_append, String.toList_append, List.append_assoc]
      exact this

theorem spelled_write {e : Expr} (h : e.Printable) : Spelled e.write.toList e.spelling := by
  induction h with
  | atom h => exact h.elim spelled_of_isBareAtom spelled_of_isPlainQuoted
  | @list es s _ ih =>
    have hall : Spelled (Expr.writeAll es).toList (Expr.spellingAll es) := by
      rw [writeAll_eq_writeSpaced]
      exact spelled_writeSpaced ih fun _ => ⟨by decide, List.all_eq_true.1 (by decide)⟩
    have hlist := (hall.append spelled_closeParen (by simp [isAtomChar])).openParen_cons
    simpa [Expr.write] using hlist

/-! ### Reading the tokens back -/

theorem mendFrom_asAtom (depth : ℕ) (ks : List TokenKind) :
    mendFrom depth (ks.map TokenKind.asAtom) = mendFrom depth ks := by
  fun_induction mendFrom depth ks with simp_all [mendFrom, TokenKind.asAtom]

mutual

/-- The brackets of an expression are in order. -/
theorem mendFrom_spelling (e : Expr) (depth : ℕ) (ks : List TokenKind) :
    mendFrom depth (e.spelling ++ ks) = e.spelling ++ mendFrom depth ks := by
  match e with
  | .atom text s => rfl
  | .list es s =>
    have hes := mendFrom_spellingAll es (depth + 1) (.closeParen :: ks)
    simp [mendFrom, hes]

theorem mendFrom_spellingAll (es : List Expr) (depth : ℕ) (ks : List TokenKind) :
    mendFrom depth (Expr.spellingAll es ++ ks) = Expr.spellingAll es ++ mendFrom depth ks := by
  match es with
  | [] => rfl
  | e :: es =>
    rw [Expr.spellingAll, List.append_assoc, mendFrom_spelling e, mendFrom_spellingAll es,
      List.append_assoc]

end

mutual

/-- The tokens of an expression determine it, whatever follows them. -/
theorem same_of_spelling_append (e f : Expr) (ks ls : List TokenKind)
    (h : e.spelling ++ ks = f.spelling ++ ls) : e.same f ∧ ks = ls := by
  match e, f with
  | .atom s _, .atom t _ => simpa [Expr.same] using h
  | .atom s _, .list fs _ => simp at h
  | .list es _, .atom t _ => simp at h
  | .list es _, .list fs _ =>
    simp only [Expr.spelling_list, List.cons_append, List.append_assoc, List.nil_append,
      List.cons.injEq, true_and] at h
    exact sameAll_of_spellingAll_append es fs ks ls h

theorem sameAll_of_spellingAll_append (es fs : List Expr) (ks ls : List TokenKind)
    (h : Expr.spellingAll es ++ .closeParen :: ks = Expr.spellingAll fs ++ .closeParen :: ls) :
    Expr.sameAll es fs ∧ ks = ls := by
  match es, fs with
  | [], [] => simpa [Expr.spellingAll, Expr.sameAll] using h
  | [], f :: fs => cases f <;> simp [Expr.spellingAll] at h
  | e :: es, [] => cases e <;> simp [Expr.spellingAll] at h
  | e :: es, f :: fs =>
    simp only [Expr.spellingAll, List.append_assoc] at h
    obtain ⟨hsame, hrest⟩ := same_of_spelling_append e f _ _ h
    obtain ⟨hall, hks⟩ := sameAll_of_spellingAll_append es fs ks ls hrest
    exact ⟨by simp [Expr.sameAll, hsame, hall], hks⟩

end

theorem sameAll_of_spellingAll {es fs : List Expr}
    (h : Expr.spellingAll es = Expr.spellingAll fs) : Expr.sameAll es fs :=
  (sameAll_of_spellingAll_append es fs [] [] (by rw [h])).1

/-- A text that spells expressions is parsed as these. -/
theorem Spelled.parseAll_same {source : String} {es : List Expr}
    (h : Spelled source.toList (Expr.spellingAll es)) : Expr.sameAll (parseAll source) es := by
  apply sameAll_of_spellingAll
  rw [parseAll, spellingAll_forestOf, kinds_tokenize, ← mendFrom_asAtom, h.kinds]
  simpa [mendFrom] using mendFrom_spellingAll es 0 []

/-- The tokens of an expression do not start with a closing bracket. -/
theorem Spelled.not_closeParen {source : String} {e : Expr}
    (h : Spelled source.toList e.spelling) :
    ¬(tokenize source).head?.all (·.kind = .closeParen) := by
  have hkinds := h.kinds
  rw [← kinds_tokenize] at hkinds
  cases htokens : tokenize source with
  | nil => cases e <;> simp [htokens] at hkinds
  | cons t ts =>
    intro hclose
    have hkind : t.kind = .closeParen := by simpa using hclose
    cases e <;> simp [htokens, hkind, TokenKind.asAtom] at hkinds

/-- A text that spells an expression is parsed as the first expression of its forest. -/
theorem Spelled.head_parseAll {source : String} {e : Expr} (h : Spelled source.toList e.spelling) :
    (parseAll source).head? = some (parse source) := by
  have hfirst := some_firstOf (tokenize source) source.utf8ByteSize
  rw [if_neg h.not_closeParen] at hfirst
  exact hfirst.symm

theorem Spelled.parse_same {source : String} {e : Expr} (h : Spelled source.toList e.spelling) :
    (parse source).same e := by
  have hhead := h.head_parseAll
  rw [← Expr.spellingAll_singleton] at h
  have hall := h.parseAll_same
  cases hforest : parseAll source with
  | nil => simp [hforest, Expr.sameAll] at hall
  | cons f fs =>
    obtain rfl : f = parse source := by simpa [hforest] using hhead
    rw [hforest, Expr.sameAll, Bool.and_eq_true] at hall
    exact hall.1

/-- **Printing and parsing.** Expressions whose atoms are single tokens are printed and parsed again
without change, up to spans, whatever blanks are put between them; and each of them is read from its
own text. -/
theorem parseAll_writeSpaced {gap : ℕ → String} {es : List Expr} (hes : ∀ e ∈ es, e.Printable)
    (hgap : ∀ i, gap i ≠ "" ∧ ∀ c ∈ (gap i).toList, isBlank c) :
    Expr.sameAll (parseAll (writeSpaced gap es)) es ∧ ∀ e ∈ es, (parse e.write).same e :=
  ⟨(spelled_writeSpaced (fun e he => spelled_write (hes e he)) hgap).parseAll_same,
    fun e he => (spelled_write (hes e he)).parse_same⟩

/-- The expressions `(a(b () "(x y")` and `7`. -/
def bracketed : List Expr :=
  [.list [.atom "a(b" (.point 0), .list [] (.point 0), .atom "\"(x y\"" (.point 0)] (.point 0),
    .atom "7" (.point 0)]

/-- Two expressions, of which the first holds an atom and a quoted text with brackets in them and an
empty list; a line feed and a wide blank stand between the two. -/
theorem parseAll_writeSpaced_bracketed :
    ((∀ e ∈ bracketed, e.Printable) ∧
      ∀ _ : ℕ, "\n\u3000" ≠ "" ∧ ∀ c ∈ "\n\u3000".toList, isBlank c) ∧
    Expr.sameAll (parseAll "(a(b () \"(x y\")\n\u30007") bracketed ∧
      ∀ e ∈ bracketed, (parse e.write).same e := by
  have hprintable : ∀ e ∈ bracketed, e.Printable := by
    have hquoted : IsPlainQuoted "\"(x y\"".toList := ⟨"(x y".toList, by decide⟩
    simp only [bracketed, List.forall_mem_cons, List.not_mem_nil, false_implies, implies_true,
      and_true]
    refine ⟨.list ?_, .atom (.inl (by decide))⟩
    simp only [List.forall_mem_cons, List.not_mem_nil, false_implies, implies_true, and_true]
    exact ⟨.atom (.inl (by decide)), .list (by simp), .atom (.inr hquoted)⟩
  have hgap : ∀ _ : ℕ, "\n\u3000" ≠ "" ∧ ∀ c ∈ "\n\u3000".toList, isBlank c :=
    fun _ => ⟨by decide, List.all_eq_true.1 (by decide)⟩
  have hwrite : writeSpaced (fun _ => "\n\u3000") bracketed = "(a(b () \"(x y\")\n\u30007" := by
    cbv
  exact ⟨⟨hprintable, hgap⟩, hwrite ▸ parseAll_writeSpaced hprintable hgap⟩

end FixpointLisp
