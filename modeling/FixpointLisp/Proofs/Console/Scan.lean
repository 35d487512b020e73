import FixpointLisp.Console.Balance
import FixpointLisp.Proofs.Expr.Nesting
import FixpointLisp.Proofs.Token.Lexemes

/-!
# Scanning characters and counting tokens

The console judges an entry by its characters, the parser by its tokens. The two agree between any
two tokens, as long as no atom holds an opening bracket or a quote.

* `scan` is the judgement of the console as a run over characters, which can be cut anywhere
  (`scan_append`); `balance_of_scan` reads the verdict off the state that it ends in.
* `TokenKind.Plain`: an atom without opening brackets and quotes.
* `scan_lexeme`: over a lexeme the scan counts what `nesting` counts.
* `scan_eq_nesting`: so it does over a text that does not end in a string.
* `endsInString_of_scan`: where the scan is outside of strings, no string has been left open.
-/

namespace FixpointLisp

/-- Whether a token is no atom with an opening bracket or a quote in it. -/
def TokenKind.Plain : TokenKind → Prop
  | .atom text => '(' ∉ text.toList ∧ '"' ∉ text.toList
  | _ => True

instance : DecidablePred TokenKind.Plain
  | .atom text => inferInstanceAs (Decidable ('(' ∉ text.toList ∧ '"' ∉ text.toList))
  | .openParen => inferInstanceAs (Decidable True)
  | .closeParen => inferInstanceAs (Decidable True)
  | .quoted _ => inferInstanceAs (Decidable True)

namespace Console

open Text

/-! ### The scan -/

/-- Reads a character in the given state: where the scan stands with regard to strings, and how many
brackets are open. There is no state behind a bracket that closes nothing. -/
def scanChar : Quoting × ℕ → Char → Option (Quoting × ℕ)
  | (q, depth), c =>
    if q.covers c then some (q.next c, depth)
    else if c = '(' then some (q, depth + 1)
    else if c = ')' then
      match depth with
      | 0 => none
      | depth + 1 => some (q, depth)
    else some (q, depth)

/-- Reads a text. -/
def scan (s : Quoting × ℕ) (cs : List Char) : Option (Quoting × ℕ) := cs.foldlM scanChar s

@[simp] theorem scan_nil (s : Quoting × ℕ) : scan s [] = some s := rfl

theorem scan_cons (s : Quoting × ℕ) (c : Char) (cs : List Char) :
    scan s (c :: cs) = (scanChar s c).bind fun s => scan s cs := rfl

theorem scan_append (s : Quoting × ℕ) (cs ds : List Char) :
    scan s (cs ++ ds) = (scan s cs).bind fun s => scan s ds :=
  List.foldlM_append

/-- The verdict on a text whose scan ends in the given state. -/
def verdict : Quoting × ℕ → Balance
  | (q, depth) => if q = .outside ∧ depth = 0 then .complete else .incomplete

@[simp] theorem verdict_outside : verdict (.outside, 0) = .complete := rfl

theorem verdict_of_ne {s : Quoting × ℕ} (h : s ≠ (.outside, 0)) : verdict s = .incomplete := by
  rcases s with ⟨q, depth⟩
  rw [verdict, if_neg]
  rintro ⟨rfl, rfl⟩
  exact h rfl

/-- The verdict on a text in which no bracket closes nothing. -/
theorem balanceFrom_of_scan {q : Quoting} {depth : ℕ} (pos : ℕ) {cs : List Char} {s : Quoting × ℕ}
    (h : scan (q, depth) cs = some s) : balanceFrom q depth pos cs = verdict s := by
  induction cs generalizing q depth pos with
  | nil =>
    cases h
    rfl
  | cons c cs ih =>
    simp only [scan_cons, scanChar] at h
    unfold balanceFrom
    split_ifs at h ⊢ with hcovers hopen hclose
    · exact ih _ h
    · exact ih _ h
    · cases depth with
      | zero => cases h
      | succ depth => exact ih _ h
    · exact ih _ h

theorem balance_of_scan {cs : List Char} {s : Quoting × ℕ} (h : scan (.outside, 0) cs = some s) :
    balance cs = verdict s :=
  balanceFrom_of_scan 0 h

/-! ### Over parts of a text -/

/-- The characters that change nothing outside of strings. -/
theorem scan_of_plain {cs : List Char} (h : ∀ c ∈ cs, c ≠ '(' ∧ c ≠ ')' ∧ c ≠ '"') (depth : ℕ) :
    scan (.outside, depth) cs = some (.outside, depth) := by
  induction cs with
  | nil => rfl
  | cons c cs ih =>
    obtain ⟨⟨hopen, hclose, hquote⟩, hcs⟩ := List.forall_mem_cons.1 h
    have hcovers : Quoting.covers .outside c = false := by simp [Quoting.covers, hquote]
    simp [scan_cons, scanChar, hcovers, hopen, hclose, ih hcs]

theorem scan_inside_cons {c : Char} (hquote : c ≠ '"') (hescape : c ≠ '\\') (depth : ℕ)
    (cs : List Char) : scan (.inside, depth) (c :: cs) = scan (.inside, depth) cs := by
  simp [scan_cons, scanChar, Quoting.covers, Quoting.next, hquote, hescape]

/-- A string that is closed is left at its closing quote. -/
theorem scan_of_closed {cs : List Char} (h : hasClosingQuote cs) (depth : ℕ) :
    scan (.inside, depth) cs = scan (.outside, depth) (cutQuoted cs).2 := by
  fun_induction hasClosingQuote cs with
  | case1 => cases h
  | case2 cs => rfl
  | case3 c cs ih => exact ih h
  | case4 c cs hquote hescape ih =>
    have hne := ne_escape_of_closed h hescape
    rw [scan_inside_cons hquote hne, cutQuoted_cons hquote hne, ih h]

/-- A string that is not closed is never left. -/
theorem scan_of_open {cs : List Char} (h : hasClosingQuote cs = false) (depth : ℕ) :
    ∃ q, q ≠ .outside ∧ scan (.inside, depth) cs = some (q, depth) := by
  fun_induction hasClosingQuote cs with
  | case1 => exact ⟨.inside, by decide, rfl⟩
  | case2 cs => cases h
  | case3 c cs ih => exact ih h
  | case4 c cs hquote hescape ih =>
    by_cases hne : c = '\\'
    · subst hne
      cases cs with
      | nil => exact ⟨.escaped, by decide, rfl⟩
      | cons d cs => exact absurd rfl (hescape d cs rfl)
    · rw [scan_inside_cons hquote hne]
      exact ih h

/-- Blanks change neither whether the scan is in a string nor the number of open brackets. -/
theorem scan_of_blank {cs : List Char} (h : ∀ c ∈ cs, isBlank c) (q : Quoting) (depth : ℕ) :
    ∃ q', (q' = .outside ↔ q = .outside) ∧ scan (q, depth) cs = some (q', depth) := by
  induction cs generalizing q with
  | nil => exact ⟨q, Iff.rfl, rfl⟩
  | cons c cs ih =>
    obtain ⟨hc, hcs⟩ := List.forall_mem_cons.1 h
    have hopen : c ≠ '(' := by rintro rfl; revert hc; decide
    have hclose : c ≠ ')' := by rintro rfl; revert hc; decide
    have hquote : c ≠ '"' := by rintro rfl; revert hc; decide
    have hescape : c ≠ '\\' := by rintro rfl; revert hc; decide
    cases q with
    | outside =>
      obtain ⟨q', hq', hscan⟩ := ih hcs .outside
      refine ⟨q', hq', ?_⟩
      simpa [scan_cons, scanChar, Quoting.covers, hopen, hclose, hquote] using hscan
    | inside =>
      obtain ⟨q', hq', hscan⟩ := ih hcs .inside
      exact ⟨q', hq', by rw [scan_inside_cons hquote hescape, hscan]⟩
    | escaped =>
      -- The blank is what the backslash escapes.
      obtain ⟨q', hq', hscan⟩ := ih hcs .inside
      exact ⟨q', by simpa using hq', hscan⟩

theorem scan_cons_of_blank {c : Char} (hc : isBlank c) (depth : ℕ) (cs : List Char) :
    scan (.outside, depth) (c :: cs) = scan (.outside, depth) cs := by
  obtain ⟨q, hq, hscan⟩ := scan_of_blank (List.forall_mem_singleton.2 hc) .outside depth
  obtain rfl := hq.2 rfl
  rw [← List.singleton_append, scan_append, hscan]
  rfl

/-! ### Over the lexemes of a text -/

/-- Over a lexeme that is plain and closed, the scan counts brackets as the parser does. -/
theorem scan_lexeme {c : Char} {cs : List Char}
    (hplain : (TokenKind.ofLexeme (cutLexeme c cs).1).Plain)
    (hclosed : isUnclosed (cutLexeme c cs).1 = false) (depth : ℕ) :
    scan (.outside, depth) (c :: cs) =
      (nesting depth [TokenKind.ofLexeme (cutLexeme c cs).1]).bind fun depth =>
        scan (.outside, depth) (cutLexeme c cs).2 := by
  rcases cutLexeme_cases c cs with ⟨rfl, hcut⟩ | ⟨rfl, hcut⟩ | ⟨rfl, hcut⟩ | ⟨ho, hc, hq, hcut⟩
  · rfl
  · cases depth <;> rfl
  · rw [hcut] at hclosed ⊢
    have hclosed : hasClosingQuote cs := by
      simpa [isUnclosed, hasClosingQuote_cutQuoted] using hclosed
    exact scan_of_closed hclosed depth
  · have hkind : TokenKind.ofLexeme (cutLexeme c cs).1 =
        .atom (String.ofList (cutLexeme c cs).1) := by
      simp [hcut, TokenKind.ofLexeme, ho, hc, hq]
    rw [hkind] at hplain ⊢
    simp only [TokenKind.Plain, String.toList_ofList] at hplain
    have hchars : ∀ d ∈ (cutLexeme c cs).1, d ≠ '(' ∧ d ≠ ')' ∧ d ≠ '"' := by
      intro d hd
      refine ⟨fun h => hplain.1 (h ▸ hd), ?_, fun h => hplain.2 (h ▸ hd)⟩
      rw [hcut] at hd
      rcases List.mem_cons.1 hd with rfl | hd
      · exact hc
      · rintro rfl
        have := List.mem_takeWhile_imp hd
        simp [isAtomChar] at this
    rw [← cutLexeme_append c cs, scan_append, scan_of_plain hchars]
    rfl

/-- Over a text that does not end in a string, the scan counts brackets as the parser does. -/
theorem scan_eq_nesting {cs : List Char} (hplain : ∀ k ∈ kinds cs, k.Plain)
    (hends : endsInString cs = false) (depth : ℕ) :
    scan (.outside, depth) cs = (nesting depth (kinds cs)).map fun depth => (.outside, depth) := by
  fun_induction lexemes cs generalizing depth with
  | case1 => simp [kinds, nesting]
  | case2 c cs hc ih =>
    rw [endsInString_cons_of_blank hc] at hends
    rw [kinds_cons_of_blank hc] at hplain ⊢
    rw [scan_cons_of_blank hc, ih hplain hends]
  | case3 c cs hc ih =>
    rw [endsInString_cons hc, Bool.or_eq_false_iff] at hends
    rw [kinds_cons hc] at hplain ⊢
    obtain ⟨hfirst, hrest⟩ := List.forall_mem_cons.1 hplain
    rw [scan_lexeme hfirst hends.1, nesting_cons depth _ (kinds _), Option.map_bind]
    exact congrArg _ (funext fun depth => ih hrest hends.2 depth)

/-- If the scan is outside of strings where a text is cut, the first part leaves no string open. -/
theorem endsInString_of_scan {cs ds : List Char} (hplain : ∀ k ∈ kinds (cs ++ ds), k.Plain)
    (hds : ∀ d ∈ ds.head?, isAtomChar d = false) {depth depth' : ℕ}
    (hscan : scan (.outside, depth) cs = some (.outside, depth')) : endsInString cs = false := by
  fun_induction lexemes cs generalizing depth with
  | case1 => simp [endsInString]
  | case2 c cs hc ih =>
    rw [List.cons_append, kinds_cons_of_blank hc] at hplain
    rw [scan_cons_of_blank hc] at hscan
    rw [endsInString_cons_of_blank hc, ih hplain hscan]
  | case3 c cs hc ih =>
    -- Had the first lexeme no end, the scan would still be inside of it.
    have hclosed : isUnclosed (cutLexeme c cs).1 = false := by
      by_contra hne
      obtain ⟨rfl, hopen, -⟩ := cutLexeme_of_unclosed (Bool.of_not_eq_false hne)
      obtain ⟨q, hq, hinside⟩ := scan_of_open hopen depth
      have := hinside.symm.trans hscan
      exact hq (congrArg Prod.fst (Option.some.inj this))
    rw [List.cons_append, kinds_cons hc, cutLexeme_append_of_head hclosed hds] at hplain
    obtain ⟨hfirst, hrest⟩ := List.forall_mem_cons.1 hplain
    rw [scan_lexeme hfirst hclosed, Option.bind_eq_some_iff] at hscan
    obtain ⟨depth', -, hscan⟩ := hscan
    rw [endsInString_cons hc, hclosed, Bool.false_or, ih hrest hscan]

end Console
end FixpointLisp
