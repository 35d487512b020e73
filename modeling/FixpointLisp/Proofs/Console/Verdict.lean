import FixpointLisp.Console.Session
import FixpointLisp.Proofs.Console.Scan
import FixpointLisp.Proofs.Expr.Pairing

/-!
# The verdict on an entry and its tokens

The console judges an entry without reading its tokens. As long as no atom holds an opening bracket
or a quote, it says what the tokens say: which closing bracket is the first stray one, and if there
is none, whether a bracket or a string is left open.

* `balance_eq_unmatched_iff`: a bracket closes nothing where the scan finds nothing open.
* `Session.feed_of_unmatched`: the complaint that a session makes about this bracket.
* `nesting_of_scan`: where a scan ends tells how many brackets are open, and whether a string is.
* `balance_eq_unmatched_iff_isStray`: the scan finds this bracket where the first stray token is.
* `LeavesStringOpen` says of a source text that its last token is a quoted text without an end.
* `balance_iff_tokens`: the verdict in terms of tokens.
-/

namespace FixpointLisp
namespace Console

open Text

/-! ### Where the scan ends -/

theorem scanChar_eq_none_iff {q : Quoting} {depth : ℕ} {c : Char} :
    scanChar (q, depth) c = none ↔ q = .outside ∧ depth = 0 ∧ c = ')' := by
  unfold scanChar
  cases q with
  | outside =>
    by_cases hclose : c = ')'
    · subst hclose
      cases depth <;> simp [Quoting.covers]
    · simp only [hclose, if_false, and_false, iff_false]
      split_ifs <;> simp
  | inside => simp [Quoting.covers]
  | escaped => simp [Quoting.covers]

theorem balanceFrom_cons (q : Quoting) (depth pos : ℕ) (c : Char) (cs : List Char) :
    balanceFrom q depth pos (c :: cs) =
      match scanChar (q, depth) c with
      | some (q', depth') => balanceFrom q' depth' (pos + 1) cs
      | none => .unmatched pos := by
  unfold scanChar
  rw [balanceFrom.eq_def]
  dsimp only
  split_ifs
  · rfl
  · rfl
  · cases depth <;> rfl
  · rfl

/-- A bracket closes nothing if it is a closing one and the scan of the text in front of it finds no
string and no bracket open. -/
theorem balanceFrom_eq_unmatched_iff {q : Quoting} {depth pos n : ℕ} {cs : List Char} :
    balanceFrom q depth pos cs = .unmatched n ↔
      ∃ front back, cs = front ++ ')' :: back ∧ n = pos + front.length ∧
        scan (q, depth) front = some (.outside, 0) := by
  induction cs generalizing q depth pos with
  | nil =>
    rw [balanceFrom]
    split_ifs <;> simp
  | cons c cs ih =>
    rw [balanceFrom_cons]
    cases hchar : scanChar (q, depth) c with
    | none =>
      obtain ⟨rfl, rfl, rfl⟩ := scanChar_eq_none_iff.1 hchar
      constructor
      · intro h
        cases h
        exact ⟨[], cs, rfl, rfl, rfl⟩
      · rintro ⟨_ | ⟨d, front⟩, back, hcs, rfl, hscan⟩
        · rfl
        · cases hcs
          rw [scan_cons, hchar] at hscan
          cases hscan
    | some s =>
      simp only [ih]
      constructor
      · rintro ⟨front, back, rfl, rfl, hscan⟩
        refine ⟨c :: front, back, rfl, ?_, ?_⟩
        · simp only [List.length_cons]
          omega
        · rw [scan_cons, hchar]
          exact hscan
      · rintro ⟨_ | ⟨d, front⟩, back, hcs, rfl, hscan⟩
        · cases hcs
          cases hscan
          cases hchar
        · cases hcs
          rw [scan_cons, hchar] at hscan
          refine ⟨front, back, rfl, ?_, hscan⟩
          simp only [List.length_cons]
          omega

theorem balance_eq_unmatched_iff {n : ℕ} {cs : List Char} :
    balance cs = .unmatched n ↔
      ∃ front back, cs = front ++ ')' :: back ∧ n = front.length ∧
        scan (.outside, 0) front = some (.outside, 0) := by
  rw [balance, balanceFrom_eq_unmatched_iff]
  simp

/-- The complaint about a bracket that closes nothing says how many characters are in front of it.
The line, without its end, stays in front of what follows. -/
theorem Session.feed_of_unmatched {s : Session} (hs : s.ended = false)
    {line front back : List Char} (hentry : stripEnd (s.pending ++ line) = front ++ ')' :: back)
    (hfront : scan (.outside, 0) front = some (.outside, 0)) (depth : ℕ) :
    s.feed depth (.text line) =
      ({ s with pending := front ++ ')' :: back },
        ⟨"", "  - Unmatched ')' at position " ++ front.length.repr⟩) := by
  have hbalance : balance (front ++ ')' :: back) = .unmatched front.length :=
    balance_eq_unmatched_iff.2 ⟨front, back, rfl, rfl, hfront⟩
  simp only [feed, hs, Bool.false_eq_true, if_false, feedText, hentry, hbalance]
  rfl

/-- Where the scan of a text fails, a bracket closes nothing. -/
theorem exists_unmatched_of_scan {q : Quoting} {depth : ℕ} {cs : List Char}
    (h : scan (q, depth) cs = none) (pos : ℕ) : ∃ n, balanceFrom q depth pos cs = .unmatched n := by
  induction cs generalizing q depth pos with
  | nil => cases h
  | cons c cs ih =>
    rw [balanceFrom_cons]
    rw [scan_cons] at h
    cases hchar : scanChar (q, depth) c with
    | none => exact ⟨pos, rfl⟩
    | some s =>
      rw [hchar] at h
      exact ih h (pos + 1)

/-- Where the scan of a text ends tells how many brackets its tokens leave open, and whether they
leave a string open. -/
theorem nesting_of_scan {cs : List Char} (hplain : ∀ k ∈ kinds cs, k.Plain) {depth n : ℕ}
    {q : Quoting} (h : scan (.outside, depth) cs = some (q, n)) :
    nesting depth (kinds cs) = some n ∧ (q = .outside ↔ endsInString cs = false) := by
  fun_induction lexemes cs generalizing depth with
  | case1 =>
    cases h
    simp [kinds, nesting, endsInString]
  | case2 c cs hc ih =>
    rw [kinds_cons_of_blank hc] at hplain ⊢
    rw [scan_cons_of_blank hc] at h
    rw [endsInString_cons_of_blank hc]
    exact ih hplain h
  | case3 c cs hc ih =>
    rw [kinds_cons hc] at hplain ⊢
    rw [endsInString_cons hc]
    obtain ⟨hfirst, hrest⟩ := List.forall_mem_cons.1 hplain
    cases hunclosed : isUnclosed (cutLexeme c cs).1 with
    | true =>
      obtain ⟨rfl, hopen, hnil⟩ := cutLexeme_of_unclosed hunclosed
      obtain ⟨q', hq', hinside⟩ := scan_of_open hopen depth
      cases hinside.symm.trans h
      simp [hq', kinds, nesting, TokenKind.ofLexeme, cutLexeme, cutQuoted_of_open hopen]
    | false =>
      rw [scan_lexeme hfirst hunclosed, Option.bind_eq_some_iff] at h
      obtain ⟨depth', hfirst, h⟩ := h
      rw [nesting_cons, hfirst, Bool.false_or]
      exact ih hrest h

/-- A closing bracket that the scan finds to be unmatched is the first stray token. -/
theorem isLeast_isStray_of_scan {front back : List Char}
    (hplain : ∀ k ∈ kinds (front ++ ')' :: back), k.Plain)
    (hscan : scan (.outside, 0) front = some (.outside, 0)) :
    ∃ t, (tokensFrom 0 (front ++ ')' :: back))[(kinds front).length]? = some t ∧
      t.span.start = byteLength front ∧
      IsLeast {n | IsStray (kinds (front ++ ')' :: back)) n} (kinds front).length := by
  have hhead : ∀ d ∈ (')' :: back).head?, isAtomChar d = false := by simp [isAtomChar]
  have hends := endsInString_of_scan hplain hhead hscan
  have hkinds := kinds_append hends hhead
  have hclose : kinds (')' :: back) = .closeParen :: kinds back := kinds_cons (by decide) back
  refine ⟨⟨.closeParen, ⟨byteLength front, byteLength front + 1⟩⟩, ?_, rfl, ?_⟩
  · have hlength : (tokensFrom 0 front).length = (kinds front).length := by
      rw [← kinds_tokensFrom 0 front, List.length_map]
    rw [tokensFrom_append hends hhead, Nat.zero_add, tokensFrom_cons (by decide), ← hlength,
      List.getElem?_append_right le_rfl, Nat.sub_self, List.getElem?_cons_zero]
    rfl
  · rw [hkinds] at hplain ⊢
    rw [isLeast_isStray_iff, List.take_left, hclose]
    refine ⟨by simp, (nesting_of_scan (fun k hk => ?_) hscan).1⟩
    exact hplain k (List.mem_append_left _ hk)

/-! ### The verdict -/

/-- The verdict names the character at which the first stray token stands. -/
theorem balance_eq_unmatched_iff_isStray {cs : List Char} (hplain : ∀ k ∈ kinds cs, k.Plain)
    {i : ℕ} :
    balance cs = .unmatched i ↔
      ∃ n t, IsLeast {n | IsStray (kinds cs) n} n ∧ (tokensFrom 0 cs)[n]? = some t ∧
        i = (takeBytes t.span.start cs).length := by
  have hmp : ∀ i, balance cs = .unmatched i → ∃ n t, IsLeast {n | IsStray (kinds cs) n} n ∧
      (tokensFrom 0 cs)[n]? = some t ∧ i = (takeBytes t.span.start cs).length := by
    intro i h
    obtain ⟨front, back, rfl, rfl, hfront⟩ := balance_eq_unmatched_iff.1 h
    obtain ⟨t, ht, hstart, hleast⟩ := isLeast_isStray_of_scan hplain hfront
    exact ⟨_, t, hleast, ht, by rw [hstart, takeBytes_append]⟩
  refine ⟨hmp i, ?_⟩
  rintro ⟨n, t, hn, ht, rfl⟩
  -- The scan fails where counting does, and then the verdict names this very token.
  cases hscan : scan (.outside, 0) cs with
  | some s =>
    have hnesting := (nesting_of_scan hplain hscan).1
    rw [nesting_eq_none_iff.2 ⟨n, hn.1⟩] at hnesting
    cases hnesting
  | none =>
    obtain ⟨i, hi⟩ := exists_unmatched_of_scan hscan 0
    obtain ⟨n', t', hn', ht', rfl⟩ := hmp i hi
    obtain rfl := hn.unique hn'
    cases ht.symm.trans ht'
    exact hi

/-- Without a stray token, the scan of a text does not fail. -/
theorem exists_scan_of_not_isStray {cs : List Char} (hplain : ∀ k ∈ kinds cs, k.Plain)
    (hstray : ∀ n, ¬IsStray (kinds cs) n) : ∃ q n, scan (.outside, 0) cs = some (q, n) := by
  cases hscan : scan (.outside, 0) cs with
  | some s => exact ⟨s.1, s.2, rfl⟩
  | none =>
    obtain ⟨i, hi⟩ := exists_unmatched_of_scan hscan 0
    obtain ⟨n, -, hn, -⟩ := (balance_eq_unmatched_iff_isStray hplain).1 hi
    exact absurd hn.1 (hstray n)

/-- Whether the last token of a source text is a quoted text in which every quote behind the first
one is escaped. -/
def LeavesStringOpen (source : String) : Prop :=
  ∃ t front body, (tokenize source).getLast? = some t ∧
    t.span.Cuts source.toList front ('"' :: body) [] ∧ QuotesEscaped body

/-- The last token of a text covers its last lexeme. -/
theorem exists_last_of_lexemes {cs lexeme : List Char} (h : (lexemes cs).getLast? = some lexeme) :
    ∃ t front back, (tokensFrom 0 cs).getLast? = some t ∧ t.span.Cuts cs front lexeme back ∧
      (isUnclosed lexeme → back = []) := by
  have hall := List.rel_reverse (forall₂_lexemes 0 cs)
  rw [← List.head?_reverse] at h
  simp only [← List.head?_reverse]
  generalize (tokensFrom 0 cs).reverse = ts at hall ⊢
  generalize (lexemes cs).reverse = ls at hall h
  cases hall with
  | nil => cases h
  | @cons t _ ts _ hlast _ =>
    cases h
    obtain ⟨front, back, hcs, hspan, hback⟩ := hlast
    refine ⟨t, front, back, rfl, ⟨hcs, ?_, ?_⟩, hback⟩
    · rw [hspan, Nat.zero_add]
    · rw [hspan, Nat.zero_add]

theorem leavesStringOpen_iff {source : String} :
    LeavesStringOpen source ↔ endsInString source.toList := by
  unfold LeavesStringOpen tokenize endsInString
  cases hlast : (lexemes source.toList).getLast? with
  | none =>
    have hnil : tokensFrom 0 source.toList = [] := by
      have hlength := (forall₂_lexemes 0 source.toList).length_eq
      rw [List.getLast?_eq_none_iff.1 hlast] at hlength
      exact List.length_eq_zero_iff.1 hlength
    simp [hnil]
  | some lexeme =>
    obtain ⟨t, front, back, ht, hcuts, hback⟩ := exists_last_of_lexemes hlast
    rw [Option.any_some]
    constructor
    · rintro ⟨t', front', body, ht', hcuts', hbody⟩
      cases ht.symm.trans ht'
      obtain ⟨-, rfl⟩ := hcuts.unique hcuts'
      rw [isUnclosed, quotesEscaped_iff.1 hbody, Bool.not_false]
    · intro hunclosed
      obtain rfl := hback hunclosed
      unfold isUnclosed at hunclosed
      split at hunclosed
      · next body =>
        refine ⟨t, front, body, ht, hcuts, quotesEscaped_iff.2 ?_⟩
        rwa [Bool.not_eq_true'] at hunclosed
      · cases hunclosed

/-- **The verdict is that of the tokens.** Let no atom of a source text hold an opening bracket or a
quote. Then the verdict is that the character at some index is unmatched if this is where the first
closing bracket stands that has no opening one among the tokens. If there is none, the verdict is
`incomplete` if a bracket is left open or the last token is a string without an end, and `complete`
if not. -/
theorem balance_iff_tokens {source : String} (hplain : ∀ t ∈ tokenize source, t.kind.Plain) :
    let ks := (tokenize source).map Token.kind
    (∀ i, balance source.toList = .unmatched i ↔
      ∃ n t, IsLeast {n | IsStray ks n} n ∧ (tokenize source)[n]? = some t ∧
        i = (takeBytes t.span.start source.toList).length) ∧
    ((∀ n, ¬IsStray ks n) →
      (balance source.toList = .incomplete ↔
        (∃ n, IsLeftOpen ks n) ∨ LeavesStringOpen source) ∧
      (balance source.toList = .complete ↔
        ¬((∃ n, IsLeftOpen ks n) ∨ LeavesStringOpen source))) := by
  intro ks
  have hks : ks = kinds source.toList := kinds_tokenize source
  have hplain : ∀ k ∈ kinds source.toList, k.Plain := by
    rw [← hks]
    exact List.forall_mem_map.2 hplain
  rw [hks]
  refine ⟨fun i => balance_eq_unmatched_iff_isStray hplain, fun hstray => ?_⟩
  obtain ⟨q, n, hscan⟩ := exists_scan_of_not_isStray hplain hstray
  obtain ⟨hnesting, hq⟩ := nesting_of_scan hplain hscan
  have hopen : (∃ n, IsLeftOpen (kinds source.toList) n) ↔ n ≠ 0 := by
    rw [← opens_zero_iff, ← lt_openAfter_iff, openAfter_of_nesting hnesting, Nat.pos_iff_ne_zero]
  have hend : LeavesStringOpen source ↔ q ≠ .outside := by
    rw [leavesStringOpen_iff, ne_eq, hq, Bool.not_eq_false]
  have hsome : n ≠ 0 ∨ q ≠ .outside ↔ ¬(q = .outside ∧ n = 0) := by tauto
  rw [balance_of_scan hscan, verdict, hopen, hend, hsome, not_not]
  split_ifs with h
  · simp [h]
  · simp [h]

/-- Two closing brackets too many, behind an atom that bytes and characters count differently and a
string with an escaped quote and a bracket in it. -/
def misnested : String := "(é \"a\\\"(\") ) (b))"

theorem kinds_misnested :
    (tokenize misnested).map Token.kind =
      [.openParen, .atom "é", .quoted "\"a\"(\"", .closeParen, .closeParen, .openParen, .atom "b",
        .closeParen, .closeParen] := by
  cbv

/-- The first of the two is the fifth token and stands at index 11. -/
theorem unmatched_misnested :
    (∀ t ∈ tokenize misnested, t.kind.Plain) ∧ balance misnested.toList = .unmatched 11 ∧
      ∃ n t, IsLeast {n | IsStray ((tokenize misnested).map Token.kind) n} n ∧
        (tokenize misnested)[n]? = some t ∧
        11 = (takeBytes t.span.start misnested.toList).length := by
  have hplain : ∀ t ∈ tokenize misnested, t.kind.Plain := by
    rw [← List.forall_mem_map, kinds_misnested]
    decide
  have hbalance : balance misnested.toList = .unmatched 11 := by cbv
  exact ⟨hplain, hbalance, ((balance_iff_tokens hplain).1 11).1 hbalance⟩

end Console
end FixpointLisp
