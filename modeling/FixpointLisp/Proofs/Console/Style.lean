import FixpointLisp.Console.Highlight
import FixpointLisp.Proofs.Console.Verdict

/-!
# Lines in styles

In a decorated line each character has a style of its own. Which one is right depends on the
brackets of the line, and on which pair of them the cursor marks.

* `charKinds` reads each character as a token, so that pairs of brackets are pairs of indices.
  `balance_eq_unmatched_iff_isLeast`: the verdict names the first stray character.
* `decorated` is a line in given styles; `decorated_split` cuts it at a character.
* `Decorates` says which styles are right, and `Decorates.concat_of_ne`, `Decorates.stray`,
  `Decorates.close` and `Decorates.mark` which ones are if there is one more character. `Marks` is
  the rule by which a pair is marked.
* `Coloured` tells which texts show the characters of a line, colour codes and all. In the right
  styles they are shown by these texts: `Decorates.coloured`.
-/

namespace FixpointLisp
namespace Console

/-! ### Characters as tokens -/

/-- What a character is to the brackets of a line. A character of a string is a quoted text. -/
def Quoting.kind (q : Quoting) (c : Char) : TokenKind :=
  if q.covers c then .quoted (String.singleton c)
  else if c = '(' then .openParen
  else if c = ')' then .closeParen
  else .atom (String.singleton c)

/-- The characters of a line, each as a token. -/
def charKinds : Quoting → List Char → List TokenKind
  | _, [] => []
  | q, c :: cs => q.kind c :: charKinds (q.next c) cs

/-- Where a text leaves off with regard to strings. -/
def quotingAfter (q : Quoting) (cs : List Char) : Quoting := cs.foldl Quoting.next q

theorem Quoting.next_of_not_covers {q : Quoting} {c : Char} (h : q.covers c = false) :
    q.next c = q := by
  cases q with
  | outside =>
    have hquote : c ≠ '"' := by simpa [covers] using h
    rw [next, if_neg hquote]
  | inside => cases h
  | escaped => cases h

theorem Quoting.kind_eq_closeParen_iff {q : Quoting} {c : Char} :
    q.kind c = .closeParen ↔ q = .outside ∧ c = ')' := by
  unfold kind
  by_cases hclose : c = ')'
  · subst hclose
    cases q <;> simp [covers]
  · simp only [hclose, if_false, and_false, iff_false]
    split_ifs <;> simp

theorem Quoting.eq_of_kind_eq_openParen {q : Quoting} {c : Char} (h : q.kind c = .openParen) :
    c = '(' := by
  unfold kind at h
  split_ifs at h with _ hopen
  exact hopen

@[simp] theorem length_charKinds (q : Quoting) (cs : List Char) :
    (charKinds q cs).length = cs.length := by
  induction cs generalizing q with
  | nil => rfl
  | cons c cs ih => rw [charKinds, List.length_cons, List.length_cons, ih]

theorem charKinds_append (q : Quoting) (cs ds : List Char) :
    charKinds q (cs ++ ds) = charKinds q cs ++ charKinds (quotingAfter q cs) ds := by
  induction cs generalizing q with
  | nil => rfl
  | cons c cs ih => rw [List.cons_append, charKinds, charKinds, ih, List.cons_append]; rfl

theorem charKinds_take (q : Quoting) (cs : List Char) (n : ℕ) :
    charKinds q (cs.take n) = (charKinds q cs).take n := by
  induction cs generalizing q n with
  | nil => simp [charKinds]
  | cons c cs ih =>
    cases n with
    | zero => rfl
    | succ n => rw [List.take_succ_cons, charKinds, charKinds, List.take_succ_cons, ih]

theorem quotingAfter_append (q : Quoting) (cs ds : List Char) :
    quotingAfter q (cs ++ ds) = quotingAfter (quotingAfter q cs) ds :=
  List.foldl_append

theorem getElem?_charKinds (q : Quoting) (cs : List Char) (n : ℕ) :
    (charKinds q cs)[n]? = cs[n]?.map (quotingAfter q (cs.take n)).kind := by
  induction cs generalizing q n with
  | nil => simp [charKinds]
  | cons c cs ih =>
    cases n with
    | zero => rfl
    | succ n => exact ih (q.next c) n

theorem scanChar_eq_nesting (q : Quoting) (depth : ℕ) (c : Char) :
    scanChar (q, depth) c = (nesting depth [q.kind c]).map fun depth => (q.next c, depth) := by
  unfold scanChar Quoting.kind
  by_cases hcovers : q.covers c
  · simp [hcovers, nesting]
  · rw [Quoting.next_of_not_covers (Bool.of_not_eq_true hcovers)]
    simp only [hcovers, Bool.false_eq_true, if_false]
    split_ifs
    · rfl
    · cases depth <;> rfl
    · rfl

/-- The scan of the console counts the brackets among the characters. -/
theorem scan_eq_nesting_charKinds (q : Quoting) (depth : ℕ) (cs : List Char) :
    scan (q, depth) cs =
      (nesting depth (charKinds q cs)).map fun depth => (quotingAfter q cs, depth) := by
  induction cs generalizing q depth with
  | nil => rfl
  | cons c cs ih =>
    rw [scan_cons, scanChar_eq_nesting, charKinds,
      nesting_cons depth _ (charKinds _ cs), Option.bind_map, Option.map_bind]
    exact congrArg _ (funext fun depth => ih (q.next c) depth)

/-- The verdict names the first closing bracket among the characters that closes nothing. -/
theorem balance_eq_unmatched_iff_isLeast {cs : List Char} {n : ℕ} :
    balance cs = .unmatched n ↔ IsLeast {n | IsStray (charKinds .outside cs) n} n := by
  rw [balance_eq_unmatched_iff, isLeast_isStray_iff]
  constructor
  · rintro ⟨front, back, rfl, rfl, hscan⟩
    rw [scan_eq_nesting_charKinds, Option.map_eq_some_iff] at hscan
    obtain ⟨depth, hnesting, hstate⟩ := hscan
    obtain ⟨hquoting, rfl⟩ := Prod.mk.inj hstate
    have hlength : front.length = (charKinds .outside front).length :=
      (length_charKinds .outside front).symm
    rw [charKinds_append, hquoting, hlength, List.take_left]
    exact ⟨by simp [charKinds, Quoting.kind_eq_closeParen_iff], hnesting⟩
  · rintro ⟨hclose, hnesting⟩
    rw [getElem?_charKinds, Option.map_eq_some_iff] at hclose
    obtain ⟨c, hc, hkind⟩ := hclose
    obtain ⟨hquoting, rfl⟩ := Quoting.kind_eq_closeParen_iff.1 hkind
    have hcs : cs = cs.take n ++ ')' :: cs.drop (n + 1) := eq_append_of_getElem? hc
    have hlength : n = (cs.take n).length := by
      obtain ⟨hlt, -⟩ := List.getElem?_eq_some_iff.1 hc
      rw [List.length_take, min_eq_left hlt.le]
    refine ⟨cs.take n, cs.drop (n + 1), hcs, hlength, ?_⟩
    rw [hcs, charKinds_append, List.take_left' (by rw [length_charKinds, ← hlength])] at hnesting
    rw [scan_eq_nesting_charKinds, hnesting, hquoting]
    rfl

/-! ### A line in given styles -/

/-- The characters of a line one after the other, each in its style. -/
def decorated (styles : List Style) (line : List Char) : String :=
  String.join (List.zipWith Style.render styles line)

variable {styles : List Style} {front line : List Char} {c : Char} {style : Style} {i : ℕ}

theorem decorated_concat (h : styles.length = front.length) (style : Style) (c : Char) :
    decorated (styles ++ [style]) (front ++ [c]) = decorated styles front ++ style.render c := by
  rw [decorated, List.zipWith_append h, String.join_append]
  simp [decorated]

/-- A line around one of its characters. -/
theorem decorated_split (hstyle : styles[i]? = some style) (hc : front[i]? = some c) :
    decorated styles front =
      decorated (styles.take i) (front.take i) ++ style.render c ++
        decorated (styles.drop (i + 1)) (front.drop (i + 1)) := by
  induction i generalizing styles front with
  | zero =>
    cases styles with
    | nil => cases hstyle
    | cons s styles =>
      cases front with
      | nil => cases hc
      | cons d front =>
        cases hstyle
        cases hc
        simp [decorated]
  | succ i ih =>
    cases styles with
    | nil => cases hstyle
    | cons s styles =>
      cases front with
      | nil => cases hc
      | cons d front =>
        have := ih hstyle hc
        simp only [decorated] at this
        simp [decorated, this, String.append_assoc]

/-! ### The right styles -/

/-- Whether the cursor at `pos` marks a pair of brackets of a line. It does if it stands right behind
the closing one, at index `j`, or if its position is that behind the opening one, at index `i`, in
the text that shows the line up to there. -/
def Marks (line : List Char) (pos i j : ℕ) : Prop :=
  (highlight (String.ofList (line.take i)) pos).utf8ByteSize + 1 = pos ∨ j + 1 = pos

/-- Whether each character of a line is in its right style. The characters are given as tokens, and
`marks` tells which pairs of brackets are marked. -/
structure Decorates (marks : ℕ → ℕ → Prop) (ks : List TokenKind) (styles : List Style) : Prop where
  length_eq : styles.length = ks.length
  /-- The characters of strings are green. -/
  string_iff (n : ℕ) : styles[n]? = some .string ↔ ∃ text, ks[n]? = some (.quoted text)
  /-- The brackets that close nothing are red. -/
  stray_iff (n : ℕ) : styles[n]? = some .stray ↔ IsStray ks n
  /-- The closing brackets of marked pairs are blue. -/
  pairClose_iff (n : ℕ) : styles[n]? = some .pairClose ↔ ∃ i, IsPair ks i n ∧ marks i n
  /-- So are their opening ones. -/
  pairOpen_iff (n : ℕ) : styles[n]? = some .pairOpen ↔ ∃ j, IsPair ks n j ∧ marks n j

/-- Which styles there are, other than plain ones, when a pair becomes blue of which the first
bracket was plain. -/
theorem getElem?_mark {n : ℕ} (hplain : styles[i]? = some .plain) (hstyle : style ≠ .plain) :
    (styles.set i .pairOpen ++ [.pairClose])[n]? = some style ↔
      styles[n]? = some style ∨ n = i ∧ style = .pairOpen ∨
        n = styles.length ∧ style = .pairClose := by
  obtain ⟨hlt, -⟩ := List.getElem?_eq_some_iff.1 hplain
  rw [getElem?_concat_eq_some_iff, List.length_set, List.getElem?_set, or_assoc.symm,
    eq_comm (a := style), eq_comm (a := style)]
  refine or_congr_left ?_
  split_ifs with hn
  · subst hn
    simp [hplain, hstyle.symm]
  · simp [Ne.symm hn]

namespace Decorates

variable {marks : ℕ → ℕ → Prop} {ks : List TokenKind} {is : List ℕ} {j : ℕ}

/-- What is plain: all that has none of the other styles. -/
theorem plain_iff (h : Decorates marks ks styles) (n : ℕ) :
    styles[n]? = some .plain ↔
      n < ks.length ∧ (∀ text, ks[n]? ≠ some (.quoted text)) ∧ ¬IsStray ks n ∧
        ∀ i j, IsPair ks i j → marks i j → n ≠ i ∧ n ≠ j := by
  have hstring := h.string_iff n
  have hstray := h.stray_iff n
  have hclose := h.pairClose_iff n
  have hopen := h.pairOpen_iff n
  constructor
  · intro hplain
    obtain ⟨hlt, -⟩ := List.getElem?_eq_some_iff.1 hplain
    rw [hplain] at hstring hstray hclose hopen
    refine ⟨h.length_eq ▸ hlt, fun text htext => ?_, fun hn => ?_, fun i j hpair hmarks => ?_⟩
    · cases hstring.2 ⟨text, htext⟩
    · cases hstray.2 hn
    · constructor
      · rintro rfl
        cases hopen.2 ⟨j, hpair, hmarks⟩
      · rintro rfl
        cases hclose.2 ⟨i, hpair, hmarks⟩
  · rintro ⟨hlt, hquoted, hn, hpairs⟩
    rw [← h.length_eq] at hlt
    rw [List.getElem?_eq_getElem hlt] at hstring hstray hclose hopen ⊢
    cases hstyle : styles[n] with
    | plain => rfl
    | string =>
      obtain ⟨text, htext⟩ := hstring.1 (congrArg some hstyle)
      exact absurd htext (hquoted text)
    | stray => exact absurd (hstray.1 (congrArg some hstyle)) hn
    | pairOpen =>
      obtain ⟨j, hpair, hmarks⟩ := hopen.1 (congrArg some hstyle)
      exact absurd rfl (hpairs n j hpair hmarks).1
    | pairClose =>
      obtain ⟨i, hpair, hmarks⟩ := hclose.1 (congrArg some hstyle)
      exact absurd rfl (hpairs i n hpair hmarks).2

/-- A character that closes no marked pair. -/
theorem concat (h : Decorates marks ks styles) {k : TokenKind}
    (hstring : style = .string ↔ ∃ text, k = .quoted text)
    (hstray : ∀ n, IsStray (ks ++ [k]) n ↔ IsStray ks n ∨ n = ks.length ∧ style = .stray)
    (hpair : ∀ i j, IsPair (ks ++ [k]) i j ∧ marks i j ↔ IsPair ks i j ∧ marks i j)
    (hopen : style ≠ .pairOpen) (hclose : style ≠ .pairClose) :
    Decorates marks (ks ++ [k]) (styles ++ [style]) where
  length_eq := by simp [h.length_eq]
  string_iff n := by
    simp only [getElem?_concat_eq_some_iff, h.string_iff, h.length_eq, hstring, exists_or,
      exists_and_left]
  stray_iff n := by rw [getElem?_concat_eq_some_iff, h.stray_iff, h.length_eq, hstray]
  pairClose_iff n := by
    simp only [getElem?_concat_eq_some_iff, h.pairClose_iff, hclose, and_false, or_false, hpair]
  pairOpen_iff n := by
    simp only [getElem?_concat_eq_some_iff, h.pairOpen_iff, hopen, and_false, or_false, hpair]

/-- A character that is no closing bracket. -/
theorem concat_of_ne (h : Decorates marks ks styles) {k : TokenKind} (hk : k ≠ .closeParen)
    (hstring : style = .string ↔ ∃ text, k = .quoted text)
    (hstyle : style = .string ∨ style = .plain) :
    Decorates marks (ks ++ [k]) (styles ++ [style]) := by
  have hpair : ∀ i j, IsPair (ks ++ [k]) i j ↔ IsPair ks i j := fun i j => isPair_concat_of_ne hk
  refine h.concat hstring (fun n => ?_) (fun i j => by rw [hpair]) ?_ ?_
  · rw [isStray_concat_iff fun i => hpair i n]
    rcases hstyle with rfl | rfl <;> simp [hk]
  · rcases hstyle with rfl | rfl <;> decide
  · rcases hstyle with rfl | rfl <;> decide

/-- A closing bracket that closes nothing. -/
theorem stray (h : Decorates marks ks styles) (hopens : OpenBrackets [] ks) :
    Decorates marks (ks ++ [.closeParen]) (styles ++ [.stray]) := by
  refine h.concat (by simp) (fun n => ?_) (fun i j => ?_) (by decide) (by decide)
  · rw [isStray_concat_iff fun i => hopens.isPair_concat_stray]
    simp
  · rw [hopens.isPair_concat_stray]

/-- A closing bracket whose pair is not marked. -/
theorem close (h : Decorates marks ks styles) (hopens : OpenBrackets (i :: is) ks)
    (hmarks : ¬marks i ks.length) :
    Decorates marks (ks ++ [.closeParen]) (styles ++ [.plain]) := by
  refine h.concat (by simp) (fun n => ?_) (fun i' j => ?_) (by decide) (by decide)
  · rw [hopens.isStray_concat]
    simp
  · rw [hopens.isPair_concat, or_and_right, or_iff_left]
    rintro ⟨⟨rfl, rfl⟩, h⟩
    exact hmarks h

/-- A closing bracket that closes a marked pair: the opening one, which was plain, becomes blue. -/
theorem mark (h : Decorates marks ks styles) (hopens : OpenBrackets (i :: is) ks)
    (hplain : styles[i]? = some .plain) (hmarks : marks i ks.length) :
    Decorates marks (ks ++ [.closeParen]) (styles.set i .pairOpen ++ [.pairClose]) where
  length_eq := by simp [h.length_eq]
  string_iff n := by
    rw [getElem?_mark hplain (by decide), h.string_iff]
    simp [getElem?_concat_eq_some_iff]
  stray_iff n := by
    rw [getElem?_mark hplain (by decide), h.stray_iff, hopens.isStray_concat]
    simp
  pairClose_iff n := by
    rw [getElem?_mark hplain (by decide), h.pairClose_iff, h.length_eq]
    simp only [hopens.isPair_concat, or_and_right, exists_or]
    refine or_congr_right ⟨?_, ?_⟩
    · rintro (⟨-, hne⟩ | ⟨rfl, -⟩)
      · cases hne
      · exact ⟨i, ⟨rfl, rfl⟩, hmarks⟩
    · rintro ⟨_, ⟨-, hn⟩, -⟩
      exact .inr ⟨hn, trivial⟩
  pairOpen_iff n := by
    rw [getElem?_mark hplain (by decide), h.pairOpen_iff]
    simp only [hopens.isPair_concat, or_and_right, exists_or]
    refine or_congr_right ⟨?_, ?_⟩
    · rintro (⟨rfl, -⟩ | ⟨-, hne⟩)
      · exact ⟨ks.length, ⟨rfl, rfl⟩, hmarks⟩
      · cases hne
    · rintro ⟨_, ⟨hn, -⟩, -⟩
      exact .inl ⟨hn, trivial⟩

end Decorates

/-! ### The text that shows a character -/

theorem getElem?_eq_of_charKinds_eq_openParen {cs : List Char} {n : ℕ}
    (h : (charKinds .outside cs)[n]? = some .openParen) : cs[n]? = some '(' := by
  rw [getElem?_charKinds, Option.map_eq_some_iff] at h
  obtain ⟨c, hc, hkind⟩ := h
  rwa [Quoting.eq_of_kind_eq_openParen hkind] at hc

theorem getElem?_eq_of_charKinds_eq_closeParen {cs : List Char} {n : ℕ}
    (h : (charKinds .outside cs)[n]? = some .closeParen) : cs[n]? = some ')' := by
  rw [getElem?_charKinds, Option.map_eq_some_iff] at h
  obtain ⟨c, hc, hkind⟩ := h
  rwa [(Quoting.kind_eq_closeParen_iff.1 hkind).2] at hc

/-- The text tells the style and the character. -/
theorem Style.render_inj {style style' : Style} {c d : Char} :
    style.render c = style'.render d ↔ style = style' ∧ c = d := by
  cases style <;> cases style' <;> simp [render, coloured, ← String.toList_inj]

/-- Where a text is among those that show the characters of a line. -/
theorem getElem?_zipWith_render {cs : List Char} {n : ℕ} {text : String}
    (htext : style.render c = text) :
    (List.zipWith Style.render styles cs)[n]? = some text ↔
      styles[n]? = some style ∧ cs[n]? = some c := by
  subst htext
  simp [List.getElem?_zipWith_eq_some, Style.render_inj]

/-- Whether pieces of text show the characters of a line one by one, each in its colour. A colour is
set in front of its character and reset behind it. -/
structure Coloured (marks : ℕ → ℕ → Prop) (cs : List Char) (pieces : List String) : Prop where
  length_eq : pieces.length = cs.length
  /-- The characters of strings are green. -/
  green_iff {n : ℕ} {c : Char} (hc : cs[n]? = some c) :
    pieces[n]? = some ("\x1b[32m" ++ String.singleton c ++ "\x1b[0m") ↔
      ∃ text, (charKinds .outside cs)[n]? = some (.quoted text)
  /-- The brackets that close nothing are red. -/
  red_iff (n : ℕ) : pieces[n]? = some "\x1b[31m)\x1b[0m" ↔ IsStray (charKinds .outside cs) n
  /-- The closing brackets of marked pairs are blue. -/
  blue_iff (n : ℕ) :
    pieces[n]? = some "\x1b[34m)\x1b[0m" ↔ ∃ i, IsPair (charKinds .outside cs) i n ∧ marks i n
  /-- Their opening brackets are bold and blue. -/
  boldBlue_iff (n : ℕ) :
    pieces[n]? = some "\x1b[1;34m(\x1b[0m" ↔ ∃ j, IsPair (charKinds .outside cs) n j ∧ marks n j
  /-- All else is shown as it is. -/
  bare_iff {n : ℕ} {c : Char} (hc : cs[n]? = some c) :
    pieces[n]? = some (String.singleton c) ↔
      (∀ text, (charKinds .outside cs)[n]? ≠ some (.quoted text)) ∧
        ¬IsStray (charKinds .outside cs) n ∧
        ∀ i j, IsPair (charKinds .outside cs) i j → marks i j → n ≠ i ∧ n ≠ j

/-- The right styles give the right colours. -/
theorem Decorates.coloured {marks : ℕ → ℕ → Prop} {cs : List Char}
    (h : Decorates marks (charKinds .outside cs) styles) :
    Coloured marks cs (List.zipWith Style.render styles cs) where
  length_eq := by rw [List.length_zipWith, h.length_eq, length_charKinds, min_self]
  green_iff {n c} hc := by
    have htext : Style.string.render c = "\x1b[32m" ++ String.singleton c ++ "\x1b[0m" := rfl
    rw [getElem?_zipWith_render htext, h.string_iff]
    exact and_iff_left hc
  red_iff n := by
    have htext : Style.stray.render ')' = "\x1b[31m)\x1b[0m" := rfl
    rw [getElem?_zipWith_render htext, h.stray_iff]
    exact and_iff_left_of_imp fun hn => getElem?_eq_of_charKinds_eq_closeParen hn.1
  blue_iff n := by
    have htext : Style.pairClose.render ')' = "\x1b[34m)\x1b[0m" := rfl
    rw [getElem?_zipWith_render htext, h.pairClose_iff]
    refine and_iff_left_of_imp ?_
    rintro ⟨i, hpair, -⟩
    exact getElem?_eq_of_charKinds_eq_closeParen hpair.2.1
  boldBlue_iff n := by
    have htext : Style.pairOpen.render '(' = "\x1b[1;34m(\x1b[0m" := rfl
    rw [getElem?_zipWith_render htext, h.pairOpen_iff]
    refine and_iff_left_of_imp ?_
    rintro ⟨j, hpair, -⟩
    exact getElem?_eq_of_charKinds_eq_openParen hpair.getElem?_open
  bare_iff {n c} hc := by
    have hlt : n < (charKinds .outside cs).length := by
      rw [length_charKinds]
      exact (List.getElem?_eq_some_iff.1 hc).1
    have htext : Style.plain.render c = String.singleton c := rfl
    rw [getElem?_zipWith_render htext, h.plain_iff, and_iff_left hc]
    exact and_iff_right hlt

namespace Coloured

variable {marks : ℕ → ℕ → Prop} {cs : List Char} {pieces : List String} {j : ℕ}

/-- A closing bracket is blue if its pair is marked. -/
theorem blue_iff_of_isPair (h : Coloured marks cs pieces)
    (hpair : IsPair (charKinds .outside cs) i j) :
    pieces[j]? = some "\x1b[34m)\x1b[0m" ↔ marks i j := by
  rw [h.blue_iff]
  constructor
  · rintro ⟨i', hpair', hmarks⟩
    rwa [hpair'.unique_open hpair] at hmarks
  · exact fun hmarks => ⟨i, hpair, hmarks⟩

/-- So is an opening one. -/
theorem boldBlue_iff_of_isPair (h : Coloured marks cs pieces)
    (hpair : IsPair (charKinds .outside cs) i j) :
    pieces[i]? = some "\x1b[1;34m(\x1b[0m" ↔ marks i j := by
  rw [h.boldBlue_iff]
  constructor
  · rintro ⟨j', hpair', hmarks⟩
    rwa [hpair'.unique_close hpair] at hmarks
  · exact fun hmarks => ⟨j, hpair, hmarks⟩

end Coloured

end Console
end FixpointLisp
