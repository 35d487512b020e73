import FixpointLisp.Proofs.Console.Decoration

/-!
# The pair at the cursor

A closing bracket is compared with the cursor by its index in the line, an opening one by its
position in the text shown so far, which is longer than the line as soon as a pair in it is blue. In
a line of ASCII characters without strings and stray brackets this makes no difference. As long as
no pair is blue, both count alike. And a pair that is blue lies at the cursor, so everything behind
it is behind the cursor, however it is counted.

* `Unadorned` are the lines in which nothing but pairs is decorated.
* `length_le_size_decorated`, `size_decorated`: the size of the text that shows a line.
* `Unadorned.size_highlight_iff`: the cursor stands behind what comes next in a line if it stands
  behind what comes next in the text that shows the line.
* `highlight_pair`: the pair at the cursor is blue, and nothing else is.
-/

namespace FixpointLisp
namespace Console

variable {line : List Char} {styles : List Style} {pos i j : ℕ}

/-! ### Sizes -/

theorem size_render_pos (style : Style) (c : Char) : 0 < (style.render c).utf8ByteSize := by
  have hc := c.utf8Size_pos
  cases style <;> simp only [Style.render, Style.coloured, String.utf8ByteSize_append,
    String.utf8ByteSize_singleton] <;> omega

/-- A line is shown in at least a byte for each character. -/
theorem length_le_size_decorated (h : styles.length = line.length) :
    line.length ≤ (decorated styles line).utf8ByteSize := by
  induction styles generalizing line with
  | nil =>
    rw [← h]
    exact Nat.zero_le _
  | cons style styles ih =>
    cases line with
    | nil => cases h
    | cons c line =>
      have hrest := ih (Nat.succ_inj.1 h)
      have hfirst := size_render_pos style c
      simp only [decorated, List.zipWith_cons_cons, String.join_cons, String.utf8ByteSize_append,
        List.length_cons] at hrest ⊢
      omega

/-- A line of ASCII characters that is plain is shown in one byte for each. -/
theorem size_decorated (h : styles.length = line.length) (hplain : ∀ style ∈ styles, style = .plain)
    (hascii : ∀ c ∈ line, c.toNat < 128) : (decorated styles line).utf8ByteSize = line.length := by
  induction styles generalizing line with
  | nil =>
    rw [← h]
    rfl
  | cons style styles ih =>
    cases line with
    | nil => cases h
    | cons c line =>
      obtain ⟨rfl, hstyles⟩ := List.forall_mem_cons.1 hplain
      obtain ⟨hc, hline⟩ := List.forall_mem_cons.1 hascii
      have hrest := ih (Nat.succ_inj.1 h) hstyles hline
      have hsize : c.utf8Size = 1 := Char.utf8Size_eq_one_iff.2 (Nat.le_of_lt_succ hc)
      simp only [decorated, List.zipWith_cons_cons, String.join_cons, String.utf8ByteSize_append,
        Style.render, String.utf8ByteSize_singleton, List.length_cons] at hrest ⊢
      omega

/-! ### Lines without strings and stray brackets -/

theorem quotingAfter_of_not_mem (h : '"' ∉ line) : quotingAfter .outside line = .outside := by
  induction line with
  | nil => rfl
  | cons c line ih =>
    obtain ⟨hc, hline⟩ := not_or.1 (mt List.mem_cons.2 h)
    have hnext : Quoting.next .outside c = .outside := if_neg (Ne.symm hc)
    rw [quotingAfter, List.foldl_cons, hnext]
    exact ih hline

/-- A line of ASCII characters without strings and without closing brackets that close nothing. -/
structure Unadorned (line : List Char) : Prop where
  ascii : ∀ c ∈ line, c.toNat < 128
  quote_notMem : '"' ∉ line
  not_isStray : ∀ n, ¬IsStray (charKinds .outside line) n

namespace Unadorned

theorem take (h : Unadorned line) (n : ℕ) : Unadorned (line.take n) where
  ascii c hc := h.ascii c (List.mem_of_mem_take hc)
  quote_notMem hquote := h.quote_notMem (List.mem_of_mem_take hquote)
  not_isStray m hm := by
    rw [charKinds_take] at hm
    exact h.not_isStray m ((isStray_take (lt_of_getElem?_take hm.1)).1 hm)

theorem ne_quoted (h : Unadorned line) (n : ℕ) (text : String) :
    (charKinds .outside line)[n]? ≠ some (.quoted text) := by
  rw [getElem?_charKinds, quotingAfter_of_not_mem (h.take n).quote_notMem]
  intro hkind
  obtain ⟨c, hc, hkind⟩ := Option.map_eq_some_iff.1 hkind
  have hne : c ≠ '"' := fun hquote => h.quote_notMem (hquote ▸ List.mem_of_getElem? hc)
  have hcovers : Quoting.covers .outside c = false := by simp [Quoting.covers, hne]
  unfold Quoting.kind at hkind
  split_ifs at hkind
  all_goals simp_all

/-- The only styles besides the plain one are those of a marked pair. -/
theorem plain_of_decorates (h : Unadorned line) {marks : ℕ → ℕ → Prop}
    (hdecorates : Decorates marks (charKinds .outside line) styles) {n : ℕ} (hn : n < line.length)
    (hpairs : ∀ i j, IsPair (charKinds .outside line) i j → marks i j → n ≠ i ∧ n ≠ j) :
    styles[n]? = some .plain := by
  rw [hdecorates.plain_iff, length_charKinds]
  exact ⟨hn, h.ne_quoted n, h.not_isStray n, hpairs⟩

/-- What comes next in a line is right in front of the cursor if it would be so in the text that
shows the line. -/
theorem size_highlight_iff (h : Unadorned line) :
    (highlight (String.ofList line) pos).utf8ByteSize + 1 = pos ↔ line.length + 1 = pos := by
  induction hn : line.length using Nat.strong_induction_on generalizing line with
  | _ n ih =>
    subst hn
    obtain ⟨styles, htext, hdecorates⟩ := exists_decorates line pos
    have hlength : styles.length = line.length := by
      rw [hdecorates.length_eq, length_charKinds]
    rw [htext]
    by_cases hpair : ∃ i j, IsPair (charKinds .outside line) i j ∧ Marks line pos i j
    · -- The cursor is inside of the line, so both sides are wrong.
      obtain ⟨i, j, hpair, hmarks⟩ := hpair
      have hlt := hpair.lt
      have hj := hpair.lt_length
      rw [length_charKinds] at hj
      have htake : (line.take i).length = i := by
        rw [List.length_take, min_eq_left (by omega)]
      have hi := ih (line.take i).length (by omega) (h.take i) rfl
      have hsize := length_le_size_decorated hlength
      rw [Marks, hi, htake] at hmarks
      omega
    · have hplain : ∀ style ∈ styles, style = .plain := by
        intro style hstyle
        obtain ⟨n, hn, rfl⟩ := List.mem_iff_getElem.1 hstyle
        rw [← Option.some_inj, ← List.getElem?_eq_getElem hn]
        refine h.plain_of_decorates hdecorates (hlength ▸ hn) fun i j hij hmarks => ?_
        exact absurd ⟨i, j, hij, hmarks⟩ hpair
      rw [size_decorated hlength hplain h.ascii]

/-- So a pair is marked if one of its brackets is right in front of the cursor. -/
theorem marks_iff (h : Unadorned line) (hpair : IsPair (charKinds .outside line) i j) :
    Marks line pos i j ↔ i + 1 = pos ∨ j + 1 = pos := by
  have hlt := hpair.lt
  have hj := hpair.lt_length
  rw [length_charKinds] at hj
  rw [Marks, (h.take i).size_highlight_iff, List.length_take, min_eq_left (by omega)]

end Unadorned

/-! ### The pair -/

/-- Whether the brackets at two indices are shown in blue. -/
def ShownBlue (pieces : List String) (i j : ℕ) : Prop :=
  pieces[i]? = some "\x1b[1;34m(\x1b[0m" ∧ pieces[j]? = some "\x1b[34m)\x1b[0m"

/-- Of the pairs of a line, those are shown in blue that are marked. -/
theorem Coloured.shownBlue_iff {marks : ℕ → ℕ → Prop} {pieces : List String}
    (h : Coloured marks line pieces) (hpair : IsPair (charKinds .outside line) i j) :
    ShownBlue pieces i j ↔ marks i j := by
  rw [ShownBlue, h.boldBlue_iff_of_isPair hpair, h.blue_iff_of_isPair hpair, and_self]

/-- A bracket belongs to one pair only. -/
theorem pair_unique {ks : List TokenKind} {i' j' n : ℕ} (h : IsPair ks i j) (h' : IsPair ks i' j')
    (hn : n = i ∨ n = j) (hn' : n = i' ∨ n = j') : i = i' ∧ j = j' := by
  have hopen := h.getElem?_open
  have hopen' := h'.getElem?_open
  rcases hn with rfl | rfl
  · rcases hn' with rfl | rfl
    · exact ⟨rfl, h.unique_close h'⟩
    · rw [h'.2.1] at hopen
      cases hopen
  · rcases hn' with rfl | rfl
    · rw [h.2.1] at hopen'
      cases hopen'
    · exact ⟨h.unique_open h', rfl⟩

/-- **The pair at the cursor is shown in blue.** In a line of ASCII characters without strings and
without closing brackets that close nothing, a pair of brackets is blue exactly if one of the two is
right in front of the cursor. So no more than one pair is, and one is if the character in front of
the cursor belongs to a pair. All else is shown as it is. -/
theorem highlight_pair {line : String} (pos : ℕ) (hascii : ∀ c ∈ line.toList, c.toNat < 128)
    (hquote : '"' ∉ line.toList) (hstray : ∀ n, ¬IsStray (charKinds .outside line.toList) n) :
    let ks := charKinds .outside line.toList
    ∃ pieces, highlight line pos = String.join pieces ∧
      pieces.length = line.toList.length ∧
      (∀ i j, IsPair ks i j → (ShownBlue pieces i j ↔ i + 1 = pos ∨ j + 1 = pos)) ∧
      (∀ n c, line.toList[n]? = some c → pieces[n]? = some (String.singleton c) ∨
        ∃ i j, IsPair ks i j ∧ ShownBlue pieces i j ∧ (n = i ∨ n = j)) ∧
      (∀ i j i' j', IsPair ks i j → ShownBlue pieces i j → IsPair ks i' j' →
        ShownBlue pieces i' j' → i = i' ∧ j = j') ∧
      (∀ n, n + 1 = pos → (∃ i j, IsPair ks i j ∧ (n = i ∨ n = j)) →
        ∃ i j, IsPair ks i j ∧ ShownBlue pieces i j) := by
  intro ks
  have h : Unadorned line.toList := ⟨hascii, hquote, hstray⟩
  obtain ⟨styles, htext, hdecorates⟩ := exists_decorates line.toList pos
  rw [String.ofList_toList, decorated] at htext
  have hcoloured := hdecorates.coloured
  generalize List.zipWith Style.render styles line.toList = pieces at htext hcoloured
  have hblue : ∀ i j, IsPair ks i j → (ShownBlue pieces i j ↔ i + 1 = pos ∨ j + 1 = pos) :=
    fun i j hpair => (hcoloured.shownBlue_iff hpair).trans (h.marks_iff hpair)
  refine ⟨pieces, htext, hcoloured.length_eq, hblue, ?_, ?_, ?_⟩
  · intro n c hc
    by_cases hpair : ∃ i j, IsPair ks i j ∧ ShownBlue pieces i j ∧ (n = i ∨ n = j)
    · exact .inr hpair
    · refine .inl ((hcoloured.bare_iff hc).2 ⟨h.ne_quoted n, h.not_isStray n, ?_⟩)
      refine fun i j hij hmarks => not_or.1 fun hn => ?_
      exact hpair ⟨i, j, hij, (hcoloured.shownBlue_iff hij).2 hmarks, hn⟩
  · intro i j i' j' hpair hshown hpair' hshown'
    rw [hblue i j hpair] at hshown
    rw [hblue i' j' hpair'] at hshown'
    exact pair_unique (n := pos - 1) hpair hpair' (by omega) (by omega)
  · rintro n rfl ⟨i, j, hpair, hn⟩
    refine ⟨i, j, hpair, (hblue i j hpair).2 ?_⟩
    omega

/-- Two pairs side by side, and one in the second of them. -/
def siblings : String := "(a)(b(c))"

/-- The cursor is behind the opening bracket of the inner pair. -/
theorem shownBlue_siblings :
    (∀ c ∈ siblings.toList, c.toNat < 128) ∧ '"' ∉ siblings.toList ∧
      (∀ n, ¬IsStray (charKinds .outside siblings.toList) n) ∧
      ∃ pieces, highlight siblings 6 = String.join pieces ∧
        ShownBlue pieces 5 7 ∧ ¬ShownBlue pieces 0 2 ∧ ¬ShownBlue pieces 3 8 := by
  have hascii : ∀ c ∈ siblings.toList, c.toNat < 128 := by simp [siblings]
  have hquote : '"' ∉ siblings.toList := by decide
  have hstray : ∀ n, ¬IsStray (charKinds .outside siblings.toList) n := by
    rw [← not_exists, ← nesting_eq_none_iff]
    decide
  obtain ⟨pieces, htext, -, hblue, -⟩ := highlight_pair 6 hascii hquote hstray
  refine ⟨hascii, hquote, hstray, pieces, htext, ?_, ?_, ?_⟩
  · rw [hblue 5 7 (by decide)]
    decide
  · rw [hblue 0 2 (by decide)]
    decide
  · rw [hblue 3 8 (by decide)]
    decide

end Console
end FixpointLisp
