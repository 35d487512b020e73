import FixpointLisp.Report.Line
import Mathlib.Data.Nat.Count
import Mathlib.Tactic

/-!
# The lines of a text, position by position

Where a line of a text starts can be seen from the two characters around the place. So the line that
holds a position is known without cutting the text: its number is that of the starts up to the
position, and it reaches from the last of them to the next one.

* `lineBreaks` are the characters that end a line; `startsLine`: a line starts at a position.
* `startsLine_cutLine`: the first line of a text reaches to the next start.
* `LineOf`: a line is the one that holds a position. `LineOf.of_number_eq`: positions for which the
  same number of lines has started are held by the same line.
* `lineOf_lineAt`: the line that is found for a position is this one.
-/

namespace FixpointLisp
namespace Report

open Text

variable {text : List Char} {l : Line} {pos pos' : ℕ}

/-- The characters that end a line. -/
def lineBreaks : List Char := ['\n', '\x0b', '\x0c', '\r', '\u0085', '\u2028', '\u2029']

theorem isLineBreak_eq (c : Char) : isLineBreak c = decide (c ∈ lineBreaks) := by
  have hmem : c ∈ lineBreaks ↔ c.toNat = 10 ∨ c.toNat = 11 ∨ c.toNat = 12 ∨ c.toNat = 13 ∨
      c.toNat = 0x85 ∨ c.toNat = 0x2028 ∨ c.toNat = 0x2029 := by
    simp only [lineBreaks, List.mem_cons, List.not_mem_nil, or_false, ← Char.toNat_inj]
    rfl
  rw [Bool.eq_iff_iff, decide_eq_true_iff, hmem]
  simp only [isLineBreak, inRanges, List.any_cons, List.any_nil, Bool.or_false, Bool.or_eq_true,
    Bool.and_eq_true, decide_eq_true_eq]
  omega

/-- Whether a line starts at a position of a text: the text starts there, or it goes on there behind
a line break. A carriage return and a line feed behind it are one line break. -/
def startsLine (text : List Char) : ℕ → Bool
  | 0 => true
  | pos + 1 =>
    match text[pos]?, text[pos + 1]? with
    | some c, some d => decide (c ∈ lineBreaks) && !(c == '\r' && d == '\n')
    | _, _ => false

theorem startsLine_behind (front : List Char) (c d : Char) (back : List Char) :
    startsLine (front ++ c :: d :: back) (front.length + 1) =
      (isLineBreak c && !(c == '\r' && d == '\n')) := by
  simp [startsLine, isLineBreak_eq]

/-- No line starts at the end of a text, or behind it. -/
theorem not_startsLine_of_length_le (hpos : text.length ≤ pos) (hne : pos ≠ 0) :
    startsLine text pos = false := by
  obtain ⟨k, rfl⟩ := Nat.exists_eq_succ_of_ne_zero hne
  have hnone : text[k + 1]? = none := List.getElem?_eq_none hpos
  cases h : text[k]? <;> simp [startsLine, h, hnone]

/-! ### The first line -/

/-- The first line behind `front` is not interrupted by the start of another one, and if it does not
take up all of the text, another one starts behind it. -/
theorem startsLine_cutLine (front cs : List Char) :
    (∀ k, front.length < k → k < front.length + (cutLine cs).1.length →
      startsLine (front ++ cs) k = false) ∧
    ((cutLine cs).2 ≠ [] →
      startsLine (front ++ cs) (front.length + (cutLine cs).1.length)) := by
  fun_induction cutLine cs generalizing front with
  | case1 => exact ⟨fun k hk hstop => absurd hk (Nat.not_lt_of_lt hstop), fun h => absurd rfl h⟩
  | case2 cs =>
    refine ⟨fun k hk hstop => ?_, fun hne => ?_⟩
    · obtain rfl : k = front.length + 1 := by
        simp only [List.length_cons, List.length_nil] at hstop
        omega
      rw [startsLine_behind]
      decide
    · obtain ⟨d, ds, rfl⟩ := List.exists_cons_of_ne_nil hne
      have hbreak : (isLineBreak '\n' && !('\n' == '\r' && d == '\n')) = true := rfl
      have hstart := (startsLine_behind (front ++ ['\r']) '\n' d ds).trans hbreak
      simpa using hstart
  | case3 c cs hcrlf hbreak =>
    refine ⟨fun k hk hstop => ?_, fun hne => ?_⟩
    · simp only [List.length_singleton] at hstop
      omega
    · obtain ⟨d, ds, rfl⟩ := List.exists_cons_of_ne_nil hne
      have hpair : ¬(c = '\r' ∧ d = '\n') := by
        rintro ⟨rfl, rfl⟩
        exact hcrlf ds rfl rfl
      rw [List.length_singleton, startsLine_behind, hbreak]
      simpa [-not_and, not_and_or] using hpair
  | case4 c cs hcrlf hbreak ih =>
    obtain ⟨hwhole, hnext⟩ := ih (front ++ [c])
    simp only [List.append_assoc, List.singleton_append, List.length_append,
      List.length_singleton] at hwhole hnext
    refine ⟨fun k hk hstop => ?_, fun hne => ?_⟩
    · rw [List.length_cons] at hstop
      by_cases hfirst : k = front.length + 1
      · -- The line goes on, so there is a second character, and the first one is no line break.
        subst hfirst
        obtain ⟨d, ds, rfl⟩ : ∃ d ds, cs = d :: ds := by
          refine List.exists_cons_of_ne_nil ?_
          rintro rfl
          simp [cutLine] at hstop
        rw [startsLine_behind]
        simp [hbreak]
      · exact hwhole k (by omega) (by omega)
    · simpa [Nat.add_assoc, Nat.add_comm 1] using hnext hne

/-! ### The line of a position -/

/-- Whether `l` is the line of a text that holds a position. Positions behind the last character
count as ones of the last line. -/
structure LineOf (text : List Char) (pos : ℕ) (l : Line) : Prop where
  /-- The number of the line counts the lines that start no later than the position. -/
  number : l.number = Nat.count (fun k => startsLine text k) (pos + 1)
  start_le : l.start ≤ pos
  starts : startsLine text l.start
  cut : ∃ front back, text = front ++ (l.text ++ back) ∧ front.length = l.start
  whole : ∀ k, l.start < k → k < l.stop → startsLine text k = false
  ends : l.stop = text.length ∨ startsLine text l.stop
  holds : pos < l.stop ∨ l.stop = text.length

theorem count_eq_of_not {p : ℕ → Prop} [DecidablePred p] {m n : ℕ} (hle : m ≤ n)
    (h : ∀ k, m ≤ k → k < n → ¬p k) : Nat.count p n = Nat.count p m := by
  induction n, hle using Nat.le_induction with
  | base => rfl
  | succ n hle ih =>
    rw [Nat.count_succ_eq_count_iff.2 (h n hle n.lt_succ_self),
      ih fun k hk hkn => h k hk (Nat.lt_succ_of_lt hkn)]

theorem LineOf.number_mono {l' : Line} (h : LineOf text pos l) (h' : LineOf text pos' l')
    (hpos : pos ≤ pos') : l.number ≤ l'.number := by
  rw [h.number, h'.number]
  exact Nat.count_monotone _ (Nat.succ_le_succ hpos)

/-- A line holds a later position, too, if the number of lines is the same there. -/
theorem LineOf.of_number_eq {l' : Line} (h : LineOf text pos l) (h' : LineOf text pos' l')
    (hpos : pos ≤ pos') (hnumber : l.number = l'.number) : LineOf text pos' l where
  number := hnumber.trans h'.number
  start_le := h.start_le.trans hpos
  starts := h.starts
  cut := h.cut
  whole := h.whole
  ends := h.ends
  holds := by
    by_contra hout
    obtain ⟨hstop, hend⟩ := not_or.1 hout
    -- Otherwise the next line would start up to the later position, and would be counted.
    have hnext := h.ends.resolve_left hend
    have hlt := h.holds.resolve_right hend
    have hcount := Nat.count_strict_mono (p := fun k => startsLine text k) hnext
      (Nat.lt_succ_of_le (Nat.not_lt.1 hstop))
    have hmono := Nat.count_monotone (fun k => startsLine text k) (Nat.succ_le_of_lt hlt)
    rw [h.number, h'.number] at hnumber
    exact absurd (hmono.trans_lt hcount) (Nat.not_lt.2 hnumber.symm.le)

/-! ### Finding the line -/

theorem le_start_of_mem_linesFrom (number start : ℕ) (cs : List Char) :
    ∀ l ∈ linesFrom number start cs, start ≤ l.start := by
  fun_induction linesFrom number start cs with
  | case1 => simp
  | case2 number start c cs line ih =>
    refine List.forall_mem_cons.2 ⟨le_rfl, fun l hl => ?_⟩
    exact (Nat.le_add_right _ _).trans (ih l hl)

/-- The first line behind `front` holds the positions up to its end. -/
theorem lineOf_cutLine {front cs : List Char} {number : ℕ}
    (hstarts : startsLine (front ++ cs) front.length)
    (hnumber : number = Nat.count (fun k => startsLine (front ++ cs) k) (front.length + 1))
    (hpos : front.length ≤ pos)
    (hlast : (cutLine cs).2 = [] ∨ pos < front.length + (cutLine cs).1.length) :
    LineOf (front ++ cs) pos ⟨number, front.length, (cutLine cs).1⟩ := by
  have happend := cutLine_append cs
  obtain ⟨hwhole, hnext⟩ := startsLine_cutLine front cs
  have hlength : (front ++ cs).length =
      front.length + (cutLine cs).1.length + (cutLine cs).2.length := by
    have := congrArg List.length happend
    simp only [List.length_append] at this ⊢
    omega
  refine ⟨?_, hpos, hstarts, ⟨front, _, by rw [happend], rfl⟩, hwhole, ?_, ?_⟩
  · rw [hnumber]
    refine (count_eq_of_not (Nat.succ_le_succ hpos) fun k hk hkpos => ?_).symm
    rw [Bool.not_eq_true]
    by_cases hstop : k < front.length + (cutLine cs).1.length
    · exact hwhole k hk hstop
    · -- The line takes up the rest of the text.
      rcases hlast with hnil | hlt
      · refine not_startsLine_of_length_le ?_ (Nat.ne_of_gt (Nat.zero_lt_of_lt hk))
        rw [hlength, hnil]
        exact Nat.not_lt.1 hstop
      · omega
  · by_cases hne : (cutLine cs).2 = []
    · exact .inl (by rw [hlength, hne]; rfl)
    · exact .inr (hnext hne)
  · rcases hlast with hnil | hlt
    · exact .inr (by rw [hlength, hnil]; rfl)
    · exact .inl hlt

/-- Where the second line starts, one more line has started than where the first one does. -/
theorem count_behind_cutLine (front : List Char) {c : Char} {cs : List Char}
    (hne : (cutLine (c :: cs)).2 ≠ []) :
    Nat.count (fun k => startsLine (front ++ c :: cs) k)
        (front.length + (cutLine (c :: cs)).1.length + 1) =
      Nat.count (fun k => startsLine (front ++ c :: cs) k) (front.length + 1) + 1 := by
  obtain ⟨hwhole, hnext⟩ := startsLine_cutLine front (c :: cs)
  have hpositive : 0 < (cutLine (c :: cs)).1.length := by
    have hrest := cutLine_length_lt c cs
    have hlength := congrArg List.length (cutLine_append (c :: cs))
    rw [List.length_append] at hlength
    omega
  rw [Nat.count_succ_eq_succ_count_iff.2 (hnext hne)]
  refine congrArg Nat.succ (count_eq_of_not (Nat.succ_le_of_lt ?_) fun k hk hstop => ?_)
  · exact Nat.lt_add_of_pos_right hpositive
  · exact Bool.eq_false_iff.1 (hwhole k hk hstop)

/-- The last line that starts up to a position holds it. -/
theorem exists_lineOf_linesFrom (number start : ℕ) {cs : List Char} (front : List Char)
    (htext : text = front ++ cs) (hstart : start = front.length) (hcs : cs ≠ [])
    (hstarts : startsLine text start)
    (hnumber : number = Nat.count (fun k => startsLine text k) (start + 1)) (hpos : start ≤ pos) :
    ∃ l, ((linesFrom number start cs).filter fun l => l.start ≤ pos).getLast? = some l ∧
      LineOf text pos l := by
  fun_induction linesFrom number start cs generalizing front with
  | case1 => exact absurd rfl hcs
  | case2 number start c cs line ih =>
    have happend : line ++ (cutLine (c :: cs)).2 = c :: cs := cutLine_append _
    rw [List.filter_cons_of_pos (by simpa using hpos), List.getLast?_cons]
    by_cases hlast : (cutLine (c :: cs)).2 = [] ∨ pos < start + line.length
    · -- All other lines start behind the position.
      have hothers : (linesFrom (number + 1) (start + line.length) (cutLine (c :: cs)).2).filter
          (fun l => l.start ≤ pos) = [] := by
        rw [List.filter_eq_nil_iff]
        intro l hl
        rcases hlast with hnil | hlt
        · rw [hnil, linesFrom] at hl
          cases hl
        · simpa using hlt.trans_le (le_start_of_mem_linesFrom _ _ _ l hl)
      subst htext hstart
      rw [hothers]
      exact ⟨_, rfl, lineOf_cutLine hstarts hnumber hpos hlast⟩
    · obtain ⟨hne, hlater⟩ := not_or.1 hlast
      have hnext := (startsLine_cutLine front (c :: cs)).2 hne
      have hcount := count_behind_cutLine front hne
      rw [← htext, ← hstart] at hnext hcount
      obtain ⟨l, hl, hline⟩ := ih (front ++ line) (by rw [htext, List.append_assoc, happend])
        (by rw [hstart, List.length_append]) hne hnext (by rw [hcount, hnumber])
        (Nat.not_lt.1 hlater)
      exact ⟨l, by rw [hl]; rfl, hline⟩

/-- The line that is found for a position is the one that holds it. -/
theorem lineOf_lineAt (text : List Char) (pos : ℕ) : LineOf text pos (lineAt text pos) := by
  unfold lineAt linesOf
  split_ifs with htext
  · subst htext
    refine ⟨?_, Nat.zero_le pos, rfl, ⟨[], [], rfl, rfl⟩, ?_, .inl rfl, .inr rfl⟩
    · refine (count_eq_of_not (p := fun k => startsLine [] k) (Nat.succ_le_succ (Nat.zero_le pos))
        fun k hk _ => ?_).symm
      rw [not_startsLine_of_length_le (Nat.zero_le k) (Nat.ne_of_gt hk)]
      exact Bool.false_ne_true
    · exact fun k hk hstop => absurd hk (Nat.not_lt_of_lt hstop)
  · obtain ⟨l, hlast, hl⟩ :=
      exists_lineOf_linesFrom 1 0 [] rfl rfl htext rfl rfl (Nat.zero_le pos)
    rwa [hlast]

end Report
end FixpointLisp
