import FixpointLisp.Proofs.Console.Style

/-!
# What a decorated line shows

A line is decorated in one pass, and the text that shows its beginning is changed while the rest is
read. All that happens to it is that a bracket that has been shown plain becomes blue. So the
decorated line consists of the characters of the line in order, each in its right style.

* `Awaits` says of a bracket that it can still become blue, and `Shows` is the invariant of the
  pass.
* `Shows.step`: one more character can always be shown, and `exists_shows`: so can a line.
* `highlight_decorates`: what a decorated line shows.
-/

namespace FixpointLisp
namespace Console

open Text

variable {styles : List Style} {front line : List Char} {c : Char} {style : Style} {i : ℕ}

/-! ### The pass over a line -/

theorem replaceByte?_append (new front back : List Char) {c : Char} (hc : c.utf8Size = 1) :
    replaceByte? new (byteLength front) (front ++ c :: back) = some (front ++ new ++ back) := by
  induction front with
  | nil => simp [replaceByte?, hc]
  | cons d front ih => simp [replaceByte?, ih]

namespace Buffer

/-- A bracket in the text is shown as that of the marked pair. -/
theorem markOpen?_eq {b : Buffer} {before behind : String} (h : b.text = before ++ "(" ++ behind) :
    b.markOpen? before.utf8ByteSize =
      some { b with text := before ++ Style.pairOpen.render '(' ++ behind } := by
  have htext : b.text.toList = before.toList ++ '(' :: behind.toList := by
    rw [h, String.toList_append, String.toList_append, List.append_assoc]
    rfl
  rw [markOpen?, htext, ← byteLength_toList, replaceByte?_append _ _ _ rfl]
  simp [String.ofList_append, String.append_assoc]

theorem run?_concat (pos : ℕ) (front : List Char) (c : Char) :
    run? pos (front ++ [c]) = (run? pos front).bind fun b => step pos b c := by
  rw [run?, List.foldlM_append]
  refine congrArg _ (funext fun b => ?_)
  rw [List.foldlM_cons]
  exact bind_pure _

end Buffer

/-- Whether the character at index `i` is an opening bracket that is still shown plain, behind what
was shown when it was read. -/
structure Awaits (line : List Char) (pos : ℕ) (front : List Char) (styles : List Style) (i : ℕ) :
    Prop where
  char : front[i]? = some '('
  plain : styles[i]? = some .plain
  before : highlight (String.ofList (line.take i)) pos = decorated (styles.take i) (front.take i)

namespace Awaits

variable {pos : ℕ}

theorem concat (h : Awaits line pos front styles i) (c : Char) (style : Style) :
    Awaits line pos (front ++ [c]) (styles ++ [style]) i := by
  obtain ⟨hfront, -⟩ := List.getElem?_eq_some_iff.1 h.char
  obtain ⟨hstyles, -⟩ := List.getElem?_eq_some_iff.1 h.plain
  constructor
  · rw [List.getElem?_append_left hfront, h.char]
  · rw [List.getElem?_append_left hstyles, h.plain]
  · rw [List.take_append_of_le_length hfront.le, List.take_append_of_le_length hstyles.le, h.before]

/-- A bracket does not notice that one behind it becomes blue. -/
theorem set {i' : ℕ} (h : Awaits line pos front styles i') (hlt : i' < i) (style : Style) :
    Awaits line pos front (styles.set i style) i' where
  char := h.char
  plain := by rw [List.getElem?_set_ne hlt.ne', h.plain]
  before := by rw [List.take_set_of_le hlt.le, h.before]

/-- The text around the bracket. -/
theorem text_eq (h : Awaits line pos front styles i) :
    decorated styles front =
      highlight (String.ofList (line.take i)) pos ++ "(" ++
        decorated (styles.drop (i + 1)) (front.drop (i + 1)) := by
  rw [h.before, decorated_split h.plain h.char]
  rfl

/-- The text in which the bracket has become blue. -/
theorem text_set (h : Awaits line pos front styles i) :
    decorated (styles.set i .pairOpen) front =
      highlight (String.ofList (line.take i)) pos ++ Style.pairOpen.render '(' ++
        decorated (styles.drop (i + 1)) (front.drop (i + 1)) := by
  obtain ⟨hlt, -⟩ := List.getElem?_eq_some_iff.1 h.plain
  rw [decorated_split (List.getElem?_set_self hlt) h.char, List.take_set_of_le le_rfl,
    List.drop_set_of_lt (Nat.lt_succ_self i), h.before]

end Awaits

/-- What holds of a buffer that shows the beginning `front` of a line in some styles; `is` are the
indices of the brackets that are open behind it. -/
structure Shows (line : List Char) (pos : ℕ) (front : List Char) (b : Buffer)
    (styles : List Style) (is : List ℕ) : Prop where
  quoting : b.quoting = quotingAfter .outside front
  index : b.index = front.length
  text : b.text = decorated styles front
  decorates : Decorates (Marks line pos) (charKinds .outside front) styles
  brackets : OpenBrackets is (charKinds .outside front)
  opens : b.opens = is.map fun i => (highlight (String.ofList (line.take i)) pos).utf8ByteSize
  awaits : ∀ i ∈ is, Awaits line pos front styles i

namespace Shows

variable {pos : ℕ} {b : Buffer} {is : List ℕ}

/-- The character is shown behind what is shown in front of it. -/
theorem put {b : Buffer} {opens : List ℕ} (hquoting : b.quoting = quotingAfter .outside front)
    (hindex : b.index = front.length) (htext : b.text = decorated styles front)
    (hlength : styles.length = front.length)
    (hdecorates : Decorates (Marks line pos) (charKinds .outside front ++ [b.quoting.kind c])
      (styles ++ [style]))
    (hbrackets : OpenBrackets is (charKinds .outside front ++ [b.quoting.kind c]))
    (hopens : opens = is.map fun i => (highlight (String.ofList (line.take i)) pos).utf8ByteSize)
    (hawaits : ∀ i ∈ is, Awaits line pos (front ++ [c]) (styles ++ [style]) i) :
    Shows line pos (front ++ [c]) (b.put style c opens) (styles ++ [style]) is := by
  have hkinds : charKinds .outside (front ++ [c]) =
      charKinds .outside front ++ [b.quoting.kind c] := by
    rw [charKinds_append, hquoting]
    rfl
  constructor
  · rw [quotingAfter_append, ← hquoting]
    rfl
  · rw [List.length_append, ← hindex]
    rfl
  · rw [decorated_concat hlength, ← htext]
    rfl
  · rwa [hkinds]
  · rwa [hkinds]
  · exact hopens
  · exact hawaits

theorem length_eq (h : Shows line pos front b styles is) : styles.length = front.length := by
  rw [h.decorates.length_eq, length_charKinds]

/-- A character that is no bracket. -/
theorem putPlain (h : Shows line pos front b styles is)
    (hk : nesting 0 [b.quoting.kind c] = some 0)
    (hstring : style = .string ↔ ∃ text, b.quoting.kind c = .quoted text)
    (hstyle : style = .string ∨ style = .plain) :
    Shows line pos (front ++ [c]) (b.put style c b.opens) (styles ++ [style]) is := by
  refine put h.quoting h.index h.text h.length_eq ?_ (h.brackets.append_matched hk) h.opens ?_
  · refine h.decorates.concat_of_ne ?_ hstring hstyle
    intro hclose
    rw [hclose] at hk
    cases hk
  · exact fun i hi => (h.awaits i hi).concat c style

theorem putOpen (h : Shows line pos front b styles is) (hrun : Buffer.run? pos front = some b)
    (hline : front <+: line) (hk : b.quoting.kind '(' = .openParen) :
    Shows line pos (front ++ ['(']) (b.put .plain '(' (b.text.utf8ByteSize :: b.opens))
      (styles ++ [.plain]) (front.length :: is) := by
  have hbefore : highlight (String.ofList (line.take front.length)) pos = b.text := by
    rw [← List.prefix_iff_eq_take.1 hline, highlight, String.toList_ofList, hrun]
  refine put h.quoting h.index h.text h.length_eq ?_ ?_ ?_ ?_
  · rw [hk]
    exact h.decorates.concat_of_ne (by decide) (by simp) (.inr rfl)
  · rw [hk, ← length_charKinds .outside front]
    exact h.brackets.push
  · rw [List.map_cons, hbefore, h.opens]
  · refine List.forall_mem_cons.2 ⟨⟨?_, ?_, ?_⟩, fun i hi => (h.awaits i hi).concat '(' .plain⟩
    · exact List.getElem?_concat_length
    · rw [← h.length_eq, List.getElem?_concat_length]
    · rw [hbefore, List.take_left, ← h.length_eq, List.take_left, h.text]

theorem putStray (h : Shows line pos front b styles []) (hk : b.quoting.kind ')' = .closeParen) :
    Shows line pos (front ++ [')']) (b.put .stray ')' []) (styles ++ [.stray]) [] := by
  refine put h.quoting h.index h.text h.length_eq ?_ ?_ rfl (by simp)
  · rw [hk]
    exact h.decorates.stray h.brackets
  · rw [hk]
    exact h.brackets.stray.1

theorem putClose (h : Shows line pos front b styles (i :: is))
    (hk : b.quoting.kind ')' = .closeParen) (hmarks : ¬Marks line pos i front.length)
    {opens : List ℕ}
    (hopens : opens = is.map fun i => (highlight (String.ofList (line.take i)) pos).utf8ByteSize) :
    Shows line pos (front ++ [')']) (b.put .plain ')' opens) (styles ++ [.plain]) is := by
  refine put h.quoting h.index h.text h.length_eq ?_ ?_ hopens ?_
  · rw [hk]
    refine h.decorates.close h.brackets ?_
    rwa [length_charKinds]
  · rw [hk]
    exact h.brackets.pop.1
  · exact fun i' hi' => (h.awaits i' (List.mem_cons_of_mem i hi')).concat ')' .plain

/-- A closing bracket that closes a marked pair. The opening bracket is where the text is changed,
and this is in front of all that is still awaited. -/
theorem putMarked (h : Shows line pos front b styles (i :: is))
    (hk : b.quoting.kind ')' = .closeParen) (hmarks : Marks line pos i front.length)
    {opens : List ℕ}
    (hopens : opens = is.map fun i => (highlight (String.ofList (line.take i)) pos).utf8ByteSize) :
    ∃ b', (b.put .pairClose ')' opens).markOpen?
        (highlight (String.ofList (line.take i)) pos).utf8ByteSize = some b' ∧
      Shows line pos (front ++ [')']) b' (styles.set i .pairOpen ++ [.pairClose]) is := by
  obtain ⟨hawait, hawaits⟩ := List.forall_mem_cons.1 h.awaits
  have htext : (b.put .pairClose ')' opens).text =
      highlight (String.ofList (line.take i)) pos ++ "(" ++
        (decorated (styles.drop (i + 1)) (front.drop (i + 1)) ++ Style.pairClose.render ')') := by
    rw [Buffer.put, h.text, hawait.text_eq, String.append_assoc]
  refine ⟨_, Buffer.markOpen?_eq htext, ?_⟩
  rw [← String.append_assoc, ← hawait.text_set]
  refine put (b := { b with text := decorated (styles.set i .pairOpen) front }) h.quoting h.index
    rfl ?_ ?_ ?_ hopens ?_
  · rw [List.length_set, h.length_eq]
  · dsimp only
    rw [hk]
    refine h.decorates.mark h.brackets hawait.plain ?_
    rwa [length_charKinds]
  · dsimp only
    rw [hk]
    exact h.brackets.pop.1
  · intro i' hi'
    exact ((hawaits i' hi').set (h.brackets.lt_head i' hi') .pairOpen).concat ')' .pairClose

/-- One more character of the line can always be shown. -/
theorem step (h : Shows line pos front b styles is) (hrun : Buffer.run? pos front = some b)
    (hline : front <+: line) (c : Char) :
    ∃ b' styles' is', b.step pos c = some b' ∧ Shows line pos (front ++ [c]) b' styles' is' := by
  unfold Buffer.step
  split_ifs with hcovers hopen hclose
  · have hk : b.quoting.kind c = .quoted (String.singleton c) := by
      rw [Quoting.kind, if_pos hcovers]
    exact ⟨_, _, _, rfl, h.putPlain (by rw [hk]; rfl) (by simp [hk]) (.inl rfl)⟩
  · subst hopen
    have hk : b.quoting.kind '(' = .openParen := by rw [Quoting.kind, if_neg hcovers, if_pos rfl]
    exact ⟨_, _, _, rfl, h.putOpen hrun hline hk⟩
  · subst hclose
    have hk : b.quoting.kind ')' = .closeParen := by
      rw [Quoting.kind, if_neg hcovers, if_neg hopen, if_pos rfl]
    cases is with
    | nil =>
      rw [h.opens]
      exact ⟨_, _, _, rfl, h.putStray hk⟩
    | cons i is =>
      rw [h.opens, List.map_cons, h.index]
      dsimp only
      split_ifs with hmarks
      · obtain ⟨b', hb', hshows⟩ := h.putMarked hk hmarks rfl
        exact ⟨b', _, _, hb', hshows⟩
      · exact ⟨_, _, _, rfl, h.putClose hk hmarks rfl⟩
  · have hk : b.quoting.kind c = .atom (String.singleton c) := by
      rw [Quoting.kind, if_neg hcovers, if_neg hopen, if_neg hclose]
    exact ⟨_, _, _, rfl, h.putPlain (by rw [hk]; rfl) (by simp [hk]) (.inr rfl)⟩

end Shows

/-- Every beginning of a line can be shown. -/
theorem exists_shows (pos : ℕ) (hline : front <+: line) :
    ∃ b styles is, Buffer.run? pos front = some b ∧ Shows line pos front b styles is := by
  induction front using List.reverseRecOn with
  | nil =>
    refine ⟨.start, [], [], rfl, rfl, rfl, rfl, ?_, .nil ?_, rfl, by simp⟩
    · constructor <;> simp [charKinds, IsStray, IsPair]
    · simp [charKinds, Opens]
  | append_singleton front c ih =>
    obtain ⟨b, styles, is, hrun, hshows⟩ := ih ((List.prefix_append front [c]).trans hline)
    obtain ⟨b', styles', is', hstep, hshows'⟩ :=
      hshows.step hrun ((List.prefix_append front [c]).trans hline) c
    refine ⟨b', styles', is', ?_, hshows'⟩
    rw [Buffer.run?_concat, hrun]
    exact hstep

/-! ### The whole line -/

/-- A line is shown in the right styles. -/
theorem exists_decorates (line : List Char) (pos : ℕ) :
    ∃ styles, highlight (String.ofList line) pos = decorated styles line ∧
      Decorates (Marks line pos) (charKinds .outside line) styles := by
  obtain ⟨b, styles, is, hrun, hshows⟩ := exists_shows pos (List.prefix_refl line)
  refine ⟨styles, ?_, hshows.decorates⟩
  rw [highlight, String.toList_ofList, hrun, ← hshows.text]

/-- Whether an opening bracket stands at a byte position of the text. -/
def Buffer.HasOpenAt (b : Buffer) (position : ℕ) : Prop :=
  ∃ before behind, b.text = before ++ "(" ++ behind ∧ before.utf8ByteSize = position

/-- **A decorated line shows the line.** While a line is read, each bracket that is open stands at
its position in the text, so the text can be changed there and is never changed at another byte. In
the end the text consists of pieces, one for each character in order, in its right colour: strings
are green, brackets that close nothing are red, marked pairs are blue on both sides, and all else is
shown as it is. The first red bracket is the one that the verdict names. -/
theorem highlight_decorates (line : String) (pos : ℕ) :
    (∀ front, front <+: line.toList → ∃ b, Buffer.run? pos front = some b ∧
      ∀ position ∈ b.opens, b.HasOpenAt position) ∧
    ∃ pieces, highlight line pos = String.join pieces ∧
      Coloured (Marks line.toList pos) line.toList pieces ∧
      (∀ i j, IsPair (charKinds .outside line.toList) i j →
        (pieces[i]? = some "\x1b[1;34m(\x1b[0m" ↔ pieces[j]? = some "\x1b[34m)\x1b[0m")) ∧
      ∀ i, balance line.toList = .unmatched i ↔
        IsLeast {n | pieces[n]? = some "\x1b[31m)\x1b[0m"} i := by
  constructor
  · intro front hline
    obtain ⟨b, styles, is, hrun, hshows⟩ := exists_shows pos hline
    refine ⟨b, hrun, fun position hposition => ?_⟩
    rw [hshows.opens] at hposition
    obtain ⟨i, hi, rfl⟩ := List.mem_map.1 hposition
    exact ⟨_, _, hshows.text.trans (hshows.awaits i hi).text_eq, rfl⟩
  · obtain ⟨styles, htext, hdecorates⟩ := exists_decorates line.toList pos
    rw [String.ofList_toList] at htext
    have hcoloured := hdecorates.coloured
    refine ⟨_, htext, hcoloured, fun i j hpair => ?_, fun i => ?_⟩
    · rw [hcoloured.boldBlue_iff_of_isPair hpair, hcoloured.blue_iff_of_isPair hpair]
    · rw [balance_eq_unmatched_iff_isLeast]
      simp only [hcoloured.red_iff]

example : highlight "(é(a))" 4 = "(é\x1b[1;34m(\x1b[0ma\x1b[34m)\x1b[0m)" := by decide

end Console
end FixpointLisp
