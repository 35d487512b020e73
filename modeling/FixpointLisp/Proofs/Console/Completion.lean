import FixpointLisp.Console.Completion
import FixpointLisp.Proofs.Token.Layout
import FixpointLisp.Proofs.Value.Bindings
import Mathlib.Tactic

/-!
# What completions are

A completion goes on with the atom in front of the cursor. Whether there is one is decided by a test
on texts, where the position of the last token would tell: behind a token there are only blanks, and
an atom does not end in a blank.

* `bytes_lt`: texts that are in order are so byte by byte.
* `remainder?_eq_some_iff`: what is missing of a name that starts with a text.
* `Console.EndsInAtom`: the last token of a text is an atom that ends with the text.
  `suffix_iff_stop_eq`: this is so if the text ends in the atom, as a text.
* `completion_sound_complete`: the candidates are just the ways to go on to a bound name.
-/

namespace FixpointLisp

open Text

/-! ### The order of bytes -/

namespace Text

/-- The bytes that encode a text. -/
def bytes (s : String) : List UInt8 := s.toUTF8.data.toList

theorem bytes_eq (s : String) : bytes s = s.toList.flatMap String.utf8EncodeChar := by
  rw [bytes, String.toUTF8, ← String.utf8Encode_toList, List.utf8Encode, List.data_toByteArray]

/-- Of two numbers, the greater one has the greater digits. -/
theorem digits_lt {m n : ℕ} (h : m < n) :
    m / 262144 < n / 262144 ∨ m / 262144 = n / 262144 ∧
      (m / 4096 % 64 < n / 4096 % 64 ∨ m / 4096 % 64 = n / 4096 % 64 ∧
        (m / 64 % 64 < n / 64 % 64 ∨ m / 64 % 64 = n / 64 % 64 ∧ m % 64 < n % 64)) := by
  omega

/-- Of two characters, the greater one has the greater encoding, whatever follows them. -/
theorem utf8EncodeChar_append_lt {c d : Char} (h : c < d) (xs ys : List UInt8) :
    String.utf8EncodeChar c ++ xs < String.utf8EncodeChar d ++ ys := by
  have hlt : c.val.toNat < d.val.toNat := h
  have hbound : d.val.toNat < 1114112 := by
    have := d.valid
    simp only [UInt32.isValidChar, Nat.isValidChar] at this
    omega
  have hdigits := digits_lt hlt
  unfold String.utf8EncodeChar
  dsimp only
  -- There is a case for each pair of lengths. Those with a longer encoding of `c` are impossible.
  split_ifs <;>
    simp (disch := omega) only [List.cons_append, List.nil_append, List.cons_lt_cons_iff,
      UInt8.lt_iff_toNat_lt, ← UInt8.toNat_inj, UInt8.toNat_ofNat', Nat.mod_eq_of_lt] <;>
    omega

theorem flatMap_utf8EncodeChar_lt {cs ds : List Char} (h : cs < ds) :
    cs.flatMap String.utf8EncodeChar < ds.flatMap String.utf8EncodeChar := by
  induction h with
  | @nil d ds =>
    have hne : (d :: ds).flatMap String.utf8EncodeChar ≠ [] := by
      simp [String.utf8EncodeChar_ne_nil]
    obtain ⟨b, bs, hbs⟩ := List.exists_cons_of_ne_nil hne
    rw [hbs]
    exact List.nil_lt_cons b bs
  | @cons c cs ds h ih =>
    rw [List.flatMap_cons, List.flatMap_cons]
    exact List.append_left_lt ih
  | @rel c cs d ds h =>
    rw [List.flatMap_cons, List.flatMap_cons]
    exact utf8EncodeChar_append_lt h _ _

/-- Texts in the order of their characters are in the order of their bytes. -/
theorem bytes_lt {s t : String} (h : s < t) : bytes s < bytes t := by
  rw [bytes_eq, bytes_eq]
  exact flatMap_utf8EncodeChar_lt h

end Text

variable {start : ℕ} {ts : List Token} {front P r : String} {s : Span}

namespace Console

/-- Whether the tokens of a text are `ts` and an atom that runs from the byte `start` to the end. -/
def EndsInAtom (front : String) (ts : List Token) (P : String) (start : ℕ) : Prop :=
  tokenize front = ts ++ [⟨.atom P, ⟨start, front.utf8ByteSize⟩⟩]

theorem remainder?_eq_some_iff {start name r : String} :
    remainder? start name = some r ↔ r ≠ "" ∧ name = start ++ r := by
  have hname : name = start ++ r ↔ start.toList.isPrefixOf? name.toList = some r.toList := by
    rw [List.isPrefixOf?_eq_some_iff_append_eq, ← String.toList_append, String.toList_inj, eq_comm]
  rw [hname, remainder?]
  rcases start.toList.isPrefixOf? name.toList with _ | _ | ⟨c, cs⟩
  · simp
  · simp [eq_comm (a := [])]
  · rw [Option.some.injEq, Option.some.injEq]
    constructor
    · rintro rfl
      simp
    · rintro ⟨-, hr⟩
      rw [hr, String.ofList_toList]

/-- The names that go on with a text are in order if what they go on with is. -/
theorem append_lt_append_iff {start r r' : String} : start ++ r < start ++ r' ↔ r < r' := by
  have hlist (cs ds es : List Char) : cs ++ ds < cs ++ es ↔ ds < es := by
    induction cs with
    | nil => rfl
    | cons c cs ih => simp [ih]
  rw [String.lt_iff, String.lt_iff, String.toList_append, String.toList_append, hlist]

variable (E : Environment)

theorem mem_filterMap_remainder?_iff :
    r ∈ E.names.filterMap (remainder? P) ↔ r ≠ "" ∧ ∃ v, E.lookup (P ++ r) = some v := by
  simp only [List.mem_filterMap, remainder?_eq_some_iff, ← Bindings.mem_names_iff]
  constructor
  · rintro ⟨name, hname, hr, rfl⟩
    exact ⟨hr, hname⟩
  · rintro ⟨hr, hname⟩
    exact ⟨P ++ r, hname, hr, rfl⟩

theorem pairwise_filterMap_remainder? :
    (E.names.filterMap (remainder? P)).Pairwise fun r r' => bytes r < bytes r' := by
  refine List.Pairwise.filterMap _ (fun m n hmn r hr r' hr' => ?_) E.pairwise_names
  obtain ⟨-, rfl⟩ := remainder?_eq_some_iff.1 hr
  obtain ⟨-, rfl⟩ := remainder?_eq_some_iff.1 hr'
  exact bytes_lt (append_lt_append_iff.1 hmn)

/-! ### The atom in front of the cursor -/

theorem EndsInAtom.append (h : EndsInAtom front ts P start) (hr : ∀ c ∈ r.toList, isAtomChar c) :
    EndsInAtom (front ++ r) ts (P ++ r) start := by
  rw [EndsInAtom, tokenize, ← byteLength_toList, ← Nat.zero_add (byteLength _)] at h
  have := tokensFrom_append_of_atom 0 front.toList ts h hr
  rwa [String.ofList_toList, Nat.zero_add, ← String.toList_append, byteLength_toList] at this

/-- The last token is an atom that ends with the text if, as a text, the text ends in it. -/
theorem suffix_iff_stop_eq (h : tokenize front = ts ++ [⟨.atom P, s⟩]) :
    P.toList <:+ front.toList ↔ s.stop = front.utf8ByteSize := by
  obtain ⟨pre, tail, hfront, hP, hne, htail, hstop⟩ := exists_tail_of_last_atom h
  have hsize : front.utf8ByteSize = s.stop + byteLength tail := by
    rw [← byteLength_toList, hfront, hstop]
    simp only [byteLength_append]
  constructor
  · rintro ⟨xs, hxs⟩
    rw [hfront] at hxs
    have hnil : tail = [] := by
      rcases List.append_eq_append_iff.1 hxs with ⟨as, -, htext⟩ | ⟨as, -, htext⟩
      · -- The blanks would be characters of the atom.
        refine List.eq_nil_iff_forall_not_mem.2 fun d hd => hP d ?_ (htail d hd)
        rw [htext]
        exact List.mem_append_right as hd
      · -- The characters of the atom would be blanks.
        obtain ⟨c, cs, hcs⟩ := List.exists_cons_of_ne_nil hne
        have hc : c ∈ P.toList := by rw [hcs]; exact List.mem_cons_self
        refine absurd (htail c ?_) (hP c hc)
        rw [htext]
        exact List.mem_append_right as hc
    rw [hsize, hnil, byteLength_nil, Nat.add_zero]
  · intro hend
    have hnil : tail = [] := eq_nil_of_byteLength (by omega)
    exact ⟨pre, by rw [hfront, hnil, List.append_nil]⟩

/-- What is offered depends on the text in front of the cursor only. -/
theorem completions_append (front back : String) :
    completions E (front ++ back) front.utf8ByteSize =
      match (tokenize front).getLast? with
      | some ⟨.atom P, _⟩ =>
        if P.toList.isSuffixOf front.toList then E.names.filterMap (remainder? P) else []
      | _ => [] := by
  have hfront : takeBytes front.utf8ByteSize (front ++ back).toList = front.toList := by
    rw [← byteLength_toList, String.toList_append, takeBytes_append]
  rw [completions, hfront]
  rfl

theorem completions_of_endsInAtom (h : EndsInAtom front ts P start) (back : String) :
    completions E (front ++ back) front.utf8ByteSize = E.names.filterMap (remainder? P) := by
  have hsuffix : P.toList.isSuffixOf front.toList :=
    List.isSuffixOf_iff_suffix.2 ((suffix_iff_stop_eq h).2 rfl)
  rw [completions_append, h, List.getLast?_concat]
  exact if_pos hsuffix

theorem completions_of_not_endsInAtom (h : ∀ ts P start, ¬EndsInAtom front ts P start)
    (back : String) : completions E (front ++ back) front.utf8ByteSize = [] := by
  rw [completions_append]
  split
  · next P s hlast =>
    obtain ⟨ts, hts⟩ := List.getLast?_eq_some_iff.1 hlast
    refine if_neg fun hsuffix => h ts P s.start ?_
    rw [EndsInAtom, ← (suffix_iff_stop_eq hts).1 (List.isSuffixOf_iff_suffix.1 hsuffix)]
    exact hts
  · rfl

/-- **Completion is sound and complete.** Let a line be cut at the cursor. If the last token in front
of it is an atom that ends there, the candidates are, each once and in the order of their bytes, what
is missing of the bound names that start with this atom and are longer. If not, there are none. A
candidate without a blank and without a closing bracket makes the atom a bound name when it is put
behind it, and leaves the tokens in front of the atom as they are. -/
theorem completion_sound_complete (E : Environment) (front back : String) :
    (∀ ts P start, EndsInAtom front ts P start →
      (completions E (front ++ back) front.utf8ByteSize).Pairwise
          (fun r r' => bytes r < bytes r') ∧
        (∀ r, r ∈ completions E (front ++ back) front.utf8ByteSize ↔
          r ≠ "" ∧ ∃ v, E.lookup (P ++ r) = some v) ∧
        ∀ r ∈ completions E (front ++ back) front.utf8ByteSize,
          (∀ c ∈ r.toList, ¬isBlank c ∧ c ≠ ')') →
            EndsInAtom (front ++ r) ts (P ++ r) start) ∧
    ((∀ ts P start, ¬EndsInAtom front ts P start) →
      completions E (front ++ back) front.utf8ByteSize = []) := by
  refine ⟨fun ts P start h => ?_, fun h => completions_of_not_endsInAtom E h back⟩
  rw [completions_of_endsInAtom E h]
  refine ⟨pairwise_filterMap_remainder? E, fun r => mem_filterMap_remainder?_iff E,
    fun r _ hr => h.append fun c hc => ?_⟩
  simpa [isAtomChar] using hr c hc

/-- Behind `(str-f`, the candidate `irst` is offered, which makes it `(str-first`; behind a blank
nothing is. -/
theorem completion_sound_complete_global :
    EndsInAtom "(str-f" [⟨.openParen, ⟨0, 1⟩⟩] "str-f" 1 ∧
    (∀ back, "irst" ∈ completions Environment.global ("(str-f" ++ back) 6) ∧
    EndsInAtom "(str-first" [⟨.openParen, ⟨0, 1⟩⟩] "str-first" 1 ∧
    (∀ ts P start, ¬EndsInAtom "(str-f " ts P start) ∧
    ∀ back, completions Environment.global ("(str-f " ++ back) 7 = [] := by
  have hatom : EndsInAtom "(str-f" [⟨.openParen, ⟨0, 1⟩⟩] "str-f" 1 := by
    have hsize : "(str-f".utf8ByteSize = 6 := rfl
    rw [EndsInAtom, hsize]
    cbv
  have hblank : ∀ ts P start, ¬EndsInAtom "(str-f " ts P start := by
    intro ts P start h
    have hlast : (tokenize "(str-f ").getLast? = some ⟨.atom "str-f", ⟨1, 6⟩⟩ := by cbv
    rw [h, List.getLast?_concat] at hlast
    cases hlast
  have hcandidate : ∀ back, "irst" ∈ completions Environment.global ("(str-f" ++ back) 6 :=
    fun back => (((completion_sound_complete Environment.global "(str-f" back).1 _ _ _ hatom).2.1
      "irst").2 ⟨by decide, .builtin .first, by rfl⟩
  refine ⟨hatom, hcandidate, ?_, hblank, fun back => ?_⟩
  · exact ((completion_sound_complete Environment.global "(str-f" "").1 _ _ _ hatom).2.2 "irst"
      (hcandidate "") (by simp [isBlank, inRanges, blankRanges])
  · exact (completion_sound_complete Environment.global "(str-f " back).2 hblank

end Console
end FixpointLisp
