import FixpointLisp.Console.Run
import FixpointLisp.Proofs.Console.Scan
import FixpointLisp.Proofs.Eval.Positions

/-!
# A piped session is a batch evaluation

A session that reads its input from a pipe puts lines together to entries and evaluates entry after
entry. When the brackets and the strings of the whole input are in order, this prints what
evaluating the input at once would print, wherever its lines end.

* `exists_splitLines_cons`, `exists_stripEnd_append`: the lines of a text and their ends.
* `answers?`: the texts of the values that some tokens spell. It is cut where the brackets match
  (`exists_answers?_append`).
* `entriesOf`: the entries of an input. `History.changed_foldl_add`: which of them change a history.
* `Session.Due`: what a session has still to print, between two lines. `Session.Due.feed_eq` is what
  one line does to it, and `Session.Due.takeLines_eq` what all the lines do.
* `Orderly.run_of_not_adds` and `Orderly.exists_run_of_adds`: how a session with a history file ends
  that adds nothing to the history, or something.
* `runCommand_session`: what a session on an orderly input prints and returns, whatever reading and
  writing the history file does.
-/

namespace FixpointLisp
namespace Console

open Text

variable {φ : Type}

/-! ### Lines -/

/-- The first piece of a list ends in its first element that satisfies `p`, or is all of it. -/
theorem exists_splitAfter_cons {α : Type} (p : α → Bool) {as : List α} (h : as ≠ []) :
    ∃ piece rest, as = piece ++ rest ∧ splitAfter p as = piece :: splitAfter p rest ∧ piece ≠ [] ∧
      (rest = [] ∨ ∃ a, piece.getLast? = some a ∧ p a) := by
  induction as with
  | nil => exact absurd rfl h
  | cons a as ih =>
    by_cases ha : p a
    · refine ⟨[a], as, rfl, ?_, by simp, .inr ⟨a, rfl, ha⟩⟩
      rw [splitAfter, if_pos ha]
    · cases as with
      | nil =>
        refine ⟨[a], [], rfl, ?_, by simp, .inl rfl⟩
        simp [splitAfter, ha]
      | cons b as =>
        obtain ⟨piece, rest, heq, hsplit, hne, hend⟩ := ih (by simp)
        refine ⟨a :: piece, rest, by rw [heq, List.cons_append], ?_, by simp, ?_⟩
        · rw [splitAfter, if_neg ha, hsplit]
        · refine hend.imp_right ?_
          rintro ⟨c, hlast, hc⟩
          exact ⟨c, by simp [List.getLast?_cons, hlast], hc⟩

/-- A text that is not empty has a first line. It ends in a line feed unless it is the last one. -/
theorem exists_splitLines_cons {text : List Char} (h : text ≠ []) :
    ∃ line rest, text = line ++ rest ∧ splitLines text = line :: splitLines rest ∧ line ≠ [] ∧
      (rest = [] ∨ line.getLast? = some '\n') := by
  obtain ⟨line, rest, heq, hsplit, hne, hend⟩ := exists_splitAfter_cons (· == '\n') h
  refine ⟨line, rest, heq, hsplit, hne, hend.imp_right ?_⟩
  rintro ⟨c, hlast, hc⟩
  rwa [← eq_of_beq hc]

theorem isBlank_return : isBlank '\r' := by decide

theorem isBlank_newline : isBlank '\n' := by decide

/-- What is taken off the end of a text is blank, and it is not empty if the text ends in a line
feed. -/
theorem exists_stripEnd_append (text : List Char) :
    ∃ bs, (∀ b ∈ bs, isBlank b) ∧ text = stripEnd text ++ bs ∧
      (text.getLast? = some '\n' → bs ≠ []) := by
  rw [← List.reverse_reverse text]
  generalize text.reverse = cs
  unfold stripEnd
  rw [List.reverse_reverse]
  split
  · exact ⟨['\r', '\n'], by simp [isBlank_return, isBlank_newline], by simp, by simp⟩
  · exact ⟨['\n'], by simp [isBlank_newline], by simp, by simp⟩
  · next hne =>
    refine ⟨[], by simp, by simp, fun hlast => ?_⟩
    rw [List.getLast?_reverse] at hlast
    obtain ⟨ds, rfl⟩ := List.head?_eq_some_iff.1 hlast
    exact absurd rfl (hne ds)

/-- Taking off the end of a text does not change whether its scan ends outside of strings and
brackets. -/
theorem scan_stripEnd {text : List Char} {s : Quoting × ℕ}
    (h : scan (.outside, 0) text = some s) :
    ∃ t, scan (.outside, 0) (stripEnd text) = some t ∧ (t = (.outside, 0) ↔ s = (.outside, 0)) := by
  obtain ⟨bs, hbs, htext, -⟩ := exists_stripEnd_append text
  rw [htext, scan_append, Option.bind_eq_some_iff] at h
  obtain ⟨⟨q, depth⟩, hstrip, hblank⟩ := h
  obtain ⟨q', hq', hscan⟩ := scan_of_blank hbs q depth
  rw [hscan] at hblank
  cases hblank
  exact ⟨(q, depth), hstrip, by simp [hq']⟩

/-! ### Answers -/

/-- The text of the value of an expression in the global environment, if it has a value. -/
def shown? (depth : ℕ) (e : Expr) : Option String :=
  match eval depth e Environment.global .strict with
  | .done value => some value.write
  | _ => none

theorem shown?_eq_some_iff {depth : ℕ} {e : Expr} {text : String} :
    shown? depth e = some text ↔
      ∃ value, eval depth e Environment.global .strict = .done value ∧ value.write = text := by
  unfold shown?
  cases eval depth e Environment.global .strict with
  | done value => simp
  | failed err => simp
  | exhausted => simp

theorem mapM_shown?_of_done {depth : ℕ} {es : List Expr} {values : List Value}
    (h : es.mapM (fun e => eval depth e Environment.global .strict) = .done values) :
    es.mapM (shown? depth) = some (values.map Value.write) := by
  have hall := Outcome.forall₂_of_mapM_eq_done h
  clear h
  induction hall with
  | nil => rfl
  | cons he _ ih =>
    rw [List.mapM_cons, shown?_eq_some_iff.2 ⟨_, he, rfl⟩, ih]
    rfl

theorem shown?_bare (depth : ℕ) (e : Expr) : shown? depth e.bare = shown? depth e := by
  have hsame : e.bare.same e := (Expr.same_iff_bare _ _).2 e.bare_bare
  have hagrees : (eval depth e.bare Environment.global .strict).Agrees .respanned
      (eval depth e Environment.global .strict) := eval_agrees_respanned hsame global_respanned
  unfold shown?
  revert hagrees
  generalize eval depth e.bare Environment.global .strict = o
  generalize eval depth e Environment.global .strict = o'
  rintro (⟨h⟩ | _ | _)
  · exact congrArg some h.write_eq
  · rfl
  · rfl

/-- The texts of the values of all expressions that some tokens spell, if all have values. -/
def answers? (depth : ℕ) (ks : List TokenKind) : Option (List String) :=
  (forestOf (bareTokens ks)).mapM (shown? depth)

theorem answers?_nil (depth : ℕ) : answers? depth [] = some [] := by
  simp [answers?, bareTokens, forestOf]

theorem answers?_kinds (depth : ℕ) (source : String) :
    answers? depth (kinds source.toList) = (parseAll source).mapM (shown? depth) := by
  rw [answers?, ← kinds_tokenize, ← bare_parseAll, List.mapM_map]
  exact congrArg (fun f => (parseAll source).mapM f) (funext fun e => shown?_bare depth e)

theorem bareTokens_append (ks ls : List TokenKind) :
    bareTokens (ks ++ ls) = bareTokens ks ++ bareTokens ls :=
  List.map_append

theorem map_kind_bareTokens (ks : List TokenKind) : (bareTokens ks).map Token.kind = ks := by
  simp [bareTokens, Function.comp_def]

/-- Tokens whose brackets match are answered apart from those that follow them. -/
theorem exists_answers?_append {depth : ℕ} {ks ls : List TokenKind} {texts : List String}
    (hks : nesting 0 ks = some 0) (h : answers? depth (ks ++ ls) = some texts) :
    ∃ now later, answers? depth ks = some now ∧ answers? depth ls = some later ∧
      texts = now ++ later := by
  rw [answers?, bareTokens_append, forestOf_append (by rwa [map_kind_bareTokens]),
    List.mapM_append] at h
  obtain ⟨now, hnow, h⟩ := Option.bind_eq_some_iff.1 h
  obtain ⟨later, hlater, h⟩ := Option.bind_eq_some_iff.1 h
  cases h
  exact ⟨now, later, hnow, hlater, rfl⟩

/-- Each text on a line of its own. -/
def printed (texts : List String) : String := String.join (texts.map (· ++ "\n"))

theorem printed_append (texts texts' : List String) :
    printed (texts ++ texts') = printed texts ++ printed texts' := by
  rw [printed, List.map_append, String.join_append]
  rfl

theorem Output.toOut_append (a b : String) : Output.toOut a ++ .toOut b = .toOut (a ++ b) := by
  show Output.mk (a ++ b) ("" ++ "") = _
  rfl

/-- Expressions with values are printed one after the other. -/
theorem evalAll_of_answers {depth : ℕ} (source : String) {es : List Expr} {texts : List String}
    (h : es.mapM (shown? depth) = some texts) :
    evalAll depth source es = .toOut (printed texts) := by
  induction es generalizing texts with
  | nil =>
    cases h
    rfl
  | cons e es ih =>
    rw [List.mapM_cons] at h
    obtain ⟨text, htext, h⟩ := Option.bind_eq_some_iff.1 h
    obtain ⟨texts, htexts, h⟩ := Option.bind_eq_some_iff.1 h
    cases h
    obtain ⟨value, hvalue, rfl⟩ := shown?_eq_some_iff.1 htext
    rw [evalAll, hvalue]
    simp only [outcomeOutput, ih htexts, Output.toOut_append, printed, List.map_cons,
      String.join_cons]

/-! ### Asking for the end -/

/-- The letters whose lower case is `d`, which comes 32 places behind the letter `u`. -/
theorem eq_or_eq_of_toLower {c d u : Char} (hu : d.toNat = u.toNat + 32) (h : c.toLower = d) :
    c = d ∨ c = u := by
  unfold Char.toLower at h
  split at h
  · next hc =>
    have hle : c.toNat ≤ 90 := UInt32.le_iff_toNat_le.1 hc.2
    have hsum : (c.toNat + 32) % 2 ^ 32 = d.toNat := congrArg Char.toNat h
    exact .inr (Char.toNat_inj.1 (by omega))
  · exact .inl h

/-- The words that end a session. -/
theorem exists_letters_of_isExit {source : String} (h : Session.isExit source) :
    ∃ a b c d, source = String.ofList [a, b, c, d] ∧ (a = 'e' ∨ a = 'E') ∧ (b = 'x' ∨ b = 'X') ∧
      (c = 'i' ∨ c = 'I') ∧ (d = 't' ∨ d = 'T') := by
  have hmap : source.toList.map Char.toLower = ['e', 'x', 'i', 't'] := eq_of_beq h
  obtain ⟨a, as, hsource, ha, hmap⟩ := List.map_eq_cons_iff.1 hmap
  obtain ⟨b, bs, rfl, hb, hmap⟩ := List.map_eq_cons_iff.1 hmap
  obtain ⟨c, cs, rfl, hc, hmap⟩ := List.map_eq_cons_iff.1 hmap
  obtain ⟨d, ds, rfl, hd, hmap⟩ := List.map_eq_cons_iff.1 hmap
  obtain rfl := List.map_eq_nil_iff.1 hmap
  refine ⟨a, b, c, d, ?_, eq_or_eq_of_toLower rfl ha, eq_or_eq_of_toLower rfl hb,
    eq_or_eq_of_toLower rfl hc, eq_or_eq_of_toLower rfl hd⟩
  rw [← hsource, String.ofList_toList]

/-- An atom without meaning has no value. -/
theorem answers?_atom {text : String} (h : Environment.global.resolve? text = none) (depth : ℕ) :
    answers? depth [.atom text] = none := by
  have hshown : shown? depth (.atom text (.point 0)) = none := by
    cases depth with
    | zero => rfl
    | succ depth => simp [shown?, eval, evalStep, resolveAtom, h]
  simp [answers?, bareTokens, forestOf, step, hshown]

/-- A word that ends a session is an atom without meaning. -/
theorem answers?_of_isExit {source : String} (h : Session.isExit source) (depth : ℕ) :
    answers? depth (kinds source.toList) = none := by
  obtain ⟨a, b, c, d, rfl, ha, hb, hc, hd⟩ := exists_letters_of_isExit h
  have hword : ¬isBlank a ∧ cutLexeme a [b, c, d] = ([a, b, c, d], []) ∧
      TokenKind.ofLexeme [a, b, c, d] = .atom (.ofList [a, b, c, d]) ∧
      Environment.global.resolve? (.ofList [a, b, c, d]) = none := by
    rcases ha with rfl | rfl <;> rcases hb with rfl | rfl <;> rcases hc with rfl | rfl <;>
      rcases hd with rfl | rfl <;> decide
  obtain ⟨hblank, hcut, hkind, hresolve⟩ := hword
  rw [String.toList_ofList, kinds_cons hblank, hcut, hkind, kinds, lexemes_nil, List.map_nil,
    answers?_atom hresolve]

/-! ### Entries -/

/-- The entries that lines make up behind `pending`. An entry ends with the first line at which
everything that was opened is closed again; the end of this line does not belong to it. -/
def entriesFrom (pending : List Char) : List (List Char) → List String
  | [] => []
  | line :: lines =>
    if scan (.outside, 0) (pending ++ line) = some (.outside, 0) then
      String.ofList (stripEnd (pending ++ line)) :: entriesFrom [] lines
    else entriesFrom (pending ++ line) lines

/-- The entries of an input. -/
def entriesOf (input : String) : List String := entriesFrom [] (splitLines input.toList)

/-- A history is changed by the first entry that is not empty and not the last one it has. -/
theorem History.changed_foldl_add (h : History) (entries : List String) :
    (entries.foldl History.add h).changed ↔
      h.changed ∨ ∃ entry ∈ entries, entry ≠ "" ∧ h.entries.head? ≠ some entry := by
  induction entries generalizing h with
  | nil => simp
  | cons entry entries ih =>
    rw [List.foldl_cons, ih, List.exists_mem_cons_iff]
    by_cases hskip : entry = "" ∨ h.entries.head? = some entry
    · have hnot : ¬(entry ≠ "" ∧ h.entries.head? ≠ some entry) := by tauto
      rw [History.add, if_pos hskip]
      simp only [hnot, false_or]
    · rw [History.add, if_neg hskip]
      simp only [true_or, true_iff]
      exact .inr (.inl (not_or.1 hskip))

/-- A history that was changed has to be written. -/
theorem History.exists_toFile?_eq_some {h : History} (hchanged : h.changed) :
    ∃ contents, h.toFile? = some contents :=
  ⟨_, if_pos hchanged⟩

theorem History.toFile?_eq_none {h : History} (hchanged : ¬h.changed) : h.toFile? = none :=
  if_neg hchanged

/-! ### Actions step by step -/

section

variable (storage : Storage φ) (input : List InputLine) (depth : ℕ)

theorem run_write_of_ok {path contents : String} {files files' : φ}
    (h : storage.write files path contents = .ok files') (output : Output) :
    ((storage.host input).write path contents).run ⟨output, files⟩ =
      (.ok (), ⟨output, files'⟩) := by
  simp [Storage.host, h]
  rfl

theorem run_write_of_error {path contents : String} {files : φ} {e : OsError}
    (h : storage.write files path contents = .error e) (output : Output) :
    ((storage.host input).write path contents).run ⟨output, files⟩ =
      (.error e, ⟨output, files⟩) := by
  simp [Storage.host, h]
  rfl

theorem run_takeLines_cons {s : Session} (hs : s.ended = false) (line : InputLine)
    (lines : List InputLine) (w : World φ) :
    (Storage.takeLines (fun s => !s.ended) (takeLine (storage.host input) depth) s
        (line :: lines)).run w =
      (Storage.takeLines (fun s => !s.ended) (takeLine (storage.host input) depth)
        (s.feed depth line).1 lines).run
          { w with output := w.output ++ (s.feed depth line).2 } := by
  rw [Storage.takeLines, hs]
  rfl

/-- A session that has not ended when all lines are read takes its leave. -/
theorem run_converse {history : History} {s : Session} {w w' : World φ}
    (h : (Storage.takeLines (fun s => !s.ended) (takeLine (storage.host input) depth)
      (.start history) input).run w = ((s, true), w')) :
    (converse (storage.host input) depth history).run w =
      (s.history, { w' with output := w'.output ++ Session.farewell }) := by
  have h : ((storage.host input).eachLine (fun s => !s.ended)
      (takeLine (storage.host input) depth) (Session.start history)).run w = ((s, true), w') := h
  rw [converse, StateT.run_bind, h]
  rfl

/-- A history to which nothing was added is not written. -/
theorem run_keepHistory_of_none {history : History} (h : history.toFile? = none) (path : String)
    (w : World φ) : (keepHistory (storage.host input) path history).run w = (0, w) := by
  rw [keepHistory, h]
  rfl

theorem run_keepHistory_of_ok {history : History} {path contents : String} {files files' : φ}
    (h : history.toFile? = some contents)
    (hwrite : storage.write files path contents = .ok files') (output : Output) :
    (keepHistory (storage.host input) path history).run ⟨output, files⟩ =
      (0, ⟨output, files'⟩) := by
  rw [keepHistory, h]
  dsimp only
  rw [StateT.run_bind, run_write_of_ok storage input hwrite]
  rfl

theorem run_keepHistory_of_error {history : History} {path contents : String} {files : φ}
    {e : OsError} (h : history.toFile? = some contents)
    (hwrite : storage.write files path contents = .error e) (output : Output) :
    (keepHistory (storage.host input) path history).run ⟨output, files⟩ =
      (1, ⟨output ++ .toErr (errorLine e.write), files⟩) := by
  rw [keepHistory, h]
  dsimp only
  rw [StateT.run_bind, run_write_of_error storage input hwrite]
  rfl

end

/-! ### Sessions -/

/-- An entry whose expressions have values prints their texts. -/
theorem Session.enter_of_answers {depth : ℕ} {entry : List Char} {texts : List String}
    (hends : endsInString entry = false) (h : answers? depth (kinds entry) = some texts)
    (s : Session) :
    s.enter depth entry =
      (⟨[], s.history.add (String.ofList entry), false⟩, .toOut (printed texts)) := by
  have hsource : answers? depth (kinds (String.ofList (trim entry)).toList) = some texts := by
    rwa [String.toList_ofList, kinds_trim hends]
  unfold Session.enter
  simp only
  split_ifs with hempty hexit
  · rw [hempty] at hsource
    have htexts : some [] = some texts := by
      rw [← hsource, String.toList_empty, kinds, lexemes_nil, List.map_nil, answers?_nil]
    cases htexts
    rfl
  · rw [answers?_of_isExit hexit] at hsource
    cases hsource
  · rw [answers?_kinds] at hsource
    rw [evalEntry, evalAll_of_answers _ hsource]

/-- What a session has still to print: it has read `pending`, which is no whole entry, and `text` is
left to be read. -/
structure Session.Due (depth : ℕ) (pending text : List Char) (texts : List String) : Prop where
  plain : ∀ k ∈ kinds (pending ++ text), k.Plain
  scanned : scan (.outside, 0) (pending ++ text) = some (.outside, 0)
  answered : answers? depth (kinds (pending ++ text)) = some texts
  waiting : pending = [] ∨ scan (.outside, 0) pending ≠ some (.outside, 0)

namespace Session.Due

variable {depth : ℕ} {pending line rest : List Char} {texts : List String}

/-- When a line completes an entry, the entry can be answered by itself. -/
theorem answers_entry (h : Due depth pending (line ++ rest) texts)
    (hcut : rest = [] ∨ line.getLast? = some '\n')
    (hscan : scan (.outside, 0) (pending ++ line) = some (.outside, 0)) :
    endsInString (stripEnd (pending ++ line)) = false ∧
      ∃ now later, answers? depth (kinds (stripEnd (pending ++ line))) = some now ∧
        texts = now ++ later ∧ Due depth [] rest later := by
  obtain ⟨bs, hbs, hinput, hfeed⟩ := exists_stripEnd_append (pending ++ line)
  obtain ⟨s, hentry, hs⟩ := scan_stripEnd hscan
  obtain rfl := hs.2 rfl
  generalize stripEnd (pending ++ line) = entry at hinput hentry ⊢
  have hwhole : pending ++ (line ++ rest) = entry ++ (bs ++ rest) := by
    rw [← List.append_assoc, hinput, List.append_assoc]
  -- What follows the entry is its line feed, or nothing at all.
  have hhead : ∀ d ∈ (bs ++ rest).head?, isAtomChar d = false := by
    intro d hd
    cases bs with
    | cons b bs =>
      cases hd
      exact isAtomChar_of_blank (hbs d List.mem_cons_self)
    | nil =>
      have hrest : rest = [] := hcut.resolve_right fun hlast => hfeed (by simp [hlast]) rfl
      rw [hrest] at hd
      cases hd
  -- Only when the entry is known to leave no string open can the tokens be cut behind it.
  have hplain := h.plain
  rw [hwhole] at hplain
  have hends : endsInString entry = false := endsInString_of_scan hplain hhead hentry
  have hkinds : kinds (pending ++ (line ++ rest)) = kinds entry ++ kinds rest := by
    rw [hwhole, kinds_append hends hhead, kinds, kinds, lexemes_append_of_blank hbs, kinds]
  have hplain : ∀ k ∈ kinds entry ++ kinds rest, k.Plain := hkinds ▸ h.plain
  obtain ⟨hplainEntry, hplainRest⟩ := List.forall_mem_append.1 hplain
  have hnesting : nesting 0 (kinds entry) = some 0 := by
    rw [scan_eq_nesting hplainEntry hends] at hentry
    simpa using hentry
  obtain ⟨now, later, hnow, hlater, htexts⟩ :=
    exists_answers?_append hnesting (hkinds ▸ h.answered)
  refine ⟨hends, now, later, hnow, htexts, hplainRest, ?_, hlater, .inl rfl⟩
  have hscanned := h.scanned
  rwa [← List.append_assoc, scan_append, hscan] at hscanned

/-- What one line does: some of the texts are printed, and the others are still due. If the line
completes an entry, the history takes it in. -/
theorem feed_eq (h : Due depth pending (line ++ rest) texts)
    (hcut : rest = [] ∨ line.getLast? = some '\n') (history : History) :
    ∃ pending' history' now later,
      Session.feed depth ⟨pending, history, false⟩ (.text line) =
        (⟨pending', history', false⟩, .toOut (printed now)) ∧
      texts = now ++ later ∧ Due depth pending' rest later ∧
      ∀ lines, (entriesFrom pending (line :: lines)).foldl History.add history =
        (entriesFrom pending' lines).foldl History.add history' := by
  have hscanned := h.scanned
  rw [← List.append_assoc, scan_append, Option.bind_eq_some_iff] at hscanned
  obtain ⟨s, hscan, -⟩ := hscanned
  obtain ⟨t, hstrip, ht⟩ := scan_stripEnd hscan
  have hbalance := balance_of_scan hstrip
  by_cases hs : s = (.outside, 0)
  · subst hs
    obtain ⟨hends, now, later, hnow, htexts, hdue⟩ := h.answers_entry hcut hscan
    have henter := enter_of_answers hends hnow ⟨pending, history, false⟩
    rw [ht.2 rfl, verdict_outside] at hbalance
    refine ⟨[], history.add (String.ofList (stripEnd (pending ++ line))), now, later, ?_, htexts,
      hdue, fun lines => ?_⟩
    · simp only [Session.feed, feedText, hbalance, henter, Bool.false_eq_true, if_false]
    · rw [entriesFrom, if_pos hscan, List.foldl_cons]
  · rw [verdict_of_ne fun h => hs (ht.1 h)] at hbalance
    have hopen : scan (.outside, 0) (pending ++ line) ≠ some (.outside, 0) := by
      rw [hscan]
      exact fun h => hs (Option.some.inj h)
    refine ⟨pending ++ line, history, [], texts, ?_, rfl, ⟨?_, ?_, ?_, .inr hopen⟩, fun lines => ?_⟩
    · simp [Session.feed, feedText, hbalance, printed, Output.toOut, Output.none]
    · rw [List.append_assoc]
      exact h.plain
    · rw [List.append_assoc]
      exact h.scanned
    · rw [List.append_assoc]
      exact h.answered
    · rw [entriesFrom, if_neg hopen]

/-- When the input ends, nothing is due, and no entry is waiting. -/
theorem eq_nil (h : Due depth pending [] texts) : texts = [] ∧ pending = [] := by
  obtain ⟨-, hscanned, hanswered, hwaiting⟩ := h
  rw [List.append_nil] at hscanned hanswered
  obtain rfl := hwaiting.resolve_right fun hne => hne hscanned
  rw [kinds, lexemes_nil, List.map_nil, answers?_nil] at hanswered
  exact ⟨(Option.some.inj hanswered).symm, rfl⟩

/-- What all the lines do: everything that is due is printed, and the history has all entries. -/
theorem takeLines_eq (storage : Storage φ) (input : List InputLine) {text : List Char}
    (h : Due depth pending text texts) (history : History) (w : World φ) :
    (Storage.takeLines (fun s => !s.ended) (takeLine (storage.host input) depth)
        ⟨pending, history, false⟩ ((splitLines text).map .text)).run w =
      ((⟨[], (entriesFrom pending (splitLines text)).foldl History.add history, false⟩, true),
        { w with output := w.output ++ .toOut (printed texts) }) := by
  -- The induction is on what is left to be read: a line may add to what is pending or clear it.
  induction hlength : text.length using Nat.strong_induction_on
    generalizing pending text texts history w with
  | _ n ih =>
    by_cases htext : text = []
    · subst htext
      obtain ⟨rfl, rfl⟩ := h.eq_nil
      have hnone : w.output ++ .toOut (printed []) = w.output := w.output.append_none
      rw [hnone]
      rfl
    · obtain ⟨line, rest, rfl, hsplit, hne, hcut⟩ := exists_splitLines_cons htext
      obtain ⟨pending', history', now, later, hfeed, rfl, hdue, hentries⟩ := h.feed_eq hcut history
      have hlt : rest.length < n := by
        have := List.length_pos_iff.2 hne
        rw [List.length_append] at hlength
        omega
      rw [hsplit, List.map_cons, run_takeLines_cons storage input depth rfl, hfeed,
        ih rest.length hlt hdue history' _ rfl, hentries, Output.append_assoc,
        Output.toOut_append, ← printed_append]

end Session.Due

/-! ### Orderly inputs -/

/-- Whether a text is in order: atoms hold no opening brackets and no quotes, no bracket closes
nothing, and no list and no string is left open at the end. -/
structure Orderly (input : String) : Prop where
  plain : ∀ k ∈ (tokenize input).map Token.kind, k.Plain
  matched : nesting 0 ((tokenize input).map Token.kind) = some 0
  closed : endsInString input.toList = false

/-- At the beginning of a session on an orderly input, all values are due. -/
theorem Orderly.due {depth : ℕ} {input : String} {values : List Value} (h : Orderly input)
    (hvalues : (parseAll input).mapM (fun e => eval depth e Environment.global .strict) =
      .done values) :
    Session.Due depth [] input.toList (values.map Value.write) := by
  obtain ⟨hplain, hmatched, hclosed⟩ := h
  rw [kinds_tokenize] at hplain hmatched
  refine ⟨hplain, ?_, ?_, .inl rfl⟩
  · rw [List.nil_append, scan_eq_nesting hplain hclosed, hmatched]
    rfl
  · rw [List.nil_append, answers?_kinds, mapM_shown?_of_done hvalues]

/-- A session on an orderly input prints all values, and its history has all entries. -/
theorem Orderly.converse_eq {depth : ℕ} {input : String} {values : List Value} (h : Orderly input)
    (hvalues : (parseAll input).mapM (fun e => eval depth e Environment.global .strict) =
      .done values) (storage : Storage φ) (history : History) (w : World φ) :
    (converse (storage.host (InputLine.ofText input)) depth history).run w =
      ((entriesOf input).foldl History.add history,
        { w with
          output := w.output ++ .toOut (printed (values.map Value.write) ++ "\nExiting.\n") }) := by
  have hlines := (h.due hvalues).takeLines_eq storage (InputLine.ofText input) history w
  rw [run_converse storage (InputLine.ofText input) depth hlines, ← Output.toOut_append,
    ← Output.append_assoc]
  rfl

/-! ### Runs -/

/-- What a session prints before it reads the first line; a history file that is used may have been
read or not. -/
def openingLines (historyFile : Option (Option String)) : String :=
  "fixlisp REPL v0.1.0\nType 'exit' or press Ctrl-D to quit.\n" ++
    if historyFile = some none then "No previous history.\n" else ""

/-- Whether an input adds an entry to the history that was read, if any was: an entry that is
neither empty nor the last one there. -/
def Adds (previous : Option String) (input : String) : Prop :=
  ∃ entry ∈ entriesOf input, entry ≠ "" ∧
    ∀ contents ∈ previous, (History.ofFile contents).entries.head? ≠ some entry

/-- An input adds an entry just if the history that is left has to be written. -/
theorem adds_iff {previous : Option String} {input : String} :
    Adds previous input ↔
      ((entriesOf input).foldl History.add (openHistory previous).1).changed := by
  rw [History.changed_foldl_add]
  cases previous with
  | none => simp [Adds, openHistory, History.empty]
  | some contents => simp [Adds, openHistory, History.ofFile]

/-- The line that tells of an error of the operating system. -/
theorem errorLine_write (e : OsError) :
    errorLine e.write =
      "Error: Io(Os \x7b code: " ++ e.code.repr ++ ", kind: " ++ e.kind ++ ", message: \"" ++
        e.message ++ "\" \x7d)\n" := by
  unfold errorLine OsError.write
  generalize e.kind = kind
  simp [← String.toList_inj]

/-- All that a session prints that gives the texts of some values. -/
def transcript (historyFile : Option (Option String)) (values : List Value) : String :=
  openingLines historyFile ++ printed (values.map Value.write) ++ "\nExiting.\n"

namespace Orderly

variable {depth : ℕ} {input : String} {values : List Value} (h : Orderly input)
  (hvalues : (parseAll input).mapM (fun e => eval depth e Environment.global .strict) =
    .done values) (storage : Storage φ) (path : String) (files : φ)

include h hvalues

/-- A session without a history file. -/
theorem run_none :
    runCommand storage depth (.session none) (InputLine.ofText input) files =
      ⟨.toOut (transcript none values), 0, files⟩ := by
  have hrun : runCommand storage depth (.session none) (InputLine.ofText input) files =
      let (_, world) := (converse (storage.host (InputLine.ofText input)) depth .empty).run
        ⟨.none ++ .toOut Session.banner, files⟩
      ⟨world.output, 0, world.files⟩ := rfl
  rw [hrun, h.converse_eq hvalues, transcript, String.append_assoc, ← Output.toOut_append,
    Output.none_append]
  rfl

/-- A session with a history file prints the same, and then keeps the history that is left. -/
theorem run_some :
    runCommand storage depth (.session (some path)) (InputLine.ofText input) files =
      let (code, world) := (keepHistory (storage.host (InputLine.ofText input)) path
          ((entriesOf input).foldl History.add (openHistory (storage.read? files path)).1)).run
        ⟨.toOut (transcript (some (storage.read? files path)) values), files⟩
      ⟨world.output, code, world.files⟩ := by
  have hrun : runCommand storage depth (.session (some path)) (InputLine.ofText input) files =
      let (history, world) := (converse (storage.host (InputLine.ofText input)) depth
          (openHistory (storage.read? files path)).1).run
        ⟨.none ++ .toOut Session.banner ++ (openHistory (storage.read? files path)).2, files⟩
      let (code, world) :=
        (keepHistory (storage.host (InputLine.ofText input)) path history).run world
      ⟨world.output, code, world.files⟩ := rfl
  have hopening : .none ++ .toOut Session.banner ++ (openHistory (storage.read? files path)).2 =
      Output.toOut (openingLines (some (storage.read? files path))) := by
    cases storage.read? files path <;> rfl
  rw [hrun, h.converse_eq hvalues, hopening]
  dsimp only
  rw [Output.toOut_append, transcript, String.append_assoc]

/-- A session that adds nothing to the history leaves the files as they are. -/
theorem run_of_not_adds (hadds : ¬Adds (storage.read? files path) input) :
    runCommand storage depth (.session (some path)) (InputLine.ofText input) files =
      ⟨.toOut (transcript (some (storage.read? files path)) values), 0, files⟩ := by
  have hkept := History.toFile?_eq_none (mt adds_iff.2 hadds)
  rw [h.run_some hvalues, run_keepHistory_of_none storage _ hkept]

/-- A session that adds something to the history ends in an error just if the history cannot be
written. -/
theorem exists_run_of_adds (hadds : Adds (storage.read? files path) input) :
    ∃ contents,
      (∀ files', storage.write files path contents = .ok files' →
        runCommand storage depth (.session (some path)) (InputLine.ofText input) files =
          ⟨.toOut (transcript (some (storage.read? files path)) values), 0, files'⟩) ∧
      ∀ e, storage.write files path contents = .error e →
        runCommand storage depth (.session (some path)) (InputLine.ofText input) files =
          ⟨⟨transcript (some (storage.read? files path)) values, errorLine e.write⟩, 1,
            files⟩ := by
  obtain ⟨contents, hcontents⟩ := History.exists_toFile?_eq_some (adds_iff.1 hadds)
  refine ⟨contents, fun files' hwrite => ?_, fun e hwrite => ?_⟩
  · rw [h.run_some hvalues, run_keepHistory_of_ok storage _ hcontents hwrite]
  · have houtput (text : String) :
        Output.toOut text ++ .toErr (errorLine e.write) = ⟨text, errorLine e.write⟩ := by
      show Output.mk (text ++ "") ("" ++ errorLine e.write) = _
      rw [String.append_empty, String.empty_append]
    rw [h.run_some hvalues, run_keepHistory_of_error storage _ hcontents hwrite, houtput]

end Orderly

/-- The files of one folder in which there are no folders: a file that is to be in a folder of its
own cannot be written. -/
def oneFolder : Storage (String → Option String) where
  read? files path := files path
  write files path contents :=
    if '/' ∈ path.toList then .error ⟨2, "No such file or directory"⟩
    else .ok (Function.update files path (some contents))

theorem oneFolder_write_of_not_mem {path : String} (h : '/' ∉ path.toList)
    (files : String → Option String) (contents : String) :
    oneFolder.write files path contents = .ok (Function.update files path (some contents)) :=
  if_neg h

theorem oneFolder_write_of_mem {path : String} (h : '/' ∈ path.toList)
    (files : String → Option String) (contents : String) :
    oneFolder.write files path contents = .error ⟨2, "No such file or directory"⟩ :=
  if_pos h

/-- A list over three lines, one of them blank, a string over two lines that end in a carriage
return and a line feed, and a last line without an end. -/
def scattered : String := "(!\r\n\nfalse) \"a\\\r\nb\"\r\ntrue"

theorem kinds_scattered :
    (tokenize scattered).map Token.kind =
      [.openParen, .atom "!", .atom "false", .closeParen, .quoted "\"a\r\nb\"", .atom "true"] := by
  cbv

theorem orderly_scattered : Orderly scattered := by
  refine ⟨?_, ?_, ?_⟩
  · rw [kinds_scattered]
    decide
  · rw [kinds_scattered]
    rfl
  · cbv

theorem parseAll_scattered :
    parseAll scattered =
      [.list [.atom "!" ⟨1, 2⟩, .atom "false" ⟨5, 10⟩] ⟨0, 11⟩, .atom "\"a\r\nb\"" ⟨12, 19⟩,
        .atom "true" ⟨21, 25⟩] := by
  cbv

theorem adds_scattered : Adds none scattered := by
  refine ⟨"true", ?_, by decide, by simp⟩
  have hentries : entriesOf scattered = ["(!\r\n\nfalse) \"a\\\r\nb\"", "true"] := by cbv
  rw [hentries]
  simp

theorem kinds_one : (tokenize "1\n").map Token.kind = [.atom "1"] := by cbv

theorem orderly_one : Orderly "1\n" := by
  refine ⟨?_, ?_, by cbv⟩
  · rw [kinds_one]
    decide
  · rw [kinds_one]
    rfl

end Console
end FixpointLisp
