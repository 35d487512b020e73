import FixpointLisp.Proofs.Eval.Settled
import FixpointLisp.Proofs.Expr.Printing
import Mathlib.Tactic

/-!
# Literals of strings

Every string can be written in a program: its text is put between double quotes, with a backslash in
front of each quote and each backslash. The lexer takes these backslashes off again, and from then
on the text stands between its outer quotes without any escape. So it is read and settled as often
as need be without its inside being looked at.

* `escape` puts the backslashes in, and `literal` is the whole literal.
* `cutQuoted_escape`, `unescape_escape`: a literal ends where it was made to end, and its escapes
  are undone.
* `kinds_literal_append`: so it is one token, whatever follows it.
* `eval_quote`: the token evaluates to the string as it settles in the environment.
  `Environment.LeavesQuotes.reinterpret_string`: where no quoted text is bound, as in the global
  environment, it stays as it is.
* `run_literals`: a literal evaluates to its string settled, and a sum of literals in the global
  environment to the strings joined.
-/

namespace FixpointLisp

open Text

/-- A text with a backslash in front of each quote and each backslash. -/
def escape (cs : List Char) : List Char :=
  cs.flatMap fun c => if c = '"' ∨ c = '\\' then ['\\', c] else [c]

/-- The literal of a string. -/
def literal (s : String) : String := Value.quote (String.ofList (escape s.toList))

/-- A sum of literals, `(+ literal ...)`. -/
def literalSum (cs : List String) : String :=
  "(+" ++ String.join (cs.map fun c => " " ++ literal c) ++ ")"

example : literalSum ["(\"1", "\\"] = "(+ \"(\\\"1\" \"\\\\\")" := by decide

theorem escape_cons (c : Char) (cs : List Char) :
    escape (c :: cs) = (if c = '"' ∨ c = '\\' then ['\\', c] else [c]) ++ escape cs := rfl

theorem toList_literal (s : String) :
    (literal s).toList = '"' :: (escape s.toList ++ ['"']) := by
  rw [literal, Value.toList_quote, String.toList_ofList]

/-! ### One token -/

/-- The quote behind an escaped text is the one that closes it. -/
theorem cutQuoted_escape (cs rest : List Char) :
    cutQuoted (escape cs ++ '"' :: rest) = (escape cs ++ ['"'], rest) := by
  induction cs with
  | nil => rfl
  | cons c cs ih =>
    rw [escape_cons]
    split_ifs with hc
    · simp [cutQuoted, ih]
    · obtain ⟨hquote, hescape⟩ := not_or.1 hc
      simp [cutQuoted_cons hquote hescape, ih]

theorem hasClosingQuote_escape (cs : List Char) : hasClosingQuote (escape cs ++ ['"']) := by
  induction cs with
  | nil => rfl
  | cons c cs ih =>
    rw [escape_cons]
    split_ifs with hc
    · exact ih
    · obtain ⟨hquote, hescape⟩ := not_or.1 hc
      rw [List.singleton_append, List.cons_append, hasClosingQuote_cons hquote hescape, ih]

theorem unescape_escape (cs rest : List Char) :
    unescape (escape cs ++ rest) = cs ++ unescape rest := by
  induction cs with
  | nil => rfl
  | cons c cs ih =>
    rw [escape_cons]
    split_ifs with hc
    · simp [unescape, ih]
    · obtain ⟨-, hescape⟩ := not_or.1 hc
      simp [unescape, hescape, ih]

theorem ofLexeme_literal (s : String) :
    TokenKind.ofLexeme (literal s).toList = .quoted (Value.quote s) := by
  have htext : unescape ('"' :: (escape s.toList ++ ['"'])) = '"' :: (s.toList ++ ['"']) := by
    simp [unescape, unescape_escape]
  rw [toList_literal]
  show TokenKind.quoted (String.ofList (unescape _)) = _
  rw [htext, ← Value.toList_quote, String.ofList_toList]

theorem isUnclosed_literal (s : String) : isUnclosed (literal s).toList = false := by
  rw [toList_literal, isUnclosed, hasClosingQuote_escape, Bool.not_true]

/-- A literal is one lexeme, whatever follows it. -/
theorem lexemes_literal_append (s : String) (rest : List Char) :
    lexemes ((literal s).toList ++ rest) = (literal s).toList :: lexemes rest := by
  have hcut : cutLexeme '"' (escape s.toList ++ ('"' :: rest)) = ((literal s).toList, rest) := by
    rw [toList_literal]
    simp [cutLexeme, cutQuoted_escape]
  rw [toList_literal, List.cons_append, List.append_assoc, List.singleton_append,
    lexemes_cons not_blank_quote, hcut, toList_literal]

theorem lexemes_literals_append (cs : List String) (rest : List Char) :
    lexemes ((cs.flatMap fun c => ' ' :: (literal c).toList) ++ rest) =
      (cs.map fun c => (literal c).toList) ++ lexemes rest := by
  induction cs with
  | nil => rfl
  | cons c cs ih =>
    rw [List.flatMap_cons, List.append_assoc, List.cons_append,
      lexemes_cons_of_blank (by decide), lexemes_literal_append, ih, List.map_cons,
      List.cons_append]

theorem toList_literalSum (cs : List String) :
    (literalSum cs).toList =
      '(' :: '+' :: ((cs.flatMap fun c => ' ' :: (literal c).toList) ++ [')']) := by
  simp [literalSum, List.flatMap_map]

/-- The lexemes of a sum of literals are its brackets, the plus sign and the literals. -/
theorem lexemes_literalSum (cs : List String) :
    lexemes (literalSum cs).toList =
      ['('] :: ['+'] :: ((cs.map fun c => (literal c).toList) ++ [[')']]) := by
  have hplus : cutLexeme '+' ((cs.flatMap fun c => ' ' :: (literal c).toList) ++ [')']) =
      (['+'], (cs.flatMap fun c => ' ' :: (literal c).toList) ++ [')']) := by
    cases cs <;> rfl
  have hclose : lexemes [')'] = [[')']] := by
    rw [lexemes_cons (by decide)]
    simp [cutLexeme]
  rw [toList_literalSum, lexemes_cons (by decide)]
  show ['('] :: lexemes ('+' :: _) = _
  rw [lexemes_cons (by decide), hplus, lexemes_literals_append, hclose]

theorem kinds_literalSum (cs : List String) :
    kinds (literalSum cs).toList =
      .openParen :: .atom "+" :: ((cs.map fun c => .quoted (Value.quote c)) ++ [.closeParen]) := by
  have hliterals : (cs.map fun c => (literal c).toList).map TokenKind.ofLexeme =
      cs.map fun c => .quoted (Value.quote c) := by
    simp only [List.map_map, Function.comp_def, ofLexeme_literal]
  rw [kinds, lexemes_literalSum, List.map_cons, List.map_cons, List.map_append, hliterals]
  rfl

/-! ### One atom -/

theorem spelled_literal (s : String) :
    Spelled (literal s).toList (Expr.atom (Value.quote s) (.point 0)).spelling := by
  have hlexemes : lexemes (literal s).toList = [(literal s).toList] := by
    simpa using lexemes_literal_append s []
  constructor
  · rw [kinds, hlexemes, List.map_singleton, ofLexeme_literal]
    rfl
  · rw [endsInString, hlexemes, List.getLast?_singleton, Option.any_some, isUnclosed_literal]

/-- A list of atoms with the given texts. -/
def atomList (texts : List String) : Expr :=
  .list (texts.map fun text => .atom text (.point 0)) (.point 0)

theorem spelling_atomList (texts : List String) :
    (atomList texts).spelling = .openParen :: (texts.map .atom ++ [.closeParen]) := by
  have hatoms : Expr.spellingAll (texts.map fun text => .atom text (.point 0)) =
      texts.map .atom := by
    induction texts with
    | nil => rfl
    | cons text texts ih => simp [Expr.spellingAll, ih]
  rw [atomList, Expr.spelling_list, hatoms]

/-- Up to spans, a list of atoms can only be the same as another one. -/
theorem exists_of_same_atomList {e : Expr} {texts : List String} (h : e.same (atomList texts)) :
    ∃ atoms s, e = .list atoms s ∧
      List.Forall₂ (fun e text => ∃ s, e = .atom text s) atoms texts := by
  cases e with
  | atom text s => cases h
  | list es s =>
    refine ⟨es, s, rfl, ?_⟩
    have hall := Expr.sameAll_iff_forall₂.1 h
    rw [List.forall₂_map_right_iff] at hall
    refine hall.imp fun e text hsame => ?_
    cases e with
    | atom text' s' => exact ⟨s', by rw [eq_of_beq hsame]⟩
    | list es s' => cases hsame

theorem spelled_literalSum (cs : List String) :
    Spelled (literalSum cs).toList (atomList ("+" :: cs.map Value.quote)).spelling := by
  constructor
  · rw [spelling_atomList, kinds_literalSum]
    simp [TokenKind.asAtom, Function.comp_def]
  · rw [endsInString, lexemes_literalSum, ← List.cons_append, ← List.cons_append,
      List.getLast?_concat]
    rfl

/-- A sum of literals is parsed as one list, of the plus sign and the quoted strings. -/
theorem exists_parse_literalSum (cs : List String) :
    ∃ atoms s, parseAll (literalSum cs) = [.list atoms s] ∧
      parse (literalSum cs) = .list atoms s ∧
      List.Forall₂ (fun e text => ∃ s, e = .atom text s) atoms ("+" :: cs.map Value.quote) := by
  have hspelled := spelled_literalSum cs
  have hhead := hspelled.head_parseAll
  rw [← Expr.spellingAll_singleton] at hspelled
  have hall := Expr.sameAll_iff_forall₂.1 hspelled.parseAll_same
  generalize hforest : parseAll (literalSum cs) = forest at hall hhead
  cases hall with
  | cons hsame hnil =>
    cases hnil
    obtain ⟨atoms, s, rfl, hatoms⟩ := exists_of_same_atomList hsame
    exact ⟨atoms, s, rfl, (Option.some.inj hhead).symm, hatoms⟩

theorem exists_parse_literal (c : String) :
    ∃ s, parse (literal c) = .atom (Value.quote c) s := by
  have hsame := (spelled_literal c).parse_same
  generalize parse (literal c) = e at hsame
  cases e with
  | atom text s => exact ⟨s, by rw [eq_of_beq hsame]⟩
  | list es s => cases hsame

/-! ### The string itself -/

/-- Whether no text that starts with a quote is bound. -/
def Environment.LeavesQuotes (E : Environment) : Prop :=
  ∀ text : String, text.toList.head? = some '"' → E.lookup text = none

/-- No builtin has a name that starts with a quote. -/
theorem leavesQuotes_global : Environment.global.LeavesQuotes := by
  intro text htext
  have hnone : (Builtin.all.map fun b => (b.name, Value.builtin b)).reverse.lookup text = none := by
    rw [List.lookup_eq_none_iff]
    intro p hp
    obtain ⟨b, -, rfl⟩ := List.mem_map.1 (List.mem_reverse.1 hp)
    refine bne_iff_ne.2 fun hname => ?_
    rw [hname] at htext
    revert htext
    cases b <;> decide
  rw [Environment.global, Environment.lookup_extend, hnone]
  rfl

theorem Environment.LeavesQuotes.bind {E : Environment} {name : String} (h : E.LeavesQuotes)
    (hname : name.toList.head? ≠ some '"') (v : Value) : (E.bind name v).LeavesQuotes := by
  intro text htext
  have hne : name ≠ text := fun heq => hname (heq ▸ htext)
  rw [Environment.lookup_bind, if_neg hne, h text htext]

/-- Where no text that starts with a quote is bound, a string is settled. -/
theorem Environment.LeavesQuotes.reinterpret_string {E : Environment} (h : E.LeavesQuotes)
    (c : String) : E.reinterpret (.string c) = .string c := by
  have hlookup : E.lookup (Value.quote c) = none :=
    h _ (by rw [Value.toList_quote, List.head?_cons])
  have hmeaning : E.meaning? (Value.quote c) = some (.string c) := by
    rw [Environment.meaning?_of_unbound hlookup, Value.ofLiteral?_quote]
  exact Environment.reinterpret_of_text? hmeaning rfl

/-- The literal of a string evaluates to the string settled. -/
theorem eval_quote (c : String) (span : Span) (E : Environment) (mode : Resolution) (depth : ℕ) :
    eval (depth + 1) (.atom (Value.quote c) span) E mode = .done (E.reinterpret (.string c)) := by
  obtain ⟨v, hv⟩ := E.exists_resolve?_of_literal (Value.ofLiteral?_quote c)
  rw [eval_succ, evalStep, resolveAtom_of_resolve? hv]
  simp [Environment.reinterpret, Value.text?, hv]

theorem total_string {cs : List String} (hcs : cs ≠ []) :
    Value.total (cs.map .string) = .string (String.join cs) := by
  obtain ⟨c, cs, rfl⟩ := List.exists_cons_of_ne_nil hcs
  simp [Value.total, Value.isString, Value.content, Function.comp_def]

/-- Literals that are added up in the global environment give their strings. -/
theorem mapM_nonFunction_quotes {atoms : List Expr} {cs : List String}
    (h : List.Forall₂ (fun e text => ∃ s, e = .atom text s) atoms (cs.map Value.quote))
    (form : Expr) (depth : ℕ) :
    atoms.mapM (CallSite.nonFunction ⟨.add, form, .global, .strict⟩ (eval (depth + 1)) .addend) =
      .done (cs.map .string) := by
  rw [Outcome.mapM_eq_done_iff, List.forall₂_map_right_iff]
  rw [List.forall₂_map_right_iff] at h
  refine h.imp fun e c he => ?_
  obtain ⟨s, rfl⟩ := he
  rw [CallSite.nonFunction, CallSite.operand, eval_quote,
    leavesQuotes_global.reinterpret_string]
  rfl

/-- **Every string has a literal, and it stays inert.** A sum of one or more literals has three
tokens more than there are literals, its brackets and the plus sign. It is parsed as one list of
atoms, which are the plus sign and the strings between quotes, and it evaluates in the global
environment to the strings joined to one. In every environment, a literal evaluates to its string
settled there. -/
theorem run_literals :
    (∀ (c : String) (cs : List String),
      (tokenize (literalSum (c :: cs))).map Token.kind =
          .openParen :: .atom "+" ::
            (((c :: cs).map fun c => .quoted (Value.quote c)) ++ [.closeParen]) ∧
        (tokenize (literalSum (c :: cs))).length = (c :: cs).length + 3 ∧
        (∃ atoms s, parseAll (literalSum (c :: cs)) = [.list atoms s] ∧
          parse (literalSum (c :: cs)) = .list atoms s ∧
          List.Forall₂ (fun e text => ∃ s, e = .atom text s) atoms
            ("+" :: (c :: cs).map Value.quote)) ∧
        ∀ depth, run (depth + 2) (literalSum (c :: cs)) .global =
          .done (.string (String.join (c :: cs)))) ∧
    ∀ (c : String) (E : Environment) (depth : ℕ),
      run (depth + 1) (literal c) E = .done (E.reinterpret (.string c)) := by
  refine ⟨fun c cs => ?_, fun c E depth => ?_⟩
  · generalize hne : c :: cs = texts
    have hkinds := (kinds_tokenize (literalSum texts)).trans (kinds_literalSum texts)
    obtain ⟨atoms, s, hall, hparse, hatoms⟩ := exists_parse_literalSum texts
    refine ⟨hkinds, ?_, ⟨atoms, s, hall, hparse, hatoms⟩, fun depth => ?_⟩
    · simpa using congrArg List.length hkinds
    · cases hatoms with
      | @cons plus _ atoms _ hplus hatoms =>
        obtain ⟨s', rfl⟩ := hplus
        have hplus : eval (depth + 1) (.atom "+" s') .global .strict = .done (.builtin .add) := rfl
        rw [run, hparse, eval_succ, evalStep, hplus, Outcome.done_bind, call, CallSite.operate]
        simp only [mapM_nonFunction_quotes hatoms, Outcome.done_bind]
        rw [total_string (by simp [← hne]), leavesQuotes_global.reinterpret_string]
  · obtain ⟨s, hparse⟩ := exists_parse_literal c
    rw [run, hparse, eval_quote]

end FixpointLisp
