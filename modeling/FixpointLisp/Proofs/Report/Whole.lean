import FixpointLisp.Eval.Report
import FixpointLisp.Proofs.Eval.Culprit
import FixpointLisp.Proofs.Expr.Location
import FixpointLisp.Proofs.Report.Lines

/-!
# Whole reports

A report is cut short when its span reaches past the text, or past a line. In a text of ASCII
characters bytes are characters, so the span of an error that a run raises cuts a piece out of the
text, in characters, and the report is whole.

* `ShowsLine` says how a line is shown, and `shows_shown` that a report does so.
* `Excerpt`: the rows that show the line a span starts in, the one it ends in, and a label.
  `framed` puts a message and a frame around them, which makes a report `Whole`.
* `whole_rows`: the report on a span inside of the text is whole.
* `EvalError.Describes` lists what a report says about an error, in its message and its label.
* `exists_cuts_of_nodeOf_parse`: each node of a program is read from a piece of its text, or there
  is nothing to read.
* `report_of_run`: reports on ASCII programs show the expression that an error is about.
-/

namespace FixpointLisp
namespace Report

open Text

variable {text : List Char} {digits : ℕ} {l : Line} {s : Span}

/-! ### How a line is shown -/

/-- What is shown for the character at index `n` of a line: a tab is filled up to the next multiple
of four, and every other blank is a space. -/
def columns (n : ℕ) (c : Char) : List Char :=
  if c = '\t' then List.replicate (4 - n % 4) ' ' else if isBlank c then [' '] else [c]

/-- Whether a text shows a line: all its characters in order, but for the blanks at its end. -/
def ShowsLine (cs : List Char) (shown : String) : Prop :=
  ∃ body blanks, cs = body ++ blanks ∧ (∀ c ∈ blanks, isBlank c) ∧
    (∀ c ∈ body.getLast?, ¬isBlank c) ∧ shown.toList = (body.mapIdx columns).flatten

theorem shownFrom_eq (n : ℕ) (cs : List Char) :
    Line.shownFrom n cs = (cs.mapIdx fun i => columns (n + i)).flatten := by
  induction cs generalizing n with
  | nil => rfl
  | cons c cs ih =>
    have hfirst : (if isBlank c then List.replicate (Line.charWidth n c) ' ' else [c]) =
        columns n c := by
      unfold columns Line.charWidth
      split_ifs with hblank htab htab
      · rfl
      · rfl
      · subst htab
        exact absurd (by decide) hblank
      · rfl
    rw [Line.shownFrom, hfirst, ih, List.mapIdx_cons, List.flatten_cons]
    simp only [Nat.add_zero, Nat.add_assoc, Nat.add_comm 1]

/-- No blank is left at the end of a text. -/
theorem not_isBlank_getLast?_trimEnd {cs : List Char} {c : Char} (hc : c ∈ (trimEnd cs).getLast?) :
    ¬isBlank c := by
  rw [trimEnd, List.getLast?_reverse] at hc
  have hhead := List.head?_dropWhile_not isBlank cs.reverse
  rw [Option.mem_def.1 hc] at hhead
  simpa using hhead

theorem shows_shown (l : Line) : ShowsLine l.text l.shown := by
  obtain ⟨blanks, hblanks, htext⟩ := exists_trimEnd_append l.text
  refine ⟨trimEnd l.text, blanks, htext, hblanks, fun c => not_isBlank_getLast?_trimEnd, ?_⟩
  rw [Line.shown, String.toList_ofList, shownFrom_eq, Line.body]
  simp only [Nat.zero_add]

/-! ### What is drawn -/

/-- Whether a text consists of the lines that a report draws, and of spaces. -/
def IsDrawn (s : String) : Prop := ∀ c ∈ s.toList, c ∈ [' ', '─', '│', '┬', '╰']

theorem IsDrawn.append {s t : String} (hs : IsDrawn s) (ht : IsDrawn t) : IsDrawn (s ++ t) := by
  intro c hc
  rw [String.toList_append] at hc
  exact (List.mem_append.1 hc).elim (hs c) (ht c)

theorem isDrawn_fill (n : ℕ) {c : Char} (hc : c ∈ [' ', '─', '│', '┬', '╰']) :
    IsDrawn (fill n c) := by
  intro d hd
  rw [fill, String.toList_ofList] at hd
  rwa [List.eq_of_mem_replicate hd]

theorem isDrawn_join {rows : List String} (h : ∀ s ∈ rows, IsDrawn s) :
    IsDrawn (String.join rows) := by
  induction rows with
  | nil => exact fun c hc => absurd hc List.not_mem_nil
  | cons s rows ih =>
    obtain ⟨hs, hrows⟩ := List.forall_mem_cons.1 h
    rw [String.join_cons]
    exact hs.append (ih hrows)

theorem isDrawn_underlineMark (l : Line) (s : Span) (col : ℕ) :
    IsDrawn (underlineMark l s col) := by
  have hspace := fun n => isDrawn_fill n (c := ' ') (by decide)
  have hline := fun n => isDrawn_fill n (c := '─') (by decide)
  have hfork : IsDrawn "┬" := by simp [IsDrawn]
  have hbar : IsDrawn "│" := by simp [IsDrawn]
  simp only [underlineMark]
  split_ifs
  exacts [hfork.append (hline _), hbar.append (hspace _), hline _, hspace _]

theorem isDrawn_armMark (l : Line) (s : Span) (col : ℕ) : IsDrawn (armMark l s col) := by
  have hcorner : IsDrawn "╰" := by simp [IsDrawn]
  unfold armMark
  split_ifs
  exacts [isDrawn_fill _ (by decide), hcorner.append (isDrawn_fill _ (by decide)),
    isDrawn_fill _ (by decide)]

theorem isDrawn_margin (digits : ℕ) : IsDrawn (margin digits) := isDrawn_fill _ (by decide)

/-! ### Rows that show a span -/

/-- A number of spaces. -/
def spaces (n : ℕ) : String := String.ofList (List.replicate n ' ')

/-- The number of a line, right-aligned, and the bar behind it. -/
def numbered (digits number : ℕ) : String :=
  " " ++ spaces (digits - number.repr.length) ++ number.repr ++ " │ "

/-- The rows that show the line `a` in which a span starts, the line `b` in which it ends, and a
label. Besides they hold nothing but drawings, and a row in place of the lines that are left out. -/
inductive Excerpt (digits : ℕ) (label : String) : Line → Line → List String → Prop
  | inline {l : Line} {shown underline arm : String} (hshown : ShowsLine l.text shown)
      (hunderline : IsDrawn underline) (harm : IsDrawn arm) :
      Excerpt digits label l l
        [numbered digits l.number ++ shown, underline, arm ++ " " ++ label]
  | multiline {a b : Line} {first last tail arm : String} (hlines : a.number < b.number)
      (hfirst : ShowsLine a.text first) (hlast : ShowsLine b.text last) (htail : IsDrawn tail)
      (harm : IsDrawn arm) :
      Excerpt digits label a b
        ([numbered digits a.number ++ "╭─▶ " ++ first] ++
          (if a.number + 1 < b.number then [spaces (digits + 2) ++ "┆ ┆   "] else []) ++
          [numbered digits b.number ++ "├─▶ " ++ last, tail, arm ++ " " ++ label])

/-- An excerpt with its frame and the message. The first row of the frame names the source text and
a line and column of it. -/
def framed (message : String) (digits line column : ℕ) (excerpt : List String) : List String :=
  ["Error: " ++ message,
    spaces (digits + 2) ++ "╭─[ REPL:" ++ line.repr ++ ":" ++ column.repr ++ " ]",
    spaces (digits + 2) ++ "│"] ++ excerpt ++
      [String.ofList (List.replicate (digits + 2) '─') ++ "╯"]

theorem framed_eq (message : String) (digits : ℕ) (l : Line) (pos : ℕ) (excerpt : List String) :
    ["Error: " ++ message, location digits l pos, margin digits ++ "│"] ++ excerpt ++
        [footer digits] =
      framed message digits l.number (pos - l.start + 1) excerpt := by
  have hlocation : location digits l pos = spaces (digits + 2) ++ "╭─[ REPL:" ++ l.number.repr ++
      ":" ++ (pos - l.start + 1).repr ++ " ]" := by
    simp [location, margin, fill, spaces, sourceName, ← String.toList_inj]
  rw [hlocation]
  rfl

/-- Whether a report on the positions from `first` to `last` of a text is whole: it names the line
and column of the first of them and shows the lines that hold the first and the last, and then the
label. -/
inductive Whole (text : List Char) (first last : ℕ) (message label : String) : List String → Prop
  | intro {a b : Line} {excerpt : List String} (hfirst : LineOf text first a)
      (hlast : LineOf text last b) (hexcerpt : Excerpt b.number.repr.length label a b excerpt) :
      Whole text first last message label
        (framed message b.number.repr.length a.number (first - a.start + 1) excerpt)

theorem excerpt_inlineRows (digits : ℕ) (label : String) (h : s.stop ≤ l.stop) :
    Excerpt digits label l l (inlineRows digits l s label) := by
  have hbar : IsDrawn (margin digits ++ "│ ") := (isDrawn_margin digits).append (by simp [IsDrawn])
  rw [inlineRows, if_neg (Nat.not_lt.2 h)]
  refine .inline (shows_shown l) (hbar.append (isDrawn_join ?_)) (hbar.append (isDrawn_join ?_))
  · simp only [List.forall_mem_map]
    exact fun col _ => isDrawn_underlineMark l s col
  · simp only [List.forall_mem_map]
    exact fun col _ => isDrawn_armMark l s col

theorem excerpt_multilineRows (digits : ℕ) (label : String) {size : ℕ} {a b : Line}
    (hlines : a.number < b.number) (h : s.stop ≤ size) :
    Excerpt digits label a b (multilineRows digits size a b s label) := by
  rw [multilineRows, if_neg (Nat.not_lt.2 h)]
  refine .multiline hlines (shows_shown a) (shows_shown b) ?_ ?_
  · exact ((isDrawn_margin digits).append (by simp [IsDrawn])).append (isDrawn_fill _ (by decide))
  · exact ((isDrawn_margin digits).append (by simp [IsDrawn])).append (isDrawn_fill _ (by decide))

theorem start_le_lastPos (s : Span) : s.start ≤ lastPos s := by
  unfold lastPos
  split_ifs <;> omega

/-- A line that holds the last position of a span inside of the text reaches to the end of the
span. -/
theorem LineOf.stop_le (h : LineOf text (lastPos s) l) (hs : s.Within text.length) :
    s.stop ≤ l.stop := by
  have hholds := h.holds
  obtain ⟨hle, hstop⟩ := hs
  unfold lastPos at hholds
  split_ifs at hholds <;> omega

/-- The report on a span inside of the text is whole. -/
theorem whole_rows (r : Report) (h : r.span.Within text.length) :
    Whole text r.span.start (lastPos r.span) r.message r.label (r.rows text) := by
  have hinside : ¬(text.length < r.span.start ∨ text.length < lastPos r.span) := by
    obtain ⟨hle, hstop⟩ := h
    unfold lastPos
    split_ifs <;> omega
  have ha := lineOf_lineAt text r.span.start
  have hb := lineOf_lineAt text (lastPos r.span)
  have hpos := start_le_lastPos r.span
  rw [rows, if_neg hinside]
  generalize lineAt text r.span.start = a at ha ⊢
  generalize lineAt text (lastPos r.span) = b at hb ⊢
  dsimp only
  rw [framed_eq]
  by_cases hnumber : a.number = b.number
  · -- The span starts and ends in the same line.
    have hb' := ha.of_number_eq hb hpos hnumber
    rw [if_pos hnumber, ← hnumber]
    exact .intro ha hb' (excerpt_inlineRows _ r.label (hb'.stop_le h))
  · have hlines := lt_of_le_of_ne (ha.number_mono hb hpos) hnumber
    rw [if_neg hnumber]
    exact .intro ha hb (excerpt_multilineRows _ r.label hlines h.2)

end Report

/-! ### The piece of a text that an error is about -/

open Text Report

/-- A node is the first expression of the piece of text that it is read from. -/
theorem exists_cuts_of_readFrom {source : String} {n : Expr} {us ts ws : List Token}
    (htokens : tokenize source = us ++ (ts ++ ws)) (hread : n.ReadFrom ts) :
    ∃ front slice back, n.span.Cuts source.toList front slice back ∧
      (parse (String.ofList slice)).mapSpan (.shift n.span.start) = n ∧ slice ≠ [] := by
  have horder : InOrder ts := by
    refine (inOrder_tokensFrom 0 source.toList).sublist ?_
    rw [← tokenize, htokens]
    exact (List.sublist_append_left _ _).trans (List.sublist_append_right _ _)
  obtain ⟨t, u, ht, hu, hspan⟩ := span_of_readFrom horder hread
  obtain ⟨front, slice, back, hcuts, hslice⟩ := exists_cut_tokensFrom htokens ht hu
  rw [← hspan] at hcuts
  have hstart : t.span.start = n.span.start := by rw [hspan]
  refine ⟨front, slice, back, hcuts, hstart ▸ parse_of_readFrom (hslice ▸ hread), ?_⟩
  rintro rfl
  rw [tokensFrom] at hslice
  simp [← hslice] at ht

theorem Expr.NodeOf.eq_null {n : Expr} {s : Span} (h : n.NodeOf (.null s)) : n = .null s := by
  cases h
  rfl

/-- Where there is nothing to read, the null atom is found behind the last character. -/
theorem cuts_null (source : String) :
    (Span.point source.utf8ByteSize).Cuts source.toList source.toList [] [] :=
  ⟨(List.append_nil _).symm, (byteLength_toList source).symm, (byteLength_toList source).symm⟩

theorem parse_empty_shift (pos : ℕ) :
    (parse (String.ofList [])).mapSpan (.shift pos) = .null (.point pos) := by
  rw [parse, tokenize, String.toList_ofList, tokensFrom]
  simp [firstOf, step, Expr.null, Expr.mapSpan, Span.shift, Span.point]

/-- A program is read from its first tokens, or it is the null atom and there is no expression. -/
theorem parse_cases (source : String) :
    (∃ run rest, tokenize source = run ++ rest ∧ (parse source).ReadFrom run) ∨
    parse source = .null (.point source.utf8ByteSize) ∧
      ∀ t ∈ (tokenize source).head?, t.kind = .closeParen := by
  unfold parse firstOf
  rcases step_cases (tokenize source) with
    ⟨e, run, rest, htokens, hread, hstep⟩ | ⟨s, rest, htokens, hstep⟩ | ⟨htokens, hstep⟩
  · rw [hstep]
    exact .inl ⟨run, rest, htokens, hread⟩
  · rw [hstep, htokens]
    exact .inr ⟨rfl, fun t ht => by cases ht; rfl⟩
  · rw [hstep, htokens]
    exact .inr ⟨rfl, fun t ht => by cases ht⟩

/-- Each node of a program is read from a piece of its text, cut out by its span. The piece is empty
only for the null atom at the end of a text without an expression. -/
theorem exists_cuts_of_nodeOf_parse {source : String} {n : Expr} (hn : n.NodeOf (parse source)) :
    ∃ front slice back, n.span.Cuts source.toList front slice back ∧
      (parse (String.ofList slice)).mapSpan (.shift n.span.start) = n ∧
      (slice = [] → back = [] ∧ ∀ t ∈ (tokenize source).head?, t.kind = .closeParen) := by
  rcases parse_cases source with ⟨run, rest, htokens, hread⟩ | ⟨hnull, hkind⟩
  · obtain ⟨us, ts, ws, rfl, hnode⟩ := exists_readFrom_of_nodeOf hn hread
    rw [List.append_assoc, List.append_assoc] at htokens
    obtain ⟨front, slice, back, hcuts, hparse, hne⟩ := exists_cuts_of_readFrom htokens hnode
    exact ⟨front, slice, back, hcuts, hparse, fun h => absurd h hne⟩
  · obtain rfl := (hnull ▸ hn).eq_null
    exact ⟨_, [], [], cuts_null source, parse_empty_shift _, fun _ => ⟨rfl, hkind⟩⟩

/-! ### Errors of ASCII programs -/

/-- Whether all characters of a text are ASCII characters. -/
def IsAscii (cs : List Char) : Prop := ∀ c ∈ cs, c.toNat < 128

theorem IsAscii.byteLength_eq {cs : List Char} (h : IsAscii cs) : byteLength cs = cs.length := by
  induction cs with
  | nil => rfl
  | cons c cs ih =>
    obtain ⟨hc, hcs⟩ := List.forall_mem_cons.1 h
    have hsize : c.utf8Size = 1 := by
      rw [Char.utf8Size_eq_one_iff, UInt32.le_iff_toNat_le]
      exact Nat.le_of_lt_succ hc
    rw [byteLength_cons, hsize, ih hcs, List.length_cons, Nat.add_comm]

/-- A span cuts as many characters as bytes out of an ASCII text. -/
theorem Span.Cuts.eq_of_isAscii {s : Span} {cs front slice back : List Char}
    (h : s.Cuts cs front slice back) (hcs : IsAscii cs) :
    s = ⟨front.length, front.length + slice.length⟩ := by
  have hfront : IsAscii front := fun c hc => hcs c (by simp [h.text, hc])
  have hslice : IsAscii slice := fun c hc => hcs c (by simp [h.text, hc])
  rw [← hfront.byteLength_eq, ← hslice.byteLength_eq, ← h.stop, ← h.start]

theorem lastPos_mk (pos n : ℕ) : lastPos ⟨pos, pos + n⟩ = pos + (n - 1) := by
  unfold lastPos
  split_ifs <;> simp only at * <;> omega

/-- What a report says about a cause: its message and its label. -/
inductive EvalError.Describes : Cause → String → String → Prop
  | unbound (name : String) :
      Describes (.unbound name) ("Unbound identifier `" ++ name ++ "`")
        "This atom resolves to nothing in the current scope"
  | tooManyArguments (callee : Closure) (given : ℕ) :
      Describes (.tooManyArguments callee given) "Mismatched argument count"
        (callee.write ++ " accepts " ++ callee.arity.repr ++ " argument(s), given " ++ given.repr)
  | wrongArgumentCount (callee : Builtin) (wanted given : ℕ) :
      Describes (.wrongArgumentCount callee wanted given) "Mismatched argument count"
        ("'" ++ callee.name ++ "' takes " ++ wanted.repr ++ " argument(s), given " ++ given.repr)
  | typeMismatch (operator : Builtin) {expected : Expectation} {words : String} (found : Value)
      (hwords : (expected, words) ∈
        [(.number, "number"), (.boolean, "boolean"), (.parameterName, "a parameter name"),
          (.addend, "a number, string, boolean or symbol"),
          (.nonFunction, "a non-function value")]) :
      Describes (.typeMismatch operator expected found)
        ("Type mismatch in `" ++ operator.name ++ "`")
        ("Expected " ++ words ++ ", found " ++ found.typeName ++ " " ++ found.write)
  | lambdaShape (given : ℕ) :
      Describes (.malformed (.lambdaShape given)) "Malformed `fun`"
        ("syntax is (fun (params) body), given " ++ given.repr ++ " argument(s)")
  | bindingShape (given : ℕ) :
      Describes (.malformed (.bindingShape given)) "Malformed `let`"
        ("syntax is (let ((name value) ...) body), given " ++ given.repr ++ " argument(s)")
  | bindingsNotList (given : Expr) :
      Describes (.malformed (.bindingsNotList given)) "Malformed `let`"
        ("bindings must be a list of lists, given " ++ given.write)
  | bindingNotPair (given : Expr) :
      Describes (.malformed (.bindingNotPair given)) "Malformed `let`"
        ("each binding must be a name bound to a value, given " ++ given.write)
  | branchShape (given : ℕ) :
      Describes (.malformed (.branchShape given)) "Malformed `if`"
        ("syntax is (if cond then else), given " ++ given.repr ++ " argument(s)")
  | notCallable (value : Value) :
      Describes (.notCallable value) ("Not callable: " ++ value.write)
        ("A " ++ value.typeName ++ " cannot accept arguments")
  | emptyApplication :
      Describes .emptyApplication "Empty expression" "There is no operator to apply"

/-- A name behind some words and between grave accents. -/
theorem append_tick (words name : String) :
    words ++ EvalError.tick name = words ++ "`" ++ name ++ "`" := by
  rw [EvalError.tick, ← String.append_assoc, ← String.append_assoc]

theorem countText_eq (callee verb : String) (wanted given : ℕ) :
    Cause.countText callee verb wanted given =
      callee ++ (" " ++ verb ++ " ") ++ wanted.repr ++ " argument(s), given " ++ given.repr := by
  rw [Cause.countText, ← String.append_assoc, ← String.append_assoc]

theorem mark_append (name words : String) :
    Cause.mark name ++ words = "'" ++ name ++ ("'" ++ words) := by
  rw [Cause.mark, String.append_assoc]

theorem EvalError.describes (cause : Cause) :
    Describes cause (headline cause) (label cause) := by
  cases cause with
  | unbound name =>
    have hmessage : headline (.unbound name) = "Unbound identifier `" ++ name ++ "`" :=
      append_tick "Unbound identifier " name
    rw [hmessage]
    exact .unbound name
  | tooManyArguments callee given =>
    have hlabel : label (.tooManyArguments callee given) =
        callee.write ++ " accepts " ++ callee.arity.repr ++ " argument(s), given " ++
          given.repr := countText_eq callee.write "accepts" callee.arity given
    rw [hlabel]
    exact .tooManyArguments callee given
  | wrongArgumentCount callee wanted given =>
    have hlabel : label (.wrongArgumentCount callee wanted given) =
        "'" ++ callee.name ++ "' takes " ++ wanted.repr ++ " argument(s), given " ++
          given.repr := by
      have hcount := countText_eq (Cause.mark callee.name) "takes" wanted given
      rw [mark_append] at hcount
      exact hcount
    rw [hlabel]
    exact .wrongArgumentCount callee wanted given
  | typeMismatch operator expected found =>
    have hmessage : headline (.typeMismatch operator expected found) =
        "Type mismatch in `" ++ operator.name ++ "`" :=
      append_tick "Type mismatch in " operator.name
    rw [hmessage]
    refine .typeMismatch operator found ?_
    cases expected <;> decide
  | malformed fault =>
    cases fault with
    | lambdaShape given => exact .lambdaShape given
    | bindingShape given => exact .bindingShape given
    | bindingsNotList given => exact .bindingsNotList given
    | bindingNotPair given => exact .bindingNotPair given
    | branchShape given => exact .branchShape given
  | notCallable value => exact .notCallable value
  | emptyApplication => exact .emptyApplication

/-- Whether an error is about the piece of an ASCII text between `front` and `back`, and the report
on it shows this piece. -/
structure EvalError.ReportedAt (err : EvalError) (source : String) (front slice back : List Char) :
    Prop where
  node : err.expr.NodeOf (parse source)
  text : source.toList = front ++ (slice ++ back)
  span : err.expr.span = ⟨front.length, front.length + slice.length⟩
  /-- The node is the first expression of the piece, moved to where the piece stands. -/
  reads : (parse (String.ofList slice)).mapSpan (.shift front.length) = err.expr
  /-- The piece is empty only at the end of a text without an expression. -/
  empty : slice = [] → back = [] ∧ ∀ t ∈ (tokenize source).head?, t.kind = .closeParen
  whole : ∃ message label rows, EvalError.Describes err.cause message label ∧
    Whole source.toList front.length (front.length + (slice.length - 1)) message label rows ∧
    err.report source = String.join (rows.map fun row => row ++ "\n")

/-- **Reports on ASCII programs show the culprit.** When the run of an ASCII program fails, the
error is about a node that is read from a piece of the text, or about the null atom at the end of a
text without an expression. The report on it is whole: it names the line and column of the first
character of the piece, shows the line that holds it and the one that holds the last character,
and then the label. -/
theorem report_of_run {source : String} (hascii : IsAscii source.toList) {depth : ℕ}
    {err : EvalError} (h : run depth source Environment.global = .failed err) :
    ∃ front slice back, err.ReportedAt source front slice back := by
  have hnode : err.expr.NodeOf (parse source) := nodeOf_of_eval (.root _) (global_nodes _) h
  obtain ⟨front, slice, back, hcuts, hreads, hempty⟩ := exists_cuts_of_nodeOf_parse hnode
  have hspan := hcuts.eq_of_isAscii hascii
  have hwithin : err.toReport.span.Within source.toList.length := by
    rw [← hascii.byteLength_eq, byteLength_toList]
    exact span_of_parse source _ hnode
  have hwhole := whole_rows err.toReport hwithin
  rw [show err.toReport.span = _ from hspan, lastPos_mk] at hwhole
  rw [hspan] at hreads
  exact ⟨front, slice, back, hnode, hcuts.text, hspan, hreads, hempty, _, _, _,
    EvalError.describes err.cause, hwhole, rfl⟩

/-- The expression `(+ 1 (- y 2))`, divided over two lines, with a tab on the second one. -/
def tabbed : Expr :=
  .list
    [.atom "+" ⟨1, 2⟩, .atom "1" ⟨3, 4⟩,
      .list [.atom "-" ⟨8, 9⟩, .atom "y" ⟨10, 11⟩, .atom "2" ⟨12, 13⟩] ⟨7, 14⟩] ⟨0, 15⟩

theorem parse_tabbed : parse "(+ 1\r\n\t(- y 2))" = tabbed := by cbv

/-- The expression `(if 1 2)`, divided over two lines. -/
def halved : Expr := .list [.atom "if" ⟨1, 3⟩, .atom "1" ⟨4, 5⟩, .atom "2" ⟨6, 7⟩] ⟨0, 8⟩

theorem parse_halved : parse "(if 1\n2)" = halved := by cbv

theorem parse_lineFeed : parse "\n" = .null (.point 1) := by cbv

/-- A name without a meaning in the second line of a program, a form over two lines, and a text
without an expression. -/
theorem report_of_run_lines :
    (∃ err, IsAscii "(+ 1\r\n\t(- y 2))".toList ∧
      run 4 "(+ 1\r\n\t(- y 2))" Environment.global = .failed err ∧
      ∃ front slice back, err.ReportedAt "(+ 1\r\n\t(- y 2))" front slice back) ∧
    (∃ err, IsAscii "(if 1\n2)".toList ∧
      run 4 "(if 1\n2)" Environment.global = .failed err ∧
      ∃ front slice back, err.ReportedAt "(if 1\n2)" front slice back) ∧
    ∃ err, IsAscii "\n".toList ∧ run 4 "\n" Environment.global = .failed err ∧
      ∃ front slice back, err.ReportedAt "\n" front slice back := by
  have htabbed : run 4 "(+ 1\r\n\t(- y 2))" Environment.global =
      .failed ⟨.unbound "y", .atom "y" ⟨10, 11⟩, Environment.global⟩ := by
    rw [run, parse_tabbed]
    rfl
  have hhalved : run 4 "(if 1\n2)" Environment.global =
      .failed ⟨.malformed (.branchShape 2), halved, Environment.global⟩ := by
    rw [run, parse_halved]
    rfl
  have hnull : run 4 "\n" Environment.global =
      .failed ⟨.unbound "NULL", .null (.point 1), Environment.global⟩ := by
    rw [run, parse_lineFeed]
    rfl
  have hascii : IsAscii "(+ 1\r\n\t(- y 2))".toList ∧ IsAscii "(if 1\n2)".toList ∧
      IsAscii "\n".toList := by
    simp [IsAscii]
  exact ⟨⟨_, hascii.1, htabbed, report_of_run hascii.1 htabbed⟩,
    ⟨_, hascii.2.1, hhalved, report_of_run hascii.2.1 hhalved⟩,
    ⟨_, hascii.2.2, hnull, report_of_run hascii.2.2 hnull⟩⟩

end FixpointLisp
