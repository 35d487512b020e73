import FixpointLisp.Text.Quoted
import FixpointLisp.Value.Basic

/-!
# Dumps of values

`Value.inspect` shows how a value is built: its type, the bodies of closures as trees with spans,
and texts in quotes. The environments that closures capture are left out.
-/

namespace FixpointLisp

/-- A record with a name and the given fields. -/
def record (name fields : String) : String := name ++ " \x7b " ++ fields ++ " \x7d"

/-- A span in a dump. -/
def Span.inspect (s : Span) : String :=
  record "Span" ("start: " ++ s.start.repr ++ ", end: " ++ s.stop.repr)

mutual

/-- An expression in a dump. -/
def Expr.inspect : Expr → String
  | .atom text s => record "Expr" ("kind: Atom(" ++ Text.quoted text ++ "), span: " ++ s.inspect)
  | .list children s =>
    record "Expr" ("kind: SubExpr([" ++ Expr.inspectAll children ++ "]), span: " ++ s.inspect)

/-- Several expressions in a dump. -/
def Expr.inspectAll : List Expr → String
  | [] => ""
  | [e] => e.inspect
  | e :: es => e.inspect ++ ", " ++ Expr.inspectAll es

end

/-- A parameter in a dump. -/
def Closure.inspectParam : Option String → String
  | some p => "Some(" ++ Text.quoted p ++ ")"
  | none => "None"

/-- A closure in a dump. -/
def Closure.inspect : Closure → String
  | .last p _ body =>
    record "Closure" ("param: " ++ inspectParam p ++ ", body: Expr(" ++ body.inspect ++ "), ..")
  | .link p _ next =>
    record "Closure" ("param: " ++ inspectParam p ++ ", body: Curried(" ++ next.inspect ++ "), ..")

/-- A value in a dump. -/
def Value.inspect : Value → String
  | .number x => "Number(" ++ Number.inspect x ++ ")"
  | .boolean b => "Boolean(" ++ Value.boolText b ++ ")"
  | .string s => "String(" ++ Text.quoted s ++ ")"
  | .symbol s => "Symbol(" ++ Text.quoted s ++ ")"
  | .builtin b => "Builtin(Builtin(" ++ b.name ++ "))"
  | .closure c => "Closure(" ++ c.inspect ++ ")"

end FixpointLisp
