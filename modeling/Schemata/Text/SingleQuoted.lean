/-!
Text in single quotes: how a value is written between quotes in generated code.
-/

namespace Schemata.Text.SingleQuoted

/-- The body of a literal: a quote inside the value gets a backslash. -/
def escape : List Char → List Char
  | [] => []
  | c :: rest => if c = '\'' then '\\' :: '\'' :: escape rest else c :: escape rest

/-- The literal of a value, quotes included. -/
def literal (s : String) : String :=
  "'" ++ String.ofList (escape s.toList) ++ "'"

end Schemata.Text.SingleQuoted
