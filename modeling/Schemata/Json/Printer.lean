import Schemata.Json.Basic
import Schemata.Decimal.Shortest

/-!
JSON text. The compact form has no white space; the indented form puts each item on a line of its own, two spaces deeper
than its container, and leaves empty containers on one line.
-/

namespace Schemata.Json

open Schemata.Decimal

def hexDigit (n : Nat) : Char :=
  if n < 10 then Char.ofNat (0x30 + n) else Char.ofNat (0x57 + n)

/-- A character inside a string: quotes, backslashes and control characters are escaped. -/
def escape (c : Char) : List Char :=
  if c = '"' then ['\\', '"']
  else if c = '\\' then ['\\', '\\']
  else if c = '\n' then ['\\', 'n']
  else if c = '\r' then ['\\', 'r']
  else if c = '\t' then ['\\', 't']
  else if c = '\x08' then ['\\', 'b']
  else if c = '\x0c' then ['\\', 'f']
  else if c.toNat < 0x20 then ['\\', 'u', '0', '0', hexDigit (c.toNat / 16), hexDigit (c.toNat % 16)]
  else [c]

/-- A string between its quotes. -/
def quoted (s : String) : List Char :=
  '"' :: s.toList.flatMap escape ++ ['"']

def decimal (n : Int) : List Char :=
  if 0 ≤ n then Nat.toDigits 10 n.toNat else '-' :: Nat.toDigits 10 (-n).toNat

/-- A double, whose exponent always has a sign; what is not finite has no number text. -/
def floatChars : Binary64 → List Char
  | .finite negative mantissa exponent => (renderFinite "+" negative mantissa exponent).toList
  | _ => "null".toList

mutual

/-- The compact form. -/
def compact : Json → List Char
  | null => "null".toList
  | bool b => (if b then "true" else "false").toList
  | int n => decimal n
  | float x => floatChars x
  | str s => quoted s
  | arr items => '[' :: compactItems items ++ [']']
  | obj fields => '{' :: compactFields fields ++ ['}']

def compactItems : List Json → List Char
  | [] => []
  | [x] => compact x
  | x :: rest => compact x ++ ',' :: compactItems rest

def compactFields : List (String × Json) → List Char
  | [] => []
  | [(k, v)] => quoted k ++ ':' :: compact v
  | (k, v) :: rest => quoted k ++ ':' :: compact v ++ ',' :: compactFields rest

end

/-- A new line at a depth. -/
def lineAt (depth : Nat) : List Char :=
  '\n' :: List.replicate (2 * depth) ' '

mutual

/-- The indented form of a value whose container stands at `depth`. -/
def indented (depth : Nat) : Json → List Char
  | arr [] => ['[', ']']
  | obj [] => ['{', '}']
  | arr items => '[' :: indentedItems (depth + 1) items ++ lineAt depth ++ [']']
  | obj fields => '{' :: indentedFields (depth + 1) fields ++ lineAt depth ++ ['}']
  | j => compact j

def indentedItems (depth : Nat) : List Json → List Char
  | [] => []
  | [x] => lineAt depth ++ indented depth x
  | x :: rest => lineAt depth ++ indented depth x ++ ',' :: indentedItems depth rest

def indentedFields (depth : Nat) : List (String × Json) → List Char
  | [] => []
  | [(k, v)] => lineAt depth ++ quoted k ++ ':' :: ' ' :: indented depth v
  | (k, v) :: rest => lineAt depth ++ quoted k ++ ':' :: ' ' :: indented depth v ++ ',' :: indentedFields depth rest

end

/-- The compact text of a value. -/
def render (j : Json) : String :=
  String.ofList (compact j)

/-- The indented text of a value. -/
def pretty (j : Json) : String :=
  String.ofList (indented 0 j)

end Schemata.Json
