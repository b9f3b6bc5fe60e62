import Schemata.Text.Blank
import Schemata.Text.Casing
import Schemata.Text.SingleQuoted
import Schemata.Shorthand.Split

/-!
Arguments of shorthand methods, such as `User` in `belongsTo:User`. The kind of an argument is read off its spelling.
-/

namespace Schemata.Shorthand

open Schemata.Text

/-- The lexical category of an argument. -/
inductive ArgumentKind
  | string
  | bool
  | numeric
  /-- A capitalised word, such as a model reference. -/
  | classRef
  /-- A dotted path. -/
  | path
  | null
  deriving Repr, DecidableEq, Inhabited

namespace ArgumentKind

def all : List ArgumentKind :=
  [string, bool, numeric, classRef, path, null]

def name : ArgumentKind → String
  | string => "string"
  | bool => "bool"
  | numeric => "numeric"
  | classRef => "class"
  | path => "variable"
  | null => "null"

def ofName? (s : String) : Option ArgumentKind :=
  all.find? (·.name == s)

end ArgumentKind

structure Argument where
  kind : ArgumentKind
  value : String
  deriving Repr, DecidableEq, Inhabited

namespace Argument

def string (value : String) : Argument := ⟨.string, value⟩

def classRef (value : String) : Argument := ⟨.classRef, value⟩

def null : Argument := ⟨.null, ""⟩

def isNull (a : Argument) : Bool :=
  a.kind = .null

/-- The value, unless the argument is null. -/
def value? (a : Argument) : Option String :=
  if a.isNull then none else some a.value

/-- Digits, and perhaps a point with more digits after it. -/
def isUnsignedNumber (cs : List Char) : Bool :=
  let whole := cs.takeWhile isDecimalDigit
  !whole.isEmpty &&
    match cs.dropWhile isDecimalDigit with
    | [] => true
    | '.' :: places => !places.isEmpty && places.all isDecimalDigit
    | _ => false

/-- An optional minus sign before an unsigned number. -/
def isNumber : List Char → Bool
  | '-' :: rest => isUnsignedNumber rest
  | cs => isUnsignedNumber cs

/-- The text inside a pair of equal quotes at both ends. -/
def unquote : List Char → Option (List Char)
  | q :: rest =>
    match rest.getLast? with
    | some last => if isQuote q && last == q then some rest.dropLast else none
    | none => none
  | [] => none

/-- The kind of a trimmed spelling without quotes around it. -/
def kindOf (cs : List Char) : ArgumentKind :=
  let text := asciiLower (String.ofList cs)
  if cs.isEmpty || cs = ['~'] || text == "null" then .null
  else if text == "true" || text == "false" then .bool
  else if isNumber cs then .numeric
  else if cs.head?.any (·.isUpper) then .classRef
  else if cs.contains '.' then .path
  else .string

/-- Reads an argument from its spelling. -/
def ofChars (raw : List Char) : Argument :=
  let cs := trimChars raw
  match unquote cs with
  | some inner => string (String.ofList inner)
  | none =>
    match kindOf cs with
    | .null => null
    | .bool => ⟨.bool, asciiLower (String.ofList cs)⟩
    | kind => ⟨kind, String.ofList cs⟩

def parse (raw : String) : Argument :=
  ofChars raw.toList

/-- The argument as a literal of generated code. -/
def render (a : Argument) : String :=
  match a.kind with
  | .string => SingleQuoted.literal a.value
  | .classRef => a.value ++ "::class"
  | .null => "null"
  | .bool | .numeric | .path => a.value

end Argument

end Schemata.Shorthand
