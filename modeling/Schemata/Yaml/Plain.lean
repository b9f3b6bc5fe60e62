import Schemata.Yaml.Basic
import Schemata.Decimal.Shortest

/-!
The type of a plain scalar, read off its text: null, a boolean, a whole number, a double, or else a text. Also the way back,
the text of a number.
-/

namespace Schemata.Yaml

open Schemata.Decimal

def isNullText (s : String) : Bool :=
  ["null", "Null", "NULL", "~"].contains s

def boolText? (s : String) : Option Bool :=
  if ["true", "True", "TRUE"].contains s then some true
  else if ["false", "False", "FALSE"].contains s then some false
  else none

/-- The value of a digit in bases up to sixteen. -/
def digit? (base : Nat) (c : Char) : Option Nat :=
  let n :=
    if '0' ≤ c ∧ c ≤ '9' then c.toNat - 0x30
    else if 'a' ≤ c ∧ c ≤ 'f' then c.toNat - 0x57
    else if 'A' ≤ c ∧ c ≤ 'F' then c.toNat - 0x37
    else base
  if n < base then some n else none

/-- The number written by one or more digits. -/
def digits? (base : Nat) (cs : List Char) : Option Nat :=
  if cs.isEmpty then none
  else cs.foldlM (fun n c => (digit? base c).map (n * base + ·)) 0

def dropSign (signs : List Char) : List Char → List Char
  | c :: rest => if signs.contains c then rest else c :: rest
  | [] => []

/-- A leading zero before more digits: such a text is no number. -/
def isPaddedNumber (cs : List Char) : Bool :=
  match dropSign ['-', '+'] cs with
  | '0' :: rest => !rest.isEmpty && rest.all Char.isDigit
  | _ => false

/-- A number in base 16, 8 or 2, marked by `0x`, `0o` or `0b`. -/
def marked? : List Char → Option Nat
  | '0' :: 'x' :: rest => digits? 16 rest
  | '0' :: 'o' :: rest => digits? 8 rest
  | '0' :: 'b' :: rest => digits? 2 rest
  | _ => none

/-- A whole number of at most 128 bits. -/
def whole? (cs : List Char) : Option Int :=
  let unsigned := dropSign ['+'] cs
  match (marked? unsigned).orElse fun _ => if isPaddedNumber cs then none else digits? 10 unsigned with
  | some n => if n < twoTo 128 then some n else none
  | none =>
    match cs with
    | '-' :: rest =>
      match (marked? rest).orElse fun _ => if isPaddedNumber cs then none else digits? 10 rest with
      | some n => if n ≤ twoTo 127 then some (-(n : Int)) else none
      | none => none
    | _ => none

/-- Whether a whole number has 64 bits, signed or unsigned. -/
def fits (n : Int) : Bool :=
  -(twoTo 63 : Int) ≤ n && n < twoTo 64

/-- An exponent, with its letter, at the end of a decimal. -/
def exponent? : List Char → Option Int
  | [] => some 0
  | c :: rest =>
    if c = 'e' ∨ c = 'E' then
      match rest with
      | '-' :: ds => (digits? 10 ds).map fun n => -(n : Int)
      | '+' :: ds => (digits? 10 ds).map fun n => (n : Int)
      | ds => (digits? 10 ds).map fun n => (n : Int)
    else none

/-- A decimal with a digit before or after its point. -/
def decimal? (negative : Bool) (cs : List Char) : Option Binary64 :=
  let whole := cs.takeWhile Char.isDigit
  let (places, rest) := match cs.dropWhile Char.isDigit with
    | '.' :: rest => (rest.takeWhile Char.isDigit, rest.dropWhile Char.isDigit)
    | rest => ([], rest)
  if whole.isEmpty && places.isEmpty then none
  else do
    let exponent ← exponent? rest
    let digits ← digits? 10 (whole ++ places)
    return Binary64.ofDecimal negative digits (exponent - places.length)

/-- A double: a finite decimal, an infinity or not-a-number. -/
def float? (s : String) : Option Binary64 :=
  let cs := s.toList
  let unsigned := dropSign ['+'] cs
  if [".inf", ".Inf", ".INF"].contains (String.ofList unsigned) then some (.infinite false)
  else if ["-.inf", "-.Inf", "-.INF"].contains s then some (.infinite true)
  else if [".nan", ".NaN", ".NAN"].contains s then some .nan
  else
    let x := match cs with
      | '-' :: rest => decimal? true rest
      | _ => decimal? false unsigned
    x.filter Binary64.isFinite

/-- The value of a plain scalar. A whole number of more than 64 and at most 128 bits has none. -/
def ofPlain (s : String) : Option Yaml :=
  if s.isEmpty || isNullText s then some null
  else match boolText? s with
    | some b => some (bool b)
    | none =>
      match whole? s.toList with
      | some n => if fits n then some (int n) else none
      | none =>
        if isPaddedNumber s.toList then some (str s)
        else match float? s with
          | some x => some (float x)
          | none => some (str s)

/-- The text of a double. A positive exponent has no sign. -/
def floatText : Binary64 → String
  | .finite negative mantissa exponent => renderFinite "" negative mantissa exponent
  | .infinite false => ".inf"
  | .infinite true => "-.inf"
  | .nan => ".nan"

end Schemata.Yaml
