import Schemata.Json.Basic

/-!
Reading JSON text. A whole number within the range of 64 bits stays exact; any other number becomes a double, its
significand rounded before it is scaled by the power of ten.
-/

namespace Schemata.Json

open Schemata.Decimal

def isSpace (c : Char) : Bool :=
  c = ' ' || c = '\n' || c = '\t' || c = '\r'

def skipSpace (cs : List Char) : List Char :=
  cs.dropWhile isSpace

def hexValue? (c : Char) : Option Nat :=
  if '0' ≤ c ∧ c ≤ '9' then some (c.toNat - 0x30)
  else if 'a' ≤ c ∧ c ≤ 'f' then some (c.toNat - 0x57)
  else if 'A' ≤ c ∧ c ≤ 'F' then some (c.toNat - 0x37)
  else none

/-- The number of four hexadecimal digits. -/
def hex4? (a b c d : Char) : Option Nat := do
  return (((← hexValue? a) * 16 + (← hexValue? b)) * 16 + (← hexValue? c)) * 16 + (← hexValue? d)

def simpleEscape? : Char → Option Char
  | '"' => some '"'
  | '\\' => some '\\'
  | '/' => some '/'
  | 'b' => some '\x08'
  | 'f' => some '\x0c'
  | 'n' => some '\n'
  | 'r' => some '\r'
  | 't' => some '\t'
  | _ => none

/-- The rest of a string after its opening quote, and what follows the closing one. A character beyond the basic plane may
be written as two surrogates; a surrogate alone is refused. -/
def readString : List Char → Option (List Char × List Char)
  | [] => none
  | '"' :: rest => some ([], rest)
  | '\\' :: 'u' :: a :: b :: c :: d :: rest => do
    let n ← hex4? a b c d
    if 0xD800 ≤ n ∧ n < 0xDC00 then
      match rest with
      | '\\' :: 'u' :: e :: f :: g :: h :: rest => do
        let m ← hex4? e f g h
        if 0xDC00 ≤ m ∧ m < 0xE000 then
          let (s, rest) ← readString rest
          return (Char.ofNat (0x10000 + (n - 0xD800) * 0x400 + (m - 0xDC00)) :: s, rest)
        else none
      | _ => none
    else if 0xDC00 ≤ n ∧ n < 0xE000 then none
    else
      let (s, rest) ← readString rest
      return (Char.ofNat n :: s, rest)
  | '\\' :: e :: rest => do
    let c ← simpleEscape? e
    let (s, rest) ← readString rest
    return (c :: s, rest)
  | c :: rest =>
    if c = '\\' ∨ c.toNat < 0x20 then none
    else (readString rest).map fun (s, rest) => (c :: s, rest)

def digitValue (c : Char) : Nat :=
  c.toNat - 0x30

def natOfDigits (cs : List Char) : Nat :=
  cs.foldl (fun n c => n * 10 + digitValue c) 0

/-- The greatest significand that is kept. -/
def maxSignificand : Nat := twoTo 64 - 1

/-- Adds digits to a significand as long as it fits, and counts those added. -/
def extend (significand : Nat) : List Char → Nat × Nat
  | [] => (significand, 0)
  | c :: rest =>
    let next := significand * 10 + digitValue c
    if next ≤ maxSignificand then
      let (n, count) := extend next rest
      (n, count + 1)
    else (significand, 0)

/-- The double of a number with a point or an exponent, or of a whole number out of range. -/
def floatOf (negative : Bool) (whole places : List Char) (exponent : Int) : Option Json := do
  let (significand, kept) := extend 0 whole
  let dropped : Int := whole.length - kept
  let (significand, added) := extend significand places
  let x ← Binary64.scaleByTen significand (dropped - added + exponent)
  return float (if negative then x.negate else x)

def numberOf (negative : Bool) (whole : List Char) : Option Json :=
  let n := natOfDigits whole
  if negative then
    if 0 < n ∧ n ≤ twoTo 63 then some (int (-(n : Int))) else floatOf negative whole [] 0
  else if n ≤ maxSignificand then some (int n)
  else floatOf negative whole [] 0

/-- An exponent after its `e`. -/
def readExponent (cs : List Char) : Option (Int × List Char) :=
  let (sign, cs) : Int × List Char := match cs with
    | '-' :: rest => (-1, rest)
    | '+' :: rest => (1, rest)
    | cs => (1, cs)
  let digits := cs.takeWhile Char.isDigit
  if digits.isEmpty then none else some (sign * natOfDigits digits, cs.dropWhile Char.isDigit)

/-- What follows the whole part of a number. -/
def readFraction (negative : Bool) (whole : List Char) (cs : List Char) : Option (Json × List Char) := do
  let (places, rest) ← match cs with
    | '.' :: rest =>
      let places := rest.takeWhile Char.isDigit
      if places.isEmpty then none else some (some places, rest.dropWhile Char.isDigit)
    | cs => some (none, cs)
  match rest with
  | c :: tail =>
    if c = 'e' ∨ c = 'E' then
      let (exponent, rest) ← readExponent tail
      return (← floatOf negative whole (places.getD []) exponent, rest)
    else finish places rest
  | [] => finish places rest
where
  finish (places : Option (List Char)) (rest : List Char) : Option (Json × List Char) := do
    match places with
    | some places => return (← floatOf negative whole places 0, rest)
    | none => return (← numberOf negative whole, rest)

/-- A number. The whole part has no leading zero. -/
def readNumber (cs : List Char) : Option (Json × List Char) :=
  let (negative, cs) := match cs with
    | '-' :: rest => (true, rest)
    | cs => (false, cs)
  let whole := cs.takeWhile Char.isDigit
  if whole.isEmpty || (whole.head? == some '0' && 1 < whole.length) then none
  else readFraction negative whole (cs.dropWhile Char.isDigit)

mutual

/-- A value at the start of a text, and what follows it. -/
def readValue : Nat → List Char → Option (Json × List Char)
  | 0, _ => none
  | fuel + 1, cs =>
    match skipSpace cs with
    | '"' :: rest => (readString rest).map fun (s, rest) => (str (String.ofList s), rest)
    | '[' :: rest =>
      match skipSpace rest with
      | ']' :: rest => some (arr [], rest)
      | rest => (readItems fuel rest).map fun (items, rest) => (arr items, rest)
    | '{' :: rest =>
      match skipSpace rest with
      | '}' :: rest => some (obj [], rest)
      | rest => (readFields fuel rest).map fun (fields, rest) => (obj fields, rest)
    | 't' :: 'r' :: 'u' :: 'e' :: rest => some (bool true, rest)
    | 'f' :: 'a' :: 'l' :: 's' :: 'e' :: rest => some (bool false, rest)
    | 'n' :: 'u' :: 'l' :: 'l' :: rest => some (null, rest)
    | rest => readNumber rest

/-- The items of an array up to its closing bracket. -/
def readItems : Nat → List Char → Option (List Json × List Char)
  | 0, _ => none
  | fuel + 1, cs => do
    let (x, rest) ← readValue fuel cs
    match skipSpace rest with
    | ',' :: rest =>
      let (items, rest) ← readItems fuel rest
      return (x :: items, rest)
    | ']' :: rest => return ([x], rest)
    | _ => none

/-- The fields of an object up to its closing brace. -/
def readFields : Nat → List Char → Option (List (String × Json) × List Char)
  | 0, _ => none
  | fuel + 1, cs => do
    match skipSpace cs with
    | '"' :: rest =>
      let (key, rest) ← readString rest
      match skipSpace rest with
      | ':' :: rest =>
        let (value, rest) ← readValue fuel rest
        let entry := (String.ofList key, value)
        match skipSpace rest with
        | ',' :: rest =>
          let (fields, rest) ← readFields fuel rest
          return (entry :: fields, rest)
        | '}' :: rest => return ([entry], rest)
        | _ => none
      | _ => none
    | _ => none

end

/-- Reads a whole text. Every call consumes a character or hands over to one that does. -/
def parse (text : String) : Option Json := do
  let cs := text.toList
  let (value, rest) ← readValue (2 * cs.length + 2) cs
  if (skipSpace rest).isEmpty then some value else none

end Schemata.Json
