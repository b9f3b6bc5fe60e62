import Schemata.Text.Letters

/-!
Upper and lower case. A text is lowered with the full Unicode mapping, where a capital sigma at the end of a word becomes
the final form; single characters are mapped without context. The `ascii` functions leave all else alone.
-/

namespace Schemata.Text

private def inRanges (ranges : List CodeRange) (c : Char) : Bool :=
  ranges.any (·.contains c.toNat)

def isUppercase (c : Char) : Bool :=
  if c.toNat < 128 then c.isUpper else inRanges Letters.uppercase c

def isLowercase (c : Char) : Bool :=
  if c.toNat < 128 then c.isLower else inRanges Letters.lowercase c

def isCased (c : Char) : Bool :=
  isUppercase c || isLowercase c || inRanges Letters.titlecase c

/-- The characters skipped when looking for a cased neighbour; in ASCII the apostrophe, full stop, colon, circumflex and
grave accent. -/
def isCaseIgnorable (c : Char) : Bool :=
  if c.toNat < 128 then [0x27, 0x2E, 0x3A, 0x5E, 0x60].contains c.toNat else inRanges Letters.caseIgnorable c

/-- A decimal digit of any script. -/
def isDecimalDigit (c : Char) : Bool :=
  if c.toNat < 128 then c.isDigit else inRanges Letters.decimalDigits c

private def shifted (table : List CaseShift) (c : Char) : Char :=
  match table.find? (·.range.contains c.toNat) with
  | some s => Char.ofNat (c.toNat + s.distance).toNat
  | none => c

/-- The lower case of one character. The dotted capital I is the only one with two. -/
def lowerChar (c : Char) : List Char :=
  if c.toNat < 128 then [c.toLower]
  else if c.toNat = 0x130 then ['i', Char.ofNat 0x307]
  else [shifted Letters.toLower c]

/-- The upper case of one character, up to three characters long. -/
def upperChar (c : Char) : List Char :=
  if c.toNat < 128 then [c.toUpper]
  else match Letters.toUpperExpanded.lookup c.toNat with
    | some codes => codes.map Char.ofNat
    | none => [shifted Letters.toUpper c]

/-- Whether the nearest character that is not case-ignorable is cased. -/
def meetsCased (cs : List Char) : Bool :=
  match cs.dropWhile isCaseIgnorable with
  | c :: _ => isCased c
  | [] => false

/-- Lowers `cs`, where `before` holds the preceding characters, nearest first. -/
def lowerAfter (before : List Char) : List Char → List Char
  | [] => []
  | c :: rest =>
    (if c = 'Σ' then [if meetsCased before && !meetsCased rest then 'ς' else 'σ'] else lowerChar c) ++
      lowerAfter (c :: before) rest

def lowerChars (cs : List Char) : List Char :=
  lowerAfter [] cs

/-- The lower case of a text. -/
def lower (s : String) : String :=
  String.ofList (lowerChars s.toList)

/-- Puts the first character into upper case. -/
def upperFirst : List Char → List Char
  | [] => []
  | c :: rest => upperChar c ++ rest

/-- Puts the first character into lower case. -/
def lowerFirst : List Char → List Char
  | [] => []
  | c :: rest => lowerChar c ++ rest

/-- Lowers ASCII letters only. -/
def asciiLower (s : String) : String :=
  String.ofList (s.toList.map Char.toLower)

/-- Equality up to the case of ASCII letters. -/
def sameAscii (s t : String) : Bool :=
  asciiLower s == asciiLower t

theorem isUppercase_of_ascii {c : Char} (h : c.toNat < 128) : isUppercase c = c.isUpper := by
  simp [isUppercase, h]

theorem lowerChar_of_ascii {c : Char} (h : c.toNat < 128) : lowerChar c = [c.toLower] := by
  simp [lowerChar, h]

theorem upperChar_of_ascii {c : Char} (h : c.toNat < 128) : upperChar c = [c.toUpper] := by
  simp [upperChar, h]

theorem sameAscii_refl (s : String) : sameAscii s s := by
  simp [sameAscii]

end Schemata.Text
