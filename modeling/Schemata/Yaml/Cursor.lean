/-!
A position in the text of a YAML document, and the classes of characters that the layout of a document depends on.
-/

namespace Schemata.Yaml

/-- A line break. A carriage return and a line feed together are one break. -/
def isBreak (c : Char) : Bool :=
  c = '\n' || c = '\r' || c.toNat = 0x85 || c.toNat = 0x2028 || c.toNat = 0x2029

def isGap (c : Char) : Bool :=
  c = ' ' || c = '\t'

/-- Whether a word ends before what is next: a gap, a break or the end of the text. -/
def endsWord (next : Option Char) : Bool :=
  next.all fun c => isGap c || isBreak c

/-- The characters of anchors, directives and tag handles. -/
def isNameChar (c : Char) : Bool :=
  c.isAlphanum || c = '_' || c = '-'

/-- The byte order mark. At the start of a line it is skipped before a token; anywhere else it is text. -/
def isByteOrderMark (c : Char) : Bool :=
  c.toNat = 0xFEFF

/-- The characters that a document may hold. -/
def isAllowed (c : Char) : Bool :=
  let n := c.toNat
  n = 0x9 || n = 0xA || n = 0xD || (0x20 ≤ n && n ≤ 0x7E) || n = 0x85 || (0xA0 ≤ n && n ≤ 0xFFFD) || 0x10000 ≤ n

/-- A break as it is kept in a scalar: the two separators of Unicode stay, all others become a line feed. -/
def keptBreak (c : Char) : Char :=
  if c.toNat = 0x2028 || c.toNat = 0x2029 then c else '\n'

/-- The breaks of a run of gaps and breaks, as they are kept. -/
def breaksOf : List Char → List Char
  | [] => []
  | '\r' :: '\n' :: rest => '\n' :: breaksOf rest
  | c :: rest => if isBreak c then keptBreak c :: breaksOf rest else breaksOf rest

structure Cursor where
  rest : List Char
  /-- How many bytes stand before the cursor. -/
  index : Nat
  line : Nat
  column : Nat

namespace Cursor

def start (text : List Char) : Cursor := ⟨text, 0, 0, 0⟩

def next? (c : Cursor) : Option Char :=
  c.rest.head?

/-- Moves over the text that stands at the cursor. -/
def past (c : Cursor) : List Char → Cursor
  | [] => c
  | '\r' :: '\n' :: text => past ⟨c.rest.drop 2, c.index + 2, c.line + 1, 0⟩ text
  | x :: text =>
    if isBreak x then past ⟨c.rest.drop 1, c.index + x.utf8Size, c.line + 1, 0⟩ text
    else past ⟨c.rest.drop 1, c.index + x.utf8Size, c.line, c.column + 1⟩ text

def advance (c : Cursor) (n : Nat) : Cursor :=
  c.past (c.rest.take n)

/-- Moves to where only `rest` is left. -/
def upTo (c : Cursor) (rest : List Char) : Cursor :=
  c.advance (c.rest.length - rest.length)

/-- Moves over the characters of a class, and gives them. -/
def span (c : Cursor) (p : Char → Bool) : List Char × Cursor :=
  let text := c.rest.takeWhile p
  (text, c.past text)

/-- The break at the cursor, if there is one, and the place after it. -/
def lineBreak (c : Cursor) : List Char × Cursor :=
  match c.rest with
  | '\r' :: '\n' :: _ => (['\n'], c.advance 2)
  | x :: _ => if isBreak x then ([keptBreak x], c.advance 1) else ([], c)
  | [] => ([], c)

/-- Whether a line starts here with the mark of a document's start or end. -/
def atDocumentMark (c : Cursor) : Bool :=
  c.column = 0 && (c.rest.take 3 == "---".toList || c.rest.take 3 == "...".toList) && endsWord c.rest[3]?

end Cursor

end Schemata.Yaml
