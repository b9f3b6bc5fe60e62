import Schemata.Yaml.Tag

/-!
The text of scalars: plain, between quotes, and in blocks. A line break inside a plain or quoted scalar becomes a space, and
empty lines become breaks.
-/

namespace Schemata.Yaml

/-- What a run of gaps and breaks between two words stands for. -/
def joined (run : List Char) : List Char :=
  match breaksOf run with
  | [] => run
  | '\n' :: [] => [' ']
  | '\n' :: more => more
  | first :: more => first :: more

def isGapOrBreak (c : Char) : Bool :=
  isGap c || isBreak c

/-- Whether a run has a tab left of `indent` on a line that it starts. -/
def tabLeftOf (indent : Int) (newLine : Bool) (column : Nat) : List Char → Bool
  | [] => false
  | c :: rest =>
    if isBreak c then tabLeftOf indent true 0 rest
    else (newLine && c = '\t' && (column : Int) < indent) || tabLeftOf indent newLine (column + 1) rest

/-! ### Plain scalars -/

def isFlowEnd (c : Char) : Bool :=
  c = ',' || c = '[' || c = ']' || c = '{' || c = '}'

/-- The word of a plain scalar at the start of a text, and what follows it. Refuses a colon right before an indicator in a
flow collection. -/
def plainWord (flow : Bool) : List Char → Option (List Char × List Char)
  | [] => some ([], [])
  | c :: rest =>
    if isGapOrBreak c || (c = ':' && endsWord rest.head?) || (flow && isFlowEnd c) then some ([], c :: rest)
    else if flow && c = ':' && rest.head?.any (fun d => isFlowEnd d || d = '?') then none
    else (plainWord flow rest).map fun (word, rest) => (c :: word, rest)

/-- A scalar's text, the place after it, and whether that place is on a later line than its last word. -/
structure Scanned where
  text : List Char
  after : Cursor
  newLine : Bool

/-- Reads the words of a plain scalar, whose lines stand at `indent` or deeper unless it is in a flow collection. -/
def plainFrom (flow : Bool) (indent : Int) : Nat → Cursor → List Char → List Char → Bool → Option Scanned
  | 0, c, text, _, newLine => some ⟨text, c, newLine⟩
  | fuel + 1, c, text, gap, newLine =>
    if c.atDocumentMark || c.next? = some '#' then some ⟨text, c, newLine⟩
    else do
      let (word, rest) ← plainWord flow c.rest
      let text := if word.isEmpty then text else text ++ gap ++ word
      let newLine := newLine && word.isEmpty
      let c := c.upTo rest
      let (run, after) := c.span isGapOrBreak
      if run.isEmpty then some ⟨text, c, newLine⟩
      else if tabLeftOf indent newLine c.column run then none
      else
        let newLine := newLine || !(breaksOf run).isEmpty
        if !flow && (after.column : Int) < indent then some ⟨text, after, newLine⟩
        else plainFrom flow indent fuel after text (joined run) newLine

def scanPlain (flow : Bool) (indent : Int) (c : Cursor) : Option Scanned :=
  plainFrom flow indent (c.rest.length + 1) c [] [] false

/-! ### Quoted scalars -/

/-- A piece of a quoted scalar without gaps: its value, what follows it, and whether an escaped break ends it. -/
structure Piece where
  value : List Char
  rest : List Char
  escapedBreak : Bool

def Piece.cons (c : Char) (p : Piece) : Piece :=
  { p with value := c :: p.value }

/-- A piece between single quotes, where two quotes stand for one. -/
def singlePiece : List Char → Piece
  | '\'' :: '\'' :: rest => (singlePiece rest).cons '\''
  | [] => ⟨[], [], false⟩
  | c :: rest => if c = '\'' || isGapOrBreak c then ⟨[], c :: rest, false⟩ else (singlePiece rest).cons c

/-- The character of a hexadecimal code. Surrogates and codes out of range are refused. -/
def codePoint? (digits : List Char) : Option Char := do
  let n ← digits.foldlM (fun n c => (hexDigit? c).map (n * 16 + ·)) 0
  if (0xD800 ≤ n && n ≤ 0xDFFF) || 0x10FFFF < n then none else some (Char.ofNat n)

def namedEscape? : Char → Option Char
  | '0' => some (Char.ofNat 0)
  | 'a' => some (Char.ofNat 7)
  | 'b' => some (Char.ofNat 8)
  | 't' | '\t' => some '\t'
  | 'n' => some '\n'
  | 'v' => some (Char.ofNat 0xB)
  | 'f' => some (Char.ofNat 0xC)
  | 'r' => some '\r'
  | 'e' => some (Char.ofNat 0x1B)
  | ' ' => some ' '
  | '"' => some '"'
  | '/' => some '/'
  | '\\' => some '\\'
  | 'N' => some (Char.ofNat 0x85)
  | '_' => some (Char.ofNat 0xA0)
  | 'L' => some (Char.ofNat 0x2028)
  | 'P' => some (Char.ofNat 0x2029)
  | _ => none

/-- A piece between double quotes, where a backslash starts an escape. -/
def doublePiece : List Char → Option Piece
  | [] => some ⟨[], [], false⟩
  | '\\' :: '\r' :: '\n' :: rest => some ⟨[], rest, true⟩
  | '\\' :: 'x' :: a :: b :: rest => do
    return (← doublePiece rest).cons (← codePoint? [a, b])
  | '\\' :: 'u' :: a :: b :: c :: d :: rest => do
    return (← doublePiece rest).cons (← codePoint? [a, b, c, d])
  | '\\' :: 'U' :: a :: b :: c :: d :: e :: f :: g :: h :: rest => do
    return (← doublePiece rest).cons (← codePoint? [a, b, c, d, e, f, g, h])
  | '\\' :: e :: rest =>
    if isBreak e then some ⟨[], rest, true⟩
    else do
      let c ← namedEscape? e
      return (← doublePiece rest).cons c
  | c :: rest =>
    if c = '\\' then none
    else if c = '"' || isGapOrBreak c then some ⟨[], c :: rest, false⟩
    else (doublePiece rest).map (Piece.cons c)

/-- Reads a quoted scalar after its opening quote. -/
def quotedFrom (quote : Char) : Nat → Cursor → List Char → Option Scanned
  | 0, _, _ => none
  | fuel + 1, c, text =>
    if c.atDocumentMark || c.rest.isEmpty then none
    else do
      let piece ← if quote = '\'' then some (singlePiece c.rest) else doublePiece c.rest
      let text := text ++ piece.value
      let c := c.upTo piece.rest
      if c.next? = some quote then some ⟨text, c.advance 1, false⟩
      else
        let (run, after) := c.span isGapOrBreak
        quotedFrom quote fuel after (text ++ if piece.escapedBreak then breaksOf run else joined run)

def scanQuoted (quote : Char) (c : Cursor) : Option Scanned :=
  quotedFrom quote (c.rest.length + 1) (c.advance 1) []

/-! ### Block scalars -/

/-- What happens to the breaks at the end of a block. -/
inductive Chomping
  | strip
  | clip
  | keep
  deriving DecidableEq

/-- The empty lines before a line of a block: the place of that line, the breaks, and the deepest column met. An `indent`
of zero is not known yet. -/
def emptyLines (indent : Nat) : Nat → Cursor → List Char → Nat → Option (Cursor × List Char × Nat)
  | 0, c, breaks, deepest => some (c, breaks, deepest)
  | fuel + 1, c, breaks, deepest =>
    let spaces := c.rest.takeWhile (· = ' ')
    let c := c.past (if indent = 0 then spaces else spaces.take (indent - c.column))
    let deepest := max deepest c.column
    if (indent = 0 || c.column < indent) && c.next? = some '\t' then none
    else match c.lineBreak with
      | ([], _) => some (c, breaks, deepest)
      | (b, after) => emptyLines indent fuel after (breaks ++ b) deepest

/-- The lines of a block at `indent`: the text, the break after the last line, the breaks after that, and the place. -/
def blockLines (literal : Bool) (indent : Nat) :
    Nat → Cursor → (text lineEnd breaks : List Char) → Bool → Option (List Char × List Char × List Char × Cursor)
  | 0, c, text, lineEnd, breaks, _ => some (text, lineEnd, breaks, c)
  | fuel + 1, c, text, lineEnd, breaks, afterGap =>
    if c.column ≠ indent || c.rest.isEmpty then some (text, lineEnd, breaks, c)
    else do
      let beforeGap := c.next?.any isGap
      let fold := !literal && lineEnd = ['\n'] && !afterGap && !beforeGap
      let text := text ++ (if fold then (if breaks.isEmpty then [' '] else []) else lineEnd) ++ breaks
      let (content, c) := c.span (!isBreak ·)
      let (lineEnd, c) := c.lineBreak
      let (c, breaks, _) ← emptyLines indent (c.rest.length + 1) c [] 0
      blockLines literal indent fuel c (text ++ content) lineEnd breaks beforeGap

/-- The chomping and indentation marks of a block, in either order. -/
def blockMarks (c : Cursor) : Option (Chomping × Nat × Cursor) :=
  let chomping? : Option Char → Option Chomping
    | some '+' => some .keep
    | some '-' => some .strip
    | _ => none
  let depth? : Option Char → Option Nat := fun x => (x.filter Char.isDigit).map fun d => d.toNat - 0x30
  match chomping? c.next? with
  | some chomping =>
    let c := c.advance 1
    match depth? c.next? with
    | some 0 => none
    | some n => some (chomping, n, c.advance 1)
    | none => some (chomping, 0, c)
  | none =>
    match depth? c.next? with
    | some 0 => none
    | some n =>
      let c := c.advance 1
      match chomping? c.next? with
      | some chomping => some (chomping, n, c.advance 1)
      | none => some (.clip, n, c)
    | none => some (.clip, 0, c)

/-- Skips gaps and a comment up to the end of the line. -/
def restOfLine (c : Cursor) : Option Cursor :=
  let c := (c.span isGap).2
  let c := if c.next? = some '#' then (c.span (!isBreak ·)).2 else c
  if c.next?.all isBreak then some c.lineBreak.2 else none

/-- Reads a block scalar at its indicator, inside a collection indented by `outer`. -/
def scanBlock (literal : Bool) (outer : Int) (c : Cursor) : Option Scanned := do
  let (chomping, depth, c) ← blockMarks (c.advance 1)
  let c ← restOfLine c
  let indent := if depth = 0 then 0 else depth + outer.toNat
  let (c, breaks, deepest) ← emptyLines indent (c.rest.length + 1) c [] 0
  let indent := if indent = 0 then max deepest (max (outer + 1).toNat 1) else indent
  let (text, lineEnd, breaks, c) ← blockLines literal indent (c.rest.length + 1) c [] [] breaks false
  let text := if chomping = .strip then text else text ++ lineEnd
  return ⟨if chomping = .keep then text ++ breaks else text, c, false⟩

end Schemata.Yaml
