import Schemata.Yaml.Scalar
import Schemata.Yaml.Tag

/-!
The tokens of a YAML text. Indentation becomes tokens that open and close block collections. A scalar or a collection on one
line turns out to be a key only when a colon follows it, so the place of a possible key is kept, and its tokens are put
in there afterwards.
-/

namespace Schemata.Yaml

inductive Token
  | versionDirective (major minor : Nat)
  | tagDirective (handle : String) (leader : Tag)
  | documentStart
  | documentEnd
  | blockSequenceStart
  | blockMappingStart
  | blockEnd
  | flowSequenceStart
  | flowSequenceEnd
  | flowMappingStart
  | flowMappingEnd
  | blockEntry
  | flowEntry
  | key
  | value
  | alias (name : String)
  | anchor (name : String)
  | tag (handle : String) (suffix : Tag)
  | scalar (text : String) (plain : Bool)
  | streamEnd
  deriving Repr, DecidableEq, Inhabited

/-- The place of tokens that are a key if a colon follows. -/
structure PossibleKey where
  token : Nat
  /-- The key stands where its mapping needs one. -/
  required : Bool
  index : Nat
  line : Nat
  column : Nat

/-- The state of tokenization. -/
structure Lexer where
  cursor : Cursor
  tokens : Array Token
  /-- The column of the innermost block collection, below zero outside all. -/
  indent : Int
  outerIndents : List Int
  /-- The possible key of each open flow collection, innermost first, and last that of the block level. -/
  keys : List (Option PossibleKey)
  keyAllowed : Bool

namespace Lexer

def start (text : List Char) : Lexer where
  cursor := .start text
  tokens := #[]
  indent := -1
  outerIndents := []
  keys := [none]
  keyAllowed := true

def inFlow (s : Lexer) : Bool :=
  1 < s.keys.length

def push (s : Lexer) (t : Token) : Lexer :=
  { s with tokens := s.tokens.push t }

def skip (s : Lexer) (n : Nat) : Lexer :=
  { s with cursor := s.cursor.advance n }

/-- Skips gaps, comments and breaks before a token, and a byte order mark that starts a line. A break outside flow
collections allows a key again; a tab counts as a gap only where no key may start. -/
def skipBlanks (flow : Bool) : (lineStart comment keyAllowed : Bool) → List Char → List Char × Bool
  | _, _, allowed, [] => ([], allowed)
  | lineStart, comment, allowed, c :: rest =>
    if isBreak c then skipBlanks flow true false (allowed || !flow) rest
    else if comment || c = ' ' || (c = '\t' && (flow || !allowed)) || (lineStart && isByteOrderMark c) then
      skipBlanks flow false comment allowed rest
    else if c = '#' then skipBlanks flow false true allowed rest
    else (c :: rest, allowed)

def toToken (s : Lexer) : Lexer :=
  let (rest, allowed) := skipBlanks s.inFlow (s.cursor.column = 0) false s.keyAllowed s.cursor.rest
  { s with cursor := s.cursor.upTo rest, keyAllowed := allowed }

/-- Gives up keys that are on an earlier line or too long ago. Fails if one was required. -/
def dropStaleKeys (s : Lexer) : Option Lexer := do
  let keys ← s.keys.mapM fun key =>
    match key with
    | some k =>
      if k.line < s.cursor.line || k.index + 1024 < s.cursor.index then
        if k.required then none else some none
      else some (some k)
    | none => some none
  return { s with keys }

/-- Closes the block collections right of a column. -/
def closeTo (column : Int) : List Int → Int → Array Token → Array Token × Int × List Int
  | [], indent, tokens => (tokens, indent, [])
  | outer :: more, indent, tokens =>
    if column < indent then closeTo column more outer (tokens.push .blockEnd) else (tokens, indent, outer :: more)

def unroll (s : Lexer) (column : Int) : Lexer :=
  if s.inFlow then s
  else
    let (tokens, indent, outerIndents) := closeTo column s.outerIndents s.indent s.tokens
    { s with tokens, indent, outerIndents }

/-- Opens a block collection at a column right of the current one, its token before the token `place`. -/
def roll (s : Lexer) (column place : Nat) (t : Token) : Lexer :=
  if s.inFlow || (column : Int) ≤ s.indent then s
  else
    { s with
      indent := column
      outerIndents := s.indent :: s.outerIndents
      tokens := s.tokens.insertIdxIfInBounds place t }

/-- Forgets the possible key of the current level. Fails if it was required. -/
def dropKey (s : Lexer) : Option Lexer :=
  match s.keys with
  | some k :: outer => if k.required then none else some { s with keys := none :: outer }
  | _ => some s

/-- Notes that the token that starts here may be a key. -/
def saveKey (s : Lexer) : Option Lexer :=
  if s.keyAllowed then do
    let required := !s.inFlow && s.indent = (s.cursor.column : Int)
    let s ← s.dropKey
    return { s with
      keys := some ⟨s.tokens.size, required, s.cursor.index, s.cursor.line, s.cursor.column⟩ :: s.keys.tail }
  else some s

def allowKey (s : Lexer) (allowed : Bool) : Lexer :=
  { s with keyAllowed := allowed }

/-! ### Indicators -/

def documentMark (s : Lexer) : Option Lexer := do
  let s ← (s.unroll (-1)).dropKey
  let mark := if s.cursor.next? = some '-' then Token.documentStart else .documentEnd
  return ((s.allowKey false).skip 3).push mark

def flowStart (s : Lexer) (t : Token) : Option Lexer := do
  let s ← s.saveKey
  return ({ s with keys := none :: s.keys, keyAllowed := true }.skip 1).push t

def flowEnd (s : Lexer) (t : Token) : Option Lexer := do
  let s ← s.dropKey
  let keys := if s.inFlow then s.keys.tail else s.keys
  return ({ s with keys, keyAllowed := false }.skip 1).push t

def flowEntry (s : Lexer) : Option Lexer := do
  let s ← s.dropKey
  return ((s.allowKey true).skip 1).push .flowEntry

/-- An indicator that opens a block collection of its own where it may stand. -/
def openBlock (s : Lexer) (t : Token) : Option Lexer :=
  if s.inFlow then some s
  else if !s.keyAllowed then none
  else some (s.roll s.cursor.column s.tokens.size t)

def blockEntry (s : Lexer) : Option Lexer := do
  let s ← s.openBlock .blockSequenceStart
  let s ← s.dropKey
  return ((s.allowKey true).skip 1).push .blockEntry

def explicitKey (s : Lexer) : Option Lexer := do
  let s ← s.openBlock .blockMappingStart
  let s ← s.dropKey
  return ((s.allowKey (!s.inFlow)).skip 1).push .key

/-- A colon. It makes a key of the possible key, or else stands for itself. -/
def colon (s : Lexer) : Option Lexer :=
  match s.keys with
  | some k :: outer =>
    let s := { s with tokens := s.tokens.insertIdxIfInBounds k.token .key, keys := none :: outer }
    -- A mapping that the key opens begins before the key.
    let s := s.roll k.column k.token .blockMappingStart
    some (((s.allowKey false).skip 1).push .value)
  | _ => do
    let s ← s.openBlock .blockMappingStart
    return ((s.allowKey (!s.inFlow)).skip 1).push .value

/-! ### Names, tags and directives -/

/-- An anchor or alias. Its name ends before a gap or an indicator. -/
def named (s : Lexer) (t : String → Token) : Option Lexer := do
  let s ← s.saveKey
  let (name, after) := (s.cursor.advance 1).span isNameChar
  if name.isEmpty then none
  else if endsWord after.next? || after.next?.any (['?', ':', ',', ']', '}', '%', '@', Char.ofNat 0x60].contains ·) then
    return { s with cursor := after, keyAllowed := false }.push (t (String.ofList name))
  else none

/-- The text of a tag, of which there must be some. -/
def tagText (brackets : Bool) (c : Cursor) : Option (Tag × Cursor) := do
  let (octets, rest) ← Tag.scan brackets c.rest
  if octets.isEmpty then none else return (Tag.ofOctets octets, c.upTo rest)

/-- A tag handle: `!`, `!!` or `!name!`; also `!name`, which is the start of a local tag. -/
def tagHandle (c : Cursor) : List Char × Cursor :=
  let (name, after) := (c.advance 1).span isNameChar
  if after.next? = some '!' then ('!' :: name ++ ['!'], after.advance 1) else ('!' :: name, after)

/-- The handle and the suffix of a tag. A tag given in full has an empty handle, and so has the lone `!`. -/
def tagParts (c : Cursor) : Option (String × Tag × Cursor) :=
  if c.rest[1]? = some '<' then do
    let (suffix, after) ← tagText true (c.advance 2)
    if after.next? ≠ some '>' then none else some ("", suffix, after.advance 1)
  else
    let (handle, after) := tagHandle c
    if 1 < handle.length && handle.getLast? = some '!' then do
      let (suffix, after) ← tagText false after
      some (String.ofList handle, suffix, after)
    else do
      let (octets, rest) ← Tag.scan false after.rest
      let suffix := Tag.ofOctets (octetsOf handle.tail ++ octets)
      let after := after.upTo rest
      some (if suffix.isEmpty then ("", Tag.ofText "!", after) else ("!", suffix, after))

def tagToken (s : Lexer) : Option Lexer := do
  let s ← s.saveKey
  let (handle, suffix, after) ← tagParts s.cursor
  if endsWord after.next? || (s.inFlow && after.next? = some ',') then
    return { s with cursor := after, keyAllowed := false }.push (.tag handle suffix)
  else none

/-- A number of at most nine digits. -/
def versionNumber (c : Cursor) : Option (Nat × Cursor) :=
  let (digits, after) := c.span Char.isDigit
  if digits.isEmpty || 9 < digits.length then none
  else some (digits.foldl (fun n d => n * 10 + (d.toNat - 0x30)) 0, after)

def versionDirective (c : Cursor) : Option (Token × Cursor) := do
  let (major, c) ← versionNumber (c.span isGap).2
  if c.next? ≠ some '.' then none
  else
    let (minor, c) ← versionNumber (c.advance 1)
    return (.versionDirective major minor, c)

def tagDirective (c : Cursor) : Option (Token × Cursor) := do
  let c := (c.span isGap).2
  if c.next? ≠ some '!' then none
  else
    let (handle, c) := tagHandle c
    if handle ≠ ['!'] && handle.getLast? ≠ some '!' then none
    else if !c.next?.any isGap then none
    else
      let (leader, c) ← tagText true (c.span isGap).2
      if !endsWord c.next? then none
      else return (.tagDirective (String.ofList handle) leader, c)

def directive (s : Lexer) : Option Lexer := do
  let s ← (s.unroll (-1)).dropKey
  let (name, c) := (s.cursor.advance 1).span isNameChar
  if !endsWord c.next? then none
  else
    let (t, c) ← match String.ofList name with
      | "YAML" => versionDirective c
      | "TAG" => tagDirective c
      | _ => none
    return { s with cursor := ← restOfLine c, keyAllowed := false }.push t

/-! ### Scalars -/

def blockScalar (s : Lexer) (literal : Bool) : Option Lexer := do
  let s ← s.dropKey
  let scanned ← scanBlock literal s.indent s.cursor
  return { s with cursor := scanned.after, keyAllowed := true }.push (.scalar (String.ofList scanned.text) false)

def quotedScalar (s : Lexer) (quote : Char) : Option Lexer := do
  let s ← s.saveKey
  let scanned ← scanQuoted quote s.cursor
  return { s with cursor := scanned.after, keyAllowed := false }.push (.scalar (String.ofList scanned.text) false)

def plainScalar (s : Lexer) : Option Lexer := do
  let s ← s.saveKey
  let scanned ← scanPlain s.inFlow (s.indent + 1) s.cursor
  return { s with cursor := scanned.after, keyAllowed := scanned.newLine }.push (.scalar (String.ofList scanned.text) true)

/-- The characters that start no plain scalar, unless a word goes on behind some of them. -/
def isIndicator (c : Char) : Bool :=
  "-?:,[]\x7b\x7d#&*!|>'\"%@".toList.contains c || c.toNat = 0x60

/-- Reads the token that starts with `c`. -/
def token (s : Lexer) (c : Char) : Option Lexer :=
  let second := s.cursor.rest[1]?
  if s.cursor.column = 0 && c = '%' then s.directive
  else if s.cursor.atDocumentMark then s.documentMark
  else if c = '[' then s.flowStart .flowSequenceStart
  else if c = '{' then s.flowStart .flowMappingStart
  else if c = ']' then s.flowEnd .flowSequenceEnd
  else if c = '}' then s.flowEnd .flowMappingEnd
  else if c = ',' then s.flowEntry
  else if c = '-' && endsWord second then s.blockEntry
  else if c = '?' && (s.inFlow || endsWord second) then s.explicitKey
  else if c = ':' && (s.inFlow || endsWord second) then s.colon
  else if c = '*' then s.named .alias
  else if c = '&' then s.named .anchor
  else if c = '!' then s.tagToken
  else if c = '|' && !s.inFlow then s.blockScalar true
  else if c = '>' && !s.inFlow then s.blockScalar false
  else if c = '\'' || c = '"' then s.quotedScalar c
  -- What is left may only start a plain scalar.
  else if !(isGap c || isIndicator c) || (c = '-' && !second.any isGap) || (!s.inFlow && (c = '?' || c = ':')) then
    s.plainScalar
  else none

/-- Reads tokens up to the end of the text. Every token takes at least one character. -/
def run : Nat → Lexer → Option (Array Token)
  | 0, _ => none
  | fuel + 1, s => do
    let s ← s.toToken.dropStaleKeys
    let s := s.unroll s.cursor.column
    match s.cursor.next? with
    | some c => run fuel (← s.token c)
    | none => return ((← (s.unroll (-1)).dropKey).push .streamEnd).tokens

end Lexer

/-- The tokens of a text, if it is well formed. -/
def tokens? (text : String) : Option (List Token) :=
  let chars := text.toList
  if chars.all isAllowed then (Lexer.run (chars.length + 1) (.start chars)).map Array.toList else none

end Schemata.Yaml
