import Schemata.Yaml.Node
import Schemata.Yaml.Plain

/-!
The values of a document's nodes. Aliases are followed: how often is bounded by the size of the document, and how deep
collections may nest by a fixed depth, so a document that contains itself has no value.
-/

namespace Schemata.Yaml

/-- How deep collections may nest. -/
def maxDepth : Nat := 128

/-- Reading counts the aliases it has followed. -/
abbrev ReadValue := StateT Nat Option

def textValue (text : String) (plain : Bool) : Option Yaml :=
  if plain then ofPlain text else some (str text)

/-- The value of a scalar. The tags of the core schema force a type. -/
def scalarValue (tag : Option Tag) (text : String) (plain : Bool) : Option Yaml :=
  match tag with
  | none => textValue text plain
  | some tag =>
    match tag.shown? with
    | some shown => (textValue text plain).map (tagged shown)
    | none =>
      if tag = .core "bool" then (boolText? text).map bool
      else if tag = .core "int" then ((whole? text.toList).filter fits).map int
      else if tag = .core "float" then (float? text).map float
      else if tag = .core "null" then if isNullText text then some null else none
      else if tag.isLocal then textValue text plain
      else some (str text)

/-- Whether a scalar stands for an absent value. One that is tagged as null must be written as null. -/
def isAbsent? (tag : Option Tag) (text : String) (plain : Bool) : Option Bool :=
  if !plain then some false
  else match tag with
    | none => some (text.isEmpty || isNullText text)
    | some tag => if tag = .core "null" then (if isNullText text then some true else none) else some false

def withTag (tag : Option Tag) (value : Yaml) : Yaml :=
  match tag.bind Tag.shown? with
  | some shown => tagged shown value
  | none => value

namespace Document

/-- The node itself, or the one that an alias points at. -/
def follow (d : Document) (n : Node) : ReadValue Node :=
  match n with
  | .alias number => do
    let followed := (← get) + 1
    set followed
    if 100 * d.size < followed then failure
    else match d.target? number with
      | some target => return target
      | none => failure
  | n => return n

/-- The value of a node. -/
def value (d : Document) : Nat → Node → ReadValue Yaml
  | depth, n => do
    match ← d.follow n with
    | .alias _ => failure
    | .scalar tag text plain =>
      match scalarValue tag text plain with
      | some v => return v
      | none => failure
    | .seq tag items =>
      match depth with
      | 0 => failure
      | depth + 1 => return withTag tag (.seq (← items.mapM (value d depth)))
    | .map tag entries =>
      match depth with
      | 0 => failure
      | depth + 1 =>
        let entries ← entries.mapM fun (k, v) => return (← value d depth k, ← value d depth v)
        if hasRepeatedKey entries then failure else return withTag tag (.map entries)

/-- The text of a scalar, whatever its type. -/
def text (d : Document) (n : Node) : ReadValue String := do
  match ← d.follow n with
  | .scalar _ text _ => return text
  | _ => failure

/-- The text of a scalar, none for null. -/
def textOrNull (d : Document) (n : Node) : ReadValue (Option String) := do
  match ← d.follow n with
  | .scalar tag text plain =>
    match isAbsent? tag text plain with
    | some absent => return if absent then none else some text
    | none => failure
  | _ => failure

/-- The entries of a mapping. A scalar that is not written is an empty mapping. -/
def entries (d : Document) (n : Node) : ReadValue (List (Node × Node)) := do
  match ← d.follow n with
  | .map _ entries => return entries
  | .scalar _ text plain => if text.isEmpty && plain then return [] else failure
  | _ => failure

/-- Whether the root is null, so that the document holds nothing. -/
def isNull? (d : Document) : Option Bool :=
  match d.root with
  | .scalar tag text plain => isAbsent? tag text plain
  | _ => some false

end Document

end Schemata.Yaml
