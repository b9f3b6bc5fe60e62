import Schemata.Json.Basic

/-!
YAML values: what a document holds once anchors are expanded and plain scalars have a type. The entries of a mapping are
pairs in document order, and any value may be a key.
-/

namespace Schemata

open Schemata.Decimal

inductive Yaml
  | null
  | bool (b : Bool)
  | int (n : Int)
  | float (x : Binary64)
  | str (s : String)
  | seq (items : List Yaml)
  | map (entries : List (Yaml × Yaml))
  /-- A value with a tag of the document's own, such as `!point`. -/
  | tagged (tag : String) (value : Yaml)
  deriving Repr, Inhabited

namespace Yaml

mutual

/-- Equality of keys: numbers by value, mappings in any order. -/
def same : Yaml → Yaml → Bool
  | null, null => true
  | bool a, bool b => a == b
  | int a, int b => a == b
  | float a, float b => a.same b
  | str a, str b => a == b
  | seq xs, seq ys => sameItems xs ys
  | map xs, map ys => xs.length == ys.length && sameEntries xs ys
  | tagged t a, tagged u b => t == u && same a b
  | _, _ => false

def sameItems : List Yaml → List Yaml → Bool
  | [], [] => true
  | x :: xs, y :: ys => same x y && sameItems xs ys
  | _, _ => false

/-- Whether every entry of the first mapping is in the second. -/
def sameEntries : List (Yaml × Yaml) → List (Yaml × Yaml) → Bool
  | [], _ => true
  | (k, v) :: rest, ys => ys.any (fun (l, w) => same k l && same v w) && sameEntries rest ys

end

/-- Whether some key occurs twice. -/
def hasRepeatedKey : List (Yaml × Yaml) → Bool
  | [] => false
  | (k, _) :: rest => rest.any (fun (l, _) => same k l) || hasRepeatedKey rest

def str? : Yaml → Option String
  | str s => some s
  | _ => none

def isMap : Yaml → Bool
  | map _ => true
  | _ => false

/-- The value of a text key. -/
def entry? (entries : List (Yaml × Yaml)) (key : String) : Option Yaml :=
  (entries.find? fun (k, _) => k.str? == some key).map Prod.snd

/-- The value under all tags. -/
def untagged : Yaml → Yaml
  | tagged _ v => untagged v
  | v => v

mutual

/-- The YAML value that a JSON value is. -/
def ofJson : Json → Yaml
  | .null => null
  | .bool b => bool b
  | .int n => int n
  | .float x => float x
  | .str s => str s
  | .arr items => seq (ofItems items)
  | .obj fields => map (ofFields fields)

def ofItems : List Json → List Yaml
  | [] => []
  | x :: rest => ofJson x :: ofItems rest

def ofFields : List (String × Json) → List (Yaml × Yaml)
  | [] => []
  | (k, v) :: rest => (str k, ofJson v) :: ofFields rest

end

end Yaml

end Schemata
