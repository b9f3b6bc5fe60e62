import Schemata.Decimal.Binary64

/-!
JSON values. The fields of an object are pairs in the order in which they stand in the text.
-/

namespace Schemata

open Schemata.Decimal

inductive Json
  | null
  | bool (b : Bool)
  | int (n : Int)
  | float (x : Binary64)
  | str (s : String)
  | arr (items : List Json)
  | obj (fields : List (String × Json))
  deriving Repr, Inhabited

namespace Json

/-- A field of an object. A name that occurs twice has its last value. -/
def field? : Json → String → Option Json
  | obj fields, key => (fields.reverse.find? (·.1 == key)).map Prod.snd
  | _, _ => none

/-- A field of an object, null if it is absent. -/
def fieldOrNull (j : Json) (key : String) : Json :=
  (j.field? key).getD null

def str? : Json → Option String
  | str s => some s
  | _ => none

def bool? : Json → Option Bool
  | bool b => some b
  | _ => none

def int? : Json → Option Int
  | int n => some n
  | _ => none

def arr? : Json → Option (List Json)
  | arr items => some items
  | _ => none

def obj? : Json → Option (List (String × Json))
  | obj fields => some fields
  | _ => none

/-- A value that may be null. -/
def opt {α : Type} (f : α → Json) : Option α → Json
  | some a => f a
  | none => null

def list {α : Type} (f : α → Json) (xs : List α) : Json :=
  arr (xs.map f)

def strings (xs : List String) : Json :=
  list str xs

/-- A list of pairs, each written as an array of two. -/
def pairs {α : Type} (f : α → Json) (xs : List (String × α)) : Json :=
  list (fun (k, v) => arr [str k, f v]) xs

def natural (n : Nat) : Json :=
  int n

/-- Puts a field into a list sorted by name, in place of a field of the same name. -/
def putSorted (key : String) (value : Json) : List (String × Json) → List (String × Json)
  | [] => [(key, value)]
  | (k, v) :: rest =>
    if key < k then (key, value) :: (k, v) :: rest
    else if key = k then (key, value) :: rest
    else (k, v) :: putSorted key value rest

mutual

/-- How many containers stand inside each other at most. -/
def depth : Json → Nat
  | arr items => depthOfItems items + 1
  | obj fields => depthOfFields fields + 1
  | _ => 0

def depthOfItems : List Json → Nat
  | [] => 0
  | x :: rest => max (depth x) (depthOfItems rest)

def depthOfFields : List (String × Json) → Nat
  | [] => 0
  | (_, v) :: rest => max (depth v) (depthOfFields rest)

end

/-- How deep containers may nest in a text, where its values are kept. -/
def maxDepth : Nat := 127

/-- Whether a value may be kept that stands inside `above` containers. -/
def mayKeep (above : Nat) (j : Json) : Bool :=
  above + j.depth ≤ maxDepth

mutual

/-- Sorts the fields of every object by name. -/
def sorted : Json → Json
  | arr items => arr (sortedItems items)
  | obj fields => obj (sortedFields fields [])
  | j => j

def sortedItems : List Json → List Json
  | [] => []
  | x :: rest => sorted x :: sortedItems rest

def sortedFields : List (String × Json) → List (String × Json) → List (String × Json)
  | [], done => done
  | (k, v) :: rest, done => sortedFields rest (putSorted k (sorted v) done)

end

end Json

end Schemata
