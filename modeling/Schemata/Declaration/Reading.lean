import Schemata.OrderedMap
import Schemata.Fault
import Schemata.Yaml.Plain

/-!
Reading declarations from YAML values. A text must be a text and a flag a flag; tags are ignored, except inside values that
may have several forms, where they are refused. Null stands for an empty list or mapping, and for an absent option.
-/

namespace Schemata.Declaration

abbrev Read := Except DeclarationFault

def malformed {α : Type} : Read α :=
  throw .malformed

/-- A value that must be there. -/
def need {α : Type} : Option α → Read α
  | some a => pure a
  | none => malformed

def text (y : Yaml) : Read String :=
  need y.untagged.str?

def flag (y : Yaml) : Read Bool :=
  match y.untagged with
  | .bool b => pure b
  | _ => malformed

def items (y : Yaml) : Read (List Yaml) :=
  match y.untagged with
  | .seq items => pure items
  | .null => pure []
  | _ => malformed

def texts (y : Yaml) : Read (List String) := do
  (← items y).mapM text

/-- A value that is absent when it is null. -/
def optional {α : Type} (read : Yaml → Read α) : Yaml → Read (Option α)
  | .null => pure none
  | y => some <$> read y

/-- The entries of a mapping with texts as keys. -/
def entries (y : Yaml) : Read (List (String × Yaml)) :=
  match y.untagged with
  | .map entries => entries.mapM fun (k, v) => return (← text k, v)
  | .null => pure []
  | _ => malformed

/-- Takes over the fields of a mapping in order. None of them may stand twice. -/
def foldFields {σ : Type} (readField : σ → String → Yaml → Read σ) : (seen : List String) → σ → List (Yaml × Yaml) → Read σ
  | _, s, [] => pure s
  | seen, s, (k, v) :: rest => do
    let name ← text k
    if seen.contains name then malformed
    else foldFields readField (name :: seen) (← readField s name v) rest

/-! ### Column lines -/

/-- The line of a column: null is an absent one, and a number or a boolean stands for its text. Collections and tagged
values are no lines. -/
def line? : Yaml → Option (Option String)
  | .null => some none
  | .str s => some (some s)
  | .int n => some (some (toString n))
  | .float x => some (some (Yaml.floatText x))
  | .bool b => some (some (if b then "true" else "false"))
  | _ => none

/-- Column names with their lines, in order. -/
def columnLines (y : Yaml) : Read (OrderedMap (Option String)) := do
  let lines ← (OrderedMap.ofList (← entries y)).entries.mapM fun (name, value) =>
    match line? value with
    | some line => pure (name, line)
    | none => throw (.lineNotScalar name)
  return .ofList lines

/-! ### Values of several forms -/

mutual

/-- Whether a tag occurs anywhere in a value. -/
def hasTag : Yaml → Bool
  | .tagged .. => true
  | .seq items => itemsHaveTag items
  | .map entries => entriesHaveTag entries
  | _ => false

def itemsHaveTag : List Yaml → Bool
  | [] => false
  | x :: rest => hasTag x || itemsHaveTag rest

def entriesHaveTag : List (Yaml × Yaml) → Bool
  | [] => false
  | (k, v) :: rest => hasTag k || hasTag v || entriesHaveTag rest

end

/-- The field that a key names: by its name, or by its position in the list of names. -/
def fieldIndex? (names : List String) : Yaml → Option (Option Nat)
  | .str s => some (names.findIdx? (· == s))
  | .int n => if 0 ≤ n then some (if n.toNat < names.length then some n.toNat else none) else none
  | _ => none

/-- The values of named fields, given by a mapping. Other fields are refused if `closed`. -/
def fieldsOfMap (names : List String) (closed : Bool) (entries : List (Yaml × Yaml)) : Read (List (Option Yaml)) := do
  let found ← entries.filterMapM fun (k, v) => do
    match fieldIndex? names k with
    | some (some i) => return some (i, v)
    | some none => if closed then malformed else return none
    | none => malformed
  if (found.map Prod.fst).Nodup then return (List.range names.length).map fun i => found.lookup i
  else malformed

/-- The values of named fields, given by a mapping or, in their order, by a list. -/
def fieldsOf (names : List String) (y : Yaml) : Read (List (Option Yaml)) :=
  match y with
  | .map entries => fieldsOfMap names true entries
  | .seq items =>
    if items.length ≤ names.length then pure ((List.range names.length).map fun i => items[i]?) else malformed
  | _ => malformed

/-- A text without a tag. -/
def bareText (y : Yaml) : Read String :=
  need y.str?

/-- A field that may be absent or null. -/
def optionalField {α : Type} (read : Yaml → Read α) (field : Option (Option Yaml)) : Read (Option α) :=
  match field.join with
  | some y => optional read y
  | none => pure none

/-- The entries of a mapping with texts as keys, and nothing else. -/
def bareEntries : Yaml → Read (List (String × Yaml))
  | .map entries => entries.mapM fun (k, v) => return (← bareText k, v)
  | _ => malformed

/-! ### State values -/

mutual

/-- The JSON value of a factory state, its mappings sorted by key. What is not a finite number becomes null. -/
def stateValue : Yaml → Read Json
  | .null => pure .null
  | .bool b => pure (.bool b)
  | .int n => pure (.int n)
  | .float x => pure (if x.isFinite then .float x else .null)
  | .str s => pure (.str s)
  | .seq items => return .arr (← stateItems items)
  | .map entries => return .obj (← stateFields entries [])
  | .tagged .. => malformed

def stateItems : List Yaml → Read (List Json)
  | [] => pure []
  | x :: rest => return (← stateValue x) :: (← stateItems rest)

def stateFields : List (Yaml × Yaml) → List (String × Json) → Read (List (String × Json))
  | [], done => pure done
  | (k, v) :: rest, done => do
    let key ← bareText k
    stateFields rest (Json.putSorted key (← stateValue v) done)

end

end Schemata.Declaration
