import Schemata.Declaration.Index

/-!
Model declarations. Each field has a default; a field that is not known is refused. Primary key, timestamps and factory
are switches that may hold details.
-/

namespace Schemata

open Schemata.Declaration

/-- A switch, or a block of details. -/
inductive Toggle (α : Type)
  | flag (on : Bool)
  | value (detail : α)
  deriving Repr, DecidableEq, Inhabited

namespace Toggle

variable {α : Type}

def isDisabled : Toggle α → Bool
  | flag false => true
  | _ => false

def value? : Toggle α → Option α
  | flag _ => none
  | value detail => some detail

def read (detail : Yaml → Read α) (y : Yaml) : Read (Toggle α) :=
  if hasTag y then malformed
  else match y with
    | .bool b => pure (flag b)
    | y => value <$> detail y

end Toggle

/-- What a declaration says about the primary key. -/
structure PrimaryDetail where
  column : Option String
  type : Option String
  incrementing : Option Bool
  deriving Repr, DecidableEq, Inhabited

def PrimaryDetail.read (y : Yaml) : Read PrimaryDetail := do
  let fields ← fieldsOf ["column", "type", "incrementing"] y
  return ⟨← optionalField bareText fields[0]?, ← optionalField bareText fields[1]?, ← optionalField flag fields[2]?⟩

/-- Names of the timestamp columns. -/
structure TimestampsDetail where
  createdAt : Option String
  updatedAt : Option String
  deriving Repr, DecidableEq, Inhabited

def TimestampsDetail.read (y : Yaml) : Read TimestampsDetail := do
  let fields ← fieldsOf ["createdAt", "updatedAt"] y
  return ⟨← optionalField bareText fields[0]?, ← optionalField bareText fields[1]?⟩

/-- Expressions of factory fields, and named states. -/
structure FactoryDetail where
  fields : OrderedMap String
  states : OrderedMap (OrderedMap Json)
  deriving Inhabited

def FactoryDetail.read (y : Yaml) : Read FactoryDetail := do
  let parts ← fieldsOf ["fields", "states"] y
  let fields ← match parts[0]?.join with
    | some y => OrderedMap.ofList <$> (← bareEntries y).mapM fun (k, v) => return (k, ← bareText v)
    | none => pure .empty
  let states ← match parts[1]?.join with
    | some y => OrderedMap.ofList <$> (← bareEntries y).mapM fun (name, state) => do
      let values ← (← bareEntries state).mapM fun (k, v) => return (k, ← stateValue v)
      return (name, .ofList values)
    | none => pure .empty
  return ⟨fields, states⟩

structure ModelDeclaration where
  columns : OrderedMap (Option String)
  table : Option String
  type : Option String
  primary : Option (Toggle PrimaryDetail)
  timestamps : Option (Toggle TimestampsDetail)
  fillable : Option (List String)
  hidden : List String
  append : List String
  eager : List String
  scopes : List String
  localScopes : List String
  indexes : List IndexDeclaration
  route : Option String
  observer : Bool
  seeder : Bool
  factory : Option (Toggle FactoryDetail)
  traits : List String
  casts : OrderedMap String
  migration : Option Bool
  /-- The `id` column was added, not declared. -/
  autoId : Bool
  deriving Inhabited

namespace ModelDeclaration

def empty : ModelDeclaration where
  columns := .empty
  table := none
  type := none
  primary := none
  timestamps := none
  fillable := none
  hidden := []
  append := []
  eager := []
  scopes := []
  localScopes := []
  indexes := []
  route := none
  observer := false
  seeder := false
  factory := none
  traits := []
  casts := .empty
  migration := none
  autoId := false

/-- Whether the model wants a migration of its own. -/
def hasMigration (s : ModelDeclaration) : Bool :=
  s.migration.getD true

def factoryEnabled (s : ModelDeclaration) : Bool :=
  !s.factory.any Toggle.isDisabled

/-- Takes over one field of a declaration. -/
def readField (s : ModelDeclaration) (name : String) (y : Yaml) : Read ModelDeclaration :=
  match name with
  | "columns" => return { s with columns := ← columnLines y }
  | "table" => return { s with table := ← optional text y }
  | "type" => return { s with type := ← optional text y }
  | "primary" => return { s with primary := ← optional (Toggle.read PrimaryDetail.read) y }
  | "timestamps" => return { s with timestamps := ← optional (Toggle.read TimestampsDetail.read) y }
  | "fillable" => return { s with fillable := ← optional texts y }
  | "hidden" => return { s with hidden := ← texts y }
  | "append" => return { s with append := ← texts y }
  | "with" => return { s with eager := ← texts y }
  | "scopes" => return { s with scopes := ← texts y }
  | "localScopes" => return { s with localScopes := ← texts y }
  | "indexes" => return { s with indexes := ← (← items y).mapM IndexDeclaration.read }
  | "route" => return { s with route := ← optional text y }
  | "observer" => return { s with observer := ← flag y }
  | "seeder" => return { s with seeder := ← flag y }
  | "factory" => return { s with factory := ← optional (Toggle.read FactoryDetail.read) y }
  | "traits" => return { s with traits := ← texts y }
  | "casts" => return { s with casts := .ofList (← (← entries y).mapM fun (k, v) => return (k, ← text v)) }
  | "migration" => return { s with migration := ← optional flag y }
  | _ => malformed

/-- Reads a model declaration, field by field in its own order. -/
def read (y : Yaml) : Read ModelDeclaration :=
  match y.untagged with
  | .map fields => foldFields readField [] empty fields
  | .null => pure empty
  | _ => malformed

end ModelDeclaration

end Schemata
