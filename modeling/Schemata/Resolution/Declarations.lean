import Schemata.Resolution.Pass
import Schemata.Text.Casing

/-!
The declarations of all models in one form. A model is declared by a block that holds a mapping of columns beside other
fields, or quickly, by the mapping of columns itself; the rest of a quick declaration follows from its columns.
-/

namespace Schemata.Resolution

open Schemata.Text Schemata.Declaration Schemata.Shorthand

/-- Whether `word` occurs in a text. -/
def occursIn (word : List Char) : List Char → Bool
  | [] => word.isEmpty
  | c :: rest => word.isPrefixOf (c :: rest) || occursIn word rest

/-- Words that mark the names of columns whose values stay hidden. -/
def secretMarkers : List String :=
  ["password", "private", "hidden", "secret"]

def isSecret (column : String) : Bool :=
  column = "rememberToken" || secretMarkers.any fun marker => occursIn marker.toList (lowerChars column.toList)

/-- Takes over one entry of a quick declaration: traits, the factory, or a column line. -/
def readQuickEntry (key : String) (s : ModelDeclaration) (name value : Yaml) : Except SchemaFault ModelDeclaration :=
  match name.untagged.str?, value with
  | none, _ => throw (.columnNameNotText key)
  | some "traits", .seq items => return { s with traits := items.filterMap (·.untagged.str?) }
  | some "factory", .bool on => return { s with factory := some (.flag on) }
  | some "factory", .map entries =>
    match Toggle.read FactoryDetail.read (.map entries) with
    | .ok factory => return { s with factory := some factory }
    | .error _ => throw (.invalidFactory key)
  | some name, value =>
    match line? value with
    | some line => return { s with columns := s.columns.insert name line }
    | none => throw (.columnNotScalar name key)

/-- Whether the line of a column makes it the primary key. -/
def declaresPrimary (line : Option String) : Bool :=
  let call := Call.ofLine line
  (DeclaredRelation.kindOf? call).isNone && call.has "primary"

/-- Adds the primary key that is not declared. A column `uuid` is the key instead of a column `id`. -/
def withKey (s : ModelDeclaration) : ModelDeclaration :=
  if s.columns.contains "uuid" then { s with columns := s.columns.erase "id" }
  else if s.columns.contains "id" || s.columns.values.any declaresPrimary then s
  else { s with columns := s.columns.insertFirst "id" none, autoId := true }

/-- Adds the timestamps that are not declared. -/
def withTimestamps (s : ModelDeclaration) : ModelDeclaration :=
  if Column.timestampsTypes.any s.columns.contains then s
  else { s with columns := s.columns.insert "timestamps" none }

/-- The columns, relations apart, whose names mark them as secret. -/
def secretColumns (columns : OrderedMap (Option String)) : List String :=
  columns.entries.filterMap fun (name, line) =>
    if (DeclaredRelation.kindOf? (Call.ofLine line)).isNone && isSecret name then
      some ((Column.shorthandName? name).getD name)
    else none

/-- Adds what follows from the names of the columns: hidden columns, and the type of a model with a password. -/
def withSecrets (s : ModelDeclaration) : ModelDeclaration :=
  { s with
    hidden := secretColumns s.columns
    type := if ["password", "rememberToken"].any s.columns.contains then some "user" else s.type }

/-- A quick declaration in full. -/
def quickDeclaration (key : String) (entries : List (Yaml × Yaml)) : Except SchemaFault ModelDeclaration :=
  (fun s => withSecrets (withTimestamps (withKey s))) <$>
    entries.foldlM (fun s (name, value) => readQuickEntry key s name value) ModelDeclaration.empty

/-- The declaration of a model. -/
def modelDeclaration (key : String) (value : Yaml) : Except SchemaFault ModelDeclaration :=
  match value with
  | .map [] => throw (.modelNotMapping key)
  | .map entries =>
    match Yaml.entry? entries "columns" with
    | some (.map (_ :: _)) => (ModelDeclaration.read value).mapError (.invalidModel key)
    -- Not even an empty mapping of columns is read as a quick declaration.
    | some _ => throw (.modelNotMapping key)
    | none => quickDeclaration key entries
  | _ => throw (.modelNotMapping key)

/-- Reads the declarations of all models, or none. -/
def readDeclarations (d : Draft) : Except SchemaFault Draft := do
  let declarations ← d.schema.models.entries.mapM fun (key, value) => return (key, ← modelDeclaration key value)
  return { d with declarations := declarations.foldl (fun m (key, s) => m.insert key s) d.declarations }

def Pass.quickModels : Pass where
  name := "quick-models"
  requires := []
  provides := .quickModels
  body := .update readDeclarations

end Schemata.Resolution
