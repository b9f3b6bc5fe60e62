import Schemata.Declaration.Migration
import Schemata.Yaml.Value

/-!
Whole schemas, from the text of a schema file or from a JSON object. The declarations in it stay YAML values until they are
needed.
-/

namespace Schemata

open Schemata.Declaration

/-- A schema as declared: models and tables whose values are not read yet. -/
structure SchemaDeclaration where
  rootNamespace : Option String
  models : OrderedMap Yaml
  migrations : OrderedMap Yaml
  deriving Inhabited

namespace SchemaDeclaration

def empty : SchemaDeclaration := ⟨none, .empty, .empty⟩

/-- The values under the names of a mapping, in a document. -/
def readValues (d : Yaml.Document) (n : Yaml.Node) : Yaml.ReadValue (OrderedMap Yaml) := do
  let pairs ← (← d.entries n).mapM fun (k, v) => return (← d.text k, ← d.value (Yaml.maxDepth - 2) v)
  return .ofList pairs

/-- The parts of a schema in a document. Each may stand once; other fields are ignored. -/
def readDocument (d : Yaml.Document) : Yaml.ReadValue SchemaDeclaration := do
  let fields ← (← d.entries d.root).mapM fun (k, v) => return (← d.text k, v)
  let known := (fields.map Prod.fst).filter (["namespace", "models", "migrations"].contains ·)
  if known.Nodup then
    fields.foldlM (fun s (name, n) => do
      match name with
      | "namespace" => return { s with rootNamespace := ← d.textOrNull n }
      | "models" => return { s with models := ← readValues d n }
      | "migrations" => return { s with migrations := ← readValues d n }
      | _ => return s) empty
  else failure

/-- Reads the text of a schema file. An empty or null document is an empty schema. -/
def ofText? (text : String) : Option SchemaDeclaration := do
  match ← Yaml.document? text with
  | none => return empty
  | some d => if ← d.isNull? then return empty else (readDocument d).run' 0

/-- The values under the names of an object. -/
def valuesOfJson? : Json → Option (OrderedMap Yaml)
  | .obj fields => some (.ofList (fields.map fun (k, v) => (k, Yaml.ofJson v)))
  | _ => none

/-- Reads a schema from a JSON object. -/
def ofJson? (j : Json) : Option SchemaDeclaration := do
  let rootNamespace ← match j.fieldOrNull "namespace" with
    | .null => some none
    | .str s => some (some s)
    | _ => none
  let part (name : String) : Option (OrderedMap Yaml) := (j.field? name).elim (some .empty) valuesOfJson?
  match j with
  | .obj _ => return ⟨rootNamespace, ← part "models", ← part "migrations"⟩
  | _ => none

/-- Reads all table declarations, in order. -/
def migrationDeclarations (s : SchemaDeclaration) : Except SchemaFault (OrderedMap MigrationDeclaration) := do
  let declarations ← s.migrations.entries.mapM fun (table, y) => return (table, ← MigrationDeclaration.ofYaml table y)
  return .ofList declarations

end SchemaDeclaration

end Schemata
