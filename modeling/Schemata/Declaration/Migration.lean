import Schemata.Declaration.Index

/-!
Table declarations: a mapping of columns, or a block that holds one beside indexes, a primary key and a comment.
-/

namespace Schemata

open Schemata.Declaration

structure MigrationDeclaration where
  columns : OrderedMap (Option String)
  indexes : List IndexDeclaration
  primary : Option IndexDeclaration
  comment : Option String
  deriving Inhabited

namespace MigrationDeclaration

def empty : MigrationDeclaration := ⟨.empty, [], none, none⟩

def readField (s : MigrationDeclaration) (name : String) (y : Yaml) : Read MigrationDeclaration :=
  match name with
  | "columns" => return { s with columns := ← columnLines y }
  | "indexes" => return { s with indexes := ← (← items y).mapM IndexDeclaration.read }
  | "primary" => return { s with primary := ← optional IndexDeclaration.read y }
  | "comment" => return { s with comment := ← optional text y }
  | _ => malformed

/-- Reads a table declaration: a block with a mapping of columns, or the mapping of columns itself. -/
def ofYaml (table : String) (y : Yaml) : Except SchemaFault MigrationDeclaration :=
  match y with
  | .map fields =>
    if (Yaml.entry? fields "columns").any (·.untagged.isMap) then
      (foldFields readField [] empty fields).mapError (.invalidMigration table)
    else if fields.isEmpty then throw (.migrationNotMapping table)
    else ((columnLines y).map fun columns => { empty with columns }).mapError (.invalidMigration table)
  | _ => throw (.migrationNotMapping table)

end MigrationDeclaration

end Schemata
