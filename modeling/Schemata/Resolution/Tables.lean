import Schemata.Resolution.Attributes

/-!
Table definitions: those that are declared, one for each model with a migration of its own, and one for each table of pivots
that nothing else defines.
-/

namespace Schemata.Resolution

open Schemata.Shorthand Schemata.Convention

def addMigration (d : Draft) (m : Migration) : Draft :=
  { d with migrations := d.migrations.insert m.table m }

/-! ### Declared tables -/

/-- The column of a declared table, which is no relation. -/
def tableColumn (table name : String) (line : Option String) : Except SchemaFault Column :=
  let call := Call.ofLine line
  if (DeclaredRelation.kindOf? call).isSome then throw (.relationInMigration name table)
  else Column.declared (.migration table) name call

/-- Fails if one of the columns is not in the table. -/
def checkTableNames (m : Migration) (columns : List String) (fault : String → String → SchemaFault) :
    Except SchemaFault Unit :=
  match columns.find? (!m.hasPhysicalColumn ·) with
  | some column => throw (fault column m.table)
  | none => pure ()

/-- The definition of a declared table. -/
def declaredMigration (table : String) (s : MigrationDeclaration) : Except SchemaFault Migration := do
  let columns ← s.columns.entries.mapM fun (name, line) => return (name, ← tableColumn table name line)
  let m := columns.foldl (fun (m : Migration) (name, column) => m.addColumn name column) (.ofTable table)
  checkAutoIncrement (.migration table) m.columns.values
  checkPhysical (.migration table) m.columns.values
  checkTableNames m (s.indexes.flatMap (·.columns)) .missingIndexColumn
  checkTableNames m (s.primary.elim [] (·.columns)) .missingKeyColumn
  return { m with
    indexes := s.indexes.map declaredIndex
    primary := s.primary.map (·.columns)
    comment := s.comment }

/-- Adds a declared table, which must not be that of a model. -/
def addDeclared (table : String) (s : MigrationDeclaration) (d : Draft) : Except SchemaFault Draft := do
  match d.models.values.find? fun m => m.migration && m.table == table with
  | some m => throw (.explicitModelTable table m.key)
  | none => return addMigration d (← declaredMigration table s)

def Pass.explicitMigrations : Pass where
  name := "explicit-migrations"
  requires := [.modelsFinalized]
  provides := .explicitMigrations
  body := do
    (← .inspect (·.schema.migrationDeclarations)).entries.forM fun (table, s) => .update (addDeclared table s)

/-! ### Tables of models -/

/-- The table of a model, with its columns and indexes. -/
def modelMigration (m : Model) : Migration :=
  { Migration.ofTable m.table with
    columns := .ofList m.columns.resolved
    indexes := m.indexes
    model := some m.key }

def Pass.modelMigrations : Pass where
  name := "model-migrations"
  requires := [.explicitMigrations]
  provides := .modelMigrations
  body := modify fun d => (d.models.values.filter (·.migration)).foldl (fun d m => addMigration d (modelMigration m)) d

/-! ### Tables of pivots -/

/-- A pivot column that holds the key of a model. -/
def pivotColumn (name : String) (m : Model) : Column :=
  let (method, arguments) := m.foreignMethod
  .ofCall name (.single method arguments)

/-- The table of a `belongsToMany`: the keys of both sides, by name, which together are the primary key. -/
def manyTable (l : BelongsToMany) (owner target : Model) : Migration :=
  let a := pivotColumn l.foreignPivotKey owner
  let b := pivotColumn l.relatedPivotKey target
  let columns := if a.name ≤ b.name then [a, b] else [b, a]
  let m := columns.foldl (fun (m : Migration) c => m.addColumn c.name c) (.ofTable l.table)
  { m with primary := some (columns.map (·.name)), fromGuessedPivot := true }

/-- The table of a relation to or from many parents: the key of the other side, and a pointer to the parent. -/
def morphsTable (l : MorphToMany) (relation : RelationName) (parent related : Model) : Except SchemaFault Migration := do
  let key := foreignKey related.className related.primaryName
  let type ←
    if parent.hasUuidKey then pure "uuidMorphs"
    else if parent.hasAutoIncrementKey then pure "morphs"
    else throw (.parentWithoutKey parent.key relation)
  let m := (Migration.ofTable l.table).addColumn key (pivotColumn key related)
  return { m.addColumn l.relationKey (.plain l.relationKey type) with fromGuessedPivot := true }

/-- The table that a relation needs for its pivots, none if a pivot model has it. -/
def pivotTable? (d : Draft) (owner : Model) (r : Relation) : Except SchemaFault (Option Migration) :=
  if r.link.pivot?.isSome then pure none
  else match r.link with
    | .belongsToMany l => return manyTable l owner (← d.model l.model)
    | .morphToMany l => return some (← morphsTable l ⟨owner.key, r.name⟩ owner (← d.model l.model))
    | .morphedByMany l => return some (← morphsTable l ⟨owner.key, r.name⟩ (← d.model l.model) owner)
    | _ => pure none

/-- The tables for the pivots of all relations, each with its relation. -/
def pivotTables (d : Draft) : Except SchemaFault (List (RelationName × Migration)) := do
  let tables ← d.models.values.mapM fun owner => owner.relations.values.mapM fun r =>
    return (← pivotTable? d owner r).toList.map fun m => ((⟨owner.key, r.name⟩ : RelationName), m)
  return tables.flatten.flatten

/-- Adds a table of pivots, unless the table is there. One that was made for another relation must have the same columns. -/
def addPivotTable (relation : RelationName) (m : Migration) (d : Draft) : Except SchemaFault Draft :=
  match d.migrations.get? m.table with
  | none => pure (addMigration d m)
  | some other =>
    if other.fromGuessedPivot && !other.columns.sameValues m.columns then throw (.pivotConflict m.table relation)
    else pure d

def Pass.pivotMigrations : Pass where
  name := "pivot-migrations"
  requires := [.modelMigrations]
  provides := .pivotMigrations
  body := do (← .inspect pivotTables).forM fun (relation, m) => .update (addPivotTable relation m)

end Schemata.Resolution
