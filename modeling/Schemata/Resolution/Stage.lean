/-!
The stages of resolution. A stage says what is known of a schema once a pass has completed it.
-/

namespace Schemata.Resolution

inductive Stage
  /-- Every model has a declaration with a mapping of columns. -/
  | quickModels
  /-- Every model has its class, its file and its table. -/
  | modelShells
  /-- Every relation has its place. -/
  | relationReservations
  /-- Every column that is no key of a relation is there. -/
  | columns
  | belongsTo
  | belongsToMany
  | hasOneOrMany
  | hasOneOrManyThrough
  | morphTo
  | morphOneOrMany
  | morphToMany
  /-- Every pivot model has the relations that its users need. -/
  | pivotModels
  /-- Every `morphTo` relation has its columns. -/
  | morphColumns
  | modelAttributes
  /-- No place is left empty. -/
  | modelsFinalized
  | explicitMigrations
  | modelMigrations
  | pivotMigrations
  | artifacts
  deriving Repr, DecidableEq, Inhabited

namespace Stage

/-- All stages, in the order in which they are completed. -/
def all : List Stage :=
  [quickModels, modelShells, relationReservations, columns, belongsTo, belongsToMany, hasOneOrMany, hasOneOrManyThrough,
   morphTo, morphOneOrMany, morphToMany, pivotModels, morphColumns, modelAttributes, modelsFinalized, explicitMigrations,
   modelMigrations, pivotMigrations, artifacts]

/-- The name of the stage in messages. -/
def name : Stage → String
  | quickModels => "QuickModels"
  | modelShells => "ModelShells"
  | relationReservations => "RelationReservations"
  | columns => "Columns"
  | belongsTo => "BelongsTo"
  | belongsToMany => "BelongsToMany"
  | hasOneOrMany => "HasOneOrMany"
  | hasOneOrManyThrough => "HasOneOrManyThrough"
  | morphTo => "MorphTo"
  | morphOneOrMany => "MorphOneOrMany"
  | morphToMany => "MorphToMany"
  | pivotModels => "PivotModels"
  | morphColumns => "MorphColumns"
  | modelAttributes => "ModelAttributes"
  | modelsFinalized => "ModelsFinalized"
  | explicitMigrations => "ExplicitMigrations"
  | modelMigrations => "ModelMigrations"
  | pivotMigrations => "PivotMigrations"
  | artifacts => "Artifacts"

end Stage

end Schemata.Resolution
