import Schemata.Resolution.Pass

/-!
Relations whose rows are linked through a table of their own, which may be that of a pivot model. A pivot model changes its
type, gives up a key that was added to it, and must belong to the models that it links.
-/

namespace Schemata.Resolution

open Schemata.Convention

/-- The pivot model that a relation line names. -/
def pivotModel? (line : DeclaredRelation) (d : Draft) : Except SchemaFault (Option String) :=
  match line.pivot with
  | none => pure none
  | some reference =>
    match d.findModel? reference with
    | some key => pure (some key)
    | none => throw (.missingPivot line.relation reference)

/-- Finds the pivot model of a relation line, and gives it a type. -/
def claimPivot (line : DeclaredRelation) (type : ModelType) : Resolve (Option String) := do
  let pivot ← .inspect (pivotModel? line)
  -- The type stays even if the line turns out to be faulty.
  match pivot with
  | some key => modify (·.modifyModel key ({ · with type }))
  | none => pure ()
  return pivot

/-! ### Linking two models -/

/-- The link of a `belongsToMany`. Table and keys follow from the names of both sides unless they are given. -/
def manyLink (d : Draft) (line : DeclaredRelation) (target : Model) (pivot : Option String) :
    Except SchemaFault BelongsToMany := do
  let owner ← d.model line.model
  let table ← match line.argument? 1, pivot with
    | some table, _ => pure table
    | none, some key => (·.table) <$> d.model key
    | none, none => pure (pivotTable owner.className target.className)
  let foreignPivotKey := (line.argument? 2).getD (foreignKey owner.className owner.primaryName)
  let relatedPivotKey := (line.argument? 3).getD (foreignKey target.className target.primaryName)
  if foreignPivotKey = relatedPivotKey then throw (.equalPivotKeys line.relation foreignPivotKey)
  return { model := target.key, pivot, table, foreignPivotKey, relatedPivotKey, withPivot := line.withPivot }

def resolveMany (line : DeclaredRelation) : Resolve Unit := do
  let target ← .inspect (·.target line)
  let pivot ← claimPivot line .pivot
  .update fun d => return d.resolveRelation line (.belongsToMany (← manyLink d line (← d.model target) pivot))

def Pass.belongsToMany : Pass where
  name := "belongs-to-many"
  requires := [.columns]
  provides := .belongsToMany
  body := do (← .inspect (·.declaredRelations .belongsToMany)).forM resolveMany

/-! ### Linking a model to parents of any kind -/

/-- The model that may be replaced by others, and the other one. -/
def morphSides (line : DeclaredRelation) (target : String) : String × String :=
  if line.kind = .morphToMany then (line.model, target) else (target, line.model)

/-- Adds a parent to the first `morphTo` relation whose columns have the given name. -/
def addParent (columnName parent : String) (m : Model) : Model :=
  match m.relations.resolved.find? fun (_, r) => r.morphTo?.any (·.columnName == columnName) with
  | some (key, _) => { m with relations := m.relations.modify key (Relation.mapMorphTo (·.addModel parent)) }
  | none => m

/-- Resolves a relation to or from many parents. A pivot model learns of the parent. -/
def linkMorphs (line : DeclaredRelation) (target : String) (pivot : Option String) (d : Draft) : Except SchemaFault Draft := do
  let (parent, related) := morphSides line target
  let relationKey ← match line.argument? 1 with
    | some name => pure name
    | none => (morphName ·.className) <$> d.model related
  let table ← match pivot with
    | some key => (·.table) <$> d.model key
    | none => pure (morphTable relationKey)
  let d := pivot.elim d fun key => d.modifyModel key (addParent relationKey parent)
  let link : MorphToMany := { model := target, relationKey, pivot, table, withPivot := line.withPivot }
  return d.resolveRelation line (if line.kind = .morphToMany then .morphToMany link else .morphedByMany link)

def resolveMorphs (line : DeclaredRelation) : Resolve Unit := do
  let target ← .inspect (·.target line)
  let pivot ← claimPivot line .morphPivot
  .update (linkMorphs line target pivot)

def Pass.morphToMany : Pass where
  name := "morph-to-many"
  requires := [.morphTo]
  provides := .morphToMany
  body := do (← .inspect (·.declaredRelationsOf .morphToMany .morphedByMany)).forM resolveMorphs

/-! ### Pivot models -/

/-- Takes the key that was added to a pivot model away again. -/
def dropAddedKey (m : Model) : Model :=
  if m.isPivot && m.autoId then { m with columns := m.columns.erase "id", primary := none } else m

/-- The models that the pivot model of a relation must belong to. -/
def pivotSides (owner : String) : Link → List String
  | .belongsToMany l => [owner, l.model]
  | .morphToMany l => [l.model]
  | .morphedByMany _ => [owner]
  | _ => []

/-- Whether the pivot model of a relation must have a `morphTo`. -/
def needsMorphTo : Link → Bool
  | .morphToMany _ | .morphedByMany _ => true
  | _ => false

/-- Checks the pivot model of a relation. -/
def checkPivot (d : Draft) (owner : String) (r : Relation) : Except SchemaFault Unit :=
  match r.link.pivot? with
  | none => pure ()
  | some key => do
    let pivot ← d.model key
    if needsMorphTo r.link && pivot.morphToRelations.isEmpty then throw (.pivotWithoutMorphTo key ⟨owner, r.name⟩)
    (pivotSides owner r.link).forM fun side =>
      if (pivot.belongsTo? side).isNone then throw (.pivotWithoutBelongsTo key ⟨owner, r.name⟩ side) else pure ()

/-- Checks the pivot models of all relations. -/
def checkPivots (d : Draft) : Except SchemaFault Unit :=
  d.models.values.forM fun m => m.relations.values.forM fun r => checkPivot d m.key r

def Pass.pivotModels : Pass where
  name := "pivot-models"
  requires := [.belongsToMany, .morphToMany]
  provides := .pivotModels
  body := do
    modify fun d => { d with models := d.models.mapEntries fun _ m => dropAddedKey m }
    .inspect checkPivots

end Schemata.Resolution
