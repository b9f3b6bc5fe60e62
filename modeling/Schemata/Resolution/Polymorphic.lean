import Schemata.Resolution.ManyToMany

/-!
Relations to parents of more than one model. A `morphTo` starts without parents; the models that point at it become its
parents; and once all are known, the kind of their keys decides the type of its columns.
-/

namespace Schemata.Resolution

open Schemata.Shorthand

/-! ### Pointing at a parent of any model -/

/-- Resolves a `morphTo`, which has no parents yet. -/
def resolveMorphTo (line : DeclaredRelation) (d : Draft) : Draft :=
  d.resolveRelation line (.morphTo ⟨[], (line.argument? 0).getD line.name, line.columnMethods.has "nullable"⟩)

def Pass.morphTo : Pass where
  name := "morph-to"
  requires := [.columns]
  provides := .morphTo
  body := do (← .inspect (·.declaredRelations .morphTo)).forM fun line => modify (resolveMorphTo line)

/-- The `morphTo` of the target that a line is bound to: the one that it names, or the only one. -/
def boundMorphTo (line : DeclaredRelation) (target : Model) : Except SchemaFault String :=
  match line.argument? 1 with
  | some name =>
    if ((target.relation? name).bind Relation.morphTo?).isSome then pure name
    else throw (.missingMorphTo line.relation name target.key)
  | none =>
    match target.morphToRelations with
    | [(only, _)] => pure only.name
    | [] => throw (.noMorphTo target.key line.relation)
    | _ => throw (.manyMorphTos target.key line.relation)

/-- Resolves a `morphOne` or `morphMany`, whose model becomes a parent. -/
def resolveMorphOne (line : DeclaredRelation) (d : Draft) : Except SchemaFault Draft := do
  let target ← d.target line
  let relationKey ← boundMorphTo line (← d.model target)
  let link : MorphOneOrMany := ⟨target, relationKey⟩
  return (d.modifyRelation target relationKey (Relation.mapMorphTo (·.addModel line.model))).resolveRelation line
    (if line.kind = .morphOne then .morphOne link else .morphMany link)

def Pass.morphOneOrMany : Pass where
  name := "morph-one-or-many"
  requires := [.morphTo]
  provides := .morphOneOrMany
  body := do (← .inspect (·.declaredRelationsOf .morphOne .morphMany)).forM fun line => .update (resolveMorphOne line)

/-! ### The columns of a pointer -/

/-- How the rows of a model are told apart: by a number that the database assigns, or by a UUID. -/
structure KeyShape where
  incrementing : Bool
  uuid : Bool
  deriving Repr, DecidableEq, Inhabited

def KeyShape.of (m : Model) : KeyShape :=
  ⟨m.hasAutoIncrementKey, m.hasUuidKey⟩

/-- Whether the key is one that a pointer can hold. -/
def KeyShape.isUsable (s : KeyShape) : Bool :=
  s.incrementing || s.uuid

/-- The shape that the keys of all parents have in common. -/
def commonShape? : List Model → Option KeyShape
  | [] => none
  | m :: rest =>
    let shape := KeyShape.of m
    if shape.isUsable && rest.all (KeyShape.of · = shape) then some shape else none

/-- The type of the column pair of a pointer. -/
def morphType (nullable uuid : Bool) : String :=
  match nullable, uuid with
  | true, true => "nullableUuidMorphs"
  | true, false => "nullableMorphs"
  | false, true => "uuidMorphs"
  | false, false => "morphs"

/-- The column pair of a `morphTo`, with the qualifiers of its line. Whether it may be null is in its type. -/
def morphColumn (relation : String) (link : MorphTo) (shape : KeyShape) (qualifiers : Call) : Column :=
  let call := .single (morphType link.nullable shape.uuid) [] ++ qualifiers.removeAll "nullable"
  (Column.ofCall link.columnName call).forRelation relation

/-- Fills the place of the columns of a `morphTo`. It must have parents, and their keys must be alike. -/
def resolveMorphColumns (key relation : String) (link : MorphTo) (d : Draft) : Except SchemaFault Draft := do
  if link.models.isEmpty then throw (.morphToWithoutParents ⟨key, relation⟩)
  let parents ← link.models.mapM d.model
  match commonShape? parents with
  | none => throw (.mixedParents link.models ⟨key, relation⟩)
  | some shape =>
    let qualifiers := (← d.declaredRelation? key relation).elim .empty (·.columnMethods)
    let column := morphColumn relation link shape qualifiers
    return d.modifyModel key fun m => { m with columns := m.columns.resolve relation column }

def Pass.morphColumns : Pass where
  name := "morph-columns"
  requires := [.morphOneOrMany, .morphToMany, .pivotModels]
  provides := .morphColumns
  body := do
    (← get).models.values.forM fun m => m.morphToRelations.forM fun (r, link) =>
      .update (resolveMorphColumns m.key r.name link)

end Schemata.Resolution
