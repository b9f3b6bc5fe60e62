import Schemata.Relation.Kind
import Schemata.Shorthand.Call

/-!
Resolved relations. A link says which models and columns a relation joins; models are given by their keys alone.
-/

namespace Schemata

open Schemata.Shorthand

structure BelongsTo where
  model : String
  /-- The local key column. -/
  columnKey : String
  ownerKey : Option String
  deriving Repr, DecidableEq, Inhabited

/-- The link of `hasOne` and `hasMany`. -/
structure HasOneOrMany where
  model : String
  /-- The key column on the related model. -/
  foreignKey : String
  localKey : Option String
  deriving Repr, DecidableEq, Inhabited

/-- The link of `hasOneThrough` and `hasManyThrough`. -/
structure Through where
  model : String
  through : String
  firstKey : Option String
  secondKey : Option String
  deriving Repr, DecidableEq, Inhabited

structure BelongsToMany where
  model : String
  /-- The pivot model, if one is declared. -/
  pivot : Option String
  table : String
  foreignPivotKey : String
  relatedPivotKey : String
  withPivot : List Argument
  deriving Repr, DecidableEq, Inhabited

structure MorphTo where
  /-- The models that point at this relation. -/
  models : List String
  /-- The common start of the names of its two columns. -/
  columnName : String
  nullable : Bool
  deriving Repr, DecidableEq, Inhabited

/-- Adds a model that points at the relation, once. -/
def MorphTo.addModel (m : MorphTo) (model : String) : MorphTo :=
  if m.models.contains model then m else { m with models := m.models ++ [model] }

/-- The link of `morphOne` and `morphMany`. -/
structure MorphOneOrMany where
  model : String
  /-- The name of the `morphTo` relation on the related model. -/
  relationKey : String
  deriving Repr, DecidableEq, Inhabited

/-- The link of `morphToMany` and `morphedByMany`. -/
structure MorphToMany where
  model : String
  /-- The morph name, such as `taggable`. -/
  relationKey : String
  pivot : Option String
  table : String
  withPivot : List Argument
  deriving Repr, DecidableEq, Inhabited

inductive Link
  | belongsTo (link : BelongsTo)
  | belongsToMany (link : BelongsToMany)
  | hasOne (link : HasOneOrMany)
  | hasMany (link : HasOneOrMany)
  | hasOneThrough (link : Through)
  | hasManyThrough (link : Through)
  | morphTo (link : MorphTo)
  | morphOne (link : MorphOneOrMany)
  | morphMany (link : MorphOneOrMany)
  | morphToMany (link : MorphToMany)
  | morphedByMany (link : MorphToMany)
  deriving Repr, DecidableEq, Inhabited

namespace Link

def kind : Link → RelationKind
  | belongsTo _ => .belongsTo
  | belongsToMany _ => .belongsToMany
  | hasOne _ => .hasOne
  | hasMany _ => .hasMany
  | hasOneThrough _ => .hasOneThrough
  | hasManyThrough _ => .hasManyThrough
  | morphTo _ => .morphTo
  | morphOne _ => .morphOne
  | morphMany _ => .morphMany
  | morphToMany _ => .morphToMany
  | morphedByMany _ => .morphedByMany

/-- The related model; `morphTo` has no single one. -/
def model? : Link → Option String
  | belongsTo l => some l.model
  | belongsToMany l => some l.model
  | hasOne l | hasMany l => some l.model
  | hasOneThrough l | hasManyThrough l => some l.model
  | morphTo _ => none
  | morphOne l | morphMany l => some l.model
  | morphToMany l | morphedByMany l => some l.model

/-- The declared pivot model. -/
def pivot? : Link → Option String
  | belongsToMany l => l.pivot
  | morphToMany l | morphedByMany l => l.pivot
  | _ => none

/-- The further pivot columns that are loaded. -/
def withPivot : Link → List Argument
  | belongsToMany l => l.withPivot
  | morphToMany l | morphedByMany l => l.withPivot
  | _ => []

end Link

structure Relation where
  name : String
  /-- The qualifiers chained onto the relation call. -/
  methods : Call
  link : Link
  deriving Repr, DecidableEq, Inhabited

namespace Relation

def kind (r : Relation) : RelationKind :=
  r.link.kind

def belongsTo? (r : Relation) : Option BelongsTo :=
  match r.link with
  | .belongsTo l => some l
  | _ => none

def morphTo? (r : Relation) : Option MorphTo :=
  match r.link with
  | .morphTo l => some l
  | _ => none

/-- Changes the link of a `morphTo` relation and leaves others alone. -/
def mapMorphTo (f : MorphTo → MorphTo) (r : Relation) : Relation :=
  match r.link with
  | .morphTo l => { r with link := .morphTo (f l) }
  | _ => r

/-- Whether the relation is a `belongsTo` that points at a model. -/
def belongsToModel (r : Relation) (model : String) : Bool :=
  r.belongsTo?.any (·.model == model)

end Relation

end Schemata
