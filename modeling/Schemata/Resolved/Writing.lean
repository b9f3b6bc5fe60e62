import Schemata.Json.Printer
import Schemata.Resolved.Basic

/-!
The JSON form of a resolved schema. A value with parts is an object with its fields in a fixed order, what is absent is null,
and a map is an object in the order of the map.
-/

namespace Schemata

open Schemata.Shorthand

def OrderedMap.toJson {α : Type} (f : α → Json) (m : OrderedMap α) : Json :=
  .obj (m.entries.map fun (k, v) => (k, f v))

/-- A map with places; an empty one is null. -/
def Slots.toJson {α : Type} (f : α → Json) (s : Slots α) : Json :=
  .obj (s.toList.map fun (k, v) => (k, .opt f v))

def Shorthand.Argument.toJson (a : Argument) : Json :=
  .obj [("kind", .str a.kind.name), ("value", .str a.value)]

def Shorthand.Method.toJson (m : Method) : Json :=
  .obj [("name", .str m.name), ("arguments", .list Argument.toJson m.arguments)]

def Shorthand.Call.toJson (c : Call) : Json :=
  .list Method.toJson c.methods

def Column.toJson (c : Column) : Json :=
  .obj
    [("name", .str c.name), ("type", .str c.type), ("arguments", .list Argument.toJson c.arguments),
     ("methods", c.methods.toJson), ("relation", .opt .str c.relation), ("comment", .opt .str c.comment)]

def Index.toJson (i : Index) : Json :=
  .obj [("columns", .strings i.columns), ("unique", .bool i.unique), ("name", .opt .str i.name)]

def Migration.toJson (m : Migration) : Json :=
  .obj
    [("table", .str m.table), ("columns", m.columns.toJson Column.toJson), ("indexes", .list Index.toJson m.indexes),
     ("primary", .opt .strings m.primary), ("comment", .opt .str m.comment),
     ("fromGuessedPivot", .bool m.fromGuessedPivot), ("model", .opt .str m.model)]

def PrimaryKey.toJson (k : PrimaryKey) : Json :=
  .obj
    [("using", .str k.builder), ("column", .str k.column), ("type", .str k.type.name),
     ("incrementing", .bool k.incrementing)]

def Timestamps.toJson (t : Timestamps) : Json :=
  .obj [("created_at", .str t.createdAt), ("updated_at", .str t.updatedAt)]

def SoftDelete.toJson (s : SoftDelete) : Json :=
  .obj [("column", .str s.column)]

/-! ### Relations -/

def BelongsTo.fields (l : BelongsTo) : List (String × Json) :=
  [("model", .str l.model), ("columnKey", .str l.columnKey), ("ownerKey", .opt .str l.ownerKey)]

def HasOneOrMany.fields (l : HasOneOrMany) : List (String × Json) :=
  [("model", .str l.model), ("foreignKey", .str l.foreignKey), ("localKey", .opt .str l.localKey)]

def Through.fields (l : Through) : List (String × Json) :=
  [("model", .str l.model), ("through", .str l.through), ("firstKey", .opt .str l.firstKey),
   ("secondKey", .opt .str l.secondKey)]

def BelongsToMany.fields (l : BelongsToMany) : List (String × Json) :=
  [("model", .str l.model), ("using", .opt .str l.pivot), ("table", .str l.table),
   ("foreignPivotKey", .str l.foreignPivotKey), ("relatedPivotKey", .str l.relatedPivotKey),
   ("withPivot", .list Argument.toJson l.withPivot)]

def MorphTo.fields (l : MorphTo) : List (String × Json) :=
  [("models", .strings l.models), ("columnName", .str l.columnName), ("nullable", .bool l.nullable)]

def MorphOneOrMany.fields (l : MorphOneOrMany) : List (String × Json) :=
  [("model", .str l.model), ("relationKey", .str l.relationKey)]

def MorphToMany.fields (l : MorphToMany) : List (String × Json) :=
  [("model", .str l.model), ("relationKey", .str l.relationKey), ("using", .opt .str l.pivot), ("table", .str l.table),
   ("withPivot", .list Argument.toJson l.withPivot)]

def Link.fields : Link → List (String × Json)
  | .belongsTo l => l.fields
  | .belongsToMany l => l.fields
  | .hasOne l | .hasMany l => l.fields
  | .hasOneThrough l | .hasManyThrough l => l.fields
  | .morphTo l => l.fields
  | .morphOne l | .morphMany l => l.fields
  | .morphToMany l | .morphedByMany l => l.fields

/-- A relation, with the fields of its link beside its own. -/
def Relation.toJson (r : Relation) : Json :=
  .obj ([("name", .str r.name), ("methods", r.methods.toJson), ("type", .str r.kind.keyword)] ++ r.link.fields)

/-! ### Models and artifacts -/

/-- Named states, each a map of values. -/
def statesToJson (states : OrderedMap (OrderedMap Json)) : Json :=
  states.toJson (·.toJson id)

def Model.toJson (m : Model) : Json :=
  .obj
    [("key", .str m.key), ("class", .str m.className), ("namespace", .str m.namespaceName), ("path", .str m.path),
     ("table", .str m.table), ("modelType", .str m.type.name), ("columns", m.columns.toJson Column.toJson),
     ("relations", m.relations.toJson Relation.toJson), ("primary", .opt PrimaryKey.toJson m.primary),
     ("timestamps", .opt Timestamps.toJson m.timestamps), ("softDelete", .opt SoftDelete.toJson m.softDelete),
     ("fillable", .strings m.fillable), ("hidden", .strings m.hidden), ("append", .strings m.append),
     ("casts", m.casts.toJson .str), ("eager", .strings m.eager), ("indexes", .list Index.toJson m.indexes),
     ("routeKey", .opt .str m.routeKey), ("localScopes", .strings m.localScopes),
     ("globalScopes", .strings m.globalScopes), ("traits", .strings m.traits), ("quickTraits", .strings m.quickTraits),
     ("quickCasts", .strings m.quickCasts), ("factory", .bool m.factory), ("factoryStates", statesToJson m.factoryStates),
     ("observer", .bool m.observer), ("seeder", .bool m.seeder), ("migration", .bool m.migration),
     ("autoId", .bool m.autoId)]

def FactoryField.toJson : FactoryField → Json
  | faker provider => .obj [("kind", .str "faker"), ("provider", .str provider)]
  | related model => .obj [("kind", .str "related"), ("model", .str model)]
  | expression value => .obj [("kind", .str "expression"), ("value", .str value)]

def FactoryDefinition.toJson (d : FactoryDefinition) : Json :=
  .obj [("model", .str d.model), ("fields", d.fields.toJson FactoryField.toJson), ("states", statesToJson d.states)]

def Artifacts.toJson (a : Artifacts) : Json :=
  .obj
    [("observers", .strings a.observers), ("seeders", .strings a.seeders), ("globalScopes", a.globalScopes.toJson .strings),
     ("quickTraits", .strings a.quickTraits), ("quickCasts", .strings a.quickCasts),
     ("factories", a.factories.toJson FactoryDefinition.toJson)]

namespace Resolved

def toJson (s : Resolved) : Json :=
  .obj
    [("namespace", .str s.namespaceName), ("models", s.models.toJson Model.toJson),
     ("migrations", s.migrations.toJson Migration.toJson), ("artifacts", s.artifacts.toJson)]

/-- The indented JSON text of a resolved schema. -/
def toText (s : Resolved) : String :=
  s.toJson.pretty

end Resolved

end Schemata
