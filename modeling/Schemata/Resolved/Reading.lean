import Schemata.Json.Reader
import Schemata.Resolved.Basic

/-!
Reading a resolved schema back from its JSON form. The fields of an object may stand in any order, and others beside them are
ignored; a field that may be absent may be left out. A value with parts may also be a list of its fields, all of them in
their order. Values that are kept as they are, or gathered before their meaning is known, may nest only so deep.
-/

namespace Schemata

open Schemata.Shorthand

namespace Json

/-- The values of named fields. One that is left out of an object is null. -/
def record? (names : List String) : Json → Option (String → Json)
  | obj fields => some (obj fields).fieldOrNull
  | arr items => if items.length = names.length then some fun name => ((names.zip items).lookup name).getD null else none
  | _ => none

/-- A name out of a fixed set, given alone or as the only field of an object, whose value is null. In a gathered value it
may also be an empty object. -/
def choice? (gathered : Bool) : Json → Option String
  | str name => some name
  | obj [(name, null)] => some name
  | obj [(name, obj [])] => if gathered then some name else none
  | _ => none

/-- Null, or a value that can be read. -/
def optional? {α : Type} (read : Json → Option α) : Json → Option (Option α)
  | null => some none
  | j => (read j).map some

def list? {α : Type} (read : Json → Option α) (j : Json) : Option (List α) := do
  (← j.arr?).mapM read

def strings? : Json → Option (List String) :=
  list? str?

/-- Texts in order, without those that stood before. -/
def distinct? (j : Json) : Option (List String) :=
  List.eraseDups <$> strings? j

def map? {α : Type} (read : Json → Option α) (j : Json) : Option (OrderedMap α) := do
  let entries ← (← j.obj?).mapM fun (k, v) => return (k, ← read v)
  return .ofList entries

def slots? {α : Type} (read : Json → Option α) (j : Json) : Option (Slots α) := do
  let entries ← (← j.obj?).mapM fun (k, v) => return (k, ← optional? read v)
  return .ofList entries

end Json

open Json

def Shorthand.Argument.ofJson? (gathered : Bool) (j : Json) : Option Argument := do
  let field ← j.record? ["kind", "value"]
  return ⟨← (choice? gathered (field "kind")).bind ArgumentKind.ofName?, ← (field "value").str?⟩

def Shorthand.Method.ofJson? (j : Json) : Option Method := do
  let field ← j.record? ["name", "arguments"]
  return ⟨← (field "name").str?, ← list? (Argument.ofJson? false) (field "arguments")⟩

def Shorthand.Call.ofJson? (j : Json) : Option Call :=
  Call.mk <$> list? Method.ofJson? j

def Column.ofJson? (j : Json) : Option Column := do
  let field ← j.record? ["name", "type", "arguments", "methods", "relation", "comment"]
  return {
    name := ← (field "name").str?
    type := ← (field "type").str?
    arguments := ← list? (Argument.ofJson? false) (field "arguments")
    methods := ← Call.ofJson? (field "methods")
    relation := ← optional? str? (field "relation")
    comment := ← optional? str? (field "comment") }

def Index.ofJson? (j : Json) : Option Index := do
  let field ← j.record? ["columns", "unique", "name"]
  return ⟨← strings? (field "columns"), ← (field "unique").bool?, ← optional? str? (field "name")⟩

def Migration.ofJson? (j : Json) : Option Migration := do
  let field ← j.record? ["table", "columns", "indexes", "primary", "comment", "fromGuessedPivot", "model"]
  return {
    table := ← (field "table").str?
    columns := ← map? Column.ofJson? (field "columns")
    indexes := ← list? Index.ofJson? (field "indexes")
    primary := ← optional? strings? (field "primary")
    comment := ← optional? str? (field "comment")
    fromGuessedPivot := ← (field "fromGuessedPivot").bool?
    model := ← optional? str? (field "model") }

def PrimaryKey.ofJson? (j : Json) : Option PrimaryKey := do
  let field ← j.record? ["using", "column", "type", "incrementing"]
  return {
    builder := ← (field "using").str?
    column := ← (field "column").str?
    type := ← (choice? false (field "type")).bind KeyType.ofName?
    incrementing := ← (field "incrementing").bool? }

def Timestamps.ofJson? (j : Json) : Option Timestamps := do
  let field ← j.record? ["created_at", "updated_at"]
  return ⟨← (field "created_at").str?, ← (field "updated_at").str?⟩

def SoftDelete.ofJson? (j : Json) : Option SoftDelete := do
  let field ← j.record? ["column"]
  return ⟨← (field "column").str?⟩

/-! ### Relations -/

/-- The kinds in the order in which a number may stand for them. -/
def numberedKinds : List RelationKind :=
  [.belongsTo, .belongsToMany, .hasOne, .hasMany, .hasOneThrough, .hasManyThrough, .morphTo, .morphOne, .morphMany,
   .morphToMany, .morphedByMany]

def RelationKind.ofJson? : Json → Option RelationKind
  | .str name => RelationKind.ofKeyword? name
  | .int n => if 0 ≤ n then numberedKinds[n.toNat]? else none
  | _ => none

namespace Link

variable (field : String → Json)

def belongsTo? : Option BelongsTo :=
  return ⟨← (field "model").str?, ← (field "columnKey").str?, ← optional? str? (field "ownerKey")⟩

def hasOneOrMany? : Option HasOneOrMany :=
  return ⟨← (field "model").str?, ← (field "foreignKey").str?, ← optional? str? (field "localKey")⟩

def through? : Option Through :=
  return {
    model := ← (field "model").str?
    through := ← (field "through").str?
    firstKey := ← optional? str? (field "firstKey")
    secondKey := ← optional? str? (field "secondKey") }

def belongsToMany? : Option BelongsToMany :=
  return {
    model := ← (field "model").str?
    pivot := ← optional? str? (field "using")
    table := ← (field "table").str?
    foreignPivotKey := ← (field "foreignPivotKey").str?
    relatedPivotKey := ← (field "relatedPivotKey").str?
    withPivot := ← list? (Argument.ofJson? true) (field "withPivot") }

def morphTo? : Option MorphTo :=
  return ⟨← strings? (field "models"), ← (field "columnName").str?, ← (field "nullable").bool?⟩

def morphOneOrMany? : Option MorphOneOrMany :=
  return ⟨← (field "model").str?, ← (field "relationKey").str?⟩

def morphToMany? : Option MorphToMany :=
  return {
    model := ← (field "model").str?
    relationKey := ← (field "relationKey").str?
    pivot := ← optional? str? (field "using")
    table := ← (field "table").str?
    withPivot := ← list? (Argument.ofJson? true) (field "withPivot") }

/-- The link of a kind, from its fields. -/
def ofFields? : RelationKind → Option Link
  | .belongsTo => .belongsTo <$> belongsTo? field
  | .belongsToMany => .belongsToMany <$> belongsToMany? field
  | .hasOne => .hasOne <$> hasOneOrMany? field
  | .hasMany => .hasMany <$> hasOneOrMany? field
  | .hasOneThrough => .hasOneThrough <$> through? field
  | .hasManyThrough => .hasManyThrough <$> through? field
  | .morphTo => .morphTo <$> morphTo? field
  | .morphOne => .morphOne <$> morphOneOrMany? field
  | .morphMany => .morphMany <$> morphOneOrMany? field
  | .morphToMany => .morphToMany <$> morphToMany? field
  | .morphedByMany => .morphedByMany <$> morphToMany? field

end Link

/-- How many containers stand around a field of a relation. -/
def depthInRelation : Nat := 5

/-- A relation is an object, which holds the fields of its link too. All but its own two fields are gathered. -/
def Relation.ofJson? (j : Json) : Option Relation := do
  let gathered := (← j.obj?).filter fun (name, _) => name ≠ "name" ∧ name ≠ "methods"
  guard (gathered.all (·.2.mayKeep depthInRelation))
  let kind ← RelationKind.ofJson? (j.fieldOrNull "type")
  return {
    name := ← (j.fieldOrNull "name").str?
    methods := ← Call.ofJson? (j.fieldOrNull "methods")
    link := ← Link.ofFields? j.fieldOrNull kind }

/-! ### Models and artifacts -/

/-- Named states, whose values stand inside `above` containers. The objects inside the values are sorted. -/
def states? (above : Nat) : Json → Option (OrderedMap (OrderedMap Json)) :=
  map? (map? fun j => if j.mayKeep above then some j.sorted else none)

/-- How many containers stand around a value in a state of a model. -/
def depthInModelState : Nat := 5

/-- How many containers stand around a value in a state of a factory. -/
def depthInFactoryState : Nat := 6

/-- How many containers stand around a factory field. -/
def depthInFactory : Nat := 5

def modelFields : List String :=
  ["key", "class", "namespace", "path", "table", "modelType", "columns", "relations", "primary", "timestamps",
   "softDelete", "fillable", "hidden", "append", "casts", "eager", "indexes", "routeKey", "localScopes", "globalScopes",
   "traits", "quickTraits", "quickCasts", "factory", "factoryStates", "observer", "seeder", "migration", "autoId"]

def Model.ofJson? (j : Json) : Option Model := do
  let field ← j.record? modelFields
  return {
    key := ← (field "key").str?
    className := ← (field "class").str?
    namespaceName := ← (field "namespace").str?
    path := ← (field "path").str?
    table := ← (field "table").str?
    type := ← (choice? false (field "modelType")).bind ModelType.ofName?
    columns := ← slots? Column.ofJson? (field "columns")
    relations := ← slots? Relation.ofJson? (field "relations")
    primary := ← optional? PrimaryKey.ofJson? (field "primary")
    timestamps := ← optional? Timestamps.ofJson? (field "timestamps")
    softDelete := ← optional? SoftDelete.ofJson? (field "softDelete")
    fillable := ← distinct? (field "fillable")
    hidden := ← distinct? (field "hidden")
    append := ← distinct? (field "append")
    casts := ← map? str? (field "casts")
    eager := ← strings? (field "eager")
    indexes := ← list? Index.ofJson? (field "indexes")
    routeKey := ← optional? str? (field "routeKey")
    localScopes := ← strings? (field "localScopes")
    globalScopes := ← strings? (field "globalScopes")
    traits := ← strings? (field "traits")
    quickTraits := ← strings? (field "quickTraits")
    quickCasts := ← strings? (field "quickCasts")
    factory := ← (field "factory").bool?
    factoryStates := ← states? depthInModelState (field "factoryStates")
    observer := ← (field "observer").bool?
    seeder := ← (field "seeder").bool?
    migration := ← (field "migration").bool?
    autoId := ← (field "autoId").bool? }

/-- A factory field of a kind, from the field that holds its text. -/
def FactoryField.ofKind? : String → Option (String × (String → FactoryField))
  | "faker" => some ("provider", .faker)
  | "related" => some ("model", .related)
  | "expression" => some ("value", .expression)
  | _ => none

/-- A factory field is gathered before its kind is known. -/
def FactoryField.ofJson? (j : Json) : Option FactoryField := do
  guard (j.mayKeep depthInFactory)
  match j with
  | .arr [kind, value] =>
    let (_, make) ← ofKind? (← kind.str?)
    return make (← value.str?)
  | .obj _ =>
    let (name, make) ← ofKind? (← (j.fieldOrNull "kind").str?)
    return make (← (j.fieldOrNull name).str?)
  | _ => none

def FactoryDefinition.ofJson? (j : Json) : Option FactoryDefinition := do
  let field ← j.record? ["model", "fields", "states"]
  return ⟨← (field "model").str?, ← map? FactoryField.ofJson? (field "fields"), ← states? depthInFactoryState (field "states")⟩

def Artifacts.ofJson? (j : Json) : Option Artifacts := do
  let field ← j.record? ["observers", "seeders", "globalScopes", "quickTraits", "quickCasts", "factories"]
  return {
    observers := ← strings? (field "observers")
    seeders := ← strings? (field "seeders")
    globalScopes := ← map? strings? (field "globalScopes")
    quickTraits := ← distinct? (field "quickTraits")
    quickCasts := ← distinct? (field "quickCasts")
    factories := ← map? FactoryDefinition.ofJson? (field "factories") }

namespace Resolved

def ofJson? (j : Json) : Option Resolved := do
  let field ← j.record? ["namespace", "models", "migrations", "artifacts"]
  return {
    namespaceName := ← (field "namespace").str?
    models := ← map? Model.ofJson? (field "models")
    migrations := ← map? Migration.ofJson? (field "migrations")
    artifacts := ← Artifacts.ofJson? (field "artifacts") }

/-- Reads the JSON text of a resolved schema. -/
def ofText? (text : String) : Option Resolved := do
  ofJson? (← Json.parse text)

end Resolved

end Schemata
