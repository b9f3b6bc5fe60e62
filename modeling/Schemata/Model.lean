import Schemata.Slots
import Schemata.Json.Basic
import Schemata.Relation.Link
import Schemata.Table.Migration
import Schemata.Table.PrimaryKey

/-!
Models: the entities of a schema, each with its class, its table, its columns and its relations. A model refers to another
by key alone.
-/

namespace Schemata

/-- The family of classes that a model's class extends. -/
inductive ModelType
  | plain
  | user
  | pivot
  | morphPivot
  deriving Repr, DecidableEq, Inhabited

namespace ModelType

def all : List ModelType :=
  [plain, user, pivot, morphPivot]

def name : ModelType → String
  | plain => "model"
  | user => "user"
  | pivot => "pivot"
  | morphPivot => "morphPivot"

def ofName? (name : String) : Option ModelType :=
  all.find? (·.name == name)

/-- The class that the model's class extends. -/
def baseClass : ModelType → String
  | plain => "Illuminate\\Database\\Eloquent\\Model"
  | user => "Illuminate\\Foundation\\Auth\\User"
  | pivot => "Illuminate\\Database\\Eloquent\\Relations\\Pivot"
  | morphPivot => "Illuminate\\Database\\Eloquent\\Relations\\MorphPivot"

def isPivot (t : ModelType) : Bool :=
  [pivot, morphPivot].contains t

end ModelType

structure Model where
  key : String
  className : String
  namespaceName : String
  /-- The file that holds the class. -/
  path : String
  table : String
  type : ModelType
  /-- Columns under their declared keys; the key column of a relation stands under the relation's name. -/
  columns : Slots Column
  relations : Slots Relation
  primary : Option PrimaryKey
  timestamps : Option Timestamps
  softDelete : Option SoftDelete
  fillable : List String
  hidden : List String
  append : List String
  casts : OrderedMap String
  /-- Paths of relations that are always loaded. -/
  eager : List String
  indexes : List Index
  routeKey : Option String
  localScopes : List String
  globalScopes : List String
  traits : List String
  /-- Traits without a namespace, which need a file. -/
  quickTraits : List String
  /-- Cast classes without a namespace, which need a file. -/
  quickCasts : List String
  factory : Bool
  factoryStates : OrderedMap (OrderedMap Json)
  observer : Bool
  seeder : Bool
  /-- Whether the model's table has a migration of its own. -/
  migration : Bool
  /-- The `id` column was added, not declared. -/
  autoId : Bool
  deriving Inhabited

namespace Model

/-- A model that has an identity and a table, and nothing else yet. -/
def shell (key className namespaceName path table : String) : Model where
  key := key
  className := className
  namespaceName := namespaceName
  path := path
  table := table
  type := .plain
  columns := .empty
  relations := .empty
  primary := none
  timestamps := none
  softDelete := none
  fillable := []
  hidden := []
  append := []
  casts := .empty
  eager := []
  indexes := []
  routeKey := none
  localScopes := []
  globalScopes := []
  traits := []
  quickTraits := []
  quickCasts := []
  factory := true
  factoryStates := .empty
  observer := false
  seeder := false
  migration := true
  autoId := false

/-- The class name with its namespace. -/
def qualifiedClass (m : Model) : String :=
  m.namespaceName ++ "\\" ++ m.className

def isPivot (m : Model) : Bool :=
  m.type.isPivot

/-! ### Keys and columns -/

def hasPrimaryKey (m : Model) : Bool :=
  m.primary.isSome

def hasAutoIncrementKey (m : Model) : Bool :=
  m.primary.any (·.incrementing)

def hasUuidKey (m : Model) : Bool :=
  m.primary.any (·.isUuid)

/-- The column of a physical name. -/
def columnNamed? (m : Model) (name : String) : Option Column :=
  m.columns.values.find? (·.name == name)

/-- The column that makes the primary key. -/
def primaryColumn? (m : Model) : Option Column :=
  m.primary.bind (m.columnNamed? ·.column)

/-- The name of the primary key's column, `id` if there is no key. -/
def primaryName (m : Model) : String :=
  m.primary.elim "id" (·.column)

/-- The physical columns of all columns that are there. -/
def physicalNames (m : Model) : List String :=
  m.columns.values.flatMap Column.physicalNames

def hasPhysicalColumn (m : Model) (name : String) : Bool :=
  m.columns.values.any (·.physicalNames.contains name)

/-- The type method, with its arguments, of a column that refers to the model's primary key. -/
def foreignMethod (m : Model) : String × List Shorthand.Argument :=
  match m.primaryColumn? with
  | some column => column.foreignMethod
  | none => if m.hasUuidKey then ("uuid", []) else ("unsignedBigInteger", [])

/-! ### Relations -/

def relation? (m : Model) (name : String) : Option Relation :=
  m.relations.get? name

def belongsToRelations (m : Model) : List (Relation × BelongsTo) :=
  m.relations.values.filterMap fun r => r.belongsTo?.map (r, ·)

def morphToRelations (m : Model) : List (Relation × MorphTo) :=
  m.relations.values.filterMap fun r => r.morphTo?.map (r, ·)

/-- The first `belongsTo` that points at a model. -/
def belongsTo? (m : Model) (target : String) : Option BelongsTo :=
  (m.belongsToRelations.map Prod.snd).find? (·.model == target)

theorem hasPhysicalColumn_iff (m : Model) (name : String) : m.hasPhysicalColumn name ↔ name ∈ m.physicalNames := by
  simp [hasPhysicalColumn, physicalNames]

end Model

end Schemata
