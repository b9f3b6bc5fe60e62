import Schemata.Shorthand.Call

/-!
Table columns. A column is one builder call: a type method, the column name, further arguments of the type method, and a
chain of qualifiers such as `nullable` or `index`. Some types stand for several physical columns.
-/

namespace Schemata

open Schemata.Shorthand

structure Column where
  name : String
  /-- The type method. -/
  type : String
  /-- The arguments of the type method after the column name. -/
  arguments : List Argument
  /-- The qualifiers in call order. -/
  methods : Call
  /-- The relation whose key this column holds. -/
  relation : Option String
  comment : Option String
  deriving Repr, DecidableEq, Inhabited

namespace Column

/-! ### Families of types -/

/-- Auto-incrementing primary keys. -/
def autoIncrementTypes : List String :=
  ["id", "increments", "bigIncrements", "integerIncrements", "mediumIncrements", "smallIncrements", "tinyIncrements"]

/-- Types that stand for `created_at` and `updated_at`. -/
def timestampsTypes : List String :=
  ["timestamps", "timestampsTz", "nullableTimestamps"]

def softDeletesTypes : List String :=
  ["softDeletes", "softDeletesTz"]

/-- Types that stand for the pair of a polymorphic relation. -/
def morphsTypes : List String :=
  ["morphs", "uuidMorphs", "nullableMorphs", "nullableUuidMorphs"]

def integerTypes : List String :=
  ["integer", "bigInteger", "mediumInteger", "smallInteger", "tinyInteger", "unsignedInteger", "unsignedBigInteger",
   "unsignedMediumInteger", "unsignedSmallInteger", "unsignedTinyInteger", "foreignId"]

def dateTimeTypes : List String :=
  ["dateTime", "dateTimeTz", "timestamp", "timestampTz"]

/-- The default name of a shorthand type, which may be called without a name. -/
def shorthandName? (type : String) : Option String :=
  if timestampsTypes.contains type then some "timestamps"
  else if softDeletesTypes.contains type then some "deleted_at"
  else if type = "rememberToken" then some "remember_token"
  else none

/-! ### Construction -/

/-- A column of a type, without arguments and qualifiers. -/
def plain (name type : String) : Column :=
  ⟨name, type, [], .empty, none, none⟩

/-- Takes the first `comment` qualifier out of the chain; its value, if any, becomes the comment. -/
def liftComment (c : Column) : Column :=
  match c.methods.find? "comment" with
  | some m => { c with methods := c.methods.remove "comment", comment := m.value? 0 }
  | none => c

/-- The column of a line whose leading method is the type. The first `comment` is no part of the chain. -/
def ofCall (name : String) (call : Call) : Column :=
  let comment := (call.find? "comment").bind (·.value? 0)
  let call := call.remove "comment"
  let type := call.first?.getD (.bare "")
  ⟨name, type.name, type.arguments, call.tail, none, comment⟩

def forRelation (c : Column) (relation : String) : Column :=
  { c with relation := some relation }

/-! ### Properties -/

def isAutoIncrement (c : Column) : Bool :=
  autoIncrementTypes.contains c.type || c.methods.has "autoIncrement"

def isPrimary (c : Column) : Bool :=
  c.isAutoIncrement || c.methods.has "primary"

def isUuid (c : Column) : Bool :=
  c.type = "uuid" || c.type = "foreignUuid"

def isNullable (c : Column) : Bool :=
  c.methods.has "nullable" || ["nullableTimestamps", "nullableMorphs", "nullableUuidMorphs"].contains c.type

def isTimestamps (c : Column) : Bool :=
  timestampsTypes.contains c.type

def isSoftDeletes (c : Column) : Bool :=
  softDeletesTypes.contains c.type

def isShorthand (c : Column) : Bool :=
  (shorthandName? c.type).isSome

def isMorphs (c : Column) : Bool :=
  morphsTypes.contains c.type

def isForRelation (c : Column) : Bool :=
  c.relation.isSome

def hasIndex (c : Column) : Bool :=
  c.methods.has "index"

def isUnique (c : Column) : Bool :=
  c.methods.has "unique"

/-- The names of the physical columns. -/
def physicalNames (c : Column) : List String :=
  if c.isTimestamps then ["created_at", "updated_at"]
  else if c.isMorphs then [c.name ++ "_type", c.name ++ "_id"]
  else [c.name]

/-- The attribute cast that the type asks for. Keys and shorthands have none. -/
def castType? (c : Column) : Option String :=
  if c.isPrimary || c.isForRelation || c.isShorthand then none
  else match c.type with
    | "boolean" => some "boolean"
    | "decimal" | "unsignedDecimal" =>
      some ("decimal:" ++ (c.arguments[1]?.bind Argument.value?).getD "2")
    | "float" | "double" => some "float"
    | "json" | "jsonb" => some "array"
    | "date" => some "date"
    | type =>
      if integerTypes.contains type then some "integer"
      else if dateTimeTypes.contains type then some "datetime"
      else none

/-- The type of the attribute in a documentation block, marked when it may be null. -/
def attributeType (c : Column) : String :=
  let base :=
    if c.isAutoIncrement || integerTypes.contains c.type then "int"
    else match c.type with
      | "boolean" => "bool"
      | "float" | "double" => "float"
      | "json" | "jsonb" => "array"
      | type =>
        if type = "date" || dateTimeTypes.contains type || c.isSoftDeletes then "\\Illuminate\\Support\\Carbon"
        else "string"
  if c.isNullable || c.isSoftDeletes then "?" ++ base else base

/-- The type method, with its arguments, of a column that refers to this one. -/
def foreignMethod (c : Column) : String × List Argument :=
  match c.type with
  | "id" | "bigIncrements" => ("unsignedBigInteger", [])
  | "increments" | "integerIncrements" => ("unsignedInteger", [])
  | "mediumIncrements" => ("unsignedMediumInteger", [])
  | "smallIncrements" => ("unsignedSmallInteger", [])
  | "tinyIncrements" => ("unsignedTinyInteger", [])
  | "uuid" => ("uuid", [])
  | other => (other, c.arguments)

/-! ### The builder call -/

/-- Whether the builder call needs the name: shorthands and `id` are called without it when it is their own. -/
def isNamed (c : Column) : Bool :=
  match shorthandName? c.type with
  | some "timestamps" => false
  | some "remember_token" => false
  | some default => c.name ≠ default
  | none => c.type ≠ "id" || c.name ≠ "id"

def commentCall (comment : Option String) : Call :=
  comment.elim .empty fun text => .single "comment" [.string text]

/-- The builder call, such as `$table->string('title', 100)->nullable()`. -/
def statement (c : Column) : String :=
  let arguments := (if c.isNamed then [Argument.string c.name] else []) ++ c.arguments
  "$table" ++ (Call.single c.type arguments ++ c.methods ++ commentCall c.comment).render

end Column

end Schemata
