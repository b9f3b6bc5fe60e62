import Schemata.Table.Column

/-!
How the rows of a table are told apart: the primary key's column, the method that builds it, its type, and whether the
database assigns it. Also the columns that note creation, change and deletion.
-/

namespace Schemata

inductive KeyType
  | int
  | string
  deriving Repr, DecidableEq, Inhabited

namespace KeyType

def name : KeyType → String
  | int => "int"
  | string => "string"

def ofName? : String → Option KeyType
  | "int" => some int
  | "string" => some string
  | _ => none

/-- The key type of a column built by a method. -/
def ofMethod (method : String) : KeyType :=
  if ["uuid", "ulid", "string", "char", "foreignUuid"].contains method then string else int

end KeyType

structure PrimaryKey where
  /-- The method that builds the key column. -/
  builder : String
  column : String
  type : KeyType
  incrementing : Bool
  deriving Repr, DecidableEq, Inhabited

namespace PrimaryKey

/-- The key of a table that declares nothing else. -/
def conventional : PrimaryKey :=
  ⟨"id", "id", .int, true⟩

/-- The key that a column makes. -/
def ofColumn (c : Column) : PrimaryKey :=
  ⟨c.type, c.name, .ofMethod c.type, c.isAutoIncrement⟩

def isUuid (k : PrimaryKey) : Bool :=
  k.builder = "uuid"

/-- Whether the key is an integer `id` assigned by the database, whatever builds it. -/
def isConventional (k : PrimaryKey) : Bool :=
  k.column = "id" && k.type = .int && k.incrementing

end PrimaryKey

/-- The columns of creation and change. -/
structure Timestamps where
  createdAt : String
  updatedAt : String
  deriving Repr, DecidableEq, Inhabited

namespace Timestamps

def conventional : Timestamps :=
  ⟨"created_at", "updated_at"⟩

def isCustom (t : Timestamps) : Bool :=
  t ≠ conventional

end Timestamps

/-- The column of deletion. -/
structure SoftDelete where
  column : String
  deriving Repr, DecidableEq, Inhabited

def SoftDelete.isCustom (s : SoftDelete) : Bool :=
  s.column ≠ "deleted_at"

end Schemata
