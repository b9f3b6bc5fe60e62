import Schemata.Fault
import Schemata.Table.Migration

/-!
Columns from declared lines. What a line means depends on the key under which it stands: `id` and `uuid` make primary keys,
a shorthand key names its own type, and a line without methods takes the key as its type. Also the rules that hold for the
columns of one table together.
-/

namespace Schemata

open Schemata.Shorthand

namespace Column

def qualify (c : Column) (qualifier : String) : Column :=
  { c with methods := c.methods.push (.bare qualifier) }

/-- The value of the first argument that is not null, or `id`. -/
def keyName (m : Method) : String :=
  m.firstNonNull?.elim "id" (·.value)

/-- The column of the key `id`, which is primary. Its leading method is the type and may name the column. -/
def ofIdLine (call : Call) : Column :=
  let (type, name) := call.first?.elim ("id", "id") fun m => (m.name, keyName m)
  let column := { ofCall name (.single type []) with methods := call.tail }.liftComment
  if column.isPrimary then column else column.qualify "primary"

/-- The column of the key `uuid`, which is primary and called `id` unless a leading `uuid` names it. -/
def ofUuidLine (call : Call) : Column :=
  let (name, methods) := match call.first? with
    | some m => if m.name = "uuid" then (keyName m, call.tail) else ("id", call)
    | none => ("id", call)
  let column := { plain name "uuid" with methods }.liftComment
  if column.methods.has "primary" then column else column.qualify "primary"

/-- The name of a shorthand column, and the arguments that are left. Where the name is free, the first argument gives it. -/
def shorthandNaming (default : String) (arguments : List Argument) : String × List Argument :=
  if default = "timestamps" || default = "remember_token" then (default, arguments)
  else ((arguments.head?.bind Argument.value?).getD default, arguments.tail)

/-- The column of a shorthand key. A leading method of that name may hold arguments; other methods qualify. -/
def ofShorthandLine (key default : String) (call : Call) : Column :=
  let (arguments, methods) := match call.first? with
    | some m => if m.name = key then (m.arguments, call.tail) else ([], call)
    | none => ([], call)
  let (name, arguments) := shorthandNaming default arguments
  { plain name key with arguments, methods }.liftComment

/-- The column of a line that stands under a key. -/
def ofLine (key : String) (call : Call) : Column :=
  if key = "id" then ofIdLine call
  else if key = "uuid" then ofUuidLine call
  else match shorthandName? key with
    | some default => ofShorthandLine key default call
    | none => if call.methods.isEmpty then plain key key else ofCall key call

/-- The column of a declared line, which may have an index or be unique, but not both. -/
def declared (owner : Owner) (key : String) (call : Call) : Except SchemaFault Column :=
  let column := ofLine key call
  if column.hasIndex && column.isUnique then throw (.indexAndUnique key owner) else pure column

end Column

/-! ### Columns of one table -/

/-- At most one column is assigned by the database. -/
def checkAutoIncrement (owner : Owner) (columns : List Column) : Except SchemaFault Unit :=
  if 1 < columns.countP Column.isAutoIncrement then throw (.manyAutoIncrements owner) else pure ()

/-- Checks columns after others, whose physical names and primary key are given. -/
def checkPhysicalAfter (owner : Owner) (names : List String) (primary : Option String) :
    List Column → Except SchemaFault Unit
  | [] => pure ()
  | c :: rest =>
    match c.physicalNames.find? names.contains with
    | some name => throw (.repeatedColumn owner name)
    | none =>
      if c.isPrimary then
        match primary with
        | some first => throw (.manyPrimaryKeys owner first c.name)
        | none => checkPhysicalAfter owner (names ++ c.physicalNames) (some c.name) rest
      else checkPhysicalAfter owner (names ++ c.physicalNames) primary rest

/-- No physical name occurs twice, and at most one column is primary. -/
def checkPhysical (owner : Owner) (columns : List Column) : Except SchemaFault Unit :=
  checkPhysicalAfter owner [] none columns

end Schemata
