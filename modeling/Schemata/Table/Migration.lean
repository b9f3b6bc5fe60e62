import Schemata.OrderedMap
import Schemata.Table.Column

/-!
Table definitions: columns under their declared keys, indexes, a composite primary key and a comment, and the builder
statements that create the table.
-/

namespace Schemata

open Schemata.Shorthand

/-- A plain or unique index over one or more columns. -/
structure Index where
  columns : List String
  unique : Bool
  name : Option String
  deriving Repr, DecidableEq, Inhabited

/-- A list of names in generated code. -/
def nameArray (names : List String) : String :=
  "[" ++ ", ".intercalate (names.map fun name => (Argument.string name).render) ++ "]"

/-- The builder statement, such as `$table->unique(['email', 'team_id'])`. -/
def Index.statement (i : Index) : String :=
  let name := i.name.elim "" fun name => ", " ++ (Argument.string name).render
  "$table->" ++ (if i.unique then "unique" else "index") ++ "(" ++ nameArray i.columns ++ name ++ ")"

structure Migration where
  table : String
  columns : OrderedMap Column
  indexes : List Index
  /-- The columns of a composite primary key. -/
  primary : Option (List String)
  comment : Option String
  /-- The table was made up for a many-to-many relation. -/
  fromGuessedPivot : Bool
  /-- The key of the model whose table this is. -/
  model : Option String
  deriving DecidableEq, Inhabited

namespace Migration

/-- A table without columns. -/
def ofTable (table : String) : Migration :=
  ⟨table, .empty, [], none, none, false, none⟩

def addColumn (m : Migration) (key : String) (c : Column) : Migration :=
  { m with columns := m.columns.insert key c }

/-- Whether some column makes the physical column `name`. -/
def hasPhysicalColumn (m : Migration) (name : String) : Bool :=
  m.columns.values.any (·.physicalNames.contains name)

/-- The statements that create the table, in order. -/
def statements (m : Migration) : List String :=
  m.columns.values.map Column.statement ++
    (m.primary.elim [] fun columns => ["$table->primary(" ++ nameArray columns ++ ")"]) ++
    m.indexes.map Index.statement ++
    (m.comment.elim [] fun _ => ["$table" ++ (Column.commentCall m.comment).render])

end Migration

end Schemata
