import Schemata.Resolution.Pass
import Schemata.Table.Classification

/-!
The columns that models declare, and what follows from them: the primary key, the timestamps and the column of deletion. A
relation whose key is a column of the model leaves a place for it; other relations have no column.
-/

namespace Schemata.Resolution

open Schemata.Shorthand

/-- Makes the column of a declared line, or reserves its place. -/
def declareColumn (key name : String) (line : Option String) (d : Draft) : Except SchemaFault Draft := do
  let call := Call.ofLine line
  match DeclaredRelation.kindOf? call with
  | some kind =>
    if kind.needsColumn then return d.modifyModel key fun m => { m with columns := m.columns.reserve name }
    else return d
  | none =>
    let column ← Column.declared (.model key) name call
    return d.modifyModel key fun m => { m with columns := m.columns.resolve name column }

/-- Checks the columns of a model together. -/
def checkColumns (key : String) (d : Draft) : Except SchemaFault Unit := do
  let columns := (← d.model key).columns.values
  checkAutoIncrement (.model key) columns
  checkPhysical (.model key) columns

/-- Changes a key as its declaration asks. Any type but `int` and `integer` is a text. -/
def adjustKey (p : PrimaryDetail) (k : PrimaryKey) : PrimaryKey :=
  { k with
    type := p.type.elim k.type fun type => if type = "int" || type = "integer" then .int else .string
    incrementing := p.incrementing.getD k.incrementing }

/-- The primary key of a model: none if it is switched off, that of the declared column, or that of the primary column. -/
def primaryKey (s : ModelDeclaration) (m : Model) : Except SchemaFault (Option PrimaryKey) :=
  match s.primary with
  | some (.flag false) => pure none
  | some (.value p) =>
    let name := p.column.getD "id"
    match m.columnNamed? name with
    | some column => pure (some (adjustKey p (.ofColumn column)))
    | none => throw (.missingPrimaryColumn name m.key)
  | _ => pure ((m.columns.values.find? Column.isPrimary).map PrimaryKey.ofColumn)

/-- The timestamps of a model: none if they are switched off, those declared, or those of a timestamps column. -/
def timestamps (s : ModelDeclaration) (m : Model) : Option Timestamps :=
  match s.timestamps with
  | some (.flag false) => none
  | some (.value t) => some ⟨t.createdAt.getD "created_at", t.updatedAt.getD "updated_at"⟩
  | _ => if m.columns.values.any Column.isTimestamps then some .conventional else none

def softDelete (m : Model) : Option SoftDelete :=
  (m.columns.values.find? Column.isSoftDeletes).map fun c => ⟨c.name⟩

/-- Derives what follows from the columns of a model. -/
def deriveKeys (key : String) (s : ModelDeclaration) (d : Draft) : Except SchemaFault Draft := do
  let m ← d.model key
  let primary ← primaryKey s m
  return d.modifyModel key fun m => { m with primary, timestamps := timestamps s m, softDelete := softDelete m }

/-- Resolves the columns of one model. -/
def declareColumns (key : String) (s : ModelDeclaration) : Resolve Unit := do
  s.columns.entries.forM fun (name, line) => .update (declareColumn key name line)
  .inspect (checkColumns key)
  .update (deriveKeys key s)

def Pass.columns : Pass where
  name := "columns"
  requires := [.relationReservations]
  provides := .columns
  body := do (← get).declarations.entries.forM fun (key, s) => declareColumns key s

end Schemata.Resolution
