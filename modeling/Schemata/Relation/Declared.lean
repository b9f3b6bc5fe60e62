import Schemata.Fault
import Schemata.Relation.Kind
import Schemata.Shorthand.Call

/-!
Declaration lines of relations, such as `belongsTo:User,author_id nullable withDefault`, split into their parts: what the
leading method says, the qualifiers of the key column, the options of the pivot table, and the qualifiers of the call.
-/

namespace Schemata

open Schemata.Shorthand

/-- The qualifiers that belong to the column in which a relation stores its key. -/
def columnQualifiers : List String :=
  ["nullable", "index", "unique", "constrained", "cascadeOnDelete", "cascadeOnUpdate", "nullOnDelete",
   "restrictOnDelete", "comment"]

structure DeclaredRelation where
  /-- The declaring model. -/
  model : String
  name : String
  kind : RelationKind
  /-- The arguments of the leading method. -/
  arguments : List Argument
  columnMethods : Call
  /-- The reference to a pivot model. -/
  pivot : Option String
  withPivot : List Argument
  /-- The qualifiers that stay on the relation call. -/
  methods : Call
  deriving Repr, DecidableEq, Inhabited

namespace DeclaredRelation

/-- The kind of a relation line, none for the line of a column. -/
def kindOf? (call : Call) : Option RelationKind :=
  call.name?.bind RelationKind.ofKeyword?

/-- Refuses an option that is given twice. -/
def checkOnce (relation : RelationName) (methods : Call) (option : String) : Except SchemaFault Unit :=
  if 1 < methods.count option then throw (.repeatedOption relation option) else pure ()

/-- The pivot model that a `using` option names. -/
def pivotOf (relation : RelationName) (methods : Call) : Except SchemaFault (Option String) :=
  match methods.find? "using" with
  | some option =>
    match option.value? 0 with
    | some reference => pure (some reference)
    | none => throw (.usingWithoutPivot relation)
  | none => pure none

def parse (model name : String) (call : Call) : Except SchemaFault DeclaredRelation := do
  let relation : RelationName := ⟨model, name⟩
  let first ← match call.first? with
    | some first => pure first
    | none => throw (.emptyRelation relation)
  let kind ← match RelationKind.ofKeyword? first.name with
    | some kind => pure kind
    | none => throw (.notARelation relation)
  let (columnMethods, methods) := if kind.needsColumn then call.tail.extract columnQualifiers else (.empty, call.tail)
  if columnMethods.has "index" && columnMethods.has "unique" then
    throw (.indexAndUnique name (.model model))
  let (pivot, withPivot, methods) ←
    if kind.requiresPivot then do
      checkOnce relation methods "using"
      checkOnce relation methods "withPivot"
      let pivot ← pivotOf relation methods
      let withPivot := (methods.find? "withPivot").elim [] (·.arguments)
      pure (pivot, withPivot, (methods.remove "using").remove "withPivot")
    else pure (none, [], methods)
  if methods.has "withDefault" && !kind.acceptsWithDefault then
    throw (.withDefaultRefused relation)
  return ⟨model, name, kind, first.arguments, columnMethods, pivot, withPivot, methods⟩

def relation (l : DeclaredRelation) : RelationName :=
  ⟨l.model, l.name⟩

/-- An argument of the leading method, absent when it is null. -/
def argument? (l : DeclaredRelation) (i : Nat) : Option String :=
  l.arguments[i]?.bind Argument.value?

/-- The line of the key column that a method builds. -/
def columnCall (l : DeclaredRelation) (method : String) (arguments : List Argument) : Call :=
  .single method arguments ++ l.columnMethods

end DeclaredRelation

end Schemata
