import Schemata.Artifacts
import Schemata.Convention
import Schemata.Declaration.Model
import Schemata.Declaration.Schema
import Schemata.Model
import Schemata.Relation.Declared
import Schemata.Settings.Basic

/-!
A schema under resolution: what is declared, and what has been made of it so far. Models and declarations stand under the
same keys.
-/

namespace Schemata.Resolution

open Schemata.Shorthand

structure Draft where
  settings : Settings
  schema : SchemaDeclaration
  declarations : OrderedMap ModelDeclaration
  models : OrderedMap Model
  /-- Table definitions under the names of their tables. -/
  migrations : OrderedMap Migration
  artifacts : Artifacts

/-- A column line that a model declares. -/
structure DeclaredLine where
  model : String
  name : String
  call : Call
  deriving Repr, DecidableEq, Inhabited

namespace Draft

/-- A schema of which nothing has been resolved. -/
def start (settings : Settings) (schema : SchemaDeclaration) : Draft :=
  ⟨settings, schema, .empty, .empty, .empty, .empty⟩

/-! ### Models -/

def model (d : Draft) (key : String) : Except SchemaFault Model :=
  match d.models.get? key with
  | some m => pure m
  | none => throw (.unknownModel key)

def declaration (d : Draft) (key : String) : Except SchemaFault ModelDeclaration :=
  match d.declarations.get? key with
  | some s => pure s
  | none => throw (.undeclaredModel key)

/-- What stands after the last slash or backslash of a reference. -/
def referredClass (reference : String) : String :=
  String.ofList ((reference.toList.reverse.takeWhile fun c => c != '/' && c != '\\').reverse)

/-- The key of the model that a reference means: the model of that key, else the first one whose class is the last part of the
reference, whatever the case of its ASCII letters. -/
def findModel? (d : Draft) (reference : String) : Option String :=
  if d.models.contains reference then some reference
  else (d.models.values.find? fun m => Text.sameAscii m.className (referredClass reference)).map (·.key)

/-- The model that a relation refers to. -/
def resolveReference (d : Draft) (relation : RelationName) (reference : String) : Except SchemaFault String :=
  match d.findModel? reference with
  | some key => pure key
  | none => throw (.missingTarget relation reference)

/-- The model that a relation without a target may mean by its name. -/
def guessModel? (d : Draft) (kind : RelationKind) (name : String) : Option String :=
  (Convention.modelCandidates kind name).findSome? d.findModel?

/-- The target of a relation line: its first argument, or a guess from the name of the relation. -/
def target (d : Draft) (line : DeclaredRelation) : Except SchemaFault String :=
  match line.argument? 0 with
  | some reference => d.resolveReference line.relation reference
  | none =>
    match d.guessModel? line.kind line.name with
    | some key => pure key
    | none => throw (.missingTarget line.relation ((Convention.modelCandidates line.kind line.name).headD line.name))

def relation? (d : Draft) (model name : String) : Option Relation :=
  (d.models.get? model).bind (·.relation? name)

/-! ### Declared lines -/

/-- The column lines of all models, in order of declaration. Absent lines are left out. -/
def lines (d : Draft) : List DeclaredLine :=
  d.declarations.entries.flatMap fun (model, declaration) =>
    declaration.columns.entries.filterMap fun (name, line) => line.map fun line => ⟨model, name, .parse line⟩

/-- The relation lines of one kind, in order of declaration. -/
def declaredRelations (d : Draft) (kind : RelationKind) : Except SchemaFault (List DeclaredRelation) :=
  (d.lines.filter fun l => DeclaredRelation.kindOf? l.call = some kind).mapM fun l => DeclaredRelation.parse l.model l.name l.call

/-- The relation lines of two kinds, all of the first before those of the second. -/
def declaredRelationsOf (d : Draft) (first second : RelationKind) : Except SchemaFault (List DeclaredRelation) :=
  return (← d.declaredRelations first) ++ (← d.declaredRelations second)

/-- The relation line that a model declares under a name, if the line there is one. -/
def declaredRelation? (d : Draft) (model name : String) : Except SchemaFault (Option DeclaredRelation) := do
  let declaration ← d.declaration model
  let call := Call.ofLine (declaration.columns.get? name).join
  if (DeclaredRelation.kindOf? call).isSome then some <$> DeclaredRelation.parse model name call else return none

/-! ### Changes -/

def modifyModel (d : Draft) (key : String) (f : Model → Model) : Draft :=
  { d with models := d.models.modify key f }

/-- Changes a relation that is resolved. -/
def modifyRelation (d : Draft) (model name : String) (f : Relation → Relation) : Draft :=
  d.modifyModel model fun m => { m with relations := m.relations.modify name f }

/-- Fills the place of a relation. -/
def resolveRelation (d : Draft) (line : DeclaredRelation) (link : Link) : Draft :=
  d.modifyModel line.model fun m => { m with relations := m.relations.resolve line.name ⟨line.name, line.methods, link⟩ }

end Draft

/-- A step of resolution. What it has written before a fault stays written. -/
abbrev Resolve := EStateM Fault Draft

namespace Resolve

/-- Reads the draft, and fails with the cause that is found there. -/
def inspect {α : Type} (f : Draft → Except SchemaFault α) : Resolve α := do
  match f (← get) with
  | .ok a => return a
  | .error cause => throw (.schema cause)

/-- Changes the draft as a whole, or fails and leaves it. -/
def update (f : Draft → Except SchemaFault Draft) : Resolve Unit := do
  set (← inspect f)

theorem inspect_run {α : Type} (f : Draft → Except SchemaFault α) (d : Draft) :
    inspect f d = match f d with
      | .ok a => .ok a d
      | .error cause => .error (.schema cause) d := by
  change (match f d with
    | .ok a => pure a
    | .error cause => throw (.schema cause) : Resolve α) d = _
  cases f d <;> rfl

theorem update_run (f : Draft → Except SchemaFault Draft) (d : Draft) :
    update f d = match f d with
      | .ok e => .ok () e
      | .error cause => .error (.schema cause) d := by
  simp only [update, bind, EStateM.bind, inspect_run]
  cases f d <;> rfl

end Resolve

end Schemata.Resolution
