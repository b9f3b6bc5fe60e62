import Schemata.Resolution.Pass

/-!
The identity of each model: its class, its file and its table follow from its key. Then the places of its relations, in
order of declaration.
-/

namespace Schemata.Resolution

open Schemata.Text Schemata.Inflection

def isSlash (c : Char) : Bool :=
  c = '/' || c = '\\'

/-- The folders and the class that a key such as `Admin/User` stands for. -/
def keySegments (key : String) : List String × String :=
  let segments := ((key.toList.splitOnP isSlash).filter (!·.isEmpty)).map fun s => String.ofList (studlyChars s)
  (segments.dropLast, segments.getLast?.getD (studly key))

/-- A text without the slashes at its end. -/
def withoutFinalSlashes (path : String) : String :=
  String.ofList (path.toList.reverse.dropWhile (· == '/')).reverse

/-- The identity of a model. -/
def identity (settings : Settings) (key : String) : Model :=
  let (folders, className) := keySegments key
  let namespaceName := folders.foldl (fun n folder => n ++ "\\" ++ folder) settings.modelNamespace
  let folder := folders.foldl (fun p folder => p ++ "/" ++ folder) (withoutFinalSlashes (settings.value .modelsPath))
  .shell key className namespaceName (folder ++ "/" ++ className ++ ".php") (plural (snake className))

/-- The type of a model that declares one. -/
def declaredType (key : String) (s : ModelDeclaration) : Except SchemaFault ModelType :=
  match s.type with
  | none => pure .plain
  | some name =>
    match ModelType.ofName? name with
    | some type => pure type
    | none => throw (.unknownModelType key name)

/-- The factory states that a declaration gives. -/
def declaredStates (s : ModelDeclaration) : OrderedMap (OrderedMap Json) :=
  (s.factory.bind Toggle.value?).elim .empty (·.states)

/-- The model of a declaration, before it has columns. Its class and its table differ from those of the models before it. -/
def modelShell (settings : Settings) (before : List Model) (key : String) (s : ModelDeclaration) : Except SchemaFault Model := do
  let named := identity settings key
  let model := { named with table := s.table.getD named.table }
  match before.find? fun m => lower m.className == lower model.className with
  | some other => throw (.sharedClass other.key key model.className)
  | none => pure ()
  match before.find? (·.table == model.table) with
  | some other => throw (.sharedTable other.key key model.table)
  | none => pure ()
  return { model with
    type := ← declaredType key s
    observer := s.observer
    seeder := s.seeder
    migration := s.hasMigration
    autoId := s.autoId
    factory := s.factoryEnabled
    factoryStates := declaredStates s }

/-- Makes all models, or none. -/
def makeShells (d : Draft) : Except SchemaFault Draft := do
  let shells ← d.declarations.entries.foldlM (fun shells (key, s) =>
    return shells ++ [← modelShell d.settings shells key s]) []
  return { d with models := shells.foldl (fun m shell => m.insert shell.key shell) d.models }

def Pass.modelShells : Pass where
  name := "model-shells"
  requires := [.quickModels]
  provides := .modelShells
  body := .update makeShells

/-- Reserves the place of each relation of each model. -/
def reserveRelations (d : Draft) : Draft :=
  (d.lines.filter fun l => (DeclaredRelation.kindOf? l.call).isSome).foldl
    (fun d l => d.modifyModel l.model fun m => { m with relations := m.relations.reserve l.name }) d

def Pass.relationReservations : Pass where
  name := "relation-reservations"
  requires := [.modelShells]
  provides := .relationReservations
  body := modify reserveRelations

end Schemata.Resolution
