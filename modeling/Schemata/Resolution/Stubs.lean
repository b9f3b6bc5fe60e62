import Schemata.Factory.Provider
import Schemata.Resolution.Pass

/-!
The files that models ask for besides their own, and their factories: for each column that may be filled, the factory of the
related model, or fake data that suits the column.
-/

namespace Schemata.Resolution

open Schemata.Factory

/-- How a factory fills a column. -/
def factoryField? (m : Model) (c : Column) : Option FactoryField :=
  match c.relation.bind fun name => (m.relation? name).bind Relation.belongsTo? with
  | some l => some (.related l.model)
  | none =>
    if c.type = "json" || c.type = "jsonb" then some (.expression "[]")
    else (provider? c.name c.type c.arguments).map .faker

/-- The fields that follow from the columns of a model. -/
def guessedFields (m : Model) : List (String × FactoryField) :=
  (m.columns.values.filter fun c => !c.isMorphs && m.fillable.contains c.name).filterMap fun c =>
    (factoryField? m c).map (c.name, ·)

/-- The fields that a declaration gives. -/
def declaredFields (s : ModelDeclaration) : List (String × FactoryField) :=
  (s.factory.bind Toggle.value?).elim [] fun f => f.fields.entries.map fun (name, value) => (name, .expression value)

/-- The factory of a model. -/
def factoryOf (m : Model) (s : ModelDeclaration) : FactoryDefinition :=
  ⟨m.key, .ofList (guessedFields m ++ declaredFields s), m.factoryStates⟩

/-- The factories of all models that have one. Pivot models have none. -/
def factories (d : Draft) : Except SchemaFault (OrderedMap FactoryDefinition) := do
  let made ← (d.models.values.filter fun m => m.factory && !m.isPivot).mapM fun m =>
    return (m.key, factoryOf m (← d.declaration m.key))
  return .ofList made

/-- Collects the further files of all models. -/
def collectArtifacts (d : Draft) : Except SchemaFault Draft := do
  let models := d.models.values
  let artifacts : Artifacts :=
    { observers := (models.filter (·.observer)).map (·.key)
      seeders := (models.filter (·.seeder)).map (·.key)
      globalScopes := .ofList ((models.filter (!·.globalScopes.isEmpty)).map fun m => (m.key, m.globalScopes))
      quickTraits := (models.flatMap (·.quickTraits)).eraseDups
      quickCasts := (models.flatMap (·.quickCasts)).eraseDups
      factories := ← factories d }
  return { d with artifacts }

def Pass.artifacts : Pass where
  name := "artifacts"
  requires := [.pivotMigrations]
  provides := .artifacts
  body := .update collectArtifacts

end Schemata.Resolution
