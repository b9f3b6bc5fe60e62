import Schemata.Resolution.Columns
import Schemata.Resolution.Declarations
import Schemata.Resolution.Identity
import Schemata.Resolution.Ownership
import Schemata.Resolution.Polymorphic
import Schemata.Resolution.Stubs
import Schemata.Resolution.Tables

/-!
The standard order of passes, from declarations to artifacts, in which every pass finds what it needs.
-/

namespace Schemata.Resolution

def standardPasses : List Pass :=
  [.quickModels, .modelShells, .relationReservations, .columns, .belongsTo, .belongsToMany, .hasOneOrMany,
   .hasOneOrManyThrough, .morphTo, .morphOneOrMany, .morphToMany, .pivotModels, .morphColumns, .modelAttributes,
   .finalizeModels, .explicitMigrations, .modelMigrations, .pivotMigrations, .artifacts]

/-- The standard pass of a name. -/
def standardPass? (name : String) : Option Pass :=
  standardPasses.find? (·.name == name)

/-- Whether passes that run in order find complete what they need. -/
def areOrdered : List Stage → List Pass → Bool
  | _, [] => true
  | done, pass :: rest => pass.requires.all done.contains && areOrdered (done ++ [pass.provides]) rest

theorem areOrdered_standardPasses : areOrdered [] standardPasses := by
  decide

end Schemata.Resolution
