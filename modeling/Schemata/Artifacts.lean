import Schemata.Factory.Basic

/-!
The files that are generated besides models and migrations.
-/

namespace Schemata

structure Artifacts where
  /-- The models that have an observer. -/
  observers : List String
  /-- The models that have a seeder. -/
  seeders : List String
  /-- The global scope classes of each model. -/
  globalScopes : OrderedMap (List String)
  /-- Traits without a namespace. -/
  quickTraits : List String
  /-- Cast classes without a namespace. -/
  quickCasts : List String
  factories : OrderedMap FactoryDefinition
  deriving Inhabited

namespace Artifacts

def empty : Artifacts := ⟨[], [], .empty, [], [], .empty⟩

def isEmpty (a : Artifacts) : Bool :=
  a.observers.isEmpty && a.seeders.isEmpty && a.globalScopes.isEmpty && a.quickTraits.isEmpty && a.quickCasts.isEmpty &&
    a.factories.isEmpty

end Artifacts

end Schemata
