import Schemata.OrderedMap
import Schemata.Json.Basic

/-!
Factories: how each attribute of a model is filled, and the named states that override attributes.
-/

namespace Schemata

inductive FactoryField
  /-- Fake data from a provider. -/
  | faker (provider : String)
  /-- The factory of a related model. -/
  | related (model : String)
  /-- An expression as it was declared. -/
  | expression (value : String)
  deriving Repr, DecidableEq, Inhabited

namespace FactoryField

/-- The field in generated code, where `className` gives the class of a model key. -/
def render (className : String → String) : FactoryField → String
  | faker provider => "fake()->" ++ provider
  | related model => className model ++ "::factory()"
  | expression value => value

def related? : FactoryField → Option String
  | related model => some model
  | _ => none

end FactoryField

structure FactoryDefinition where
  model : String
  fields : OrderedMap FactoryField
  states : OrderedMap (OrderedMap Json)
  deriving Inhabited

/-- The models whose factories this one calls, in field order. -/
def FactoryDefinition.relatedModels (d : FactoryDefinition) : List String :=
  d.fields.values.filterMap FactoryField.related?

end Schemata
