import Schemata.Resolution.Pipeline

/-!
Resolved schemas: all models and tables of a schema, with the files that go with them, ready to be written out.
-/

namespace Schemata

structure Resolved where
  namespaceName : String
  models : OrderedMap Model
  /-- Table definitions under the names of their tables. -/
  migrations : OrderedMap Migration
  artifacts : Artifacts
  deriving Inhabited

namespace Resolved

open Resolution

/-- What a draft holds when its resolution ends. -/
def ofDraft (d : Draft) : Resolved :=
  ⟨d.settings.value .root, d.models, d.migrations, d.artifacts⟩

/-- The settings for a schema, which may have a namespace of its own. -/
def settingsFor (settings : Settings) (schema : SchemaDeclaration) : Settings :=
  schema.rootNamespace.elim settings settings.withNamespace

/-- Runs passes over a schema, under settings that must be valid. -/
def resolveWith (passes : List Pass) (settings : Settings) (schema : SchemaDeclaration) : Except Fault Resolved := do
  let settings := settingsFor settings schema
  settings.validate.mapError .settings
  let outcome := runAll passes (.start settings schema)
  match outcome.fault with
  | some fault => throw fault
  | none => return ofDraft outcome.progress.draft

/-- Resolves a schema by the standard passes. -/
def resolve (settings : Settings) (schema : SchemaDeclaration) : Except Fault Resolved :=
  resolveWith standardPasses settings schema

def model? (s : Resolved) (key : String) : Option Model :=
  s.models.get? key

def migration? (s : Resolved) (table : String) : Option Migration :=
  s.migrations.get? table

def relation? (s : Resolved) (model name : String) : Option Relation :=
  (s.model? model).bind (·.relation? name)

end Resolved

end Schemata
