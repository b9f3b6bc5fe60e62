import Schemata.Settings.Rules
import Schemata.Yaml.Value

/-!
Where generated files go and which namespaces they live in. Each of the ten settings has a default, and may come from a
settings file, an environment variable or the schema; where it came from is kept beside it.
-/

namespace Schemata

/-- A setting. -/
inductive Setting
  | root
  | modelsNamespace
  | modelsPath
  | migrationsPath
  | factoriesPath
  | seedersPath
  | observersPath
  | scopesPath
  | castsPath
  | traitsPath
  deriving Repr, DecidableEq, Inhabited

namespace Setting

/-- All settings, in the order in which they are read and checked. -/
def all : List Setting :=
  [root, modelsNamespace, modelsPath, migrationsPath, factoriesPath, seedersPath, observersPath, scopesPath, castsPath,
   traitsPath]

/-- The name of the setting in a file. -/
def field : Setting → String
  | root => "namespace"
  | modelsNamespace => "models_namespace"
  | modelsPath => "models_path"
  | migrationsPath => "migrations_path"
  | factoriesPath => "factories_path"
  | seedersPath => "seeders_path"
  | observersPath => "observers_path"
  | scopesPath => "scopes_path"
  | castsPath => "casts_path"
  | traitsPath => "traits_path"

/-- The environment variable of the setting. -/
def variableName : Setting → String
  | root => "DRAFTSMAN_NAMESPACE"
  | modelsNamespace => "DRAFTSMAN_MODELS_NAMESPACE"
  | modelsPath => "DRAFTSMAN_MODELS_PATH"
  | migrationsPath => "DRAFTSMAN_MIGRATIONS_PATH"
  | factoriesPath => "DRAFTSMAN_FACTORIES_PATH"
  | seedersPath => "DRAFTSMAN_SEEDERS_PATH"
  | observersPath => "DRAFTSMAN_OBSERVERS_PATH"
  | scopesPath => "DRAFTSMAN_SCOPES_PATH"
  | castsPath => "DRAFTSMAN_CASTS_PATH"
  | traitsPath => "DRAFTSMAN_TRAITS_PATH"

def default : Setting → String
  | root => "App"
  | modelsNamespace => "Models"
  | modelsPath => "app/Models"
  | migrationsPath => "database/migrations"
  | factoriesPath => "database/factories"
  | seedersPath => "database/seeders"
  | observersPath => "app/Observers"
  | scopesPath => "app/Models/Scopes"
  | castsPath => "app/Casts"
  | traitsPath => "app/Traits"

def ofField? (name : String) : Option Setting :=
  all.find? (·.field == name)

theorem mem_all (s : Setting) : s ∈ all := by
  cases s <;> simp [all]

end Setting

/-- Where the value of a setting came from. -/
inductive Origin
  | default (value : String)
  | file (path : String)
  | environment (variableName : String)
  | schema
  deriving Repr, DecidableEq

def Origin.describe : Origin → String
  | default value => s!"default [{value}]"
  | file path => s!"settings file [{path}]"
  | environment variableName => s!"environment variable [{variableName}]"
  | schema => "schema"

structure Settings where
  value : Setting → String
  origin : Setting → Origin

namespace Settings

def standard : Settings where
  value := Setting.default
  origin s := .default s.default

/-- Gives a setting a value and its origin. -/
def put (s : Settings) (key : Setting) (value : String) (origin : Origin) : Settings where
  value k := if k = key then value else s.value k
  origin k := if k = key then origin else s.origin k

/-- Changes the value of a setting alone. -/
def setValue (s : Settings) (key : Setting) (value : String) : Settings :=
  s.put key value (s.origin key)

/-- Takes over the values that are supplied. -/
def supply (s : Settings) (values : Setting → Option String) (origin : Setting → Origin) : Settings where
  value k := (values k).getD (s.value k)
  origin k := if (values k).isSome then origin k else s.origin k

/-- Checks the settings in order. -/
def validate (s : Settings) : Except SettingsFault Unit :=
  Setting.all.forM fun key =>
    match key with
    | .root => checkNamespace false key.field (s.value key)
    | .modelsNamespace => checkNamespace true key.field (s.value key)
    | key => checkPath key.field (s.value key)

def validated (s : Settings) : Except SettingsFault Settings := do
  s.validate
  return s

/-- The values of a settings file. Each field may stand once and may be null; others are refused. -/
def fileValues? (text : String) : Option (Setting → Option String) := do
  match ← Yaml.document? text with
  | none => return fun _ => none
  | some d => (readFields d).run' 0
where
  readFields (d : Yaml.Document) : Yaml.ReadValue (Setting → Option String) := do
    let entries ← d.entries d.root
    let pairs ← entries.mapM fun (k, v) => do
      match Setting.ofField? (← d.text k) with
      | some key => return (key, ← d.textOrNull v)
      | none => failure
    if (pairs.map Prod.fst).Nodup then return fun key => (pairs.lookup key).join else failure

/-- Loads the text of a settings file on top of the defaults. -/
def ofYaml (text path : String) : Except SettingsFault Settings :=
  match fileValues? text with
  | some values => (standard.supply values fun _ => .file path).validated
  | none => throw .malformed

/-- Loads a settings file, whose content is absent when it cannot be read as text. -/
def ofFile (content : Option String) (path : String) : Except SettingsFault Settings :=
  match content with
  | some text => ofYaml text path
  | none => throw .unreadable

/-- Reads environment variables on top of the defaults. A variable whose value is absent is not text. -/
def ofEnvironment (environment : List (String × Option String)) : Except SettingsFault Settings := do
  let last := environment.reverse
  Setting.all.forM fun key =>
    match last.lookup key.variableName with
    | some none => throw (.variableNotText key.variableName)
    | _ => pure ()
  (standard.supply (fun key => (last.lookup key.variableName).join) fun key => .environment key.variableName).validated

/-- Overrides the root namespace by that of a schema. -/
def withNamespace (s : Settings) (value : String) : Settings :=
  s.put .root value .schema

/-! ### Namespaces -/

/-- A namespace below the root. -/
def below (s : Settings) (child : String) : String :=
  if child.isEmpty then s.value .root else s.value .root ++ "\\" ++ child

def modelNamespace (s : Settings) : String :=
  s.below (s.value .modelsNamespace)

def observerNamespace (s : Settings) : String :=
  s.below "Observers"

def scopeNamespace (s : Settings) : String :=
  s.modelNamespace ++ "\\Scopes"

def castNamespace (s : Settings) : String :=
  s.below "Casts"

def traitNamespace (s : Settings) : String :=
  s.below "Traits"

end Settings

end Schemata
