/-!
What can be wrong with a schema or its settings. A fault is a cause; its wording is in one place, and names the model,
relation or column at fault.
-/

namespace Schemata

/-- What declares a column. -/
inductive Owner
  | model (key : String)
  | migration (table : String)
  deriving Repr, DecidableEq

def Owner.describe : Owner → String
  | model key => s!"model [{key}]"
  | migration table => s!"migration [{table}]"

/-- The owner at the start of a sentence. -/
def Owner.title : Owner → String
  | model key => s!"Model [{key}]"
  | migration table => s!"Migration [{table}]"

/-- A relation of a model. -/
structure RelationName where
  model : String
  name : String
  deriving Repr, DecidableEq

def RelationName.describe (r : RelationName) : String :=
  s!"relation [{r.name}] of model [{r.model}]"

/-- The relation at the start of a sentence. -/
def RelationName.title (r : RelationName) : String :=
  s!"Relation [{r.name}] of model [{r.model}]"

/-- What a declared attribute of a model is for. -/
inductive AttributeRole
  | hidden
  | fillable
  | route
  | timestamp
  | cast
  | index
  deriving Repr, DecidableEq

def AttributeRole.title : AttributeRole → String
  | hidden => "Hidden column"
  | fillable => "Fillable column"
  | route => "Route key"
  | timestamp => "Timestamp column"
  | cast => "Cast column"
  | index => "Index column"

/-- Why a declaration has not the form that it needs. -/
inductive DeclarationFault
  | malformed
  /-- The line of this column is neither a text, a number, a boolean nor null. -/
  | lineNotScalar (column : String)
  deriving Repr, DecidableEq

def DeclarationFault.detail : DeclarationFault → String
  | malformed => ""
  | lineNotScalar column => s!": column [{column}] must be a string, number, boolean or null"

/-- A schema that cannot be resolved. -/
inductive SchemaFault
  | modelNotMapping (key : String)
  | columnNameNotText (key : String)
  | columnNotScalar (column key : String)
  | invalidModel (key : String) (fault : DeclarationFault)
  | invalidFactory (key : String)
  | migrationNotMapping (table : String)
  | invalidMigration (table : String) (fault : DeclarationFault)
  | sharedClass (first second className : String)
  | sharedTable (first second table : String)
  | unknownModelType (key type : String)
  | unknownModel (key : String)
  | undeclaredModel (key : String)
  | emptyRelation (relation : RelationName)
  | notARelation (relation : RelationName)
  | indexAndUnique (column : String) (owner : Owner)
  | repeatedOption (relation : RelationName) (option : String)
  | usingWithoutPivot (relation : RelationName)
  | withDefaultRefused (relation : RelationName)
  | manyAutoIncrements (owner : Owner)
  | repeatedColumn (owner : Owner) (column : String)
  | manyPrimaryKeys (owner : Owner) (first second : String)
  | missingPrimaryColumn (column key : String)
  | missingTarget (relation : RelationName) (reference : String)
  | missingPivot (relation : RelationName) (reference : String)
  | targetWithoutKey (target : String) (relation : RelationName)
  | missingInverse (target : String) (relation : RelationName)
  | noIntermediate (relation : RelationName) (target : String)
  | missingLink (source target : String) (relation : RelationName)
  | missingMorphTo (relation : RelationName) (name target : String)
  | noMorphTo (target : String) (relation : RelationName)
  | manyMorphTos (target : String) (relation : RelationName)
  | equalPivotKeys (relation : RelationName) (key : String)
  | pivotWithoutMorphTo (pivot : String) (relation : RelationName)
  | pivotWithoutBelongsTo (pivot : String) (relation : RelationName) (side : String)
  | morphToWithoutParents (relation : RelationName)
  | mixedParents (parents : List String) (relation : RelationName)
  | missingAttribute (role : AttributeRole) (column key : String)
  | brokenEagerLoad (path key segment model : String)
  | explicitModelTable (table key : String)
  | relationInMigration (column table : String)
  | missingIndexColumn (column table : String)
  | missingKeyColumn (column table : String)
  | pivotConflict (table : String) (relation : RelationName)
  | parentWithoutKey (parent : String) (relation : RelationName)
  | missingRelation (relation : RelationName)
  deriving Repr, DecidableEq

def SchemaFault.message : SchemaFault → String
  | modelNotMapping key => s!"Model [{key}] must be an associative array with a columns key"
  | columnNameNotText key => s!"Model [{key}] has a column whose name is not a string"
  | columnNotScalar column key => s!"Column [{column}] of model [{key}] must be a string, number, boolean or null"
  | invalidModel key fault => s!"Model [{key}] has an invalid declaration" ++ fault.detail
  | invalidFactory key => s!"Model [{key}] has an invalid factory declaration"
  | migrationNotMapping table => s!"Migration [{table}] must be an associative array of columns"
  | invalidMigration table fault => s!"Migration [{table}] has an invalid declaration" ++ fault.detail
  | sharedClass first second className => s!"Models [{first}] and [{second}] share the class name [{className}]"
  | sharedTable first second table => s!"Models [{first}] and [{second}] share the table [{table}]"
  | unknownModelType key type => s!"Model [{key}] has an unknown type [{type}]"
  | unknownModel key => s!"Model [{key}] does not exist"
  | undeclaredModel key => s!"Model [{key}] is not declared"
  | emptyRelation r => r.title ++ " is empty"
  | notARelation r => s!"Column [{r.name}] of model [{r.model}] is not a relation"
  | indexAndUnique column owner => s!"Column [{column}] of " ++ owner.describe ++ " cannot be both index and unique"
  | repeatedOption r option => r.title ++ s!" declares {option} more than once"
  | usingWithoutPivot r => r.title ++ " declares using without a pivot model"
  | withDefaultRefused r =>
    r.title ++ " cannot use withDefault, only belongsTo, hasOne, hasOneThrough and morphOne relations can"
  | manyAutoIncrements owner => owner.title ++ " has more than one auto-incrementing column"
  | repeatedColumn owner column => owner.title ++ s!" declares column [{column}] more than once"
  | manyPrimaryKeys owner first second =>
    owner.title ++ s!" has more than one primary key column, [{first}] and [{second}]"
  | missingPrimaryColumn column key => s!"Primary key column [{column}] of model [{key}] does not exist"
  | missingTarget r reference => r.title ++ s!" points to a non-existent model [{reference}]"
  | missingPivot r reference => r.title ++ s!" points to a non-existent pivot model [{reference}]"
  | targetWithoutKey target r =>
    s!"Model [{target}] must have primary keys enabled to be the target of " ++ r.describe
  | missingInverse target r =>
    s!"Target model [{target}] of " ++ r.describe ++ s!" must contain a belongsTo relation to [{r.model}]"
  | noIntermediate r target =>
    r.title ++ s!" cannot guess its intermediate model, no model links [{target}] to [{r.model}]"
  | missingLink source target r =>
    s!"Model [{source}] must contain a belongsTo relation to [{target}] for " ++ r.describe
  | missingMorphTo r name target =>
    r.title ++ s!" points to a non-existent morphTo relation [{name}] of model [{target}]"
  | noMorphTo target r => s!"Model [{target}] must contain a morphTo relation for " ++ r.describe
  | manyMorphTos target r => s!"Model [{target}] has more than one morphTo relation, pick one for " ++ r.describe
  | equalPivotKeys r key => r.title ++ s!" needs explicit pivot keys, both default to [{key}]"
  | pivotWithoutMorphTo pivot r => s!"Pivot model [{pivot}] of " ++ r.describe ++ " must contain a morphTo relation"
  | pivotWithoutBelongsTo pivot r side =>
    s!"Pivot model [{pivot}] of " ++ r.describe ++ s!" must contain a belongsTo relation to [{side}]"
  | morphToWithoutParents r => r.title ++ " is a morphTo relation no model points to"
  | mixedParents parents r =>
    "Models [" ++ ", ".intercalate parents ++ "] pointing to " ++ r.describe ++ " must ALL use uuid or id"
  | missingAttribute role column key => role.title ++ s!" [{column}] of model [{key}] does not exist"
  | brokenEagerLoad path key segment model =>
    s!"Eager load [{path}] of model [{key}] references a non-existent relation [{segment}] of model [{model}]"
  | explicitModelTable table key => s!"Migration [{table}] uses the table of model [{key}]"
  | relationInMigration column table => s!"Column [{column}] of migration [{table}] cannot declare a relation"
  | missingIndexColumn column table => s!"Index column [{column}] of migration [{table}] does not exist"
  | missingKeyColumn column table => s!"Primary key column [{column}] of migration [{table}] does not exist"
  | pivotConflict table r =>
    s!"Pivot table [{table}] of " ++ r.describe ++ " conflicts with the same table guessed for another relation"
  | parentWithoutKey parent r => s!"Model [{parent}] pointing to " ++ r.describe ++ " must use uuid or id"
  | missingRelation r => r.title ++ " does not exist"

/-- Settings that cannot be used. -/
inductive SettingsFault
  | missing (field hint : String)
  | invalid (field value expected : String)
  | variableNotText (name : String)
  | unreadable
  | malformed
  deriving Repr, DecidableEq

def SettingsFault.message : SettingsFault → String
  | missing field hint => s!"Missing required field: {field}. {hint}"
  | invalid field value expected => s!"Invalid value for field '{field}': '{value}'. Expected: {expected}"
  | variableNotText name => s!"Environment variable error: {name} is not valid unicode"
  | unreadable => "IO error"
  | malformed => "YAML error"

/-- Passes that ran in the wrong order, or left something undone. -/
inductive OrderFault
  | missingStage (pass stage : String)
  | pendingColumn (column key : String)
  | pendingRelation (relation : RelationName)
  deriving Repr, DecidableEq

def OrderFault.message : OrderFault → String
  | missingStage pass stage => s!"pass [{pass}] requires stage [{stage}] which has not completed"
  | pendingColumn column key => s!"column [{column}] of model [{key}] was reserved but never resolved"
  | pendingRelation r => r.describe ++ " was reserved but never resolved"

inductive Fault
  | schema (cause : SchemaFault)
  | settings (cause : SettingsFault)
  | order (cause : OrderFault)
  deriving Repr, DecidableEq

def Fault.message : Fault → String
  | schema cause => cause.message
  | settings cause => "Configuration error: " ++ cause.message
  | order cause => "Pipeline error: " ++ cause.message

end Schemata
