import Schemata.Resolved.Basic

/-!
The call that a relation becomes in generated code, such as `belongsTo(User::class, 'user_id')`. A class of the same namespace
is written bare, and any other with its namespace behind a backslash.
-/

namespace Schemata.Resolved

open Schemata.Shorthand

/-- A reference to the class of a model, read inside the namespace of another. -/
def classArgument (s : Resolved) (owner : Model) (key : String) : Except SchemaFault Argument :=
  match s.model? key with
  | none => throw (.unknownModel key)
  | some m =>
    if m.namespaceName = owner.namespaceName then pure (.classRef m.className)
    else pure (.classRef ("\\" ++ m.qualifiedClass))

def textArguments (values : List (Option String)) : List Argument :=
  values.filterMap (·.map Argument.string)

/-- The models whose classes are the first arguments of a call. -/
def classKeys (l : Link) : List String :=
  match l with
  | .hasOneThrough l | .hasManyThrough l => [l.model, l.through]
  | l => l.model?.toList

/-- The arguments of a call after the classes. Those that convention gives are left out at the end. -/
def keyArguments (name : String) : Link → List Argument
  | .belongsTo l => textArguments [l.columnKey, l.ownerKey]
  | .hasOne l | .hasMany l => textArguments [l.foreignKey, l.localKey]
  | .hasOneThrough l | .hasManyThrough l =>
    -- Keys go by their place, so the first is null where only the second is given.
    if l.firstKey.isSome || l.secondKey.isSome then [l.firstKey, l.secondKey].map (·.elim .null .string) else []
  | .belongsToMany l => textArguments [l.table, l.foreignPivotKey, l.relatedPivotKey]
  | .morphTo l => if l.columnName = name then [] else [.string l.columnName]
  | .morphOne l | .morphMany l => [.string l.relationKey]
  | .morphToMany l | .morphedByMany l =>
    .string l.relationKey :: if l.table = Convention.morphTable l.relationKey then [] else [.string l.table]

/-- The methods that a relation calls: its kind, its pivot model, further pivot columns, and its qualifiers. -/
def relationMethods (s : Resolved) (owner : Model) (r : Relation) : Except SchemaFault (List Method) := do
  let classes ← (classKeys r.link).mapM (classArgument s owner)
  let leading : Method := ⟨r.kind.keyword, classes ++ keyArguments r.name r.link⟩
  let pivot ← r.link.pivot?.toList.mapM fun key => return (⟨"using", [← classArgument s owner key]⟩ : Method)
  let withPivot : List Method := if r.link.withPivot.isEmpty then [] else [⟨"withPivot", r.link.withPivot⟩]
  return leading :: pivot ++ withPivot ++ r.methods.methods

/-- The call of a relation. -/
def relationCall (s : Resolved) (model relation : String) : Except SchemaFault String := do
  let owner ← match s.model? model with
    | some m => pure m
    | none => throw (.unknownModel model)
  match owner.relation? relation with
  | none => throw (.missingRelation ⟨model, relation⟩)
  | some r => return "->".intercalate ((← relationMethods s owner r).map Method.render)

end Schemata.Resolved
