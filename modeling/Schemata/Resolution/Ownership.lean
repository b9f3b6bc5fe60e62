import Schemata.Resolution.Pass

/-!
Relations that rest on a key column. A `belongsTo` holds the key of the model that it points at; `hasOne` and `hasMany` read
such a relation from the other side, and the `through` relations read two of them in a row.
-/

namespace Schemata.Resolution

open Schemata.Shorthand Schemata.Convention

/-! ### Belonging to a model -/

/-- The type method of a key column of a given name. It follows the first column of the target whose name the key's name ends
in, else the target's primary key. -/
def builderFor (target : Model) (name : String) : String × List Argument :=
  match target.columns.values.find? fun c => ('_' :: c.name.toList).isSuffixOf name.toList with
  | some column => column.foreignMethod
  | none => target.foreignMethod

/-- The key column of a `belongsTo`. Unless it is named, the target must have a primary key. -/
def keyColumn (line : DeclaredRelation) (target : Model) : Except SchemaFault Column := do
  let column (name : String) (builder : String × List Argument) : Column :=
    (Column.ofCall name (line.columnCall builder.1 builder.2)).forRelation line.name
  match line.argument? 1 with
  | some name => return column name (builderFor target name)
  | none =>
    if target.hasPrimaryKey then return column (foreignKey target.className target.primaryName) target.foreignMethod
    else throw (.targetWithoutKey target.key line.relation)

/-- The key under which a model declares a column of that name, other than that of the relation. -/
def declaredKey? (m : Model) (relation name : String) : Option String :=
  (m.columns.resolved.find? fun (key, c) => key != relation && c.name == name).map Prod.fst

/-- Puts a key column in its place. A declared column of the same name serves instead, and the place is given up. -/
def placeKey (relation : String) (column : Column) (m : Model) : Model :=
  match declaredKey? m relation column.name with
  | some key => { m with columns := (m.columns.erase relation).modify key (·.forRelation relation) }
  | none => { m with columns := m.columns.resolve relation column }

/-- Resolves a `belongsTo` and its key column. -/
def resolveBelongsTo (line : DeclaredRelation) (d : Draft) : Except SchemaFault Draft := do
  let key ← d.target line
  let column ← keyColumn line (← d.model key)
  return (d.modifyModel line.model (placeKey line.name column)).resolveRelation line
    (.belongsTo ⟨key, column.name, line.argument? 2⟩)

def Pass.belongsTo : Pass where
  name := "belongs-to"
  requires := [.columns]
  provides := .belongsTo
  body := do (← .inspect (·.declaredRelations .belongsTo)).forM fun line => .update (resolveBelongsTo line)

/-! ### Having models -/

/-- The link of a `hasOne` or `hasMany`. Unless its key is named, the target must belong to the declaring model. -/
def havingLink (line : DeclaredRelation) (target : Model) : Except SchemaFault HasOneOrMany :=
  match line.argument? 1 with
  | some foreignKey => pure ⟨target.key, foreignKey, line.argument? 2⟩
  | none =>
    match target.belongsTo? line.model with
    | some inverse => pure ⟨target.key, inverse.columnKey, (line.argument? 2).orElse fun _ => inverse.ownerKey⟩
    | none => throw (.missingInverse target.key line.relation)

def resolveHaving (line : DeclaredRelation) (d : Draft) : Except SchemaFault Draft := do
  let link ← havingLink line (← d.model (← d.target line))
  return d.resolveRelation line (if line.kind = .hasOne then .hasOne link else .hasMany link)

def Pass.hasOneOrMany : Pass where
  name := "has-one-or-many"
  requires := [.belongsTo]
  provides := .hasOneOrMany
  body := do (← .inspect (·.declaredRelationsOf .hasOne .hasMany)).forM fun line => .update (resolveHaving line)

/-! ### Having models through others -/

/-- The first model that the target belongs to and that belongs to the declaring model. -/
def intermediate (d : Draft) (line : DeclaredRelation) (target : String) : Except SchemaFault String := do
  let candidates := (← d.model target).belongsToRelations.map (·.2.model)
  match candidates.find? fun c => (d.models.get? c).any fun m => (m.belongsTo? line.model).isSome with
  | some through => return through
  | none => throw (.noIntermediate line.relation target)

/-- The target and the intermediate model that the name of a through relation means, if there are such models. -/
def pairByName? (d : Draft) (name : String) : Option (String × String) :=
  (throughCandidates name).findSome? fun (through, model) => do
    let through ← d.findModel? through
    return (← d.findModel? model, through)

/-- The target and the intermediate model of a through relation. -/
def throughPair (d : Draft) (line : DeclaredRelation) : Except SchemaFault (String × String) := do
  let guessed : Except SchemaFault (String × String) := do
    let target ← d.target line
    return (target, ← intermediate d line target)
  match line.argument? 0, line.argument? 1 with
  | some _, some through => return (← d.target line, ← d.resolveReference line.relation through)
  | some _, none => guessed
  | none, _ =>
    match pairByName? d line.name with
    | some pair => return pair
    | none => guessed

/-- The model `source` must belong to `target`. -/
def checkLink (d : Draft) (line : DeclaredRelation) (source target : String) : Except SchemaFault Unit := do
  if ((← d.model source).belongsTo? target).isNone then throw (.missingLink source target line.relation)

/-- Resolves a through relation. Without keys, its models must form a chain. -/
def resolveThrough (line : DeclaredRelation) (d : Draft) : Except SchemaFault Draft := do
  let (model, through) ← throughPair d line
  let link : Through := ⟨model, through, line.argument? 2, line.argument? 3⟩
  -- One key that is given is enough to leave the chain unchecked.
  if link.firstKey.isNone && link.secondKey.isNone then
    checkLink d line model through
    checkLink d line through line.model
  return d.resolveRelation line (if line.kind = .hasOneThrough then .hasOneThrough link else .hasManyThrough link)

def Pass.hasOneOrManyThrough : Pass where
  name := "has-one-or-many-through"
  requires := [.belongsTo]
  provides := .hasOneOrManyThrough
  body := do (← .inspect (·.declaredRelationsOf .hasOneThrough .hasManyThrough)).forM fun line => .update (resolveThrough line)

end Schemata.Resolution
