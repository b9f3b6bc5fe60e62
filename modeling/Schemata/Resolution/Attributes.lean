import Schemata.Resolution.Pass
import Schemata.Table.Classification

/-!
Attributes of models that name columns or relations: what is hidden, fillable, cast, indexed and always loaded. Each name must
be that of something there. At last no place may be empty.
-/

namespace Schemata.Resolution

/-- Fails with the first of the columns that is not known. -/
def checkNames (role : AttributeRole) (key : String) (known : String → Bool) (columns : List String) :
    Except SchemaFault Unit :=
  match columns.find? (!known ·) with
  | some column => throw (.missingAttribute role column key)
  | none => pure ()

/-- A class without a namespace, as opposed to a built-in cast such as `datetime` or `decimal:2`. -/
def isQuickClass (cast : String) : Bool :=
  cast.toList.head?.any (·.isUpper) && !cast.toList.any fun c => c = '\\' || c = ':'

/-- The columns that may be filled when none are declared: all but keys, shorthands and hidden ones. -/
def defaultFillable (m : Model) (hidden : List String) : List String :=
  ((m.columns.values.filter fun c => !c.isPrimary && !c.isShorthand).flatMap Column.physicalNames).filter
    (!hidden.contains ·)

/-- The casts that follow from the types of columns, and those declared on top of them. -/
def castsOf (m : Model) (declared : OrderedMap String) : OrderedMap String :=
  let ofTypes := m.columns.values.filterMap fun c => c.castType?.map (c.name, ·)
  -- Of two casts under one name the later counts.
  .ofList (ofTypes ++ declared.entries)

/-- Checks the declared attributes of a model. -/
def checkAttributes (m : Model) (s : ModelDeclaration) : Except SchemaFault Unit := do
  let known (name : String) : Bool := m.hasPhysicalColumn name || s.append.contains name
  checkNames .hidden m.key (fun name => known name || (m.relation? name).isSome) s.hidden
  checkNames .fillable m.key m.hasPhysicalColumn (s.fillable.getD [])
  checkNames .route m.key m.hasPhysicalColumn s.route.toList
  checkNames .timestamp m.key m.hasPhysicalColumn (m.timestamps.elim [] fun t => [t.createdAt, t.updatedAt])
  checkNames .cast m.key known s.casts.keys
  checkNames .index m.key m.hasPhysicalColumn (s.indexes.flatMap (·.columns))

/-- The index of a declaration. -/
def declaredIndex (i : IndexDeclaration) : Index :=
  ⟨i.columns, i.unique, i.name⟩

/-- A model with its declared attributes. -/
def withAttributes (s : ModelDeclaration) (m : Model) : Model :=
  { m with
    hidden := s.hidden.eraseDups
    append := s.append.eraseDups
    fillable := (s.fillable.getD (defaultFillable m s.hidden)).eraseDups
    casts := castsOf m s.casts
    routeKey := s.route
    traits := s.traits
    quickTraits := s.traits.filter fun name => !name.toList.contains '\\'
    quickCasts := (s.casts.values.filter isQuickClass).eraseDups
    indexes := s.indexes.map declaredIndex
    eager := s.eager
    localScopes := s.localScopes
    globalScopes := s.scopes }

/-- Follows the segments of a path from a model through its relations. A `morphTo` leads anywhere and ends the walk. -/
def followPath (d : Draft) (key path : String) : String → List String → Except SchemaFault Unit
  | _, [] => pure ()
  | current, segment :: rest => do
    match (← d.model current).relation? segment with
    | none => throw (.brokenEagerLoad path key segment current)
    | some r =>
      match r.link.model? with
      | some next => followPath d key path next rest
      | none => pure ()

/-- Checks the paths of a model that are always loaded. -/
def checkEager (d : Draft) (key : String) (paths : List String) : Except SchemaFault Unit :=
  paths.forM fun path => followPath d key path key ((path.toList.splitOn '.').map String.ofList)

def resolveAttributes (key : String) (d : Draft) : Except SchemaFault Draft := do
  let s ← d.declaration key
  checkAttributes (← d.model key) s
  checkEager d key s.eager
  return d.modifyModel key (withAttributes s)

def Pass.modelAttributes : Pass where
  name := "model-attributes"
  requires := [.morphColumns]
  provides := .modelAttributes
  body := do (← get).models.keys.forM fun key => .update (resolveAttributes key)

/-! ### Completion -/

/-- Every place of a model is filled, and its columns go together. -/
def checkComplete (m : Model) : Except Fault Unit := do
  match m.columns.pendingKeys with
  | column :: _ => throw (.order (.pendingColumn column m.key))
  | [] => pure ()
  match m.relations.pendingKeys with
  | relation :: _ => throw (.order (.pendingRelation ⟨m.key, relation⟩))
  | [] => pure ()
  (checkPhysical (.model m.key) m.columns.values).mapError .schema

def Pass.finalizeModels : Pass where
  name := "finalize-models"
  requires := [.hasOneOrMany, .hasOneOrManyThrough, .modelAttributes]
  provides := .modelsFinalized
  body := do
    match (← get).models.values.forM checkComplete with
    | .ok _ => return ()
    | .error fault => throw fault

end Schemata.Resolution
