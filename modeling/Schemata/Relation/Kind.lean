/-!
The eleven kinds of relations, and the rules that each kind follows.
-/

namespace Schemata

inductive RelationKind
  | belongsTo
  | belongsToMany
  | hasOne
  | hasOneThrough
  | hasMany
  | hasManyThrough
  | morphOne
  | morphMany
  | morphTo
  | morphToMany
  | morphedByMany
  deriving Repr, DecidableEq, Inhabited

namespace RelationKind

def all : List RelationKind :=
  [belongsTo, belongsToMany, hasOne, hasOneThrough, hasMany, hasManyThrough, morphOne, morphMany, morphTo, morphToMany,
   morphedByMany]

/-- The word that starts a declaration line, and the method that is called. -/
def keyword : RelationKind → String
  | belongsTo => "belongsTo"
  | belongsToMany => "belongsToMany"
  | hasOne => "hasOne"
  | hasOneThrough => "hasOneThrough"
  | hasMany => "hasMany"
  | hasManyThrough => "hasManyThrough"
  | morphOne => "morphOne"
  | morphMany => "morphMany"
  | morphTo => "morphTo"
  | morphToMany => "morphToMany"
  | morphedByMany => "morphedByMany"

def ofKeyword? (keyword : String) : Option RelationKind :=
  all.find? (·.keyword == keyword)

def isPolymorphic (k : RelationKind) : Bool :=
  [morphOne, morphMany, morphTo, morphToMany, morphedByMany].contains k

def isCollection (k : RelationKind) : Bool :=
  [hasMany, hasManyThrough, belongsToMany, morphMany, morphToMany, morphedByMany].contains k

/-- Whether rows are linked through a table of their own. -/
def requiresPivot (k : RelationKind) : Bool :=
  [belongsToMany, morphToMany, morphedByMany].contains k

def isThrough (k : RelationKind) : Bool :=
  [hasOneThrough, hasManyThrough].contains k

/-- Whether the relation is stored in a column of the declaring model. -/
def needsColumn (k : RelationKind) : Bool :=
  [belongsTo, morphTo].contains k

def acceptsWithDefault (k : RelationKind) : Bool :=
  [belongsTo, hasOne, hasOneThrough, morphOne].contains k

/-- The class of the relation object. -/
def returnClass : RelationKind → String
  | belongsTo => "BelongsTo"
  | belongsToMany => "BelongsToMany"
  | hasOne => "HasOne"
  | hasOneThrough => "HasOneThrough"
  | hasMany => "HasMany"
  | hasManyThrough => "HasManyThrough"
  | morphOne => "MorphOne"
  | morphMany => "MorphMany"
  | morphTo => "MorphTo"
  | morphToMany | morphedByMany => "MorphToMany"

theorem ofKeyword?_keyword (k : RelationKind) : ofKeyword? k.keyword = some k := by
  cases k <;> decide

theorem keyword_of_ofKeyword? {s : String} {k : RelationKind} (h : ofKeyword? s = some k) : k.keyword = s := by
  simpa using List.find?_some h

end RelationKind

end Schemata
