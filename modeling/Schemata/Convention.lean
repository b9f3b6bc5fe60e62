import Schemata.Inflection
import Schemata.Relation.Kind

/-!
Naming conventions: what a relation, a table or a key is called when its declaration does not say. The name of a model that
is found in this way is a guess, which counts only if there is such a model.
-/

namespace Schemata.Convention

open Schemata.Inflection

/-- The class names that a relation without a target may mean. A relation to one model is tried as it is called first, and
a relation to many by its singular. -/
def modelCandidates (kind : RelationKind) (name : String) : List String :=
  let asCalled := studly name
  let single := studly (singular name)
  if [.belongsTo, .morphOne].contains kind then [asCalled, single].eraseDups else [single, asCalled].eraseDups

/-- Every way to cut a word at an underscore, which is left out. -/
def cuts : List Char → List (List Char × List Char)
  | [] => []
  | c :: rest =>
    let later := (cuts rest).map fun (before, after) => (c :: before, after)
    if c = '_' then ([], rest) :: later else later

/-- The pairs of an intermediate class and a target class that the name of a through relation may mean, such as `User` and
`Post` for `userPosts`. -/
def throughCandidates (name : String) : List (String × String) :=
  let classOf (cs : List Char) := String.ofList (studlyChars (singularChars cs))
  ((cuts (snakeChars name.toList)).map fun (before, after) => (classOf before, classOf after)).filter
    fun (through, model) => !through.isEmpty && !model.isEmpty

/-- The pivot table of two classes: their singular names in snake case, in order, such as `role_user`. -/
def pivotTable (first second : String) : String :=
  let a := singular (snake first)
  let b := singular (snake second)
  if a ≤ b then a ++ "_" ++ b else b ++ "_" ++ a

/-- Whether a last letter is doubled: it closes a single syllable of consonant, vowel, consonant. -/
def doublesLast (word : List Char) : Bool :=
  match word.reverse with
  | c :: b :: a :: _ =>
    !isVowel a && isVowel b && !isVowel c && c.isLower && c != 'w' && c != 'x' && c != 'y' && word.countP isVowel == 1
  | _ => false

/-- The morph name of a class, such as `taggable` for `Tag`. -/
def morphName (className : String) : String :=
  let base := snakeChars className.toList
  let last := if doublesLast base then base.getLast?.toList else []
  String.ofList (base ++ last) ++ "able"

/-- The pivot table of a morph name. -/
def morphTable (morphName : String) : String :=
  plural morphName

/-- The key column that refers to a class, such as `user_id`. -/
def foreignKey (className primaryColumn : String) : String :=
  snake className ++ "_" ++ primaryColumn

end Schemata.Convention
