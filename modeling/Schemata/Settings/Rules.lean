import Schemata.Fault
import Schemata.Text.Blank

/-!
The rules that settings obey: a namespace is a chain of capitalised segments, and an output path is a relative path with
forward slashes.
-/

namespace Schemata.Settings

open Schemata.Text

/-- A capital letter, then letters, digits and underscores, all ASCII. -/
def isSegment : List Char → Bool
  | c :: rest => c.isUpper && rest.all fun d => d.isAlphanum || d = '_'
  | [] => false

/-- Segments joined by backslashes. -/
def isNamespace (value : String) : Bool :=
  (value.toList.splitOn '\\').all isSegment

/-- Accepts a namespace, and where `mayBeEmpty` is set also none. -/
def checkNamespace (mayBeEmpty : Bool) (field value : String) : Except SettingsFault Unit :=
  if value.isEmpty then
    if mayBeEmpty then pure () else throw (.missing field "Set it to a namespace such as `App`")
  else if isNamespace value then pure ()
  else throw (.invalid field value "backslash separated StudlyCase segments")

/-- Accepts a path that is not blank and holds no backslash. -/
def checkPath (field value : String) : Except SettingsFault Unit :=
  if (trimChars value.toList).isEmpty then throw (.missing field "Output paths cannot be empty")
  else if value.toList.contains '\\' then throw (.invalid field value "a forward slash separated relative path")
  else pure ()

end Schemata.Settings
