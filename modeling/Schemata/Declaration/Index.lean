import Schemata.Declaration.Reading
import Schemata.Text.Blank

/-!
Index declarations: the names of the columns, or a mapping that also says whether the index is unique and how it is called.
-/

namespace Schemata

open Schemata.Declaration Schemata.Text

structure IndexDeclaration where
  columns : List String
  unique : Bool
  name : Option String
  deriving Repr, DecidableEq, Inhabited

namespace IndexDeclaration

/-- Column names, given by a list or by one text that joins them with commas. -/
def readColumns : Yaml → Read (List String)
  | .str joined =>
    pure (((joined.toList.splitOn ',').map trimChars).filter (!·.isEmpty) |>.map String.ofList)
  | .seq items => items.mapM bareText
  | _ => malformed

def readDetailed (y : Yaml) : Read IndexDeclaration := do
  match y with
  | .map entries =>
    let fields : List (Option Yaml) ← fieldsOfMap ["columns", "unique", "name"] false entries
    let columns ← readColumns (← need fields[0]?.join)
    let unique : Option Yaml := fields[1]?.join
    return ⟨columns, ← unique.elim (pure false) flag, ← optionalField bareText fields[2]?⟩
  | _ => malformed

/-- An index is the names of its columns, or a mapping with more about it. -/
def read (y : Yaml) : Read IndexDeclaration :=
  if hasTag y then malformed
  else match y with
    | .map _ => readDetailed y
    | y => return ⟨← readColumns y, false, none⟩

/-- Reads an index from a JSON value, which is gathered before its form is known. -/
def ofJson? (j : Json) : Option IndexDeclaration :=
  if j.mayKeep 0 then (read (.ofJson j)).toOption else none

end IndexDeclaration

end Schemata
