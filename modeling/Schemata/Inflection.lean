import Schemata.Text.Casing

/-!
English naming rules: singular and plural of the last segment of a name, and the snake, studly and camel forms. A segment
starts after an underscore or at a capital letter.
-/

namespace Schemata.Inflection

open Schemata.Text

/-- Words whose plural is the word itself. -/
def uncountable : List String :=
  ["data", "equipment", "fish", "information", "metadata", "money", "news", "rice", "series", "sheep", "species"]

/-- Pairs of a singular and a plural that no suffix rule connects. -/
def irregular : List (String × String) :=
  [("child", "children"), ("foot", "feet"), ("goose", "geese"), ("man", "men"), ("mouse", "mice"), ("ox", "oxen"),
   ("person", "people"), ("tooth", "teeth"), ("woman", "women")]

/-- Plurals in `ies` whose singular ends in `ie`. -/
def iePlurals : List String :=
  ["cookies", "movies", "pies", "ties", "zombies"]

/-- Cuts a tail of a word before its last segment, if a segment starts in it. -/
def cutLastSegment : List Char → Option (List Char × List Char)
  | [] => none
  | c :: rest =>
    match cutLastSegment rest with
    | some (head, last) => some (c :: head, last)
    | none => if c = '_' then some ([c], rest) else if c.isUpper then some ([], c :: rest) else none

/-- All before the last segment, and the last segment. The first character never ends a segment. -/
def lastSegment : List Char → List Char × List Char
  | [] => ([], [])
  | c :: rest =>
    match cutLastSegment rest with
    | some (head, last) => (c :: head, last)
    | none => ([], c :: rest)

/-- Writes `replacement` for `segment`, keeping a leading capital. -/
def withCaseOf (segment : List Char) (replacement : String) : List Char :=
  match segment with
  | c :: _ => if isUppercase c then upperFirst replacement.toList else replacement.toList
  | [] => replacement.toList

def isVowel (c : Char) : Bool :=
  c = 'a' || c = 'e' || c = 'i' || c = 'o' || c = 'u'

/-- A final `y` after another character that is no vowel. -/
def endsInConsonantY (lowered : List Char) : Bool :=
  match lowered.reverse with
  | 'y' :: c :: _ => !isVowel c
  | _ => false

/-- Whether `cs` ends in `ending`. -/
def endsIn (cs : List Char) (ending : String) : Bool :=
  ending.toList.isSuffixOf cs

def dropEnd (n : Nat) (cs : List Char) : List Char :=
  cs.take (cs.length - n)

def pluralChars (word : List Char) : List Char :=
  let (head, last) := lastSegment word
  let lowered := lowerChars last
  let key := String.ofList lowered
  if lowered.isEmpty || uncountable.contains key then word
  else match irregular.find? (·.1 == key) with
    | some (_, many) => head ++ withCaseOf last many
    | none =>
      if irregular.any (·.2 == key) then word
      else if endsInConsonantY lowered then dropEnd 1 word ++ "ies".toList
      else if ["s", "sh", "ch", "x", "z"].any (endsIn lowered) then word ++ "es".toList
      else word ++ "s".toList

def singularChars (word : List Char) : List Char :=
  let (head, last) := lastSegment word
  let lowered := lowerChars last
  let key := String.ofList lowered
  if lowered.isEmpty || uncountable.contains key then word
  else match irregular.find? (·.2 == key) with
    | some (one, _) => head ++ withCaseOf last one
    | none =>
      if irregular.any (·.1 == key) then word
      else if iePlurals.contains key then dropEnd 1 word
      else if endsIn lowered "ies" && 3 < lowered.length then dropEnd 3 word ++ ['y']
      else if endsIn lowered "ouses" then dropEnd 1 word
      else if ["sses", "uses", "ches", "shes", "xes", "zes"].any (endsIn lowered) then dropEnd 2 word
      else if ["ss", "us", "is"].any (endsIn lowered) then word
      else if endsIn lowered "s" && 1 < lowered.length then dropEnd 1 word
      else word

/-- The plural of the last segment of a word. -/
def plural (word : String) : String :=
  String.ofList (pluralChars word.toList)

/-- The singular of the last segment of a word. -/
def singular (word : String) : String :=
  String.ofList (singularChars word.toList)

/-- The characters that join the words of a name. -/
def isJoint (c : Char) : Bool :=
  c = '_' || c = '-' || c = ' '

/-- Whether a capital between `before` and `after` starts a word: after a lower case letter or a digit, or as the last
capital of a run. -/
def startsWord (before : Char) (after : Option Char) : Bool :=
  isLowercase before || before.isDigit || (isUppercase before && after.any isLowercase)

/-- Snake case of the rest of a name, after the character `before` and with `written` as the last one written. -/
def snakeAfter (before written : Option Char) : List Char → List Char
  | [] => []
  | c :: rest =>
    if isJoint c then
      if written.isSome && written != some '_' then '_' :: snakeAfter (some c) (some '_') rest
      else snakeAfter (some c) written rest
    else
      let joint := isUppercase c && before.any (startsWord · rest.head?) && written != some '_'
      (if joint then ['_'] else []) ++ lowerChar c ++ snakeAfter (some c) (lowerChar c).getLast? rest

def snakeChars (cs : List Char) : List Char :=
  snakeAfter none none cs

/-- Lower case words joined by underscores, as in `blog_post`. -/
def snake (s : String) : String :=
  String.ofList (snakeChars s.toList)

/-- The words of a name between its joints, each with a capital start. -/
def studlyChars (cs : List Char) : List Char :=
  (cs.splitOnP isJoint).flatMap upperFirst

/-- Capitalised words without joints, as in `BlogPost`. -/
def studly (s : String) : String :=
  String.ofList (studlyChars s.toList)

/-- Studly case with a lower case start, as in `blogPost`. -/
def camel (s : String) : String :=
  String.ofList (lowerFirst (studlyChars s.toList))

end Schemata.Inflection
