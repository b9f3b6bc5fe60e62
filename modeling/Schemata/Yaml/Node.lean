import Schemata.Yaml.Token

/-!
The nodes of a YAML document: scalars, sequences and mappings, with their tags and with aliases that point at anchored
nodes. A stream holds at most one document.
-/

namespace Schemata.Yaml

inductive Node
  /-- A reference to the node with this anchor number. -/
  | alias (number : Nat)
  | scalar (tag : Option Tag) (text : String) (plain : Bool)
  | seq (tag : Option Tag) (items : List Node)
  | map (tag : Option Tag) (entries : List (Node × Node))
  deriving Repr, Inhabited

/-- An anchored node, and where among all nodes it starts. -/
structure Anchored where
  number : Nat
  position : Nat
  node : Node

structure Document where
  root : Node
  anchored : List Anchored
  /-- How many nodes, and ends of collections, the document has. -/
  size : Nat

/-- The node of an anchor number: of nodes that share the number, the one that starts last. -/
def Document.target? (d : Document) (number : Nat) : Option Node :=
  (d.anchored.filter (·.number == number)).foldl
    (fun best a => match best with
      | some b => if b.position < a.position then some a else some b
      | none => some a)
    none |>.map Anchored.node

/-- The state of reading nodes from tokens. -/
structure NodeReader where
  tokens : List Token
  /-- What each tag handle stands for. -/
  handles : List (String × Tag)
  /-- The anchor number of each name. -/
  numbers : List (String × Nat)
  anchored : List Anchored
  size : Nat

abbrev ReadNode := StateT NodeReader Option

namespace ReadNode

def peek : ReadNode Token := do
  return (← get).tokens.headD .streamEnd

def skip : ReadNode Unit :=
  modify fun s => { s with tokens := s.tokens.tail }

/-- Counts a node or an end, and gives its position. -/
def countOne : ReadNode Nat := do
  let s ← get
  set { s with size := s.size + 1 }
  return s.size

/-- Gives an anchor its number, which is how many names are known. -/
def register (name : String) : ReadNode Nat := do
  let s ← get
  let number := s.numbers.length
  set { s with numbers := (name, number) :: s.numbers.filter (·.1 != name) }
  return number

/-- The tag that a handle and a suffix stand for. -/
def resolveTag (handle : String) (suffix : Tag) : ReadNode Tag := do
  if handle.isEmpty then return suffix
  else match (← get).handles.lookup handle with
    | some leader => return leader ++ suffix
    | none => failure

structure Properties where
  anchor : Option String
  tag : Option Tag

/-- An anchor and a tag, in either order. -/
def properties : ReadNode Properties := do
  match ← peek with
  | .anchor name =>
    skip
    match ← peek with
    | .tag handle suffix =>
      skip
      return ⟨some name, some (← resolveTag handle suffix)⟩
    | _ => return ⟨some name, none⟩
  | .tag handle suffix =>
    skip
    match ← peek with
    | .anchor name =>
      skip
      return ⟨some name, some (← resolveTag handle suffix)⟩
    | _ => return ⟨none, some (← resolveTag handle suffix)⟩
  | _ => return ⟨none, none⟩

/-- A scalar that is not written. -/
def emptyScalar : ReadNode Node := do
  let _ ← countOne
  return .scalar none "" true

/-- The parts of a collection, whose end counts. -/
def closed {α : Type} (make : α → Node) (read : ReadNode α) : ReadNode Node := do
  let parts ← read
  let _ ← countOne
  return make parts

/-- The comma between the items of a flow collection. -/
def comma : ReadNode Unit := do
  if (← peek) == .flowEntry then skip else failure

mutual

/-- A node. Block collections are allowed where `block` is set, a sequence without indentation of its own where `bare` is. -/
def node : Nat → (block bare : Bool) → ReadNode Node
  | 0, _, _ => failure
  | fuel + 1, block, bare => do
    if let .alias name := ← peek then
      skip
      let _ ← countOne
      match (← get).numbers.lookup name with
      | some number => return .alias number
      | none => failure
    else
      let ⟨anchor, tag⟩ ← properties
      let position ← countOne
      let number ← match anchor with
        | some name => some <$> register name
        | none => pure none
      let node ← content fuel block bare (anchor.isSome || tag.isSome) tag
      match number with
      | some number => modify fun s => { s with anchored := ⟨number, position, node⟩ :: s.anchored }
      | none => pure ()
      return node

/-- What follows the properties of a node. Only a node with properties may be empty. -/
def content : Nat → (block bare mayBeEmpty : Bool) → Option Tag → ReadNode Node
  | 0, _, _, _, _ => failure
  | fuel + 1, block, bare, mayBeEmpty, tag => do
    match ← peek with
    | .scalar text plain =>
      skip
      return .scalar tag text plain
    | .flowSequenceStart => skip; closed (.seq tag) (flowItems fuel true)
    | .flowMappingStart => skip; closed (.map tag) (flowEntries fuel true)
    | t =>
      if t == .blockEntry && bare then closed (.seq tag) (bareItems fuel)
      else if t == .blockSequenceStart && block then skip; closed (.seq tag) (blockItems fuel)
      else if t == .blockMappingStart && block then skip; closed (.map tag) (blockEntries fuel)
      else if mayBeEmpty then return .scalar tag "" true
      else failure

/-- The items of a block sequence. -/
def blockItems : Nat → ReadNode (List Node)
  | 0 => failure
  | fuel + 1 => do
    match ← peek with
    | .blockEntry =>
      skip
      let item ← nodeUnless fuel true false [.blockEntry, .blockEnd]
      return item :: (← blockItems fuel)
    | .blockEnd => skip; return []
    | _ => failure

/-- The items of a sequence without indentation of its own, which ends with its last item. -/
def bareItems : Nat → ReadNode (List Node)
  | 0 => failure
  | fuel + 1 => do
    match ← peek with
    | .blockEntry =>
      skip
      let item ← nodeUnless fuel true false [.blockEntry, .key, .value, .blockEnd]
      return item :: (← bareItems fuel)
    | _ => return []

/-- The entries of a block mapping. -/
def blockEntries : Nat → ReadNode (List (Node × Node))
  | 0 => failure
  | fuel + 1 => do
    match ← peek with
    | .key =>
      skip
      let key ← nodeUnless fuel true true [.key, .value, .blockEnd]
      let value ← valueUnless fuel true [.key, .value, .blockEnd]
      return (key, value) :: (← blockEntries fuel)
    | .blockEnd => skip; return []
    | _ => failure

/-- The items of a flow sequence. A single pair may stand for a mapping. -/
def flowItems : Nat → (first : Bool) → ReadNode (List Node)
  | 0, _ => failure
  | fuel + 1, first => do
    if (← peek) == .flowSequenceEnd then skip; return []
    else
      if !first then comma
      match ← peek with
      | .key =>
        skip
        let _ ← countOne
        let key ← match ← peek with
          | .value => skip; emptyScalar
          | .flowEntry => skip; emptyScalar
          | .flowSequenceEnd => skip; emptyScalar
          | _ => node fuel false false
        let value ← valueUnless fuel false [.flowEntry, .flowSequenceEnd]
        let _ ← countOne
        return .map none [(key, value)] :: (← flowItems fuel false)
      | .flowSequenceEnd => skip; return []
      | _ =>
        let item ← node fuel false false
        return item :: (← flowItems fuel false)

/-- The entries of a flow mapping. A key may stand without a value. -/
def flowEntries : Nat → (first : Bool) → ReadNode (List (Node × Node))
  | 0, _ => failure
  | fuel + 1, first => do
    if (← peek) == .flowMappingEnd then skip; return []
    else
      if !first then comma
      match ← peek with
      | .key =>
        skip
        let key ← nodeUnless fuel false false [.value, .flowEntry, .flowMappingEnd]
        let value ← valueUnless fuel false [.flowEntry, .flowMappingEnd]
        return (key, value) :: (← flowEntries fuel false)
      | .flowMappingEnd => skip; return []
      | _ =>
        let key ← node fuel false false
        let value ← emptyScalar
        return (key, value) :: (← flowEntries fuel false)

/-- A node, or an empty scalar before one of the tokens `ends`. -/
def nodeUnless : Nat → (block bare : Bool) → List Token → ReadNode Node
  | 0, _, _, _ => failure
  | fuel + 1, block, bare, ends => do
    if ends.contains (← peek) then emptyScalar else node fuel block bare

/-- The value of an entry after its colon, or an empty scalar if there is no colon. -/
def valueUnless : Nat → (block : Bool) → List Token → ReadNode Node
  | 0, _, _ => failure
  | fuel + 1, block, ends => do
    if (← peek) == .value then
      skip
      nodeUnless fuel block block ends
    else emptyScalar

end

/-- The directives of a document: at most one version, which is 1.1 or 1.2, and each tag handle once. -/
def directives : Nat → (seenVersion : Bool) → List (String × Tag) → ReadNode Unit
  | 0, _, _ => failure
  | fuel + 1, seenVersion, handles => do
    match ← peek with
    | .versionDirective major minor =>
      if seenVersion || major ≠ 1 || (minor ≠ 1 && minor ≠ 2) then failure
      else skip; directives fuel true handles
    | .tagDirective handle leader =>
      if (handles.lookup handle).isSome then failure
      else skip; directives fuel seenVersion ((handle, leader) :: handles)
    | _ => modify fun s => { s with handles := handles ++ s.handles }

/-- The root of a document that starts with its mark. -/
def markedRoot (fuel : Nat) : ReadNode Node := do
  directives fuel false []
  if (← peek) != .documentStart then failure
  else
    skip
    match ← peek with
    | .versionDirective .. | .tagDirective .. | .documentStart | .documentEnd | .streamEnd => emptyScalar
    | _ => node fuel true false

def root (fuel : Nat) : ReadNode Node := do
  match ← peek with
  | .versionDirective .. | .tagDirective .. | .documentStart => markedRoot fuel
  | _ => node fuel true false

end ReadNode

/-- The document of a text; an empty text has none. A text that is malformed or holds two documents is refused. -/
def document? (text : String) : Option (Option Document) := do
  let tokens ← tokens? text
  if tokens == [.streamEnd] then return none
  else
    let (root, s) ← (ReadNode.root (4 * tokens.length + 4)).run
      ⟨tokens, [("!", .ofText "!"), ("!!", .core "")], [], [], 0⟩
    match s.tokens.dropWhile (· == .documentEnd) with
    | [.streamEnd] => return some ⟨root, s.anchored, s.size⟩
    | _ => none

end Schemata.Yaml
