import Schemata.Yaml.Cursor

/-!
Tags of YAML nodes. A tag is a run of octets: percent escapes may put in any, as long as they have the shape of UTF-8, and a
zero octet ends the tag. A tag that starts with `!` is a document's own and is shown with its value; others are known by the
names of the core schema.
-/

namespace Schemata.Yaml

structure Tag where
  octets : List UInt8
  deriving Repr, DecidableEq, Inhabited

/-- The octets of characters that are all ASCII. -/
def octetsOf (cs : List Char) : List UInt8 :=
  cs.map Char.toUInt8

def hexDigit? (c : Char) : Option Nat :=
  if '0' ≤ c ∧ c ≤ '9' then some (c.toNat - 0x30)
  else if 'a' ≤ c ∧ c ≤ 'f' then some (c.toNat - 0x57)
  else if 'A' ≤ c ∧ c ≤ 'F' then some (c.toNat - 0x37)
  else none

namespace Tag

/-- The tag of a run of octets, which ends before a zero. -/
def ofOctets (octets : List UInt8) : Tag :=
  ⟨octets.takeWhile (· ≠ 0)⟩

/-- The tag of an ASCII text. -/
def ofText (text : String) : Tag :=
  ofOctets (octetsOf text.toList)

def isEmpty (t : Tag) : Bool :=
  t.octets.isEmpty

instance : Append Tag := ⟨fun t u => ⟨t.octets ++ u.octets⟩⟩

/-! ### Tags in a text -/

/-- The characters that stand for themselves in a tag. -/
def isPlainChar (brackets : Bool) (c : Char) : Bool :=
  isNameChar c || ";/?:@&=+$.!~*'()".toList.contains c || (brackets && [',', '[', ']'].contains c)

/-- How many octets follow the first octet of a character. -/
def octetsAfter? (first : Nat) : Option Nat :=
  if first < 0x80 then some 0
  else if first < 0xC0 then none
  else if first < 0xE0 then some 1
  else if first < 0xF0 then some 2
  else if first < 0xF8 then some 3
  else none

/-- The octets of a tag at the start of a text, with percent escapes decoded, where `owed` more octets of an escaped
character must follow. -/
def scanFrom (brackets : Bool) : (owed : Nat) → List Char → Option (List UInt8 × List Char)
  | owed, '%' :: a :: b :: rest => do
    let octet := (← hexDigit? a) * 16 + (← hexDigit? b)
    let owed ← match owed with
      | 0 => octetsAfter? octet
      | owed + 1 => if 0x80 ≤ octet && octet < 0xC0 then some owed else none
    let (octets, rest) ← scanFrom brackets owed rest
    return (octet.toUInt8 :: octets, rest)
  | owed, [] => if owed = 0 then some ([], []) else none
  | owed, c :: rest =>
    if 0 < owed || c = '%' then none
    else if isPlainChar brackets c then (scanFrom brackets 0 rest).map fun (octets, rest) => (c.toUInt8 :: octets, rest)
    else some ([], c :: rest)

/-- The octets of a tag at the start of a text, and what follows it. -/
def scan (brackets : Bool) (cs : List Char) : Option (List UInt8 × List Char) :=
  scanFrom brackets 0 cs

/-! ### What a tag says -/

/-- A tag of the core schema. -/
def core (name : String) : Tag :=
  ofText ("tag:yaml.org,2002:" ++ name)

/-- Whether a tag is a document's own. -/
def isLocal (t : Tag) : Bool :=
  t.octets.head? = some 0x21

/-- A name with its leading mark dropped, if there is more than the mark. -/
def unmarked (name : List Char) : List Char :=
  match name with
  | '!' :: c :: rest => c :: rest
  | name => name

/-- A document's own tag as it is shown, if it is text. A mark is dropped twice and one is put before the rest, so `!!a` is
the same tag as `!a`; a lone mark is its own name. -/
def shown? (t : Tag) : Option String :=
  if t.isLocal then
    (String.fromUTF8? ⟨t.octets.toArray⟩).map fun name => String.ofList ('!' :: unmarked (unmarked name.toList))
  else none

end Tag

end Schemata.Yaml
