import Schemata.OrderedMap

/-!
Ordered maps whose names may be reserved before their values exist, so that names keep their declared order when values
arrive in another. A map is complete once no name is pending.
-/

namespace Schemata

/-- The place of a value: reserved, or filled. -/
inductive Slot (α : Type)
  | pending
  | resolved (value : α)
  deriving Repr, DecidableEq, Inhabited

namespace Slot

variable {α : Type}

def isPending : Slot α → Bool
  | pending => true
  | resolved _ => false

def value? : Slot α → Option α
  | pending => none
  | resolved value => some value

def map (f : α → α) : Slot α → Slot α
  | pending => pending
  | resolved value => resolved (f value)

def ofOption : Option α → Slot α
  | none => pending
  | some value => resolved value

end Slot

structure Slots (α : Type) where
  map : OrderedMap (Slot α)
  deriving DecidableEq, Inhabited

namespace Slots

variable {α : Type}

def empty : Slots α := ⟨.empty⟩

/-- Each name with its value, none for a pending one. -/
def toList (s : Slots α) : List (String × Option α) :=
  s.map.entries.map fun (k, slot) => (k, slot.value?)

/-- Reserves a name at the end. A name that is present keeps its value and position. -/
def reserve (s : Slots α) (key : String) : Slots α :=
  if s.map.contains key then s else ⟨s.map.insert key .pending⟩

/-- Fills a name, appending it if it was never reserved. -/
def resolve (s : Slots α) (key : String) (value : α) : Slots α :=
  ⟨s.map.insert key (.resolved value)⟩

/-- Removes a name and keeps the order of the others. -/
def erase (s : Slots α) (key : String) : Slots α :=
  ⟨s.map.erase key⟩

def slot? (s : Slots α) (key : String) : Option (Slot α) :=
  s.map.get? key

/-- The value of a filled name. -/
def get? (s : Slots α) (key : String) : Option α :=
  (s.slot? key).bind Slot.value?

def contains (s : Slots α) (key : String) : Bool :=
  s.map.contains key

def isPending (s : Slots α) (key : String) : Bool :=
  (s.slot? key).any Slot.isPending

def indexOf? (s : Slots α) (key : String) : Option Nat :=
  s.map.indexOf? key

def keys (s : Slots α) : List String :=
  s.map.keys

def pendingKeys (s : Slots α) : List String :=
  (s.map.entries.filter (·.2.isPending)).map Prod.fst

/-- The filled names with their values, in order. -/
def resolved (s : Slots α) : List (String × α) :=
  s.map.entries.filterMap fun (k, slot) => slot.value?.map (k, ·)

def values (s : Slots α) : List α :=
  s.resolved.map Prod.snd

def size (s : Slots α) : Nat :=
  s.map.size

def isEmpty (s : Slots α) : Bool :=
  s.map.isEmpty

/-- Changes the value of a filled name. -/
def modify (s : Slots α) (key : String) (f : α → α) : Slots α :=
  ⟨s.map.modify key (Slot.map f)⟩

/-- Changes every filled value. -/
def mapValues (s : Slots α) (f : α → α) : Slots α :=
  ⟨s.map.mapEntries fun _ slot => slot.map f⟩

/-- Loads pairs in order; a name without a value is pending. -/
def ofList (pairs : List (String × Option α)) : Slots α :=
  ⟨OrderedMap.ofList (pairs.map fun (k, v) => (k, Slot.ofOption v))⟩

theorem keys_resolve (s : Slots α) (key : String) (value : α) :
    (s.resolve key value).keys = if key ∈ s.keys then s.keys else s.keys ++ [key] :=
  s.map.keys_insert key _

theorem keys_reserve (s : Slots α) (key : String) :
    (s.reserve key).keys = if key ∈ s.keys then s.keys else s.keys ++ [key] := by
  unfold reserve
  split
  · rename_i h
    have : key ∈ s.keys := by simpa [OrderedMap.contains, keys] using h
    simp [this]
  · exact s.map.keys_insert key _

@[simp] theorem keys_modify (s : Slots α) (key : String) (f : α → α) : (s.modify key f).keys = s.keys :=
  s.map.keys_modify key _

theorem get?_resolve (s : Slots α) (key k : String) (value : α) :
    (s.resolve key value).get? k = if k = key then some value else s.get? k := by
  simp only [get?, slot?, resolve, OrderedMap.get?_insert]
  by_cases h : k = key
  · simp [h, Slot.value?]
  · simp only [h, if_false]

end Slots

end Schemata
