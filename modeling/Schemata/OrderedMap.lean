/-!
Maps from names to values that keep the order in which names were first inserted. The view of a map is its list of entries,
in which no name occurs twice.
-/

namespace Schemata

/-- Gives `key` a value: in place if it has one, else at the end. -/
def assign {α : Type} (key : String) (value : α) : List (String × α) → List (String × α)
  | [] => [(key, value)]
  | (k, v) :: rest => if k = key then (key, value) :: rest else (k, v) :: assign key value rest

theorem keys_assign {α : Type} (key : String) (value : α) (xs : List (String × α)) :
    (assign key value xs).map Prod.fst =
      if key ∈ xs.map Prod.fst then xs.map Prod.fst else xs.map Prod.fst ++ [key] := by
  induction xs with
  | nil => simp [assign]
  | cons x rest ih =>
    obtain ⟨k, v⟩ := x
    by_cases h : k = key
    · simp [assign, h]
    · simp only [assign, h, if_false, List.map_cons, ih, List.mem_cons, Ne.symm h, false_or]
      split <;> simp

structure OrderedMap (α : Type) where
  entries : List (String × α)
  nodup : (entries.map Prod.fst).Nodup

namespace OrderedMap

variable {α β : Type}

@[ext] theorem ext {m n : OrderedMap α} (h : m.entries = n.entries) : m = n := by
  cases m; cases n; cases h; rfl

instance [DecidableEq α] : DecidableEq (OrderedMap α) := fun m n =>
  decidable_of_iff (m.entries = n.entries) ⟨ext, fun h => h ▸ rfl⟩

def empty : OrderedMap α := ⟨[], .nil⟩

instance : Inhabited (OrderedMap α) := ⟨empty⟩

instance : EmptyCollection (OrderedMap α) := ⟨empty⟩

def keys (m : OrderedMap α) : List String :=
  m.entries.map Prod.fst

def values (m : OrderedMap α) : List α :=
  m.entries.map Prod.snd

def size (m : OrderedMap α) : Nat :=
  m.entries.length

def isEmpty (m : OrderedMap α) : Bool :=
  m.entries.isEmpty

def get? (m : OrderedMap α) (key : String) : Option α :=
  m.entries.lookup key

def contains (m : OrderedMap α) (key : String) : Bool :=
  m.keys.contains key

/-- The position of a name. -/
def indexOf? (m : OrderedMap α) (key : String) : Option Nat :=
  m.keys.findIdx? (· == key)

/-- Gives a name its value. A name that is present keeps its position. -/
def insert (m : OrderedMap α) (key : String) (value : α) : OrderedMap α where
  entries := assign key value m.entries
  nodup := by
    rw [keys_assign]
    split
    · exact m.nodup
    · rename_i h
      exact List.nodup_append.2 ⟨m.nodup, by simp, by intro a ha b hb; simp at hb; rintro rfl; exact h (hb ▸ ha)⟩

/-- Removes a name and keeps the order of the others. -/
def erase (m : OrderedMap α) (key : String) : OrderedMap α where
  entries := m.entries.filter (·.1 != key)
  nodup := (List.Sublist.map Prod.fst List.filter_sublist).nodup m.nodup

/-- Puts a name in front of all others. -/
def insertFirst (m : OrderedMap α) (key : String) (value : α) : OrderedMap α where
  entries := (key, value) :: (m.erase key).entries
  nodup := by
    rw [List.map_cons, List.nodup_cons]
    exact ⟨by simp [erase], (m.erase key).nodup⟩

/-- Changes values without touching names or order. -/
def mapEntries (f : String → α → β) (m : OrderedMap α) : OrderedMap β where
  entries := m.entries.map fun (k, v) => (k, f k v)
  nodup := by
    have h : (m.entries.map fun (k, v) => (k, f k v)).map Prod.fst = m.entries.map Prod.fst := by simp
    rw [h]
    exact m.nodup

/-- Changes the value of one name, if it is present. -/
def modify (m : OrderedMap α) (key : String) (f : α → α) : OrderedMap α :=
  m.mapEntries fun k v => if k = key then f v else v

/-- Inserts pairs one after the other: a repeated name keeps its first position and its last value. -/
def ofList (pairs : List (String × α)) : OrderedMap α :=
  pairs.foldl (fun m (k, v) => m.insert k v) empty

/-- Whether two maps give the same names the same values, in any order. -/
def sameValues [BEq α] (m n : OrderedMap α) : Bool :=
  m.size == n.size && m.entries.all fun (k, v) => n.get? k == some v

@[simp] theorem entries_empty : (empty : OrderedMap α).entries = [] := rfl

@[simp] theorem keys_empty : (empty : OrderedMap α).keys = [] := rfl

theorem keys_nodup (m : OrderedMap α) : m.keys.Nodup := m.nodup

theorem keys_insert (m : OrderedMap α) (key : String) (value : α) :
    (m.insert key value).keys = if key ∈ m.keys then m.keys else m.keys ++ [key] :=
  keys_assign key value m.entries

@[simp] theorem keys_mapEntries (f : String → α → β) (m : OrderedMap α) : (m.mapEntries f).keys = m.keys := by
  simp [keys, mapEntries]

@[simp] theorem keys_modify (m : OrderedMap α) (key : String) (f : α → α) : (m.modify key f).keys = m.keys := by
  simp [modify]

theorem keys_erase (m : OrderedMap α) (key : String) : (m.erase key).keys = m.keys.filter (· != key) := by
  simp [keys, erase, List.filter_map, Function.comp_def]

theorem lookup_cons_eq_ite (k j : String) (v : α) (xs : List (String × α)) :
    ((j, v) :: xs).lookup k = if k = j then some v else xs.lookup k := by
  by_cases h : k = j
  · simp [h]
  · simp [List.lookup_cons, beq_false_of_ne h, h]

theorem lookup_assign (key k : String) (value : α) (xs : List (String × α)) :
    (assign key value xs).lookup k = if k = key then some value else xs.lookup k := by
  induction xs with
  | nil => simp [assign, lookup_cons_eq_ite]
  | cons x rest ih =>
    obtain ⟨j, v⟩ := x
    by_cases hj : j = key
    · simp only [assign, hj, if_true, lookup_cons_eq_ite]
      split <;> rfl
    · simp only [assign, hj, if_false, lookup_cons_eq_ite, ih]
      by_cases hk : k = key
      · simp [hk, Ne.symm hj]
      · simp [hk]

theorem get?_insert (m : OrderedMap α) (key k : String) (value : α) :
    (m.insert key value).get? k = if k = key then some value else m.get? k :=
  lookup_assign key k value m.entries

end OrderedMap

end Schemata
