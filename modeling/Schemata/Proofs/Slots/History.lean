import Mathlib.Data.List.DropRight
import Schemata.Proofs.Json.RoundTrip
import Schemata.Proofs.Slots
import Schemata.Resolved.Reading
import Schemata.Resolved.Writing

/-!
# Maps by their history

What a map with reserved places holds after any operations on an empty one, told from the operations alone: a name stands
where it was first put in since it was last removed, with the value that it was given last. All that a map is asked for is
read off that list. A map of whole numbers reads back from its JSON text.
-/

namespace Schemata.Slots

variable {α : Type}

/-- What is done to a map. A change of all values in their places may depend on the name. -/
inductive Operation (α : Type)
  | reserve (key : String)
  | resolve (key : String) (value : α)
  | remove (key : String)
  | update (key : String) (f : α → α)
  | updateAll (f : String → α → α)

namespace Operation

def apply (s : Slots α) : Operation α → Slots α
  | reserve key => s.reserve key
  | resolve key value => s.resolve key value
  | remove key => s.erase key
  | update key f => s.modify key f
  | updateAll f => ⟨s.map.mapEntries fun key slot => slot.map (f key)⟩

/-- The name that an operation puts in, unless it is there. -/
def inserted? : Operation α → Option String
  | reserve key | resolve key _ => some key
  | _ => none

def removed? : Operation α → Option String
  | remove key => some key
  | _ => none

/-- The value of a name after an operation, from the one before it. -/
def valueOf (key : String) (value : Option α) : Operation α → Option α
  | resolve k v => if k = key then some v else value
  | update k f => if k = key then value.map f else value
  | updateAll f => value.map (f key)
  | _ => value

end Operation

open Operation

/-- The map after operations on an empty one. -/
def run (ops : List (Operation α)) : Slots α :=
  ops.foldl apply .empty

/-! ## The list that operations amount to -/

/-- The operations after the last removal of a name. -/
def since (key : String) (ops : List (Operation α)) : List (Operation α) :=
  ops.rtakeWhile (·.removed? ≠ some key)

/-- At which operation a name was first put in since it was last removed. -/
def bornAt (key : String) (ops : List (Operation α)) : Option Nat :=
  ((since key ops).findIdx? (·.inserted? = some key)).map (ops.length - (since key ops).length + ·)

/-- The value that a name was given last, none if it is only reserved. -/
def lastValue (key : String) (ops : List (Operation α)) : Option α :=
  (since key ops).foldl (fun value op => op.valueOf key value) none

/-- The names that are there, each at the operation that put it in. -/
def names (ops : List (Operation α)) : List String :=
  (List.range ops.length).filterMap fun i => (ops[i]?.bind inserted?).filter fun key => bornAt key ops = some i

/-- What a map holds after operations. -/
def reference (ops : List (Operation α)) : List (String × Option α) :=
  (names ops).map fun key => (key, lastValue key ops)

variable {ops : List (Operation α)} {op : Operation α} {key : String}

theorem since_append (key : String) (ops : List (Operation α)) (op : Operation α) :
    since key (ops ++ [op]) = if op.removed? = some key then [] else since key ops ++ [op] := by
  unfold since
  rw [List.rtakeWhile_concat]
  by_cases h : op.removed? = some key <;> simp [h]

theorem length_since_le (key : String) (ops : List (Operation α)) : (since key ops).length ≤ ops.length :=
  (List.rtakeWhile_suffix _ _).length_le

theorem bornAt_append (key : String) (ops : List (Operation α)) (op : Operation α) :
    bornAt key (ops ++ [op]) =
      if op.removed? = some key then none
      else (bornAt key ops).or (if op.inserted? = some key then some ops.length else none) := by
  have hle := length_since_le key ops
  unfold bornAt
  rw [since_append]
  split
  · rfl
  · rw [List.findIdx?_append, List.length_append, List.length_append, List.length_singleton, Nat.add_sub_add_right]
    cases (since key ops).findIdx? (·.inserted? = some key) with
    | some i => rfl
    | none =>
      by_cases h : op.inserted? = some key
      · simp [h, Nat.sub_add_cancel hle]
      · simp [h]

theorem lastValue_append (key : String) (ops : List (Operation α)) (op : Operation α) :
    lastValue key (ops ++ [op]) = if op.removed? = some key then none else op.valueOf key (lastValue key ops) := by
  unfold lastValue
  rw [since_append]
  split
  · rfl
  · rw [List.foldl_append, List.foldl_cons, List.foldl_nil]

theorem bornAt_lt {i : Nat} (h : bornAt key ops = some i) : i < ops.length := by
  obtain ⟨j, hj, rfl⟩ := Option.map_eq_some_iff.mp h
  have hlt := (List.findIdx?_eq_some_iff_findIdx_eq.mp hj).1
  have hle := length_since_le key ops
  omega

theorem removed?_eq_none (h : op.inserted? = some key) : op.removed? = none := by
  cases op <;> first | rfl | cases h

/-- An operation ends the entry of a name that it removes, and begins one of a name that it puts in where there is none. -/
theorem names_append (ops : List (Operation α)) (op : Operation α) :
    names (ops ++ [op]) = (names ops).filter (op.removed? ≠ some ·) ++
      (op.inserted?.filter fun key => (bornAt key ops).isNone).toList := by
  unfold names
  rw [List.length_append, List.length_singleton, List.range_succ, List.filterMap_append, List.filter_filterMap]
  congr 1
  · refine List.filterMap_congr fun i hi => ?_
    have hlt : i < ops.length := List.mem_range.mp hi
    have hborn : ∀ key, bornAt key (ops ++ [op]) = some i ↔ bornAt key ops = some i ∧ op.removed? ≠ some key := by
      intro key
      rw [bornAt_append]
      by_cases hr : op.removed? = some key
      · simp [hr]
      · cases bornAt key ops with
        | some j => simp [hr]
        | none => by_cases hk : op.inserted? = some key <;> simp [hr, hk, Nat.ne_of_gt hlt]
    rw [List.getElem?_append_left hlt, Option.filter_filter]
    refine congrArg (Option.filter · _) (funext fun key => ?_)
    rw [Bool.eq_iff_iff]
    simp [hborn]
  · rw [List.filterMap_cons, List.filterMap_nil, List.getElem?_concat_length, Option.bind_some]
    cases h : op.inserted? with
    | none => rfl
    | some key =>
      have hborn : bornAt key (ops ++ [op]) = some ops.length ↔ bornAt key ops = none := by
        rw [bornAt_append, removed?_eq_none h, if_neg nofun, if_pos h]
        cases hb : bornAt key ops with
        | none => simp
        | some i => simp [Nat.ne_of_lt (bornAt_lt hb)]
      by_cases hn : bornAt key ops = none
      · simp [Option.filter, hborn, hn]
      · simp [Option.filter, hborn, hn]

theorem mem_names_iff : key ∈ names ops ↔ (bornAt key ops).isSome = true := by
  induction ops using List.reverseRecOn with
  | nil => simp [names, bornAt, since]
  | append_singleton ops op ih =>
    rw [names_append, List.mem_append, List.mem_filter, ih, bornAt_append]
    cases hi : op.inserted? with
    | none => by_cases hr : op.removed? = some key <;> simp [hr]
    | some k =>
      rw [removed?_eq_none hi]
      by_cases hk : k = key
      · subst hk
        cases hb : bornAt k ops <;> simp [Option.filter, hb]
      · simp [Option.mem_toList, Option.filter_eq_some_iff, hk]

/-! ## The map and the list -/

theorem run_append (ops : List (Operation α)) (op : Operation α) : run (ops ++ [op]) = op.apply (run ops) := by
  unfold run
  rw [List.foldl_append, List.foldl_cons, List.foldl_nil]

theorem names_insert (h : op.inserted? = some key) :
    names (ops ++ [op]) = if key ∈ names ops then names ops else names ops ++ [key] := by
  rw [names_append, h, removed?_eq_none h]
  cases hb : bornAt key ops <;> simp [mem_names_iff, Option.filter, hb]

/-- The names stand in the order in which they were put in. -/
theorem keys_run (ops : List (Operation α)) : (run ops).keys = names ops := by
  induction ops using List.reverseRecOn with
  | nil => rfl
  | append_singleton ops op ih =>
    rw [run_append]
    cases op with
    | reserve key =>
      have hinserted : (Operation.reserve key : Operation α).inserted? = some key := rfl
      rw [names_insert hinserted, ← ih]
      exact keys_reserve _ key
    | resolve key value =>
      have hinserted : (Operation.resolve key value).inserted? = some key := rfl
      rw [names_insert hinserted, ← ih]
      exact keys_resolve _ key value
    | remove key =>
      rw [names_append, ← ih]
      refine (keys_erase _ key).trans ?_
      have hinserted : (Operation.remove key : Operation α).inserted? = none := rfl
      rw [hinserted, Option.filter_none, Option.toList_none, List.append_nil]
      refine List.filter_congr fun k _ => ?_
      rw [Bool.eq_iff_iff, bne_iff_ne, decide_eq_true_eq, ne_comm]
      exact not_congr Option.some_inj.symm
    | update key f =>
      rw [names_append, ← ih]
      refine (keys_modify _ key f).trans ?_
      simp [inserted?, removed?]
    | updateAll f =>
      rw [names_append, ← ih]
      refine (OrderedMap.keys_mapEntries _ _).trans ?_
      simp [inserted?, removed?, Slots.keys]

theorem lastValue_eq_none (h : bornAt key ops = none) : lastValue key ops = none := by
  induction ops using List.reverseRecOn with
  | nil => rfl
  | append_singleton ops op ih =>
    rw [bornAt_append] at h
    rw [lastValue_append]
    split at h
    · rename_i hr
      rw [if_pos hr]
    · rename_i hr
      rw [Option.or_eq_none_iff] at h
      rw [if_neg hr, ih h.1]
      cases op with
      | resolve k v => simpa [valueOf, inserted?] using h.2
      | _ => simp [valueOf]

theorem map_ofOption (f : α → α) (value : Option α) : (Slot.ofOption value).map f = .ofOption (value.map f) := by
  cases value <;> rfl

theorem contains_run_iff : key ∈ (run ops).keys ↔ bornAt key ops ≠ none := by
  rw [keys_run, mem_names_iff, Option.isSome_iff_ne_none]

/-- Each name has the place that its operations amount to. -/
theorem slot?_run (ops : List (Operation α)) (key : String) :
    (run ops).slot? key = (bornAt key ops).map fun _ => .ofOption (lastValue key ops) := by
  induction ops using List.reverseRecOn with
  | nil => rfl
  | append_singleton ops op ih =>
    rw [run_append, bornAt_append, lastValue_append]
    cases op with
    | reserve k =>
      refine (slot?_reserve _ k key).trans ?_
      simp only [contains_run_iff, ih]
      by_cases hk : key = k
      · subst hk
        cases hb : bornAt key ops with
        | none => simp [inserted?, removed?, valueOf, lastValue_eq_none hb, Slot.ofOption]
        | some i => simp [removed?, valueOf]
      · simp [inserted?, removed?, valueOf, hk, Ne.symm hk]
    | resolve k value =>
      refine (slot?_resolve _ k key value).trans ?_
      rw [ih]
      by_cases hk : key = k
      · subst hk
        cases hb : bornAt key ops <;> simp [inserted?, removed?, valueOf, Slot.ofOption]
      · simp [inserted?, removed?, valueOf, hk, Ne.symm hk]
    | remove k =>
      refine (slot?_erase _ k key).trans ?_
      rw [ih]
      by_cases hk : key = k
      · simp [removed?, hk]
      · simp [inserted?, removed?, valueOf, hk, Ne.symm hk]
    | update k f =>
      refine (slot?_modify _ k key f).trans ?_
      rw [ih]
      by_cases hk : key = k
      · subst hk
        cases bornAt key ops <;> simp [inserted?, removed?, valueOf, map_ofOption]
      · simp [inserted?, removed?, valueOf, hk, Ne.symm hk]
    | updateAll f =>
      refine (OrderedMap.get?_mapEntries _ _ key).trans ?_
      rw [show (run ops).map.get? key = (run ops).slot? key from rfl, ih]
      cases bornAt key ops <;> simp [inserted?, removed?, valueOf, map_ofOption]

/-- A map holds the list that its operations amount to. -/
theorem toList_run (ops : List (Operation α)) : (run ops).toList = reference ops := by
  rw [toList_eq_map_keys, keys_run]
  refine List.map_congr_left fun key hkey => Prod.ext rfl ?_
  obtain ⟨i, hi⟩ := Option.isSome_iff_exists.mp (mem_names_iff.mp hkey)
  simp only [get?, slot?_run, hi, Option.map_some, Option.bind_some]
  cases lastValue key ops <;> rfl

/-! ## Reading off -/

/-- All that a map is asked for is read off a list of names with values, in which a name without a value is pending. -/
structure ReadsOff (s : Slots α) (r : List (String × Option α)) : Prop where
  toList : s.toList = r
  keys : s.keys = r.map Prod.fst
  nodup : (r.map Prod.fst).Nodup
  get? (key : String) : s.get? key = (r.lookup key).join
  contains (key : String) : s.contains key = (r.lookup key).isSome
  indexOf? (key : String) : s.indexOf? key = r.findIdx? (·.1 == key)
  isPending (key : String) : s.isPending key = true ↔ r.lookup key = some none
  size : s.size = r.length
  resolved : s.resolved = r.filterMap fun (key, value) => value.map (key, ·)
  values : s.values = r.filterMap Prod.snd
  pendingKeys : s.pendingKeys = (r.filter (·.2.isNone)).map Prod.fst
  partition : (s.resolved.map Prod.fst ++ s.pendingKeys).Perm s.keys

theorem lookup_toList (s : Slots α) (key : String) : s.toList.lookup key = (s.slot? key).map Slot.value? :=
  OrderedMap.lookup_map (f := fun _ => Slot.value?)

theorem pendingKeys_eq (s : Slots α) : s.pendingKeys = (s.toList.filter (·.2.isNone)).map Prod.fst := by
  have hpending : ∀ slot : Slot α, slot.isPending = slot.value?.isNone := fun slot => by cases slot <;> rfl
  simp [pendingKeys, toList, List.filter_map, Function.comp_def, hpending]

theorem keys_resolved_eq (s : Slots α) : s.resolved.map Prod.fst = (s.toList.filter (!·.2.isNone)).map Prod.fst := by
  rw [resolved_eq]
  induction s.toList with
  | nil => rfl
  | cons x rest ih =>
    obtain ⟨key, value⟩ := x
    cases value <;> simp [ih]

theorem readsOff_toList (s : Slots α) : ReadsOff s s.toList := by
  have hkeys : s.keys = s.toList.map Prod.fst := by simp [toList, keys, OrderedMap.keys]
  refine ⟨rfl, hkeys, hkeys ▸ s.map.keys_nodup, fun key => ?_, fun key => ?_, fun key => ?_, fun key => ?_, ?_, resolved_eq s, ?_,
    pendingKeys_eq s, ?_⟩
  · rw [lookup_toList, get?]
    cases s.slot? key <;> rfl
  · rw [lookup_toList, Option.isSome_map, Bool.eq_iff_iff, Option.isSome_iff_exists]
    exact OrderedMap.contains_iff.trans mem_keys_iff
  · rw [indexOf?, OrderedMap.indexOf?, show s.map.keys = s.keys from rfl, hkeys, List.findIdx?_map]
    rfl
  · rw [lookup_toList, isPending]
    rcases s.slot? key with _ | _ | _ <;> simp [Slot.isPending, Slot.value?]
  · simp [size, OrderedMap.size, toList]
  · rw [values, resolved_eq, List.map_filterMap]
    refine List.filterMap_congr fun x _ => ?_
    cases h : x.2 <;> simp [h]
  · rw [keys_resolved_eq, pendingKeys_eq, hkeys, ← List.map_append]
    refine List.Perm.map Prod.fst (List.perm_append_comm.trans ?_)
    exact List.filter_append_perm _ _

/-! ## JSON text -/

theorem mapM_optional {f : α → Json} {read : Json → Option α} {xs : List (String × Option α)}
    (h : ∀ k v, (k, some v) ∈ xs → Json.optional? read (f v) = some (some v)) :
    ((xs.map fun (k, v) => (k, Json.opt f v)).mapM fun (k, v) => return (k, ← Json.optional? read v)) = some xs := by
  induction xs with
  | nil => rfl
  | cons x rest ih =>
    obtain ⟨k, v⟩ := x
    have hx : Json.optional? read (Json.opt f v) = some v := by
      cases v with
      | none => rfl
      | some v => exact h k v List.mem_cons_self
    rw [List.map_cons, List.mapM_cons, ih fun k v hm => h k v (List.mem_cons_of_mem _ hm)]
    simp [hx]

theorem ofList_toList (s : Slots α) : ofList s.toList = s := by
  have hslot : ∀ slot : Slot α, Slot.ofOption slot.value? = slot := fun slot => by cases slot <;> rfl
  unfold ofList toList
  rw [List.map_map]
  simp [Function.comp_def, hslot, OrderedMap.ofList_entries]

/-- A map is read from its JSON form if each of its values is. -/
theorem slots?_toJson {f : α → Json} {read : Json → Option α} (s : Slots α)
    (h : ∀ v ∈ s.values, Json.optional? read (f v) = some (some v)) : Json.slots? read (s.toJson f) = some s := by
  have hvalue : ∀ k v, (k, some v) ∈ s.toList → v ∈ s.values := fun k v hm => by
    rw [(readsOff_toList s).values]
    exact List.mem_filterMap.mpr ⟨_, hm, rfl⟩
  have hentries := mapM_optional fun k v hm => h v (hvalue k v hm)
  unfold Json.slots? toJson
  simp only [Json.obj?, Option.bind_eq_bind, Option.bind_some] at hentries ⊢
  rw [hentries]
  exact congrArg some (ofList_toList s)

/-- The JSON text of a map of whole numbers reads back as the map. -/
theorem parse_toJson (s : Slots Int) (h : ∀ v ∈ s.values, Json.Fits v) :
    (Json.parse (s.toJson .int).render).bind (Json.slots? Json.int?) = some s := by
  have hexact : Json.IsExact (s.toJson .int) := by
    refine Json.haveExact_iff.mpr fun x hx => ?_
    obtain ⟨⟨k, v⟩, hm, rfl⟩ := List.mem_map.mp hx
    cases v with
    | none => trivial
    | some v => exact h v ((readsOff_toList s).values ▸ List.mem_filterMap.mpr ⟨_, hm, rfl⟩)
  rw [Json.parse_render hexact, Option.bind_some]
  exact slots?_toJson s fun _ _ => rfl

/-! ## Histories -/

/-- A map is what its operations amount to, in which a name that is there keeps its place and value when it is reserved, and
a map of whole numbers of 64 bits reads back from its JSON text. -/
theorem follows_history (ops : List (Operation α)) (s : Slots Int) (h : ∀ v ∈ s.values, Json.Fits v) :
    ReadsOff (run ops) (reference ops) ∧ (∀ key ∈ (run ops).keys, run (ops ++ [.reserve key]) = run ops) ∧
      (Json.parse (s.toJson .int).render).bind (Json.slots? Json.int?) = some s := by
  refine ⟨toList_run ops ▸ readsOff_toList (run ops), fun key hkey => ?_, parse_toJson s h⟩
  rw [run_append]
  exact if_pos (OrderedMap.contains_iff.mpr hkey)

/-- A name that is removed and reserved again stands last and is pending. -/
theorem follows_history_removed_name :
    ReadsOff (run [.reserve "a", .resolve "b" 1, .resolve "a" 2, .reserve "a", .remove "b", .update "a" (· + 1), .reserve "b"])
        [("a", some 3), ("b", none)] ∧
      (∀ v ∈ (ofList [("later", none), ("now", some (-7))]).values, Json.Fits v) ∧
      (Json.parse ((ofList [("later", none), ("now", some (-7))]).toJson .int).render).bind (Json.slots? Json.int?) =
        some (ofList [("later", none), ("now", some (-7))]) := by
  have hfits : ∀ v ∈ (ofList [("later", none), ("now", some (-7))]).values, Json.Fits v := by decide
  have hread := follows_history
    [.reserve "a", .resolve "b" 1, .resolve "a" 2, .reserve "a", .remove "b", .update "a" (· + 1), .reserve "b"] _ hfits
  exact ⟨hread.1, hfits, hread.2.2⟩

end Schemata.Slots
