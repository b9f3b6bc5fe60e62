import Mathlib.Data.List.Nodup
import Mathlib.Data.List.Pairwise
import Schemata.Proofs.OrderedMap

/-!
# Reserved names by their look-ups

A name of a map with reserved places is absent, pending or filled. What each operation makes of it, and what it means that
no name is pending.
-/

namespace Schemata

namespace Slots

variable {α : Type} {s : Slots α} {k : String}

/-! ## Entries and look-ups -/

theorem get?_eq_some_iff {v : α} : s.get? k = some v ↔ s.slot? k = some (.resolved v) := by
  unfold get?
  cases s.slot? k with
  | none => simp
  | some slot => cases slot <;> simp [Slot.value?]

theorem ne_of_pending {key : String} {v : α} (hw : s.slot? key = some .pending) (hk : s.get? k = some v) : k ≠ key := by
  rintro rfl
  rw [get?_eq_some_iff, hw] at hk
  cases hk

theorem mem_keys_iff : k ∈ s.keys ↔ ∃ slot, s.slot? k = some slot :=
  OrderedMap.mem_keys_iff

theorem mem_resolved_iff {v : α} : (k, v) ∈ s.resolved ↔ s.get? k = some v := by
  rw [get?_eq_some_iff]
  unfold slot? resolved
  rw [OrderedMap.get?_eq_some_iff, List.mem_filterMap]
  constructor
  · rintro ⟨⟨j, slot⟩, hm, h⟩
    cases slot with
    | pending => simp [Slot.value?] at h
    | resolved w =>
        obtain ⟨rfl, rfl⟩ := by simpa [Slot.value?] using h
        exact hm
  · intro hm
    exact ⟨_, hm, rfl⟩

theorem mem_values_iff {v : α} : v ∈ s.values ↔ ∃ k, s.get? k = some v := by
  simp [values, mem_resolved_iff]

/-- Where the parts of all values are distinct, no two names have one in common. -/
theorem eq_of_mem_parts {β : Type} {f : α → List β} (h : (s.values.flatMap f).Nodup) {j : String} {v w : α} {x : β}
    (hv : s.get? k = some v) (hx : x ∈ f v) (hw : s.get? j = some w) (hy : x ∈ f w) : k = j := by
  unfold values at h
  rw [List.flatMap_map, List.nodup_flatMap] at h
  have : Std.Symm (Function.onFun List.Disjoint fun a : String × α => f a.2) := ⟨fun _ _ h _ ha hb => h hb ha⟩
  by_contra hne
  have hdisjoint := h.2.forall (mem_resolved_iff.mpr hv) (mem_resolved_iff.mpr hw) fun heq => hne (Prod.mk.inj heq).1
  exact hdisjoint hx hy

/-- Where one value at most has a property, it has one name. -/
theorem eq_of_countP_le_one {p : α → Bool} (h : s.values.countP p ≤ 1) {j : String} {v w : α} (hv : s.get? k = some v)
    (hp : p v = true) (hw : s.get? j = some w) (hq : p w = true) : k = j := by
  have hlength : (s.resolved.filter (p ∘ Prod.snd)).length ≤ 1 := by
    rwa [← List.countP_eq_length_filter, ← List.countP_map]
  have hmem : ∀ {name : String} {u : α}, s.get? name = some u → p u = true → (name, u) ∈ s.resolved.filter (p ∘ Prod.snd) :=
    fun hu hpu => List.mem_filter.mpr ⟨mem_resolved_iff.mpr hu, hpu⟩
  cases hl : s.resolved.filter (p ∘ Prod.snd) with
  | nil => exact absurd (hl ▸ hmem hv hp) List.not_mem_nil
  | cons x rest =>
    rw [hl, List.length_cons] at hlength
    obtain rfl : rest = [] := List.length_eq_zero_iff.mp (by omega)
    have hk := List.mem_singleton.mp (hl ▸ hmem hv hp)
    have hj := List.mem_singleton.mp (hl ▸ hmem hw hq)
    exact congrArg Prod.fst (hk.trans hj.symm)

theorem mem_pendingKeys_iff : k ∈ s.pendingKeys ↔ s.slot? k = some .pending := by
  unfold slot? pendingKeys
  rw [OrderedMap.get?_eq_some_iff, List.mem_map]
  constructor
  · rintro ⟨⟨j, slot⟩, hm, rfl⟩
    rw [List.mem_filter] at hm
    cases slot with
    | pending => exact hm.1
    | resolved v => simp [Slot.isPending] at hm
  · intro hm
    exact ⟨_, List.mem_filter.mpr ⟨hm, rfl⟩, rfl⟩

theorem mem_keys_iff_pending_or_filled : k ∈ s.keys ↔ k ∈ s.pendingKeys ∨ ∃ v, s.get? k = some v := by
  simp only [mem_keys_iff, mem_pendingKeys_iff, get?_eq_some_iff]
  constructor
  · rintro ⟨slot, h⟩
    cases slot with
    | pending => exact Or.inl h
    | resolved v => exact Or.inr ⟨v, h⟩
  · rintro (h | ⟨v, h⟩) <;> exact ⟨_, h⟩

theorem toList_eq_map_keys (s : Slots α) : s.toList = s.keys.map fun key => (key, s.get? key) := by
  unfold toList keys OrderedMap.keys
  rw [List.map_map]
  refine List.map_congr_left fun x hx => Prod.ext rfl ?_
  have hslot : s.slot? x.1 = some x.2 := OrderedMap.get?_eq_some_iff.mpr hx
  simp [get?, hslot]

theorem resolved_eq (s : Slots α) : s.resolved = s.toList.filterMap fun (key, value) => value.map (key, ·) := by
  simp [resolved, toList, List.filterMap_map]

/-- The filled names are those that have a value, in the order of all names. -/
theorem resolved_eq_filterMap (s : Slots α) : s.resolved = s.keys.filterMap fun key => (s.get? key).map (key, ·) := by
  rw [resolved_eq, toList_eq_map_keys, List.filterMap_map]
  rfl

theorem values_eq_filterMap (s : Slots α) : s.values = s.keys.filterMap s.get? := by
  rw [values, resolved_eq_filterMap, List.map_filterMap]
  refine List.filterMap_congr fun key _ => ?_
  rw [Option.map_map]
  exact congrFun Option.map_id (s.get? key)

theorem keys_filter_resolved (s : Slots α) (p : α → Bool) :
    (s.resolved.filter fun x => p x.2).map Prod.fst = s.keys.filter fun key => (s.get? key).any p := by
  rw [resolved_eq_filterMap, List.filter_filterMap, List.map_filterMap, ← List.filterMap_eq_filter]
  refine List.filterMap_congr fun key _ => ?_
  cases hkey : s.get? key with
  | none => simp [Option.guard, hkey]
  | some v => by_cases hv : p v <;> simp [Option.guard, Option.filter, hkey, hv]

theorem keys_resolved_sublist (s : Slots α) : (s.resolved.map Prod.fst).Sublist s.keys := by
  have hall := keys_filter_resolved s fun _ => true
  rw [List.filter_true] at hall
  rw [hall]
  exact List.filter_sublist

theorem keys_resolved_nodup (s : Slots α) : (s.resolved.map Prod.fst).Nodup :=
  (keys_resolved_sublist s).nodup s.map.keys_nodup

theorem find?_resolved (s : Slots α) (p : α → Bool) :
    (s.resolved.find? fun x => p x.2).map Prod.fst = (s.keys.filter fun k => (s.get? k).any p).head? := by
  rw [← keys_filter_resolved, List.head?_map, List.head?_filter]

theorem toList_eq (h : s.pendingKeys = []) : s.toList = s.resolved.map fun (k, v) => (k, some v) := by
  obtain ⟨⟨xs, hn⟩⟩ := s
  unfold pendingKeys at h
  unfold toList resolved
  simp only [List.map_eq_nil_iff] at h ⊢
  clear hn
  induction xs with
  | nil => rfl
  | cons x rest ih =>
    obtain ⟨j, slot⟩ := x
    cases slot with
    | pending => simp [Slot.isPending] at h
    | resolved v => simpa [Slot.value?] using ih (by simpa [Slot.isPending] using h)

/-- The filled names of a complete map are all its names. -/
theorem keys_resolved (h : s.pendingKeys = []) : s.resolved.map Prod.fst = s.keys := by
  have hkeys : s.toList.map Prod.fst = s.keys := by
    rw [toList_eq_map_keys, List.map_map]
    exact List.map_id _
  rw [← hkeys, toList_eq h, List.map_map]
  rfl

/-- What is left out of a list changes nothing if nothing is made of it. -/
theorem filterMap_of_sublist {β γ : Type} {xs ys : List β} {f : β → Option γ} (h : xs.Sublist ys) (hn : ys.Nodup)
    (hf : ∀ y ∈ ys, y ∉ xs → f y = none) : ys.filterMap f = xs.filterMap f := by
  induction h with
  | slnil => rfl
  | @cons xs ys y h ih =>
    obtain ⟨hy, hn⟩ := List.nodup_cons.mp hn
    rw [List.filterMap_cons_none (hf y List.mem_cons_self fun hx => hy (h.subset hx))]
    exact ih hn fun z hz => hf z (List.mem_cons_of_mem y hz)
  | @cons_cons xs ys y h ih =>
    obtain ⟨hy, hn⟩ := List.nodup_cons.mp hn
    have hrest : ys.filterMap f = xs.filterMap f := ih hn fun z hz hx =>
      hf z (List.mem_cons_of_mem y hz) fun hm => (List.mem_cons.mp hm).elim (fun he => hy (he ▸ hz)) hx
    rw [List.filterMap_cons, List.filterMap_cons, hrest]

/-- Of two maps with their names in one order, the same value is found first if the same names have such values. -/
theorem map_find?_values {β : Type} {s t : Slots α} {p : α → Bool} {f : α → β} (hk : t.keys.Sublist s.keys)
    (h : ∀ k, ((t.get? k).filter p).map f = ((s.get? k).filter p).map f) :
    (t.values.find? p).map f = (s.values.find? p).map f := by
  have hfound : ∀ u : Slots α, (u.values.find? p).map f =
      (u.keys.filterMap fun k => ((u.get? k).filter p).map f).head? := fun u => by
    rw [← List.head?_filter, values_eq_filterMap, List.filter_filterMap, ← List.head?_map, List.map_filterMap]
  rw [hfound, hfound, ← filterMap_of_sublist hk s.map.keys_nodup, funext h]
  intro k _ hnone
  have hget : t.get? k = none := by
    rw [get?, Option.eq_none_iff_forall_ne_some.mpr fun slot hs => hnone (mem_keys_iff.mpr ⟨slot, hs⟩)]
    rfl
  rw [hget]
  rfl

/-- Places with the same names in the same order are the same if the same are filled. -/
theorem eq_of_get? {s t : Slots α} (hk : t.keys = s.keys) (h : ∀ k, t.get? k = s.get? k) : t = s := by
  refine congrArg Slots.mk (OrderedMap.eq_of_get? hk fun k x y hx hy => ?_)
  have hs : s.slot? k = some x := hx
  have ht : t.slot? k = some y := hy
  have hget := h k
  unfold get? at hget
  rw [hs, ht] at hget
  cases x <;> cases y <;> simp_all [Slot.value?]

/-! ## Operations -/

theorem slot?_reserve (s : Slots α) (key k : String) :
    (s.reserve key).slot? k = if k = key ∧ key ∉ s.keys then some .pending else s.slot? k := by
  unfold reserve
  by_cases h : key ∈ s.keys
  · rw [if_pos (OrderedMap.contains_iff.mpr h), if_neg (by simp [h])]
  · rw [if_neg (by simpa [keys] using h)]
    change (s.map.insert key .pending).get? k = _
    rw [OrderedMap.get?_insert]
    simp [h, slot?]

theorem slot?_resolve (s : Slots α) (key k : String) (v : α) :
    (s.resolve key v).slot? k = if k = key then some (.resolved v) else s.slot? k :=
  s.map.get?_insert key k _

theorem slot?_erase (s : Slots α) (key k : String) :
    (s.erase key).slot? k = if k = key then none else s.slot? k :=
  s.map.get?_erase key k

theorem slot?_modify (s : Slots α) (key k : String) (f : α → α) :
    (s.modify key f).slot? k = if k = key then (s.slot? k).map (Slot.map f) else s.slot? k :=
  s.map.get?_modify key k _

theorem get?_reserve (s : Slots α) (key k : String) : (s.reserve key).get? k = s.get? k := by
  apply Option.ext
  intro v
  simp only [get?_eq_some_iff, slot?_reserve]
  split
  · rename_i h
    have hn : s.slot? k = none := by
      rw [h.1, slot?, OrderedMap.get?_eq_none_iff]; exact h.2
    simp [hn]
  · rfl

theorem get?_erase (s : Slots α) (key k : String) :
    (s.erase key).get? k = if k = key then none else s.get? k := by
  unfold get?
  rw [slot?_erase]
  split <;> rfl

theorem get?_modify (s : Slots α) (key k : String) (f : α → α) :
    (s.modify key f).get? k = if k = key then (s.get? k).map f else s.get? k := by
  unfold get?
  rw [slot?_modify]
  split
  · cases s.slot? k with
    | none => rfl
    | some slot => cases slot <;> rfl
  · rfl

theorem mem_pendingKeys_resolve {key : String} {v : α} :
    k ∈ (s.resolve key v).pendingKeys ↔ k ≠ key ∧ k ∈ s.pendingKeys := by
  simp only [mem_pendingKeys_iff, slot?_resolve]
  split <;> simp_all

theorem mem_pendingKeys_erase {key : String} : k ∈ (s.erase key).pendingKeys ↔ k ≠ key ∧ k ∈ s.pendingKeys := by
  simp only [mem_pendingKeys_iff, slot?_erase]
  split <;> simp_all

theorem mem_pendingKeys_modify {key : String} {f : α → α} :
    k ∈ (s.modify key f).pendingKeys ↔ k ∈ s.pendingKeys := by
  simp only [mem_pendingKeys_iff, slot?_modify]
  split
  · cases s.slot? k with
    | none => simp
    | some slot => cases slot <;> simp [Slot.map]
  · rfl

theorem mem_pendingKeys_reserve {key : String} :
    k ∈ (s.reserve key).pendingKeys ↔ k ∈ s.pendingKeys ∨ (k = key ∧ key ∉ s.keys) := by
  simp only [mem_pendingKeys_iff, slot?_reserve]
  split <;> simp_all

theorem keys_erase (s : Slots α) (key : String) : (s.erase key).keys = s.keys.filter (· != key) :=
  s.map.keys_erase key

theorem resolved_modify (s : Slots α) (key : String) (f : α → α) :
    (s.modify key f).resolved = s.resolved.map fun (k, v) => (k, if k = key then f v else v) := by
  unfold modify resolved OrderedMap.modify OrderedMap.mapEntries
  rw [List.filterMap_map, List.map_filterMap]
  congr 1
  funext x
  obtain ⟨k, slot⟩ := x
  cases slot with
  | pending => by_cases hk : k = key <;> simp [hk, Slot.map, Slot.value?]
  | resolved v => by_cases hk : k = key <;> simp [hk, Slot.map, Slot.value?]

/-- A reserved place has filled places before it and after it, and is one of them once it is filled. -/
theorem exists_resolved_of_pending {key : String} (h : s.slot? key = some .pending) : ∃ before after,
    s.resolved = before ++ after ∧ (s.erase key).resolved = before ++ after ∧
      ∀ v, (s.resolve key v).resolved = before ++ (key, v) :: after := by
  obtain ⟨xs, ys, he⟩ := List.append_of_mem (OrderedMap.get?_eq_some_iff.mp h)
  have hn := s.map.nodup
  rw [he, List.map_append, List.map_cons, List.nodup_append] at hn
  obtain ⟨_, hys, hd⟩ := hn
  have hxs : key ∉ xs.map Prod.fst := fun hm => hd key hm key List.mem_cons_self rfl
  have hys : key ∉ ys.map Prod.fst := (List.nodup_cons.mp hys).1
  have hne : ∀ zs : List (String × Slot α), key ∉ zs.map Prod.fst → zs.filter (·.1 != key) = zs := by
    intro zs hz
    refine List.filter_eq_self.mpr fun z hm => ?_
    simpa using fun heq : z.1 = key => hz (heq ▸ List.mem_map_of_mem hm)
  refine ⟨xs.filterMap fun x => x.2.value?.map (x.1, ·), ys.filterMap fun x => x.2.value?.map (x.1, ·),
    ?_, ?_, fun v => ?_⟩
  · simp [resolved, he, Slot.value?]
  · simp [resolved, erase, OrderedMap.erase, he, Slot.value?, List.filter_append, hne xs hxs, hne ys hys]
  · simp [resolved, resolve, OrderedMap.insert, he, OrderedMap.assign_append hxs, Slot.value?]

/-! ## Many places at once -/

theorem get?_foldl_reserve (names : List String) (s : Slots α) (k : String) :
    (names.foldl reserve s).get? k = s.get? k := by
  induction names generalizing s with
  | nil => rfl
  | cons name rest ih => rw [List.foldl_cons, ih, get?_reserve]

theorem keys_foldl_reserve {names : List String} {s : Slots α} (h : (s.keys ++ names).Nodup) :
    (names.foldl reserve s).keys = s.keys ++ names := by
  induction names generalizing s with
  | nil => simp
  | cons name rest ih =>
    have hn : name ∉ s.keys := fun hm => (List.nodup_append.mp h).2.2 name hm name (by simp) rfl
    have hk : (s.reserve name).keys = s.keys ++ [name] := by rw [keys_reserve, if_neg hn]
    rw [List.foldl_cons, ih (by rw [hk]; simpa using h), hk]
    simp

/-! ## Changing all values -/

theorem keys_mapValues (s : Slots α) (f : α → α) : (s.mapValues f).keys = s.keys :=
  s.map.keys_mapEntries _

theorem slot?_mapValues (s : Slots α) (f : α → α) (k : String) : (s.mapValues f).slot? k = (s.slot? k).map (Slot.map f) :=
  s.map.get?_mapEntries _ k

theorem get?_mapValues (s : Slots α) (f : α → α) (k : String) : (s.mapValues f).get? k = (s.get? k).map f := by
  unfold get?
  rw [slot?_mapValues]
  cases s.slot? k with
  | none => rfl
  | some slot => cases slot <;> rfl

theorem values_mapValues (s : Slots α) (f : α → α) : (s.mapValues f).values = s.values.map f := by
  unfold values resolved mapValues OrderedMap.mapEntries
  rw [List.filterMap_map, List.map_filterMap, List.map_filterMap, List.map_filterMap]
  refine congrArg (List.filterMap · _) (funext fun x => ?_)
  obtain ⟨k, slot⟩ := x
  cases slot <;> rfl

theorem mapValues_eq_self {f : α → α} (h : ∀ k v, s.get? k = some v → f v = v) : s.mapValues f = s := by
  have hself : s.map.mapEntries (fun _ slot => slot) = s.map := OrderedMap.ext (List.map_id _)
  refine congrArg Slots.mk ((OrderedMap.mapEntries_congr fun k slot hk => ?_).trans hself)
  cases slot with
  | pending => rfl
  | resolved v => exact congrArg Slot.resolved (h k v (get?_eq_some_iff.mpr hk))

theorem mapValues_resolve (s : Slots α) (key : String) (value : α) (f : α → α) :
    (s.resolve key value).mapValues f = (s.mapValues f).resolve key (f value) :=
  congrArg Slots.mk (OrderedMap.mapEntries_insert _ s.map key _)

theorem mapValues_reserve (s : Slots α) (key : String) (f : α → α) : (s.reserve key).mapValues f = (s.mapValues f).reserve key := by
  have hcontains : (s.mapValues f).map.contains key = s.map.contains key := OrderedMap.contains_mapEntries _ s.map key
  unfold reserve
  rw [hcontains]
  split
  · rfl
  · exact congrArg Slots.mk (OrderedMap.mapEntries_insert _ s.map key _)

/-- A change that is not seen through another is not seen through it in a place. -/
theorem mapValues_modify {f g : α → α} (h : ∀ v, f (g v) = f v) (s : Slots α) (key : String) :
    (s.modify key g).mapValues f = s.mapValues f := by
  unfold mapValues modify OrderedMap.modify
  rw [OrderedMap.mapEntries_mapEntries]
  refine congrArg (fun h => Slots.mk (s.map.mapEntries h)) (funext fun k => funext fun slot => ?_)
  split
  · cases slot with
    | pending => rfl
    | resolved v => exact congrArg Slot.resolved (h v)
  · rfl

end Slots

end Schemata
