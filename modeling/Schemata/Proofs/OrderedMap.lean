import Mathlib.Data.List.Nodup
import Mathlib.Data.List.Perm.Subperm
import Schemata.Slots

/-!
# Ordered maps by their look-ups

A name has a value in a map exactly when the pair is an entry, and each operation is known by what is looked up after it.
-/

namespace Schemata

namespace OrderedMap

variable {α β : Type}

/-! ## Entries and look-ups -/

theorem lookup_eq_some_iff_mem {κ : Type} [BEq κ] [LawfulBEq κ] {xs : List (κ × α)} (hn : (xs.map Prod.fst).Nodup) {k : κ}
    {v : α} : xs.lookup k = some v ↔ (k, v) ∈ xs := by
  induction xs with
  | nil => simp
  | cons x rest ih =>
    obtain ⟨j, w⟩ := x
    rw [List.map_cons, List.nodup_cons] at hn
    rw [List.lookup_cons]
    by_cases hk : k = j
    · subst hk
      have hv : (k, v) ∉ rest := fun h => hn.1 (List.mem_map.mpr ⟨_, h, rfl⟩)
      simp [hv, eq_comm]
    · simp [beq_false_of_ne hk, hk, ih hn.2]

theorem get?_eq_some_iff {m : OrderedMap α} {k : String} {v : α} : m.get? k = some v ↔ (k, v) ∈ m.entries :=
  lookup_eq_some_iff_mem m.nodup

theorem mem_keys_iff {m : OrderedMap α} {k : String} : k ∈ m.keys ↔ ∃ v, m.get? k = some v := by
  simp [keys, get?_eq_some_iff]

theorem mem_values_iff {m : OrderedMap α} {v : α} : v ∈ m.values ↔ ∃ k, m.get? k = some v := by
  simp [values, get?_eq_some_iff]

theorem get?_eq_none_iff {m : OrderedMap α} {k : String} : m.get? k = none ↔ k ∉ m.keys := by
  rw [mem_keys_iff]
  cases m.get? k <;> simp

@[simp] theorem contains_iff {m : OrderedMap α} {k : String} : m.contains k = true ↔ k ∈ m.keys := by
  simp [contains]

theorem map_some_values (m : OrderedMap α) (f : α → β) :
    m.values.map (fun v => some (f v)) = m.keys.map fun k => (m.get? k).map f := by
  rw [keys, values, List.map_map, List.map_map]
  apply List.map_congr_left
  intro x hx
  simp [get?_eq_some_iff.mpr hx]

/-- Maps with the same names whose values agree in some respect agree on it in order. -/
theorem map_values_eq {m n : OrderedMap α} {f : α → β} (hk : n.keys = m.keys)
    (h : ∀ k v w, m.get? k = some v → n.get? k = some w → f w = f v) : n.values.map f = m.values.map f := by
  have hs : n.values.map (fun v => some (f v)) = m.values.map fun v => some (f v) := by
    rw [map_some_values, map_some_values, hk]
    apply List.map_congr_left
    intro k hm
    obtain ⟨v, hv⟩ := mem_keys_iff.mp hm
    obtain ⟨w, hw⟩ := mem_keys_iff.mp (hk ▸ hm)
    rw [hv, hw, Option.map_some, Option.map_some, h k v w hv hw]
  simpa [Option.map_some] using congrArg (List.filterMap id) hs

/-- Entries under the same names are the same if each of the first is among the second. -/
theorem eq_of_subset {xs ys : List (String × α)} (hk : xs.map Prod.fst = ys.map Prod.fst)
    (hn : (ys.map Prod.fst).Nodup) (hs : xs ⊆ ys) : xs = ys := by
  induction xs generalizing ys with
  | nil => exact (List.map_eq_nil_iff.mp hk.symm).symm
  | cons x rest ih =>
    cases ys with
    | nil => exact absurd hk (List.cons_ne_nil _ _)
    | cons y others =>
      obtain ⟨hx, hr⟩ := List.cons.inj hk
      obtain ⟨hy, hn⟩ := List.nodup_cons.mp hn
      have hxy : x = y := by
        rcases List.mem_cons.mp (hs List.mem_cons_self) with h | h
        · exact h
        · exact absurd (hx ▸ List.mem_map_of_mem h) hy
      have hrest : rest ⊆ others := by
        intro z hz
        rcases List.mem_cons.mp (hs (List.mem_cons_of_mem _ hz)) with rfl | h
        · exact absurd (hr ▸ List.mem_map_of_mem hz) hy
        · exact h
      rw [hxy, ih hr hn hrest]

/-- Among what stands under all names, what belongs to one name is what stands under it. -/
theorem filter_flatMap {owner : β → String} {g : String → α → List β} (hg : ∀ k v, ∀ x ∈ g k v, owner x = k)
    (m : OrderedMap α) (k : String) : (m.entries.flatMap fun (j, v) => g j v).filter (owner · = k) = (m.get? k).elim [] (g k) := by
  have hown : ∀ j v, (g j v).filter (owner · = k) = if j = k then g j v else [] := by
    intro j v
    split
    · rename_i hj
      exact List.filter_eq_self.mpr fun x hx => decide_eq_true ((hg j v x hx).trans hj)
    · rename_i hj
      exact List.filter_eq_nil_iff.mpr fun x hx h => hj ((hg j v x hx).symm.trans (of_decide_eq_true h))
  obtain ⟨xs, hn⟩ := m
  unfold get?
  dsimp only
  induction xs with
  | nil => rfl
  | cons x rest ih =>
    obtain ⟨j, v⟩ := x
    rw [List.map_cons, List.nodup_cons] at hn
    rw [List.flatMap_cons, List.filter_append, hown, ih hn.2, lookup_cons_eq_ite]
    by_cases hk : j = k
    · subst hk
      have hl : rest.lookup j = none := by
        rw [List.lookup_eq_none_iff]
        rintro ⟨i, w⟩ hi
        simpa using fun h : j = i => hn.1 (h ▸ List.mem_map.mpr ⟨_, hi, rfl⟩)
      simp [hl]
    · simp [hk, Ne.symm hk]

/-- Maps with the same names in the same order hold values that are related if those of each name are. -/
theorem forall₂_values {R : α → β → Prop} {m : OrderedMap α} {n : OrderedMap β} (hk : n.keys = m.keys)
    (h : ∀ k v w, m.get? k = some v → n.get? k = some w → R v w) : List.Forall₂ R m.values n.values := by
  have hkeys : List.Forall₂ (fun x y => x.1 = y.1) m.entries n.entries :=
    List.forall₂_map_left_iff.mp (List.forall₂_map_right_iff.mp (List.forall₂_eq_eq_eq ▸ hk.symm))
  unfold values
  refine List.forall₂_map_left_iff.mpr (List.forall₂_map_right_iff.mpr (List.forall₂_iff_zip.mpr ⟨hkeys.length_eq, fun {x y} hxy => ?_⟩))
  obtain ⟨hx, hy⟩ := List.of_mem_zip hxy
  have hname : x.1 = y.1 := (List.forall₂_iff_zip.mp hkeys).2 hxy
  exact h x.1 x.2 y.2 (get?_eq_some_iff.mpr hx) (hname ▸ get?_eq_some_iff.mpr hy)

/-- Maps with the same names in the same order are the same if each name has the same value in both. -/
theorem eq_of_get? {m n : OrderedMap α} (hk : n.keys = m.keys)
    (h : ∀ k v w, m.get? k = some v → n.get? k = some w → w = v) : n = m := by
  refine OrderedMap.ext (eq_of_subset hk m.nodup fun x hx => ?_)
  have hn : n.get? x.1 = some x.2 := get?_eq_some_iff.mpr hx
  obtain ⟨v, hv⟩ := mem_keys_iff.mp (hk ▸ mem_keys_iff.mpr ⟨_, hn⟩ : x.1 ∈ m.keys)
  exact get?_eq_some_iff.mp (h x.1 v x.2 hv hn ▸ hv)

/-! ## Operations -/

theorem lookup_map {f : String → α → β} {xs : List (String × α)} {k : String} :
    (xs.map fun (j, v) => (j, f j v)).lookup k = (xs.lookup k).map (f k) := by
  induction xs with
  | nil => rfl
  | cons x rest ih =>
    obtain ⟨j, v⟩ := x
    simp only [List.map_cons, lookup_cons_eq_ite, ih]
    split
    · rename_i h; simp [h]
    · rfl

@[simp] theorem get?_mapEntries (f : String → α → β) (m : OrderedMap α) (k : String) :
    (m.mapEntries f).get? k = (m.get? k).map (f k) :=
  lookup_map

theorem get?_modify (m : OrderedMap α) (key k : String) (f : α → α) :
    (m.modify key f).get? k = if k = key then (m.get? k).map f else m.get? k := by
  rw [modify, get?_mapEntries]
  split
  · rfl
  · cases m.get? k <;> rfl

theorem get?_erase (m : OrderedMap α) (key k : String) :
    (m.erase key).get? k = if k = key then none else m.get? k := by
  apply Option.ext
  intro v
  rw [get?_eq_some_iff]
  split
  · rename_i h; simp [erase, h]
  · rename_i h; simp [erase, h, get?_eq_some_iff]

theorem entries_insert {m : OrderedMap α} {key : String} {value : α} (h : key ∉ m.keys) :
    (m.insert key value).entries = m.entries ++ [(key, value)] := by
  have go : ∀ xs : List (String × α), key ∉ xs.map Prod.fst → assign key value xs = xs ++ [(key, value)] := by
    intro xs hx
    induction xs with
    | nil => rfl
    | cons x rest ih =>
      obtain ⟨j, v⟩ := x
      simp only [List.map_cons, List.mem_cons, not_or] at hx
      simp [assign, Ne.symm hx.1, ih hx.2]
  exact go m.entries h

theorem assign_append {xs ys : List (String × α)} {key : String} {v value : α} (h : key ∉ xs.map Prod.fst) :
    assign key value (xs ++ (key, v) :: ys) = xs ++ (key, value) :: ys := by
  induction xs with
  | nil => simp [assign]
  | cons x rest ih =>
    obtain ⟨j, w⟩ := x
    simp only [List.map_cons, List.mem_cons, not_or] at h
    simp [assign, Ne.symm h.1, ih h.2]

theorem entries_foldl_insert {xs : List (String × α)} {m : OrderedMap α}
    (h : ((m.entries ++ xs).map Prod.fst).Nodup) :
    (xs.foldl (fun m (k, v) => m.insert k v) m).entries = m.entries ++ xs := by
  induction xs generalizing m with
  | nil => simp
  | cons x rest ih =>
    obtain ⟨k, v⟩ := x
    have hk : k ∉ m.keys := by
      intro hm
      rw [List.map_append, List.nodup_append] at h
      exact h.2.2 k hm k (by simp) rfl
    have he : (m.insert k v).entries = m.entries ++ [(k, v)] := entries_insert hk
    rw [List.foldl_cons, ih (by rw [he]; simpa using h), he]
    simp

theorem get?_foldl_insert {xs : List (String × α)} (hn : (xs.map Prod.fst).Nodup) (m : OrderedMap α) (k : String) :
    (xs.foldl (fun m (k, v) => m.insert k v) m).get? k = (xs.lookup k).or (m.get? k) := by
  induction xs generalizing m with
  | nil => rfl
  | cons x rest ih =>
    obtain ⟨hx, hn⟩ := List.nodup_cons.mp hn
    rw [List.foldl_cons, ih hn, get?_insert, lookup_cons_eq_ite]
    split
    · rename_i hk
      have hnone : rest.lookup k = none := Option.eq_none_iff_forall_ne_some.mpr fun v hv =>
        hx (List.mem_map.mpr ⟨_, (lookup_eq_some_iff_mem hn).mp hv, hk⟩)
      rw [hnone, Option.none_or, Option.some_or]
    · rfl

theorem mem_keys_ofList {xs : List (String × α)} {k : String} : k ∈ (ofList xs).keys ↔ k ∈ xs.map Prod.fst := by
  have hfold : ∀ m : OrderedMap α, k ∈ (xs.foldl (fun m (k, v) => m.insert k v) m).keys ↔ k ∈ m.keys ∨ k ∈ xs.map Prod.fst := by
    induction xs with
    | nil => simp
    | cons x rest ih =>
      intro m
      rw [List.foldl_cons, ih, keys_insert]
      split
      · rename_i hx
        have hxk : k = x.1 → k ∈ m.keys := fun h => h ▸ hx
        simp only [List.map_cons, List.mem_cons]
        tauto
      · simp only [List.map_cons, List.mem_append, List.mem_cons, List.not_mem_nil]
        tauto
  exact (hfold .empty).trans (by simp)

theorem mem_of_get?_ofList {xs : List (String × α)} {k : String} {v : α} (h : (ofList xs).get? k = some v) : (k, v) ∈ xs := by
  have hfold : ∀ m : OrderedMap α, (xs.foldl (fun m (k, v) => m.insert k v) m).get? k = some v →
      (k, v) ∈ xs ∨ m.get? k = some v := by
    clear h
    induction xs with
    | nil => exact fun _ => .inr
    | cons x rest ih =>
      intro m h
      rcases ih _ h with hlater | hfound
      · exact .inl (List.mem_cons_of_mem x hlater)
      · rw [get?_insert] at hfound
        split at hfound
        · rename_i hk
          obtain rfl := Option.some_inj.mp hfound
          exact .inl (hk ▸ List.mem_cons_self)
        · exact .inr hfound
  exact (hfold .empty h).resolve_right (by simp [get?_eq_some_iff])

/-- Pairs without a repeated name hide those before them. -/
theorem get?_ofList_append {xs ys : List (String × α)} (hn : (ys.map Prod.fst).Nodup) (k : String) :
    (ofList (xs ++ ys)).get? k = (ys.lookup k).or ((ofList xs).get? k) := by
  unfold ofList
  rw [List.foldl_append, get?_foldl_insert hn]

theorem entries_ofList {xs : List (String × α)} (h : (xs.map Prod.fst).Nodup) : (ofList xs).entries = xs := by
  have he : (xs.foldl (fun m (k, v) => m.insert k v) (empty : OrderedMap α)).entries = empty.entries ++ xs :=
    entries_foldl_insert (by simpa using h)
  simpa [ofList] using he

theorem ofList_entries (m : OrderedMap α) : ofList m.entries = m :=
  ext (entries_ofList m.nodup)

/-! ### Changing all values -/

theorem mapEntries_mapEntries {γ : Type} (f : String → α → β) (g : String → β → γ) (m : OrderedMap α) :
    (m.mapEntries f).mapEntries g = m.mapEntries fun k v => g k (f k v) :=
  ext (List.map_map ..)

theorem mapEntries_congr {f g : String → α → β} {m : OrderedMap α} (h : ∀ k v, m.get? k = some v → f k v = g k v) :
    m.mapEntries f = m.mapEntries g :=
  ext (List.map_congr_left fun x hx => congrArg (Prod.mk x.1) (h x.1 x.2 (get?_eq_some_iff.mpr hx)))

theorem insert_eq_self {m : OrderedMap α} {key : String} {value : α} (h : m.get? key = some value) :
    m.insert key value = m := by
  obtain ⟨before, after, he⟩ := List.append_of_mem (get?_eq_some_iff.mp h)
  have hn := m.nodup
  rw [he, List.map_append, List.map_cons, List.nodup_append] at hn
  have hkey : key ∉ before.map Prod.fst := fun hm => hn.2.2 key hm key List.mem_cons_self rfl
  exact ext (by simp only [insert, he, assign_append hkey])

theorem mapEntries_insert (f : String → α → β) (m : OrderedMap α) (key : String) (value : α) :
    (m.insert key value).mapEntries f = (m.mapEntries f).insert key (f key value) := by
  have hassign : ∀ xs : List (String × α), (assign key value xs).map (fun (k, v) => (k, f k v)) =
      assign key (f key value) (xs.map fun (k, v) => (k, f k v)) := by
    intro xs
    induction xs with
    | nil => rfl
    | cons x rest ih =>
      obtain ⟨k, v⟩ := x
      by_cases hk : k = key
      · simp [assign, hk]
      · simpa [assign, hk] using ih
  exact ext (hassign m.entries)

theorem mapEntries_ofList (f : String → α → β) (pairs : List (String × α)) :
    (ofList pairs).mapEntries f = ofList (pairs.map fun (k, v) => (k, f k v)) := by
  have hfold : ∀ m : OrderedMap α, (pairs.foldl (fun m (k, v) => m.insert k v) m).mapEntries f =
      (pairs.map fun (k, v) => (k, f k v)).foldl (fun m (k, v) => m.insert k v) (m.mapEntries f) := by
    induction pairs with
    | nil => exact fun _ => rfl
    | cons x rest ih =>
      intro m
      rw [List.foldl_cons, ih, mapEntries_insert]
      rfl
  exact hfold empty

theorem mapEntries_erase (f : String → α → β) (m : OrderedMap α) (key : String) :
    (m.erase key).mapEntries f = (m.mapEntries f).erase key :=
  ext (by simp [mapEntries, erase, List.filter_map, Function.comp_def])

theorem mapEntries_insertFirst (f : String → α → β) (m : OrderedMap α) (key : String) (value : α) :
    (m.insertFirst key value).mapEntries f = (m.mapEntries f).insertFirst key (f key value) :=
  ext (congrArg ((key, f key value) :: ·) (congrArg entries (mapEntries_erase f m key)))

theorem any_values_mapEntries {f : String → α → α} {p : α → Bool} (h : ∀ k v, p (f k v) = p v) (m : OrderedMap α) :
    (m.mapEntries f).values.any p = m.values.any p := by
  simp [values, mapEntries, Function.comp_def, h]

theorem contains_mapEntries (f : String → α → β) (m : OrderedMap α) (key : String) :
    (m.mapEntries f).contains key = m.contains key := by
  rw [contains, contains, keys_mapEntries]

/-! ## Maps one after the other -/

/-- A map has the entries of one map and after them those of another. -/
def Joins (o m n : OrderedMap α) : Prop :=
  o.entries = m.entries ++ n.entries

namespace Joins

variable {m n o : OrderedMap α} {k : String} {v : α}

theorem keys (h : o.Joins m n) : o.keys = m.keys ++ n.keys := by
  unfold OrderedMap.keys
  rw [h, List.map_append]

theorem values (h : o.Joins m n) : o.values = m.values ++ n.values := by
  unfold OrderedMap.values
  rw [h, List.map_append]

theorem notMem_left (h : o.Joins m n) (hk : k ∈ n.keys) : k ∉ m.keys :=
  fun hm => (List.nodup_append.mp (h.keys ▸ o.keys_nodup)).2.2 k hm k hk rfl

theorem get?_eq_some_iff (h : o.Joins m n) : o.get? k = some v ↔ m.get? k = some v ∨ n.get? k = some v := by
  have hentries : o.entries = m.entries ++ n.entries := h
  simp only [OrderedMap.get?_eq_some_iff, hentries, List.mem_append]

theorem mapEntries (h : o.Joins m n) (f : String → α → β) : (o.mapEntries f).Joins (m.mapEntries f) (n.mapEntries f) := by
  have hmap : (o.entries.map fun (k, v) => (k, f k v)) = _ := congrArg _ h
  exact hmap.trans List.map_append

end Joins

theorem modify_of_notMem {m : OrderedMap α} {key : String} (h : key ∉ m.keys) (f : α → α) : m.modify key f = m := by
  refine ext ((List.map_congr_left fun x hx => ?_).trans (List.map_id _))
  have hne : x.1 ≠ key := fun heq => h (heq ▸ List.mem_map_of_mem hx)
  exact congrArg (Prod.mk x.1) (if_neg hne)

theorem Joins.modify_left {m n o : OrderedMap α} {key : String} (h : o.Joins m n) (hk : key ∈ m.keys) (f : α → α) :
    (o.modify key f).Joins (m.modify key f) n := by
  have hmodify : (o.modify key f).Joins (m.modify key f) (n.modify key f) := h.mapEntries _
  rwa [modify_of_notMem fun hn => h.notMem_left hn hk] at hmodify

theorem Joins.modify_right {m n o : OrderedMap α} {key : String} (h : o.Joins m n) (hk : key ∈ n.keys) (f : α → α) :
    (o.modify key f).Joins m (n.modify key f) := by
  have hmodify : (o.modify key f).Joins (m.modify key f) (n.modify key f) := h.mapEntries _
  rwa [modify_of_notMem (h.notMem_left hk)] at hmodify

theorem joins_ofList {xs ys : List (String × α)} (h : ((xs ++ ys).map Prod.fst).Nodup) :
    (ofList (xs ++ ys)).Joins (ofList xs) (ofList ys) := by
  have hn := h
  rw [List.map_append, List.nodup_append] at hn
  unfold Joins
  rw [entries_ofList h, entries_ofList hn.1, entries_ofList hn.2.1]

/-- A map has the entries of one map, and in one place between them those of another. -/
def Encloses (o m n : OrderedMap α) : Prop :=
  ∃ before after, m.entries = before ++ after ∧ o.entries = before ++ n.entries ++ after

namespace Encloses

variable {m n o : OrderedMap α}

theorem of_empty (hn : n = .empty) : o.Encloses m n ↔ o = m := by
  subst hn
  constructor
  · rintro ⟨before, after, hm, ho⟩
    exact ext (by simpa [hm] using ho)
  · rintro rfl
    exact ⟨o.entries, [], by simp, by simp⟩

theorem get?_of_notMem (h : o.Encloses m n) {key : String} (hk : key ∉ n.keys) : o.get? key = m.get? key := by
  obtain ⟨before, after, hm, ho⟩ := h
  refine Option.ext fun v => ?_
  have hn : (key, v) ∉ n.entries := fun hmem => hk (List.mem_map_of_mem hmem)
  rw [get?_eq_some_iff, get?_eq_some_iff, hm, ho]
  simp [hn]

theorem insert (h : o.Encloses m n) {key : String} (hm : key ∉ m.keys) (hn : key ∉ n.keys) (value : α) :
    (o.insert key value).Encloses (m.insert key value) n := by
  have ho : key ∉ o.keys := by
    rw [← get?_eq_none_iff, h.get?_of_notMem hn, get?_eq_none_iff]
    exact hm
  obtain ⟨before, after, hme, hoe⟩ := h
  refine ⟨before, after ++ [(key, value)], ?_, ?_⟩
  · rw [entries_insert hm, hme, List.append_assoc]
  · rw [entries_insert ho, hoe, List.append_assoc]

end Encloses

/-! ## Equality up to order -/

theorem entries_nodup (m : OrderedMap α) : m.entries.Nodup :=
  List.Nodup.of_map Prod.fst m.nodup

/-- Maps with the same look-ups have the same entries, in some order. -/
theorem entries_perm {m n : OrderedMap α} (h : ∀ k, n.get? k = m.get? k) : m.entries.Perm n.entries := by
  refine (List.perm_ext_iff_of_nodup m.entries_nodup n.entries_nodup).mpr fun x => ?_
  rw [← get?_eq_some_iff (m := m), ← get?_eq_some_iff (m := n), h]

theorem get?_eq_of_perm {m n : OrderedMap α} (h : m.entries.Perm n.entries) (k : String) : n.get? k = m.get? k := by
  apply Option.ext
  intro v
  rw [get?_eq_some_iff, get?_eq_some_iff, h.mem_iff]

theorem sameValues_iff_perm [DecidableEq α] {m n : OrderedMap α} :
    m.sameValues n = true ↔ m.entries.Perm n.entries := by
  have hentry : ∀ x : String × α, (n.get? x.1 == some x.2) = true ↔ x ∈ n.entries := fun x => by
    rw [beq_iff_eq, get?_eq_some_iff]
  unfold sameValues size
  rw [Bool.and_eq_true, beq_iff_eq, List.all_eq_true]
  constructor
  · rintro ⟨hlength, hall⟩
    have hsub : m.entries ⊆ n.entries := fun x hx => (hentry x).mp (hall x hx)
    exact (List.subperm_of_subset m.entries_nodup hsub).perm_of_length_le (Nat.le_of_eq hlength.symm)
  · intro h
    exact ⟨h.length_eq, fun x hx => (hentry x).mpr (h.subset hx)⟩

end OrderedMap

end Schemata
