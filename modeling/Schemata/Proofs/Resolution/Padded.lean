import Schemata.Proofs.Resolution.Apart
import Schemata.Proofs.Resolution.KeyColumns

/-!
# Columns around others

A model may have a key in front of its columns and timestamps after them. As long as neither meets what the model has, it takes the same
key columns, and others refer to it as before.
-/

namespace Schemata

open Schemata.Shorthand

/-! ## Places -/

namespace Slots

variable {α : Type} {b a : List (String × α)} {s t : Slots α} {k : String} {v : α}

/-- Places with their values. -/
def filled (xs : List (String × α)) : List (String × Slot α) :=
  xs.map fun (k, v) => (k, .resolved v)

/-- The places of one map, with filled places before and after them. -/
def Padded (b a : List (String × α)) (s t : Slots α) : Prop :=
  t.map.entries = filled b ++ s.map.entries ++ filled a

namespace Padded

theorem keys (h : Padded b a s t) : t.keys = b.map Prod.fst ++ s.keys ++ a.map Prod.fst := by
  have hfilled : ∀ xs : List (String × α), (filled xs).map Prod.fst = xs.map Prod.fst := fun xs => List.map_map
  unfold Slots.keys OrderedMap.keys
  rw [h, List.map_append, List.map_append, hfilled, hfilled]

theorem resolved (h : Padded b a s t) : t.resolved = b ++ s.resolved ++ a := by
  have hfilled : ∀ xs : List (String × α), (filled xs).filterMap (fun x => x.2.value?.map (x.1, ·)) = xs := by
    intro xs
    unfold filled
    rw [List.filterMap_map]
    exact List.filterMap_some
  unfold Slots.resolved
  rw [h, List.filterMap_append, List.filterMap_append]
  exact congrArg₂ (· ++ ·) (congrArg (· ++ _) (hfilled b)) (hfilled a)

theorem values (h : Padded b a s t) : t.values = b.map Prod.snd ++ s.values ++ a.map Prod.snd := by
  unfold Slots.values
  rw [h.resolved, List.map_append, List.map_append]

theorem pendingKeys (h : Padded b a s t) : t.pendingKeys = s.pendingKeys := by
  have hfilled : ∀ xs : List (String × α), (filled xs).filter (·.2.isPending) = [] := by
    intro xs
    refine List.filter_eq_nil_iff.mpr fun x hx => ?_
    obtain ⟨y, _, rfl⟩ := List.mem_map.mp hx
    exact Bool.false_ne_true
  unfold Slots.pendingKeys
  rw [h, List.filter_append, List.filter_append, hfilled, hfilled, List.nil_append, List.append_nil]

theorem notMem (h : Padded b a s t) (hk : k ∈ s.keys) : k ∉ b.map Prod.fst ∧ k ∉ a.map Prod.fst := by
  have hn : t.keys.Nodup := t.map.keys_nodup
  rw [h.keys, List.nodup_append] at hn
  exact ⟨fun hb => (List.nodup_append.mp hn.1).2.2 k hb k hk rfl, fun ha => hn.2.2 k (List.mem_append_right _ hk) k ha rfl⟩

theorem resolve (h : Padded b a s t) (hk : k ∈ s.keys) (v : α) : Padded b a (s.resolve k v) (t.resolve k v) := by
  obtain ⟨slot, hslot⟩ := OrderedMap.mem_keys_iff.mp hk
  obtain ⟨xs, ys, he⟩ := List.append_of_mem (OrderedMap.get?_eq_some_iff.mp hslot)
  have hxs : k ∉ xs.map Prod.fst := by
    have hn := s.map.nodup
    rw [he, List.map_append, List.map_cons, List.nodup_append] at hn
    exact fun hm => hn.2.2 k hm k List.mem_cons_self rfl
  have hbefore : k ∉ (filled b ++ xs).map Prod.fst := by
    rw [List.map_append, List.mem_append]
    exact fun hm => hm.elim (fun hb => (h.notMem hk).1 (by simpa [filled] using hb)) hxs
  have ht : t.map.entries = (filled b ++ xs) ++ (k, slot) :: (ys ++ filled a) := by
    rw [h, he]
    simp
  unfold Padded Slots.resolve OrderedMap.insert
  dsimp only
  rw [ht, he, OrderedMap.assign_append hbefore, OrderedMap.assign_append hxs]
  simp

theorem filter_filled {xs : List (String × α)} (hk : k ∉ xs.map Prod.fst) : (filled xs).filter (·.1 != k) = filled xs := by
  refine List.filter_eq_self.mpr fun x hx => ?_
  obtain ⟨y, hy, rfl⟩ := List.mem_map.mp hx
  exact bne_iff_ne.mpr fun heq => hk (heq ▸ List.mem_map_of_mem hy)

theorem erase (h : Padded b a s t) (hk : k ∈ s.keys) : Padded b a (s.erase k) (t.erase k) := by
  unfold Padded Slots.erase OrderedMap.erase
  dsimp only
  rw [h, List.filter_append, List.filter_append, filter_filled (h.notMem hk).1, filter_filled (h.notMem hk).2]

/-- What stands in front may be taken away again. -/
theorem erase_first (h : Padded [(k, v)] a s t) : Padded [] a s (t.erase k) := by
  have hn : t.keys.Nodup := t.map.keys_nodup
  rw [h.keys, List.append_assoc] at hn
  obtain ⟨hk, _⟩ := List.nodup_cons.mp hn
  have hrest : ∀ x ∈ s.map.entries ++ filled a, x.1 ≠ k := by
    rintro x hx rfl
    have hmem : x.1 ∈ (s.map.entries ++ filled a).map Prod.fst := List.mem_map_of_mem hx
    rw [List.map_append] at hmem
    exact hk (by simpa [Slots.keys, OrderedMap.keys, filled] using hmem)
  have ht : t.map.entries = (k, .resolved v) :: (s.map.entries ++ filled a) := h
  unfold Padded Slots.erase OrderedMap.erase
  dsimp only
  rw [ht, List.filter_cons_of_neg (by simp)]
  exact List.filter_eq_self.mpr fun x hx => bne_iff_ne.mpr (hrest x hx)

theorem modify (h : Padded b a s t) (hk : k ∈ s.keys) (f : α → α) : Padded b a (s.modify k f) (t.modify k f) := by
  have hfilled : ∀ {xs : List (String × α)}, k ∉ xs.map Prod.fst →
      (filled xs).map (fun x => (x.1, if x.1 = k then x.2.map f else x.2)) = filled xs := by
    intro xs hxs
    refine (List.map_congr_left fun x hx => ?_).trans (List.map_id _)
    obtain ⟨y, hy, rfl⟩ := List.mem_map.mp hx
    have hne : y.1 ≠ k := fun heq => hxs (heq ▸ List.mem_map_of_mem hy)
    exact congrArg (Prod.mk _) (if_neg hne)
  unfold Padded Slots.modify OrderedMap.modify OrderedMap.mapEntries
  dsimp only
  rw [h, List.map_append, List.map_append]
  exact congrArg₂ (· ++ ·) (congrArg (· ++ _) (hfilled (h.notMem hk).1)) (hfilled (h.notMem hk).2)

end Padded

end Slots

/-! ## Columns -/

/-- The key that may be added. -/
def keyPad (key : Bool) : List (String × Column) :=
  if key then [("id", .plain "id" "id")] else []

/-- The timestamps that may be added. -/
def timesPad (times : Bool) : List (String × Column) :=
  if times then [("timestamps", .plain "timestamps" "timestamps")] else []

/-- A key, or timestamps, may be added to columns: they have none, and nothing that goes by the same names. -/
structure Admits (key times : Bool) (columns : List Column) : Prop where
  key : key = true → ∀ c ∈ columns, c.isPrimary = false ∧ c.name ≠ "id" ∧ "id" ∉ c.physicalNames
  times : times = true → ∀ c ∈ columns, c.name ≠ "timestamps" ∧ "created_at" ∉ c.physicalNames ∧ "updated_at" ∉ c.physicalNames

instance (key times : Bool) (columns : List Column) : Decidable (Admits key times columns) :=
  decidable_of_iff ((key = true → ∀ c ∈ columns, c.isPrimary = false ∧ c.name ≠ "id" ∧ "id" ∉ c.physicalNames) ∧
      (times = true → ∀ c ∈ columns, c.name ≠ "timestamps" ∧ "created_at" ∉ c.physicalNames ∧ "updated_at" ∉ c.physicalNames))
    ⟨fun ⟨key, times⟩ => ⟨key, times⟩, fun h => ⟨h.key, h.times⟩⟩

namespace Admits

variable {key times : Bool} {columns : List Column} {owner : Owner}

theorem of_untagged {others : List Column} (h : Admits key times columns)
    (hs : ∀ c ∈ others, ∃ c' ∈ columns, c'.untagged = c.untagged) : Admits key times others where
  key hk c hc := by
    obtain ⟨c', hc', hu⟩ := hs c hc
    have hprimary : c'.untagged.isPrimary = c.untagged.isPrimary := by rw [hu]
    have hname : c'.untagged.name = c.untagged.name := by rw [hu]
    have hphysical : c'.untagged.physicalNames = c.untagged.physicalNames := by rw [hu]
    obtain ⟨h₁, h₂, h₃⟩ := h.key hk c' hc'
    exact ⟨hprimary.symm.trans h₁, fun heq => h₂ (hname.trans heq), fun hmem => h₃ (hphysical.symm ▸ hmem)⟩
  times ht c hc := by
    obtain ⟨c', hc', hu⟩ := hs c hc
    have hname : c'.untagged.name = c.untagged.name := by rw [hu]
    have hphysical : c'.untagged.physicalNames = c.untagged.physicalNames := by rw [hu]
    obtain ⟨h₁, h₂, h₃⟩ := h.times ht c' hc'
    exact ⟨fun heq => h₁ (hname.trans heq), fun hmem => h₂ (hphysical.symm ▸ hmem), fun hmem => h₃ (hphysical.symm ▸ hmem)⟩

theorem of_less {key' : Bool} (h : Admits key times columns) (hkey : key' = true → key = true) : Admits key' times columns where
  key hk := h.key (hkey hk)
  times := h.times

theorem checkAutoIncrement (h : Admits key times columns) (hc : Schemata.checkAutoIncrement owner columns = .ok ()) :
    Schemata.checkAutoIncrement owner ((keyPad key).map Prod.snd ++ columns ++ (timesPad times).map Prod.snd) = .ok () := by
  have htimes : ((timesPad times).map Prod.snd).countP Column.isAutoIncrement = 0 := by
    cases times <;> decide
  have hcount : ((keyPad key).map Prod.snd ++ columns ++ (timesPad times).map Prod.snd).countP Column.isAutoIncrement ≤ 1 := by
    rw [List.countP_append, List.countP_append, htimes]
    cases key with
    | false =>
      unfold Schemata.checkAutoIncrement at hc
      split at hc
      · exact absurd hc throw_ne_ok
      · simpa [keyPad] using ‹¬1 < columns.countP Column.isAutoIncrement›
    | true =>
      have hnone : columns.countP Column.isAutoIncrement = 0 := List.countP_eq_zero.mpr fun c hmem hauto => by
        have hprimary := (h.key rfl c hmem).1
        rw [Column.isPrimary_of_isAutoIncrement hauto] at hprimary
        cases hprimary
      rw [hnone]
      decide
  unfold Schemata.checkAutoIncrement
  rw [if_neg (Nat.not_lt.mpr hcount)]
  rfl

theorem checkPhysical (h : Admits key times columns) (hc : Schemata.checkPhysical owner columns = .ok ()) :
    Schemata.checkPhysical owner ((keyPad key).map Prod.snd ++ columns ++ (timesPad times).map Prod.snd) = .ok () := by
  obtain ⟨hnames, _, hcount⟩ := checkPhysicalAfter_ok List.nodup_nil hc
  rw [List.nil_append] at hnames
  have htimes : ((timesPad times).map Prod.snd).countP Column.isPrimary = 0 := by
    cases times <;> decide
  have hlast : ((columns ++ (timesPad times).map Prod.snd).flatMap Column.physicalNames).Nodup := by
    rw [List.flatMap_append]
    refine List.nodup_append.mpr ⟨hnames, by cases times <;> decide, ?_⟩
    rintro x hx _ hy rfl
    cases times with
    | false => exact absurd hy List.not_mem_nil
    | true =>
      obtain ⟨c, hmem, hx⟩ := List.mem_flatMap.mp hx
      obtain ⟨_, hcreated, hupdated⟩ := h.times rfl c hmem
      have hy : x = "created_at" ∨ x = "updated_at" := by
        simpa [timesPad, Column.physicalNames, Column.isTimestamps, Column.plain, Column.timestampsTypes] using hy
      rcases hy with rfl | rfl
      · exact hcreated hx
      · exact hupdated hx
  refine checkPhysicalAfter_of_nodup ?_ (by simp) ?_
  · rw [List.nil_append, List.append_assoc, List.flatMap_append]
    refine List.nodup_append.mpr ⟨by cases key <;> decide, hlast, ?_⟩
    rintro x hx _ hy rfl
    cases key with
    | false => exact absurd hx List.not_mem_nil
    | true =>
      obtain rfl : x = "id" := by
        simpa [keyPad, Column.physicalNames, Column.isTimestamps, Column.isMorphs, Column.plain, Column.timestampsTypes,
          Column.morphsTypes] using hx
      rw [List.flatMap_append, List.mem_append] at hy
      rcases hy with hy | hy
      · obtain ⟨c, hmem, hid⟩ := List.mem_flatMap.mp hy
        exact (h.key rfl c hmem).2.2 hid
      · cases times <;> revert hy <;> decide
  · rw [List.countP_append, List.countP_append, htimes]
    cases key with
    | false => simpa [keyPad] using hcount
    | true =>
      have hnone : columns.countP Column.isPrimary = 0 := List.countP_eq_zero.mpr fun c hmem => by
        simp [(h.key rfl c hmem).1]
      rw [hnone]
      decide

end Admits

/-! ## Models -/

/-- What others may tell of a model whether or not it has more columns. -/
def Part.isOutward : Part → Bool
  | .pivot | .keyName | .relations _ | .parents | .parentSet => true
  | _ => false

/-- The name of a key column ends neither in that of a key that is added, unless it ends in that of no other column, nor in that of
timestamps that are added. -/
structure Spares (key times : Bool) (columns : List Column) (name : String) : Prop where
  key : key = true → '_' :: "id".toList <:+ name.toList → ∀ c ∈ columns, ¬('_' :: c.name.toList) <:+ name.toList
  times : times = true → ¬('_' :: "timestamps".toList) <:+ name.toList

instance (key times : Bool) (columns : List Column) (name : String) : Decidable (Spares key times columns name) :=
  decidable_of_iff ((key = true → '_' :: "id".toList <:+ name.toList → ∀ c ∈ columns, ¬('_' :: c.name.toList) <:+ name.toList) ∧
      (times = true → ¬('_' :: "timestamps".toList) <:+ name.toList))
    ⟨fun ⟨key, times⟩ => ⟨key, times⟩, fun h => ⟨h.key, h.times⟩⟩

namespace Resolution

/-- A model has the columns of another, and with them a key or timestamps that are added. -/
structure Widened (key times : Bool) (m n : Model) : Prop where
  columns : m.columns.Padded (keyPad key) (timesPad times) n.columns
  primary : n.primary = if key then some .conventional else m.primary
  unkeyed : key = true → m.primary = none
  timestamps : n.timestamps = if times then some .conventional else m.timestamps
  /-- The timestamps that are added do not pass for the column of the key. -/
  named : times = true → ∀ p, m.primary = some p → p.column ≠ "timestamps"

namespace Widened

variable {key times : Bool} {m n m' n' : Model} {S : Part → Prop} {relation : String} {column : Column} {l : DeclaredRelation}

theorem congr (h : Widened key times m n) (hm : Part.Same .columns m m' ∧ Part.Same .keys m m')
    (hn : Part.Same .columns n n' ∧ Part.Same .keys n n') : Widened key times m' n' where
  columns := by rw [show m'.columns = m.columns from hm.1, show n'.columns = n.columns from hn.1]; exact h.columns
  primary := by rw [hn.2.1, hm.2.1]; exact h.primary
  unkeyed hk := hm.2.1.trans (h.unkeyed hk)
  timestamps := by rw [hn.2.2.1, hm.2.2.1]; exact h.timestamps
  named ht p hp := h.named ht p (hm.2.1.symm.trans hp)

theorem values (h : Widened key times m n) :
    n.columns.values = (keyPad key).map Prod.snd ++ m.columns.values ++ (timesPad times).map Prod.snd :=
  h.columns.values

/-! ### Keys -/

theorem primary_eq (h : Widened key times m n) (hp : m.primary ≠ none) : n.primary = m.primary := by
  cases key with
  | false => exact h.primary
  | true => exact absurd (h.unkeyed rfl) hp

theorem primaryName (h : Widened key times m n) : n.primaryName = m.primaryName := by
  unfold Model.primaryName
  rw [h.primary]
  cases key with
  | false => rfl
  | true => rw [h.unkeyed rfl]; rfl

theorem keyShape (h : Widened key times m n) (hu : (KeyShape.of m).isUsable = true) : KeyShape.of n = KeyShape.of m := by
  have hp : m.primary ≠ none := by
    intro hnone
    simp [KeyShape.of, KeyShape.isUsable, Model.hasAutoIncrementKey, Model.hasUuidKey, hnone] at hu
  unfold KeyShape.of Model.hasAutoIncrementKey Model.hasUuidKey
  rw [h.primary_eq hp]

theorem foreignMethod (h : Widened key times m n) : n.foreignMethod = m.foreignMethod := by
  cases key with
  | true =>
    have hm : m.foreignMethod = ("unsignedBigInteger", []) := by
      simp [Model.foreignMethod, Model.primaryColumn?, Model.hasUuidKey, h.unkeyed rfl]
    have hn : n.primaryColumn? = some (.plain "id" "id") := by
      unfold Model.primaryColumn? Model.columnNamed?
      rw [h.primary, h.values]
      rfl
    rw [hm, Model.foreignMethod, hn]
    rfl
  | false =>
    have hprimary : n.primary = m.primary := h.primary
    have hcolumn : n.primaryColumn? = m.primaryColumn? := by
      unfold Model.primaryColumn?
      rw [hprimary]
      cases hp : m.primary with
      | none => rfl
      | some p =>
        have hnone : ((timesPad times).map Prod.snd).find? (·.name == p.column) = none := by
          cases times with
          | false => rfl
          | true => exact List.find?_cons_of_neg (by simpa [Column.plain] using (h.named rfl p hp).symm)
        rw [Option.bind_some, Option.bind_some]
        unfold Model.columnNamed?
        rw [h.values, keyPad, if_neg (by simp), List.map_nil, List.nil_append, List.find?_append, hnone, Option.or_none]
    unfold Model.foreignMethod Model.hasUuidKey
    rw [hcolumn, hprimary]

/-! ### Key columns -/

/-- A key column has the same builder if its name does not end in that of a column that is added. -/
theorem builderFor (h : Widened key times m n) {name : String} (hs : Spares key times m.columns.values name) :
    builderFor n name = Resolution.builderFor m name := by
  have htimes : ((timesPad times).map Prod.snd).find? (fun c => ('_' :: c.name.toList).isSuffixOf name.toList) = none := by
    cases times with
    | false => rfl
    | true => exact List.find?_cons_of_neg fun hsuffix => hs.times rfl (List.isSuffixOf_iff_suffix.mp hsuffix)
  unfold Resolution.builderFor
  rw [h.foreignMethod, h.values, List.find?_append, List.find?_append, htimes, Option.or_none]
  by_cases hk : key = true ∧ '_' :: "id".toList <:+ name.toList
  · obtain ⟨rfl, hsuffix⟩ := hk
    have hnone : m.columns.values.find? (fun c => ('_' :: c.name.toList).isSuffixOf name.toList) = none :=
      List.find?_eq_none.mpr fun c hc hx => hs.key rfl hsuffix c hc (List.isSuffixOf_iff_suffix.mp hx)
    have hm : m.foreignMethod = ("unsignedBigInteger", []) := by
      simp [Model.foreignMethod, Model.primaryColumn?, Model.hasUuidKey, h.unkeyed rfl]
    have hid : ((keyPad true).map Prod.snd).find? (fun c => ('_' :: c.name.toList).isSuffixOf name.toList) = some (.plain "id" "id") :=
      List.find?_cons_of_pos (List.isSuffixOf_iff_suffix.mpr hsuffix)
    rw [hid, hnone, hm]
    rfl
  · have hnone : ((keyPad key).map Prod.snd).find? (fun c => ('_' :: c.name.toList).isSuffixOf name.toList) = none := by
      cases key with
      | false => rfl
      | true => exact List.find?_cons_of_neg fun hsuffix => hk ⟨rfl, List.isSuffixOf_iff_suffix.mp hsuffix⟩
    rw [hnone, Option.none_or]

theorem keyColumn (h : Widened key times m n) (hmn : m.Agrees S n)
    (hs : ∀ name, l.argument? 1 = some name → Spares key times m.columns.values name) (hc : keyColumn l m = .ok column) :
    keyColumn l n = .ok column := by
  unfold Resolution.keyColumn at hc ⊢
  cases hgiven : l.argument? 1 with
  | some name =>
    rw [hgiven] at hc
    dsimp only at hc ⊢
    rw [h.builderFor (hs name hgiven)]
    exact hc
  | none =>
    rw [hgiven] at hc
    dsimp only at hc ⊢
    split at hc
    · rename_i hkey
      have hn : n.hasPrimaryKey = true := by
        unfold Model.hasPrimaryKey
        rw [h.primary_eq (Option.isSome_iff_ne_none.mp hkey)]
        exact hkey
      rw [if_pos hn, h.foreignMethod, h.primaryName, hmn.className]
      exact hc
    · exact absurd hc throw_ne_ok

theorem declaredKey? (h : Widened key times m n) {name : String} (hid : key = true → name ≠ "id")
    (htimes : times = true → name ≠ "timestamps") : declaredKey? n relation name = Resolution.declaredKey? m relation name := by
  have hkey : (keyPad key).find? (fun x => x.1 != relation && x.2.name == name) = none := by
    cases key with
    | false => rfl
    | true => exact List.find?_cons_of_neg (by simp [Column.plain, (hid rfl).symm])
  have hlast : (timesPad times).find? (fun x => x.1 != relation && x.2.name == name) = none := by
    cases times with
    | false => rfl
    | true => exact List.find?_cons_of_neg (by simp [Column.plain, (htimes rfl).symm])
  unfold Resolution.declaredKey?
  rw [h.columns.resolved, List.find?_append, List.find?_append, hkey, hlast, Option.none_or, Option.or_none]

theorem withColumns (h : Widened key times m n) {s t : Slots Column} (hs : s.Padded (keyPad key) (timesPad times) t) :
    Widened key times { m with columns := s } { n with columns := t } :=
  { h with columns := hs }

theorem placeKey (h : Widened key times m n) (hr : relation ∈ m.columns.keys) (hid : key = true → column.name ≠ "id")
    (htimes : times = true → column.name ≠ "timestamps") :
    Widened key times (placeKey relation column m) (Resolution.placeKey relation column n) := by
  have hsame : Resolution.declaredKey? n relation column.name = _ := h.declaredKey? hid htimes
  unfold Resolution.placeKey
  rw [hsame]
  cases hk : Resolution.declaredKey? m relation column.name with
  | none => exact h.withColumns (h.columns.resolve hr column)
  | some j =>
    refine h.withColumns ((h.columns.erase hr).modify ?_ _)
    have hj : j ∈ m.columns.keys := by
      obtain ⟨x, hx, rfl⟩ := Option.map_eq_some_iff.mp hk
      exact Slots.mem_keys_iff.mpr ⟨_, Slots.get?_eq_some_iff.mp (Slots.mem_resolved_iff.mp (List.mem_of_find?_eq_some hx))⟩
    rw [Slots.keys_erase]
    exact List.mem_filter.mpr ⟨hj, bne_iff_ne.mpr (declaredKey?_ne hk)⟩

/-! ### Pivot models -/

/-- A key that was added may be given up again. -/
theorem dropped (h : Widened true times m n) : Widened false times m { n with columns := n.columns.erase "id", primary := none } where
  columns := h.columns.erase_first
  primary := (h.unkeyed rfl).symm
  unkeyed hk := absurd hk (by simp)
  timestamps := h.timestamps
  named := h.named

end Widened

end Resolution

end Schemata
