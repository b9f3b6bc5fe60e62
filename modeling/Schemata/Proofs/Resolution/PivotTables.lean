import Schemata.Proofs.Resolution.Links
import Schemata.Proofs.Resolution.Tables

/-!
# Tables of pivots

What a relation that is linked through a table needs of it, and that the table is there once the pass of pivots is through,
whichever relation has made it.
-/

namespace Schemata

/-- The physical columns of a table. -/
def Migration.physicalNames (m : Migration) : List String :=
  m.columns.values.flatMap Column.physicalNames

theorem Migration.physicalNames_perm {m n : Migration} (h : m.columns.entries.Perm n.columns.entries) :
    m.physicalNames.Perm n.physicalNames :=
  (h.map Prod.snd).flatMap_right _

namespace Resolution

open Schemata.Convention

variable {d e : Draft}

/-! ## What relations need -/

/-- What a relation needs of the table through which it is linked, if that is not the table of a pivot model. -/
structure Needs where
  table : String
  /-- The columns that hold keys, with the models whose keys they hold. -/
  keys : List (String × Model)
  /-- The name of the pair that points at a parent. -/
  pair : Option String

namespace Needs

/-- The physical columns through which rows are linked. -/
def names (n : Needs) : List String :=
  n.keys.map Prod.fst ++ n.pair.elim [] fun name => [name ++ "_type", name ++ "_id"]

/-- What a link needs. A model that may be replaced by others is pointed at, and the keys of other sides are held. -/
def ofLink? (models : OrderedMap Model) (owner : Model) : Link → Option Needs
  | .belongsToMany l => (models.get? l.model).map fun target =>
      ⟨l.table, [(l.foreignPivotKey, owner), (l.relatedPivotKey, target)], none⟩
  | .morphToMany l => (models.get? l.model).map fun target =>
      ⟨l.table, [(foreignKey target.className target.primaryName, target)], some l.relationKey⟩
  | .morphedByMany l => some ⟨l.table, [(foreignKey owner.className owner.primaryName, owner)], some l.relationKey⟩
  | _ => none

end Needs

/-- A column that holds the key of a model is one physical column. -/
def SingleKey (m : Model) : Prop :=
  m.foreignMethod.1 ∉ Column.timestampsTypes ∧ m.foreignMethod.1 ∉ Column.morphsTypes

instance (m : Model) : Decidable (SingleKey m) :=
  inferInstanceAs (Decidable (_ ∧ _))

/-- What is needed keeps apart: each key is one physical column, and neither the pair nor its columns go by the name of a key. -/
structure Needs.Apart (n : Needs) : Prop where
  single : ∀ x ∈ n.keys, SingleKey x.2
  pair : ∀ name, n.pair = some name → ∀ x ∈ n.keys, x.1 ∉ [name, name ++ "_type", name ++ "_id"]

theorem plain_pivotColumn {m : Model} (h : SingleKey m) (name : String) :
    (pivotColumn name m).isTimestamps = false ∧ (pivotColumn name m).isMorphs = false := by
  have htype : (pivotColumn name m).type = m.foreignMethod.1 ∨ (pivotColumn name m).type = "" := by
    by_cases hc : m.foreignMethod.1 = "comment"
    · right
      simp [pivotColumn, hc, Column.ofCall, Shorthand.Call.single, Shorthand.Call.remove, Shorthand.Call.first?,
        Shorthand.Method.bare]
    · left
      simp [pivotColumn, hc, Column.ofCall, Shorthand.Call.single, Shorthand.Call.remove, Shorthand.Call.first?]
  unfold Column.isTimestamps Column.isMorphs
  rcases htype with ht | ht <;> rw [ht]
  · exact ⟨by simpa using h.1, by simpa using h.2⟩
  · decide

theorem physicalNames_pivotColumn {m : Model} (h : SingleKey m) (name : String) :
    (pivotColumn name m).physicalNames = [name] := by
  obtain ⟨htimestamps, hmorphs⟩ := plain_pivotColumn h name
  unfold Column.physicalNames
  rw [htimestamps, hmorphs]
  rfl

theorem physicalNames_plain_morphs {type : String} (h : type ∈ ["uuidMorphs", "morphs"]) (name : String) :
    (Column.plain name type).physicalNames = [name ++ "_type", name ++ "_id"] := by
  rcases List.mem_pair.mp h with rfl | rfl <;> rfl

/-- A definition that was made for a link, before it is known whether another relation has made one. -/
structure MadeFor (n : Needs) (m : Migration) : Prop where
  guessed : IsGuessed m
  table : m.table = n.table
  names : n.Apart → n.names.Nodup → m.physicalNames.Perm n.names

theorem columns_foldl_addColumn (cs : List Column) (m : Migration) :
    (cs.foldl (fun (m : Migration) c => m.addColumn c.name c) m).columns =
      (cs.map fun c => (c.name, c)).foldl (fun columns (name, c) => columns.insert name c) m.columns := by
  have hpairs : cs.foldl (fun (m : Migration) c => m.addColumn c.name c) m =
      (cs.map fun c => (c.name, c)).foldl (fun (m : Migration) (name, c) => m.addColumn name c) m := by rw [List.foldl_map]
  rw [hpairs, foldl_addColumn]

theorem values_foldl_addColumn {cs : List Column} (hn : (cs.map (·.name)).Nodup) (table : String) :
    (cs.foldl (fun (m : Migration) c => m.addColumn c.name c) (.ofTable table)).columns.values = cs := by
  unfold OrderedMap.values
  rw [columns_foldl_addColumn, OrderedMap.entries_foldl_insert (by simpa [Migration.ofTable, Function.comp_def] using hn)]
  simp [Migration.ofTable, Function.comp_def]

theorem madeFor_manyTable {l : BelongsToMany} {owner target : Model} :
    MadeFor ⟨l.table, [(l.foreignPivotKey, owner), (l.relatedPivotKey, target)], none⟩ (manyTable l owner target) := by
  refine ⟨manyTable_isGuessed l owner target, ?_, fun h hn => ?_⟩
  · unfold manyTable
    dsimp only
    split <;> rfl
  · have ha := physicalNames_pivotColumn (h.single (_, owner) List.mem_cons_self) l.foreignPivotKey
    have hb := physicalNames_pivotColumn (h.single (_, target) (List.mem_cons_of_mem _ (List.mem_singleton_self _)))
      l.relatedPivotKey
    have hne : l.foreignPivotKey ≠ l.relatedPivotKey := by simpa [Needs.names] using hn
    have hnames : ([pivotColumn l.foreignPivotKey owner, pivotColumn l.relatedPivotKey target].map (·.name)).Nodup := by
      change [l.foreignPivotKey, l.relatedPivotKey].Nodup
      simpa using hne
    unfold manyTable Migration.physicalNames
    dsimp only
    split
    · rw [values_foldl_addColumn hnames, List.flatMap_cons, ha, List.flatMap_singleton, hb]
      exact .refl _
    · rw [values_foldl_addColumn ((List.Perm.swap _ _ _).map _ |>.nodup_iff.mp hnames), List.flatMap_cons, hb,
        List.flatMap_singleton, ha]
      exact .swap _ _ _

theorem morphsTable_ok {l : MorphToMany} {relation : RelationName} {parent related : Model} {m : Migration}
    (h : morphsTable l relation parent related = .ok m) : ∃ type ∈ ["uuidMorphs", "morphs"],
      m = { [pivotColumn (foreignKey related.className related.primaryName) related, .plain l.relationKey type].foldl
        (fun (m : Migration) c => m.addColumn c.name c) (.ofTable l.table) with fromGuessedPivot := true } := by
  unfold morphsTable at h
  dsimp only at h
  split at h
  · exact ⟨"uuidMorphs", by simp, (pure_eq_ok.mp h).symm⟩
  · split at h
    · exact ⟨"morphs", by simp, (pure_eq_ok.mp h).symm⟩
    · cases h

theorem madeFor_morphsTable {l : MorphToMany} {relation : RelationName} {parent related : Model} {m : Migration}
    (h : morphsTable l relation parent related = .ok m) :
    MadeFor ⟨l.table, [(foreignKey related.className related.primaryName, related)], some l.relationKey⟩ m := by
  obtain ⟨type, htype, hm⟩ := morphsTable_ok h
  refine ⟨morphsTable_isGuessed h, by rw [hm]; rfl, fun ha _ => ?_⟩
  have hne : foreignKey related.className related.primaryName ≠ l.relationKey := by
    have hclear := ha.pair l.relationKey rfl (_, related) (List.mem_singleton_self _)
    exact fun heq => hclear (heq ▸ List.mem_cons_self)
  unfold Migration.physicalNames
  rw [hm]
  dsimp only
  rw [values_foldl_addColumn, List.flatMap_cons, List.flatMap_singleton,
    physicalNames_pivotColumn (ha.single (_, related) (List.mem_singleton_self _)), physicalNames_plain_morphs htype]
  · exact .refl _
  · change [foreignKey related.className related.primaryName, l.relationKey].Nodup
    simpa using hne

theorem LinkTable.madeFor {owner : Model} {relation : RelationName} {link : Link} {m : Migration}
    (h : LinkTable d owner relation link m) : ∃ needs, Needs.ofLink? d.models owner link = some needs ∧ MadeFor needs m := by
  cases h with
  | many found => exact ⟨_, by rw [Needs.ofLink?, found]; rfl, madeFor_manyTable⟩
  | morphs found made => exact ⟨_, by rw [Needs.ofLink?, found]; rfl, madeFor_morphsTable made⟩
  | morphed _ made => exact ⟨_, rfl, madeFor_morphsTable made⟩

/-- A relation that needs a table has one made for it. -/
theorem pivotTable?_ok {owner : Model} {r : Relation} {found : Option Migration} (hp : r.link.pivot? = none)
    (hr : r.kind.requiresPivot = true) (h : pivotTable? d owner r = .ok found) :
    ∃ needs m, Needs.ofLink? d.models owner r.link = some needs ∧ found = some m ∧ MadeFor needs m := by
  cases found with
  | none => exact absurd (pivotTable?_none_iff.mp h) (by simp [hp, hr])
  | some m =>
    obtain ⟨needs, hneeds, hmade⟩ := (pivotTable?_some_iff.mp h).2.madeFor
    exact ⟨needs, m, hneeds, rfl, hmade⟩

theorem mem_pivotTables {ts : List (RelationName × Migration)} (h : pivotTables d = .ok ts) {k n : String} {owner : Model}
    {r : Relation} (ho : d.models.get? k = some owner) (hr : owner.relations.get? n = some r) :
    ∃ found, pivotTable? d owner r = .ok found ∧ ∀ m, found = some m → (⟨owner.key, r.name⟩, m) ∈ ts := by
  obtain ⟨tables, ht, rfl⟩ := pivotTables_iff.mp h
  obtain ⟨rows, hrows, ht⟩ := exists_mem_of_forall₂ (mapM_eq_ok.mp ht) (OrderedMap.mem_values_iff.mpr ⟨k, ho⟩)
  obtain ⟨row, hrow, ht⟩ := exists_mem_of_forall₂ (mapM_eq_ok.mp ht) (Slots.mem_values_iff.mpr ⟨n, hr⟩)
  obtain ⟨found, hf, ht⟩ := bind_eq_ok.mp ht
  obtain rfl := pure_eq_ok.mp ht
  refine ⟨found, hf, fun m hm => ?_⟩
  subst hm
  exact List.mem_flatten.mpr ⟨_, List.mem_flatten.mpr ⟨rows, hrows, hrow⟩, List.mem_singleton_self _⟩

/-! ## The table that is there -/

/-- A table is defined that can stand for another: it has the same columns, unless it was not made for pivots. -/
def StandsFor (d : Draft) (m : Migration) : Prop :=
  ∃ other, d.migrations.get? m.table = some other ∧
    (other.fromGuessedPivot = true → other.columns.entries.Perm m.columns.entries)

theorem addPivotTable_keeps {relation : RelationName} {m x : Migration} {t : String} (h : addPivotTable relation m d = .ok e)
    (hx : d.migrations.get? t = some x) : e.migrations.get? t = some x := by
  rcases addPivotTable_ok h with rfl | ⟨hnew, rfl⟩
  · exact hx
  · have hne : t ≠ m.table := by
      rintro rfl
      exact hnew (OrderedMap.mem_keys_iff.mpr ⟨x, hx⟩)
    exact (OrderedMap.get?_insert _ _ _ _).trans ((if_neg hne).trans hx)

theorem addPivotTable_standsFor {relation : RelationName} {m : Migration} (h : addPivotTable relation m d = .ok e) :
    StandsFor e m := by
  unfold addPivotTable at h
  split at h
  · obtain rfl := pure_eq_ok.mp h
    exact ⟨m, (OrderedMap.get?_insert _ _ _ _).trans (if_pos rfl), fun _ => .refl _⟩
  · rename_i other hother
    split at h
    · exact absurd h throw_ne_ok
    · rename_i hsame
      obtain rfl := pure_eq_ok.mp h
      refine ⟨other, hother, fun hg => OrderedMap.sameValues_iff_perm.mp ?_⟩
      simpa [hg] using hsame

theorem addPivotTable_of_standsFor {m : Migration} (h : StandsFor d m) (relation : RelationName) :
    addPivotTable relation m d = .ok d := by
  obtain ⟨other, hother, hsame⟩ := h
  unfold addPivotTable
  rw [hother]
  refine if_neg fun hconflict => ?_
  rw [Bool.and_eq_true, Bool.not_eq_true', ← Bool.not_eq_true, OrderedMap.sameValues_iff_perm] at hconflict
  exact hconflict.2 (hsame hconflict.1)

/-- Once a table stands for what a relation needs, it does so until the pass is through. -/
theorem standsFor_of_forM {ts : List (RelationName × Migration)}
    (h : (ts.forM fun (relation, m) => Resolve.update (addPivotTable relation m)) d = .ok () e) :
    (∀ t x, d.migrations.get? t = some x → e.migrations.get? t = some x) ∧ ∀ t ∈ ts, StandsFor e t.2 := by
  induction ts generalizing d with
  | nil =>
    obtain rfl := Resolve.forM_nil_run_ok.mp h
    exact ⟨fun _ _ hx => hx, fun _ ht => absurd ht List.not_mem_nil⟩
  | cons t rest ih =>
    obtain ⟨c, hc, hr⟩ := Resolve.forM_cons_run_ok.mp h
    have hadded := Resolve.update_run_ok.mp hc
    obtain ⟨hkeeps, hstands⟩ := ih hr
    refine ⟨fun _ _ hx => hkeeps _ _ (addPivotTable_keeps hadded hx), fun t' ht' => ?_⟩
    rcases List.mem_cons.mp ht' with rfl | ht'
    · obtain ⟨other, hother, hsame⟩ := addPivotTable_standsFor hadded
      exact ⟨other, hkeeps _ _ hother, hsame⟩
    · exact hstands t' ht'

/-- Every relation that needs a table finds one of that name, and if it was made for pivots then with the columns that the
relation needs. -/
theorem exists_pivotTable (h : Pass.pivotMigrations.body d = .ok () e) {k n : String} {owner : Model} {r : Relation}
    (ho : d.models.get? k = some owner) (hr : owner.relations.get? n = some r) (hp : r.link.pivot? = none)
    (hk : r.kind.requiresPivot = true) : ∃ needs entry, Needs.ofLink? d.models owner r.link = some needs ∧
      e.migrations.get? needs.table = some entry ∧
      (entry.fromGuessedPivot = true → needs.Apart → needs.names.Nodup → entry.physicalNames.Perm needs.names) := by
  obtain ⟨ts, c, hi, h⟩ := Resolve.bind_run_ok.mp h
  obtain ⟨hts, rfl⟩ := Resolve.inspect_run_ok.mp hi
  obtain ⟨found, hf, hmem⟩ := mem_pivotTables hts ho hr
  obtain ⟨needs, m, hneeds, rfl, hmade⟩ := pivotTable?_ok hp hk hf
  obtain ⟨entry, hentry, hsame⟩ := (standsFor_of_forM h).2 _ (hmem m rfl)
  refine ⟨needs, entry, hneeds, hmade.table ▸ hentry, fun hg ha hn => ?_⟩
  exact (Migration.physicalNames_perm (hsame hg)).trans (hmade.names ha hn)

end Resolution

end Schemata
