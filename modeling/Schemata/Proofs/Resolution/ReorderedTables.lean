import Schemata.Proofs.Resolution.Beside
import Schemata.Proofs.Resolution.PivotTables
import Schemata.Proofs.Resolution.ReorderedRelations

/-!
# Tables in another order

Tables of models have names of their own, so that they are the same in any order. A table that several relations need is made for the
first of them, and is the same for each if keys and pairs cannot be taken for each other.
-/

namespace Schemata.Resolution

open Resolve

variable {d e d' : Draft}

theorem Draft.Alike.addMigration (h : d.Alike e) (m : Migration) : (addMigration d m).Alike (addMigration e m) where
  settings := h.settings
  tables := h.tables
  declarations := h.declarations
  models := h.models
  migrations table := by
    change (e.migrations.insert m.table m).get? table = (d.migrations.insert m.table m).get? table
    rw [OrderedMap.get?_insert, OrderedMap.get?_insert, h.migrations]

/-! ## Declared tables -/

theorem simulates_addDeclared (table : String) (s : MigrationDeclaration) :
    Simulates Draft.Alike (.update (addDeclared table s)) := by
  refine .update fun d b e h hrun => ?_
  obtain ⟨hmodels, m, hm, rfl⟩ := addDeclared_ok hrun
  refine ⟨_, ?_, h.addMigration m⟩
  have hnone : (b.models.values.find? fun m => m.migration && m.table == table) = none := by
    refine List.find?_eq_none.mpr fun n hn hp => ?_
    obtain ⟨k, hn⟩ := OrderedMap.mem_values_iff.mp hn
    obtain ⟨o, ho, hon⟩ := h.symm.exists_model hn
    obtain ⟨hmigration, htable⟩ := Bool.and_eq_true_iff.mp hp
    refine hmodels o (OrderedMap.mem_values_iff.mpr ⟨k, ho⟩) ?_ ?_
    · exact (Model.congr_withoutParents (g := Model.migration) (fun _ => rfl) hon).trans hmigration
    · exact (Model.congr_withoutParents (g := Model.table) (fun _ => rfl) hon).trans (beq_iff_eq.mp htable)
  unfold addDeclared
  rw [hnone]
  exact bind_eq_ok.mpr ⟨m, hm, rfl⟩

theorem reordered_explicitMigrations (h : d.Alike d') (hrun : Pass.explicitMigrations.body d = .ok () e) :
    ∃ e', Pass.explicitMigrations.body d' = .ok () e' ∧ e.Alike e' := by
  have hsimulates : Simulates Draft.Alike Pass.explicitMigrations.body := by
    refine .bind (.inspect fun d b r h hr => ?_) fun ds => .forM fun x _ => simulates_addDeclared x.1 x.2
    unfold SchemaDeclaration.migrationDeclarations at hr ⊢
    rw [h.tables]
    exact hr
  exact hsimulates h hrun

/-! ## Tables of models -/

theorem reordered_modelMigrations (h : d.Alike d')
    (hn : (d.migrations.keys ++ (d.models.values.filter (·.migration)).map Model.table).Nodup)
    (hrun : Pass.modelMigrations.body d = .ok () e) : ∃ e', Pass.modelMigrations.body d' = .ok () e' ∧ e.Alike e' := by
  -- What is made of the models pays no heed to parents.
  have hmade : ∀ {β : Type} {g : Model → β} (_ : ∀ m, g m.withoutParents = g m) (c : Draft),
      (c.models.values.filter (·.migration)).map g = ((c.models.values.map Model.withoutParents).filter (·.migration)).map g := by
    intro β g hg c
    rw [List.filter_map, List.map_map]
    exact congrArg (List.map · _) (funext fun m => (hg m).symm)
  have hperm : ∀ {β : Type} {g : Model → β} (_ : ∀ m, g m.withoutParents = g m),
      ((d.models.values.filter (·.migration)).map g).Perm ((d'.models.values.filter (·.migration)).map g) := by
    intro β g hg
    rw [hmade hg d, hmade hg d']
    exact (h.values_perm.filter _).map _
  have hentries := OrderedMap.entries_perm h.migrations
  have hn' : (d'.migrations.keys ++ (d'.models.values.filter (·.migration)).map Model.table).Nodup :=
    ((hentries.map Prod.fst).append (hperm fun _ => rfl)).nodup_iff.mp hn
  obtain rfl := modify_run_ok.mp hrun
  have hd := modelMigrations_ok hn
  have hd' := modelMigrations_ok hn'
  refine ⟨_, modify_run_ok.mpr rfl, ?_⟩
  rw [hd.rest, hd'.rest]
  refine ⟨h.settings, h.tables, h.declarations, h.models, OrderedMap.get?_eq_of_perm ?_⟩
  dsimp only
  rw [hd.entries, hd'.entries]
  exact hentries.append (hperm fun _ => rfl)

/-! ## Tables of pivots -/

theorem pivotTable?_withoutParents (d : Draft) (owner : Model) (r : Relation) :
    pivotTable? d owner.withoutParents r.withoutParents = pivotTable? d owner r := by
  obtain ⟨name, methods, link⟩ := r
  cases link <;> rfl

theorem pivotTable?_congr (h : d.SameOutlines e) (owner : Model) (r : Relation) : pivotTable? e owner r = pivotTable? d owner r := by
  unfold pivotTable?
  split
  · rfl
  · split
    · exact h.model_bind (fun _ => rfl) _
    · exact h.model_bind (fun _ => rfl) _
    · exact h.model_bind (fun _ => rfl) _
    · rfl

/-- The rows of a model do not tell the parents of its pointers. -/
theorem pivotRows_withoutParents (d : Draft) (owner : Model) :
    owner.withoutParents.relations.values.mapM (pivotRow d owner.withoutParents) = owner.relations.values.mapM (pivotRow d owner) := by
  have hrow : ∀ r : Relation, r.withoutParents.name = r.name := Relation.name_mapMorphTo _
  change (owner.relations.mapValues Relation.withoutParents).values.mapM _ = _
  rw [Slots.values_mapValues, List.mapM_map]
  refine congrArg (List.mapM · _) (funext fun r => ?_)
  simp only [Function.comp, pivotRow, pivotTable?_withoutParents, hrow]
  rfl

/-- The same tables are needed, in some order. -/
theorem reordered_pivotTables (h : d.Alike d') {ts : List (RelationName × Migration)} (hts : pivotTables d = .ok ts) :
    ∃ ts', pivotTables d' = .ok ts' ∧ ts.Perm ts' := by
  have hsame : pivotRow d' = pivotRow d := by
    funext owner r
    unfold pivotRow
    rw [pivotTable?_congr h.sameOutlines]
  have hmap : ∀ c : Draft, (c.models.values.mapM fun owner => owner.relations.values.mapM (pivotRow c owner)) =
      (c.models.values.map Model.withoutParents).mapM fun owner => owner.relations.values.mapM (pivotRow c owner) := by
    intro c
    rw [List.mapM_map]
    exact congrArg (List.mapM · _) (funext fun owner => (pivotRows_withoutParents c owner).symm)
  obtain ⟨tables, htables, rfl⟩ := pivotTables_iff.mp hts
  obtain ⟨tables', htables', hp⟩ := mapM_perm h.values_perm ((hmap d).symm.trans htables)
  rw [← hsame, ← hmap d'] at htables'
  exact ⟨_, pivotTables_iff.mpr ⟨tables', htables', rfl⟩, hp.flatten.flatten⟩

/-! ### Tables by their columns -/

/-- The table that is made of two columns. -/
def tableOfTwo (table : String) (a b : Column) (primary : Option (List String)) : Migration :=
  { [a, b].foldl (fun (m : Migration) c => m.addColumn c.name c) (.ofTable table) with primary, fromGuessedPivot := true }

/-- A table for pivots has two keys by name, which together are its primary key, or a key and a pair. -/
inductive MadeOfTwo : Migration → Prop
  | keys {table a b} : a.name ≤ b.name → a.isMorphs = false → b.isMorphs = false →
      MadeOfTwo (tableOfTwo table a b (some [a.name, b.name]))
  | pair {table a b} : a.isMorphs = false → b.isMorphs = true → MadeOfTwo (tableOfTwo table a b none)

theorem madeOfTwo_manyTable {l : BelongsToMany} {owner target : Model} (ho : SingleKey owner) (ht : SingleKey target) :
    MadeOfTwo (manyTable l owner target) := by
  have ha := (plain_pivotColumn ho l.foreignPivotKey).2
  have hb := (plain_pivotColumn ht l.relatedPivotKey).2
  unfold manyTable
  dsimp only
  split
  · rename_i hle
    exact .keys hle ha hb
  · rename_i hle
    exact .keys ((String.le_total _ _).resolve_left hle) hb ha

theorem madeOfTwo_morphsTable {l : MorphToMany} {relation : RelationName} {parent related : Model} {m : Migration}
    (hr : SingleKey related) (h : morphsTable l relation parent related = .ok m) : MadeOfTwo m := by
  obtain ⟨type, htype, rfl⟩ := morphsTable_ok h
  refine .pair (plain_pivotColumn hr _).2 ?_
  rcases List.mem_pair.mp htype with rfl | rfl <;> rfl

theorem LinkTable.madeOfTwo (hd : ∀ m ∈ d.models.values, SingleKey m) {owner : Model} (ho : owner ∈ d.models.values)
    {relation : RelationName} {link : Link} {m : Migration} (h : LinkTable d owner relation link m) : MadeOfTwo m := by
  have hmodel : ∀ {key target}, d.models.get? key = some target → SingleKey target := fun hm =>
    hd _ (OrderedMap.mem_values_iff.mpr ⟨_, hm⟩)
  cases h with
  | many found => exact madeOfTwo_manyTable (hd owner ho) (hmodel found)
  | morphs found made => exact madeOfTwo_morphsTable (hmodel found) made
  | morphed _ made => exact madeOfTwo_morphsTable (hd owner ho) made

theorem entries_tableOfTwo (table : String) (a b : Column) (primary : Option (List String)) :
    (tableOfTwo table a b primary).columns.entries =
      if a.name = b.name then [(a.name, b)] else [(a.name, a), (b.name, b)] := by
  by_cases h : a.name = b.name <;>
    simp [tableOfTwo, Migration.addColumn, Migration.ofTable, OrderedMap.insert, assign, OrderedMap.empty, h]

/-- Of two columns of one name only the last is there. -/
theorem tableOfTwo_congr {a a' b : Column} (h : a.name = b.name) (h' : a'.name = b.name) (table : String)
    (primary : Option (List String)) : tableOfTwo table a b primary = tableOfTwo table a' b primary := by
  have hcolumns : (tableOfTwo table a b primary).columns = (tableOfTwo table a' b primary).columns := by
    refine OrderedMap.ext ?_
    rw [entries_tableOfTwo, entries_tableOfTwo, if_pos h, if_pos h', h, h']
  exact congrArg (fun columns => { Migration.ofTable table with columns, primary, fromGuessedPivot := true }) hcolumns

/-- Two tables of two columns with the same entries have the same columns, in this order or in the other. -/
theorem eq_of_perm_two {a b a' b' : Column}
    (h : (if a.name = b.name then [(a.name, b)] else [(a.name, a), (b.name, b)]).Perm
      (if a'.name = b'.name then [(a'.name, b')] else [(a'.name, a'), (b'.name, b')])) :
    b = b' ∧ (a.name = b.name ∧ a'.name = b'.name ∨ a = a') ∨ a = b' ∧ b = a' ∧ a.name ≠ b.name := by
  split at h <;> split at h
  · rename_i hab hab'
    have heq := List.perm_singleton.mp h
    simp only [List.cons.injEq, Prod.mk.injEq, and_true] at heq
    exact .inl ⟨heq.2, .inl ⟨hab, hab'⟩⟩
  · exact absurd h.length_eq (by simp)
  · exact absurd h.length_eq (by simp)
  · rename_i hab hab'
    have hmem : (a.name, a) ∈ [(a'.name, a'), (b'.name, b')] := h.subset List.mem_cons_self
    rcases List.mem_pair.mp hmem with heq | heq
    · obtain rfl := (Prod.mk.inj heq).2
      have hb := List.perm_singleton.mp h.cons_inv
      simp only [List.cons.injEq, Prod.mk.injEq, and_true] at hb
      exact .inl ⟨hb.2, .inr rfl⟩
    · obtain rfl := (Prod.mk.inj heq).2
      have hb := List.perm_singleton.mp (h.trans (List.Perm.swap _ _ _)).cons_inv
      simp only [List.cons.injEq, Prod.mk.injEq, and_true] at hb
      exact .inr ⟨rfl, hb.2, hab⟩

/-- Tables of one name that are made for pivots are the same if they have the same columns. -/
theorem MadeOfTwo.eq_of_perm {m n : Migration} (hm : MadeOfTwo m) (hn : MadeOfTwo n) (ht : m.table = n.table)
    (h : m.columns.entries.Perm n.columns.entries) : m = n := by
  cases hm <;> cases hn <;> obtain rfl := ht <;> rw [entries_tableOfTwo, entries_tableOfTwo] at h
  case keys.keys hle ha hb a' b' hle' ha' hb' =>
    rcases eq_of_perm_two h with ⟨rfl, ⟨hab, hab'⟩ | rfl⟩ | ⟨rfl, rfl, hne⟩
    · rw [hab, hab']
      exact tableOfTwo_congr hab hab' _ _
    · rfl
    · exact absurd (String.le_antisymm hle hle') hne
  case keys.pair hle ha hb a' b' ha' hb' =>
    rcases eq_of_perm_two h with ⟨rfl, _⟩ | ⟨rfl, rfl, _⟩
    · exact absurd (hb.symm.trans hb') Bool.false_ne_true
    · exact absurd (ha.symm.trans hb') Bool.false_ne_true
  case pair.keys ha hb a' b' hle' ha' hb' =>
    rcases eq_of_perm_two h with ⟨rfl, _⟩ | ⟨rfl, rfl, _⟩
    · exact absurd (hb'.symm.trans hb) Bool.false_ne_true
    · exact absurd (ha'.symm.trans hb) Bool.false_ne_true
  case pair.pair ha hb a' b' ha' hb' =>
    rcases eq_of_perm_two h with ⟨rfl, ⟨hab, hab'⟩ | rfl⟩ | ⟨rfl, rfl, _⟩
    · exact tableOfTwo_congr hab hab' _ _
    · rfl
    · exact absurd (ha.symm.trans hb') Bool.false_ne_true

/-! ### Turns -/

theorem MadeOfTwo.isGuessed {m : Migration} (h : MadeOfTwo m) : m.fromGuessedPivot = true := by
  cases h <;> rfl

theorem addPivotTable_iff {relation : RelationName} {m : Migration} : addPivotTable relation m d = .ok e ↔
    d.migrations.get? m.table = none ∧ e = addMigration d m ∨
      ∃ other, d.migrations.get? m.table = some other ∧
        (other.fromGuessedPivot = true → other.columns.entries.Perm m.columns.entries) ∧ e = d := by
  unfold addPivotTable
  cases ht : d.migrations.get? m.table with
  | none =>
    constructor
    · exact fun h => .inl ⟨rfl, (pure_eq_ok.mp h).symm⟩
    · rintro (⟨_, rfl⟩ | ⟨other, hother, _⟩)
      · rfl
      · cases hother
  | some other =>
    have hok : (other.fromGuessedPivot && !other.columns.sameValues m.columns) = false ↔
        (other.fromGuessedPivot = true → other.columns.entries.Perm m.columns.entries) := by
      rw [Bool.and_eq_false_imp, ← OrderedMap.sameValues_iff_perm]
      simp only [Bool.not_eq_false']
    dsimp only
    split
    · rename_i hfault
      refine iff_of_false throw_ne_ok ?_
      rintro (⟨hnone, _⟩ | ⟨_, hother, hs, _⟩)
      · cases hnone
      · obtain rfl := Option.some_inj.mp hother
        exact Bool.false_ne_true ((hok.mpr hs).symm.trans hfault)
    · rename_i hfine
      have hs := hok.mp (Bool.eq_false_iff.mpr hfine)
      constructor
      · exact fun h => .inr ⟨other, rfl, hs, (pure_eq_ok.mp h).symm⟩
      · rintro (⟨hnone, _⟩ | ⟨_, _, _, rfl⟩)
        · cases hnone
        · rfl

/-- What the turns of the pass need of a draft: tables for pivots are made of two columns each. -/
structure Draft.Pivoting (ts : List (RelationName × Migration)) (d : Draft) : Prop where
  needed : ∀ t ∈ ts, MadeOfTwo t.2
  made : ∀ table m, d.migrations.get? table = some m → m.fromGuessedPivot = true → MadeOfTwo m ∧ m.table = table

theorem simulates_addPivotTable (relation : RelationName) (m : Migration) :
    Simulates Draft.Alike (.update (addPivotTable relation m)) := by
  refine .update fun d b e h hrun => ?_
  rcases addPivotTable_iff.mp hrun with ⟨hnone, rfl⟩ | ⟨other, hother, hs, rfl⟩
  · exact ⟨_, addPivotTable_iff.mpr (.inl ⟨(h.migrations _).trans hnone, rfl⟩), h.addMigration m⟩
  · exact ⟨b, addPivotTable_iff.mpr (.inr ⟨other, (h.migrations _).trans hother, hs, rfl⟩), h⟩

theorem get?_addMigration (d : Draft) (m : Migration) (table : String) :
    (addMigration d m).migrations.get? table = if table = m.table then some m else d.migrations.get? table :=
  OrderedMap.get?_insert _ _ _ _

theorem alike_addMigration_comm {m n : Migration} (h : m.table ≠ n.table) :
    (addMigration (addMigration d m) n).Alike (addMigration (addMigration d n) m) := by
  refine ⟨rfl, rfl, fun _ => rfl, fun _ => rfl, fun table => ?_⟩
  simp only [get?_addMigration]
  split
  · rename_i ht
    rw [if_neg fun ht' => h (ht.symm.trans ht')]
  · rfl

theorem commutes_addPivotTable : Commutes id Draft.Alike Draft.Pivoting
    fun t : RelationName × Migration => .update (addPivotTable t.1 t.2) where
  perm hp hP := ⟨fun t ht => hP.needed t (hp.mem_iff.mpr ht), hP.made⟩
  keep := by
    rintro t rest d e hP hf
    refine ⟨fun t' ht' => hP.needed t' (List.mem_cons_of_mem t ht'), ?_⟩
    rcases addPivotTable_iff.mp (update_run_ok.mp hf) with ⟨_, rfl⟩ | ⟨_, _, _, rfl⟩
    · intro table m hm hg
      rw [get?_addMigration] at hm
      split at hm
      · rename_i ht
        obtain rfl := Option.some_inj.mp hm
        exact ⟨hP.needed t List.mem_cons_self, ht.symm⟩
      · exact hP.made table m hm hg
    · exact hP.made
  respect _ _ hR hf := simulates_addPivotTable _ _ hR hf
  swap := by
    rintro x y rest d c e _ hP hf hg
    have hx := hP.needed x List.mem_cons_self
    have hy := hP.needed y (List.mem_cons_of_mem x List.mem_cons_self)
    simp only [update_run_ok] at hf hg ⊢
    rcases addPivotTable_iff.mp hf with ⟨hnone, rfl⟩ | ⟨other, hother, hs, rfl⟩ <;>
      rcases addPivotTable_iff.mp hg with ⟨hnone', rfl⟩ | ⟨other', hother', hs', rfl⟩
    · rw [get?_addMigration] at hnone'
      split at hnone'
      · cases hnone'
      · rename_i hne
        refine ⟨_, _, addPivotTable_iff.mpr (.inl ⟨hnone', rfl⟩), addPivotTable_iff.mpr (.inl ⟨?_, rfl⟩),
          alike_addMigration_comm (Ne.symm hne)⟩
        rw [get?_addMigration, if_neg (Ne.symm hne)]
        exact hnone
    · rw [get?_addMigration] at hother'
      split at hother'
      · -- Both need one table, and the first to come makes it for both.
        rename_i ht
        obtain rfl := Option.some_inj.mp hother'
        have heq : x.2 = y.2 := hx.eq_of_perm hy ht.symm (hs' hx.isGuessed)
        refine ⟨_, _, addPivotTable_iff.mpr (.inl ⟨heq ▸ hnone, rfl⟩),
          addPivotTable_iff.mpr (.inr ⟨y.2, ?_, fun _ => heq ▸ .refl _, rfl⟩), heq ▸ .refl _⟩
        rw [get?_addMigration, heq, if_pos rfl]
      · exact ⟨d, _, addPivotTable_iff.mpr (.inr ⟨other', hother', hs', rfl⟩), addPivotTable_iff.mpr (.inl ⟨hnone, rfl⟩), .refl _⟩
    · refine ⟨_, _, addPivotTable_iff.mpr (.inl ⟨hnone', rfl⟩), addPivotTable_iff.mpr (.inr ⟨other, ?_, hs, rfl⟩), .refl _⟩
      rw [get?_addMigration, if_neg]
      · exact hother
      · rintro ht
        rw [← ht, hother] at hnone'
        cases hnone'
    · exact ⟨_, _, addPivotTable_iff.mpr (.inr ⟨other', hother', hs', rfl⟩), addPivotTable_iff.mpr (.inr ⟨other, hother, hs, rfl⟩),
        .refl _⟩

/-- No table has been made for pivots, as long as all tables are declared or are those of models. -/
theorem reordered_pivotMigrations (hs : ∀ m ∈ d.models.values, SingleKey m)
    (hd : ∀ table m, d.migrations.get? table = some m → m.fromGuessedPivot = false) (h : d.Alike d')
    (hrun : Pass.pivotMigrations.body d = .ok () e) : ∃ e', Pass.pivotMigrations.body d' = .ok () e' ∧ e.Alike e' := by
  obtain ⟨ts, c, hi, hrun⟩ := bind_run_ok.mp hrun
  obtain ⟨hts, rfl⟩ := inspect_run_ok.mp hi
  obtain ⟨ts', hts', hp⟩ := reordered_pivotTables h hts
  have hP : d.Pivoting ts := by
    refine ⟨fun t ht => ?_, fun table m hm hg => absurd (hg.symm.trans (hd table m hm)) Bool.false_ne_true.symm⟩
    obtain ⟨owner, ho, r, _, hf⟩ := pivotTable?_of_mem hts ht
    exact (pivotTable?_some_iff.mp hf).2.madeOfTwo hs ho
  have hP' : d'.Pivoting ts' := by
    refine ⟨fun t ht => hP.needed t (hp.mem_iff.mpr ht), fun table m hm hg => hP.made table m ?_ hg⟩
    rw [← h.migrations, hm]
  have hregrouped : Regrouped id ts ts' := by
    intro t
    have hfilter := hp.filter (id · = t)
    have heq : ∀ xs : List (RelationName × Migration), ∀ x ∈ xs.filter (id · = t), x = t := fun xs x hx =>
      of_decide_eq_true (List.mem_filter.mp hx).2
    rw [List.eq_replicate_of_mem (heq ts'), List.eq_replicate_of_mem (heq ts), hfilter.length_eq]
  obtain ⟨e', hrun', he⟩ := commutes_addPivotTable.forM_regrouped hregrouped hP hP' h hrun
  exact ⟨e', bind_run_ok.mpr ⟨ts', d', inspect_run_ok.mpr ⟨hts', rfl⟩, hrun'⟩, he⟩

/-- Tables that are declared or those of models have not been made for pivots. -/
theorem fromGuessedPivot_eq_false (hd : d.migrations = .empty) (ht : d.TablesDistinct)
    (hrun : Completes [.explicitMigrations, .modelMigrations] d e) :
    ∀ table m, e.migrations.get? table = some m → m.fromGuessedPivot = false := by
  obtain ⟨d₁, h₁, d₂, h₂, rfl⟩ := hrun
  obtain ⟨explicit, hadd, hexplicit⟩ := explicitMigrations_ok hd h₁
  obtain ⟨_, _, _, hall⟩ := hexplicit.declared
  obtain rfl := modify_run_ok.mp h₂
  have hentries := (modelMigrations_ok (nodup_tables hd ht h₁)).entries
  rw [hadd.entries, hd] at hentries
  intro table m hm
  have hmem := OrderedMap.get?_eq_some_iff.mp hm
  rw [hentries] at hmem
  rcases List.mem_append.mp hmem with hmem | hmem
  · obtain ⟨x, _, _, hx⟩ := mem_of_forall₂ hall hmem
    exact (declaredMigration_ok hx).2.1
  · obtain ⟨o, _, ho⟩ := List.mem_map.mp hmem
    obtain ⟨_, rfl⟩ := Prod.mk.inj ho
    rfl

/-- The passes of tables make the same of the same models in another order, unless key columns of pivots are more than one column. -/
theorem reordered_tables (hd : d.migrations = .empty) (ht : d.TablesDistinct) (hs : ∀ m ∈ d.models.values, SingleKey m)
    (h : d.Alike d') (hrun : Completes [.explicitMigrations, .modelMigrations, .pivotMigrations] d e) :
    ∃ e', Completes [.explicitMigrations, .modelMigrations, .pivotMigrations] d' e' ∧ e.Alike e' := by
  obtain ⟨d₁, h₁, d₂, h₂, d₃, h₃, rfl⟩ := hrun
  obtain ⟨e₁, h₁', halike₁⟩ := reordered_explicitMigrations h h₁
  obtain ⟨e₂, h₂', halike₂⟩ := reordered_modelMigrations halike₁ (nodup_tables hd ht h₁) h₂
  have hguessed := fromGuessedPivot_eq_false hd ht ⟨d₁, h₁, d₂, h₂, rfl⟩
  obtain ⟨_, hadd, _⟩ := explicitMigrations_ok hd h₁
  have hmodels : d₂.models = d.models := by
    have hmade := modelMigrations_ok (nodup_tables hd ht h₁)
    obtain rfl := modify_run_ok.mp h₂
    rw [hmade.rest, hadd.rest]
  obtain ⟨e₃, h₃', halike₃⟩ := reordered_pivotMigrations (hmodels ▸ hs) hguessed halike₂ h₃
  exact ⟨e₃, ⟨e₁, h₁', e₂, h₂', e₃, h₃', rfl⟩, halike₃⟩

/-! ## Further files -/

theorem reordered_artifacts (h : d.Alike d') (hrun : Pass.artifacts.body d = .ok () e) :
    ∃ e', Pass.artifacts.body d' = .ok () e' ∧ e.Alike e' := by
  obtain ⟨made, hmade, hrun⟩ := bind_eq_ok.mp (update_run_ok.mp hrun)
  obtain ⟨rows, hrows, hmade⟩ := bind_eq_ok.mp hmade
  have hmade' : ∃ made', factories d' = .ok made' := by
    suffices ∃ rows', ((d'.models.values.filter fun m => m.factory && !m.isPivot).mapM fun m =>
        return (m.key, factoryOf m (← d'.declaration m.key))) = .ok rows' by
      obtain ⟨rows', hrows'⟩ := this
      exact ⟨_, bind_eq_ok.mpr ⟨rows', hrows', rfl⟩⟩
    refine exists_mapM fun n hn => ?_
    obtain ⟨hn, hp⟩ := List.mem_filter.mp hn
    obtain ⟨k, hk⟩ := OrderedMap.mem_values_iff.mp hn
    obtain ⟨m, hm, hmn⟩ := h.symm.exists_model hk
    have hpm : (m.factory && !m.isPivot) = true :=
      (Model.congr_withoutParents (g := fun m => m.factory && !m.isPivot) (fun _ => rfl) hmn).trans hp
    have hkey : m.key = n.key := Model.congr_withoutParents (g := Model.key) (fun _ => rfl) hmn
    obtain ⟨row, _, hrow⟩ := exists_mem_of_forall₂ (mapM_eq_ok.mp hrows)
      (List.mem_filter.mpr ⟨OrderedMap.mem_values_iff.mpr ⟨k, hm⟩, hpm⟩)
    obtain ⟨s, hs, _⟩ := bind_eq_ok.mp hrow
    have hs' : d'.declaration n.key = .ok s := by
      rw [Draft.declaration, h.declarations, ← hkey]
      exact hs
    exact ⟨(n.key, factoryOf n s), bind_eq_ok.mpr ⟨s, hs', rfl⟩⟩
  obtain ⟨made', hmade'⟩ := hmade'
  obtain rfl := pure_eq_ok.mp hrun
  exact ⟨_, update_run_ok.mpr (bind_eq_ok.mpr ⟨made', hmade', rfl⟩), h.settings, h.tables, h.declarations, h.models, h.migrations⟩

end Schemata.Resolution
