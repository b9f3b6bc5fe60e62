import Schemata.Proofs.Resolution.Draft
import Schemata.Proofs.Resolution.Run
import Schemata.Resolution.Tables

/-!
# Passes of table definitions

Each pass appends definitions under names that are not taken, and changes nothing else.
-/

namespace Schemata.Resolution

variable {d e : Draft}

/-- Definitions have been appended, each under the name of its table, and nothing else has changed. -/
structure Appends (added : List (String × Migration)) (d e : Draft) : Prop where
  rest : e = { d with migrations := e.migrations }
  entries : e.migrations.entries = d.migrations.entries ++ added

theorem Appends.refl (d : Draft) : Appends [] d d :=
  ⟨rfl, (List.append_nil _).symm⟩

theorem Appends.trans {first second : List (String × Migration)} {c : Draft} (h : Appends first d c)
    (h' : Appends second c e) : Appends (first ++ second) d e where
  rest := by rw [h'.rest, h.rest]
  entries := by rw [h'.entries, h.entries, List.append_assoc]

theorem appends_addMigration {m : Migration} (h : m.table ∉ d.migrations.keys) :
    Appends [(m.table, m)] d (addMigration d m) :=
  ⟨rfl, OrderedMap.entries_insert h⟩

theorem Appends.keys {added : List (String × Migration)} (h : Appends added d e) :
    e.migrations.keys = d.migrations.keys ++ added.map Prod.fst := by
  unfold OrderedMap.keys
  rw [h.entries, List.map_append]

/-! ## Declared tables -/

theorem foldl_addColumn (read : List (String × Column)) (m : Migration) :
    read.foldl (fun m (name, c) => m.addColumn name c) m =
      { m with columns := read.foldl (fun columns (name, c) => columns.insert name c) m.columns } := by
  induction read generalizing m with
  | nil => rfl
  | cons x rest ih => rw [List.foldl_cons, ih, List.foldl_cons]; rfl

/-- The columns of a table, added one by one. -/
theorem foldl_addColumn_entries (columns : OrderedMap Column) (table : String) :
    columns.entries.foldl (fun m (name, c) => m.addColumn name c) (Migration.ofTable table) =
      { Migration.ofTable table with columns } := by
  rw [foldl_addColumn]
  exact congrArg (fun columns => { Migration.ofTable table with columns }) columns.ofList_entries

theorem declaredMigration_ok {table : String} {s : MigrationDeclaration} {m : Migration}
    (h : declaredMigration table s = .ok m) : m.table = table ∧ m.fromGuessedPivot = false ∧ m.model = none := by
  obtain ⟨columns, _, h⟩ := bind_eq_ok.mp h
  dsimp only at h
  rw [foldl_addColumn] at h
  obtain ⟨_, _, h⟩ := bind_eq_ok.mp h
  obtain ⟨_, _, h⟩ := bind_eq_ok.mp h
  obtain ⟨_, _, h⟩ := bind_eq_ok.mp h
  obtain ⟨_, _, h⟩ := bind_eq_ok.mp h
  obtain rfl := pure_eq_ok.mp h
  exact ⟨rfl, rfl, rfl⟩

theorem addDeclared_ok {table : String} {s : MigrationDeclaration} (h : addDeclared table s d = .ok e) :
    (∀ m ∈ d.models.values, m.migration = true → m.table ≠ table) ∧
      ∃ m, declaredMigration table s = .ok m ∧ e = addMigration d m := by
  unfold addDeclared at h
  split at h
  · exact absurd h throw_ne_ok
  · rename_i hf
    obtain ⟨m, hm, h⟩ := bind_eq_ok.mp h
    refine ⟨fun o ho hmig ht => ?_, m, hm, (pure_eq_ok.mp h).symm⟩
    exact List.find?_eq_none.mp hf o ho (by simp [hmig, ht])

theorem addDeclared_forM {xs : List (String × MigrationDeclaration)} (hn : (d.migrations.keys ++ xs.map Prod.fst).Nodup)
    (h : (xs.forM fun (table, s) => Resolve.update (addDeclared table s)) d = .ok () e) :
    ∃ made, Appends made d e ∧ List.Forall₂ (fun x y => y.1 = x.1 ∧ declaredMigration x.1 x.2 = .ok y.2) xs made ∧
      ∀ m ∈ d.models.values, m.migration = true → m.table ∉ xs.map Prod.fst := by
  induction xs generalizing d with
  | nil =>
    obtain rfl := Resolve.forM_nil_run_ok.mp h
    exact ⟨[], .refl d, .nil, fun _ _ _ => List.not_mem_nil⟩
  | cons x rest ih =>
    obtain ⟨table, s⟩ := x
    obtain ⟨c, hx, hr⟩ := Resolve.forM_cons_run_ok.mp h
    obtain ⟨hmodels, m, hm, rfl⟩ := addDeclared_ok (Resolve.update_run_ok.mp hx)
    have ht : m.table = table := (declaredMigration_ok hm).1
    have hnew : m.table ∉ d.migrations.keys := by
      intro hin
      exact (List.nodup_append.mp hn).2.2 _ hin table (by simp) ht
    have hadd := appends_addMigration hnew
    obtain ⟨made, hmade, hall, hrest⟩ := ih (by rw [hadd.keys]; simpa [ht] using hn) hr
    refine ⟨(m.table, m) :: made, hadd.trans hmade, .cons ⟨ht, hm⟩ hall, fun o ho hmig hin => ?_⟩
    rcases List.mem_cons.mp hin with heq | hin
    · exact hmodels o ho hmig heq
    · exact hrest o ho hmig hin

/-- What the pass of declared tables appends. -/
structure ExplicitTables (d : Draft) (explicit : List (String × Migration)) : Prop where
  declared : ∃ ds, d.schema.migrationDeclarations = .ok ds ∧ ds.keys = d.schema.migrations.keys ∧
    List.Forall₂ (fun x y => y.1 = x.1 ∧ declaredMigration x.1 x.2 = .ok y.2) ds.entries explicit
  models : ∀ m ∈ d.models.values, m.migration = true → m.table ∉ explicit.map Prod.fst

theorem migrationDeclarations_keys {schema : SchemaDeclaration} {ds : OrderedMap MigrationDeclaration}
    (h : schema.migrationDeclarations = .ok ds) : ds.keys = schema.migrations.keys := by
  obtain ⟨read, hr, h⟩ := bind_eq_ok.mp h
  obtain rfl := pure_eq_ok.mp h
  have hk : read.map Prod.fst = schema.migrations.entries.map Prod.fst := map_eq_of_forall₂ And.left (mapM_keyed_ok hr)
  unfold OrderedMap.keys
  rw [OrderedMap.entries_ofList (hk ▸ schema.migrations.nodup), hk]

theorem explicitMigrations_ok (hd : d.migrations = .empty) (h : Pass.explicitMigrations.body d = .ok () e) :
    ∃ explicit, Appends explicit d e ∧ ExplicitTables d explicit := by
  obtain ⟨ds, c, hi, h⟩ := Resolve.bind_run_ok.mp h
  obtain ⟨hds, rfl⟩ := Resolve.inspect_run_ok.mp hi
  obtain ⟨explicit, hadd, hall, hmodels⟩ := addDeclared_forM (by rw [hd]; exact ds.nodup) h
  refine ⟨explicit, hadd, ⟨ds, hds, migrationDeclarations_keys hds, hall⟩, fun m hm hmig => ?_⟩
  have hk : explicit.map Prod.fst = ds.entries.map Prod.fst := map_eq_of_forall₂ And.left hall
  rw [hk]
  exact hmodels m hm hmig

/-! ## Tables of models -/

theorem modelMigrations_ok {ms : List Model} (hn : (d.migrations.keys ++ ms.map Model.table).Nodup) :
    Appends (ms.map fun m => (m.table, modelMigration m)) d (ms.foldl (fun d m => addMigration d (modelMigration m)) d) := by
  induction ms generalizing d with
  | nil => exact .refl d
  | cons m rest ih =>
    have ht : (modelMigration m).table = m.table := rfl
    have hnew : (modelMigration m).table ∉ d.migrations.keys :=
      fun hin => (List.nodup_append.mp hn).2.2 _ hin m.table (by simp) ht
    have hadd := appends_addMigration hnew
    exact hadd.trans (ih (by rw [hadd.keys]; simpa [ht] using hn))

/-- The tables of models would overwrite declared ones, had the pass of those not refused them. -/
theorem nodup_tables (hd : d.migrations = .empty) (hn : (d.models.values.map Model.table).Nodup)
    (h : Pass.explicitMigrations.body d = .ok () e) :
    (e.migrations.keys ++ (e.models.values.filter (·.migration)).map Model.table).Nodup := by
  obtain ⟨explicit, hadd, hexp⟩ := explicitMigrations_ok hd h
  have hmodels : e.models = d.models := by rw [hadd.rest]
  rw [hmodels]
  refine List.nodup_append.mpr ⟨e.migrations.keys_nodup, ((List.filter_sublist).map Model.table).nodup hn, ?_⟩
  rintro t ht _ htable rfl
  obtain ⟨m, hf, rfl⟩ := List.mem_map.mp htable
  obtain ⟨hm, hmig⟩ := List.mem_filter.mp hf
  rw [hadd.keys, hd] at ht
  exact hexp.models m hm hmig ht

/-! ## Tables of pivots -/

/-- A definition that was made up for pivots. -/
def IsGuessed (m : Migration) : Prop :=
  m.fromGuessedPivot = true ∧ m.model = none

theorem manyTable_isGuessed (l : BelongsToMany) (owner target : Model) : IsGuessed (manyTable l owner target) := by
  unfold manyTable
  dsimp only
  split <;> exact ⟨rfl, rfl⟩

theorem morphsTable_isGuessed {l : MorphToMany} {relation : RelationName} {parent related : Model} {m : Migration}
    (h : morphsTable l relation parent related = .ok m) : IsGuessed m := by
  unfold morphsTable at h
  dsimp only at h
  split at h
  · obtain rfl := pure_eq_ok.mp h
    exact ⟨rfl, rfl⟩
  · split at h
    · obtain rfl := pure_eq_ok.mp h
      exact ⟨rfl, rfl⟩
    · cases h

/-- The table of a link that has no pivot model follows from the models on both sides. -/
inductive LinkTable (d : Draft) (owner : Model) (relation : RelationName) : Link → Migration → Prop
  | many {l : BelongsToMany} {target : Model} (found : d.models.get? l.model = some target) :
    LinkTable d owner relation (.belongsToMany l) (manyTable l owner target)
  | morphs {l : MorphToMany} {related : Model} {m : Migration} (found : d.models.get? l.model = some related)
    (made : morphsTable l relation owner related = .ok m) : LinkTable d owner relation (.morphToMany l) m
  | morphed {l : MorphToMany} {parent : Model} {m : Migration} (found : d.models.get? l.model = some parent)
    (made : morphsTable l relation parent owner = .ok m) : LinkTable d owner relation (.morphedByMany l) m

theorem LinkTable.isGuessed {owner : Model} {relation : RelationName} {link : Link} {m : Migration}
    (h : LinkTable d owner relation link m) : IsGuessed m := by
  cases h with
  | many _ => exact manyTable_isGuessed _ _ _
  | morphs _ made => exact morphsTable_isGuessed made
  | morphed _ made => exact morphsTable_isGuessed made

theorem pivotTable?_some_iff {owner : Model} {r : Relation} {m : Migration} : pivotTable? d owner r = .ok (some m) ↔
    r.link.pivot? = none ∧ LinkTable d owner ⟨owner.key, r.name⟩ r.link m := by
  constructor
  · intro h
    unfold pivotTable? at h
    split at h
    · cases pure_eq_ok.mp h
    · rename_i hp
      refine ⟨by simpa using hp, ?_⟩
      split at h
      · rename_i hl
        obtain ⟨target, ht, h⟩ := bind_eq_ok.mp h
        obtain rfl := Option.some_inj.mp (pure_eq_ok.mp h)
        exact hl ▸ .many (Draft.model_eq_ok.mp ht)
      · rename_i hl
        obtain ⟨related, hr, h⟩ := bind_eq_ok.mp h
        obtain ⟨_, hm, h⟩ := bind_eq_ok.mp h
        obtain rfl := Option.some_inj.mp (pure_eq_ok.mp h)
        exact hl ▸ .morphs (Draft.model_eq_ok.mp hr) hm
      · rename_i hl
        obtain ⟨parent, hp, h⟩ := bind_eq_ok.mp h
        obtain ⟨_, hm, h⟩ := bind_eq_ok.mp h
        obtain rfl := Option.some_inj.mp (pure_eq_ok.mp h)
        exact hl ▸ .morphed (Draft.model_eq_ok.mp hp) hm
      · cases pure_eq_ok.mp h
  · obtain ⟨name, methods, link⟩ := r
    rintro ⟨hp, h⟩
    refine (if_neg (by simp [hp])).trans ?_
    cases h with
    | many found => exact bind_eq_ok.mpr ⟨_, Draft.model_eq_ok.mpr found, rfl⟩
    | morphs found made => exact bind_eq_ok.mpr ⟨_, Draft.model_eq_ok.mpr found, bind_eq_ok.mpr ⟨_, made, rfl⟩⟩
    | morphed found made => exact bind_eq_ok.mpr ⟨_, Draft.model_eq_ok.mpr found, bind_eq_ok.mpr ⟨_, made, rfl⟩⟩

/-- A relation needs no table if its pivots are those of a model, or if it has none. -/
theorem pivotTable?_none_iff {owner : Model} {r : Relation} : pivotTable? d owner r = .ok none ↔
    r.link.pivot? ≠ none ∨ r.kind.requiresPivot = false := by
  obtain ⟨name, methods, link⟩ := r
  constructor
  · intro h
    refine or_iff_not_imp_left.mpr fun hp => ?_
    replace hp : link.pivot? = none := not_not.mp hp
    unfold pivotTable? at h
    dsimp only at h
    rw [hp, if_neg (by simp)] at h
    cases link with
    | belongsToMany l =>
      obtain ⟨_, _, h⟩ := bind_eq_ok.mp h
      cases pure_eq_ok.mp h
    | morphToMany l | morphedByMany l =>
      obtain ⟨_, _, h⟩ := bind_eq_ok.mp h
      obtain ⟨_, _, h⟩ := bind_eq_ok.mp h
      cases pure_eq_ok.mp h
    | _ => rfl
  · rintro (hp | hk)
    · exact if_pos (Option.isSome_iff_ne_none.mpr hp)
    · cases link <;> first | rfl | cases hk

/-- The table that a relation needs for its pivots, if any, with the name of the relation. -/
def pivotRow (d : Draft) (owner : Model) (r : Relation) : Except SchemaFault (List (RelationName × Migration)) := do
  return (← pivotTable? d owner r).toList.map fun m => (⟨owner.key, r.name⟩, m)

theorem pivotTables_iff {ts : List (RelationName × Migration)} : pivotTables d = .ok ts ↔
    ∃ tables, (d.models.values.mapM fun owner => owner.relations.values.mapM (pivotRow d owner)) = .ok tables ∧
      tables.flatten.flatten = ts :=
  bind_eq_ok.trans (exists_congr fun _ => and_congr .rfl pure_eq_ok)

theorem pivotTable?_of_mem {ts : List (RelationName × Migration)} (h : pivotTables d = .ok ts) {t : RelationName × Migration}
    (ht : t ∈ ts) : ∃ owner ∈ d.models.values, ∃ r ∈ owner.relations.values, pivotTable? d owner r = .ok (some t.2) := by
  obtain ⟨tables, htables, rfl⟩ := pivotTables_iff.mp h
  obtain ⟨row, hrow, hm⟩ := List.mem_flatten.mp ht
  obtain ⟨rows, hrows, hrow⟩ := List.mem_flatten.mp hrow
  obtain ⟨owner, ho, hr⟩ := mem_of_forall₂ (mapM_eq_ok.mp htables) hrows
  obtain ⟨r, hr, hx⟩ := mem_of_forall₂ (mapM_eq_ok.mp hr) hrow
  obtain ⟨found, hf, hx⟩ := bind_eq_ok.mp hx
  obtain rfl := pure_eq_ok.mp hx
  obtain ⟨m, hfound, rfl⟩ := List.mem_map.mp hm
  exact ⟨owner, ho, r, hr, hf.trans (congrArg Except.ok (Option.mem_toList.mp hfound))⟩

theorem pivotTables_isGuessed {ts : List (RelationName × Migration)} (h : pivotTables d = .ok ts) :
    ∀ t ∈ ts, IsGuessed t.2 := by
  intro t ht
  obtain ⟨owner, _, r, _, hf⟩ := pivotTable?_of_mem h ht
  exact (pivotTable?_some_iff.mp hf).2.isGuessed

theorem addPivotTable_ok {relation : RelationName} {m : Migration} (h : addPivotTable relation m d = .ok e) :
    e = d ∨ m.table ∉ d.migrations.keys ∧ e = addMigration d m := by
  unfold addPivotTable at h
  split at h
  · rename_i hg
    exact .inr ⟨OrderedMap.get?_eq_none_iff.mp hg, (pure_eq_ok.mp h).symm⟩
  · split at h
    · exact absurd h throw_ne_ok
    · exact .inl (pure_eq_ok.mp h).symm

theorem addPivotTable_forM {ts : List (RelationName × Migration)} (ht : ∀ t ∈ ts, IsGuessed t.2)
    (h : (ts.forM fun (relation, m) => Resolve.update (addPivotTable relation m)) d = .ok () e) :
    ∃ pivots, Appends pivots d e ∧ ∀ y ∈ pivots, y.2.table = y.1 ∧ IsGuessed y.2 := by
  induction ts generalizing d with
  | nil =>
    obtain rfl := Resolve.forM_nil_run_ok.mp h
    exact ⟨[], .refl d, fun _ hy => absurd hy List.not_mem_nil⟩
  | cons t rest ih =>
    obtain ⟨c, hx, hr⟩ := Resolve.forM_cons_run_ok.mp h
    obtain ⟨pivots, hadd, hall⟩ := ih (fun t ht' => ht t (List.mem_cons_of_mem _ ht')) hr
    rcases addPivotTable_ok (Resolve.update_run_ok.mp hx) with rfl | ⟨hnew, rfl⟩
    · exact ⟨pivots, hadd, hall⟩
    · refine ⟨(t.2.table, t.2) :: pivots, (appends_addMigration hnew).trans hadd, fun y hy => ?_⟩
      rcases List.mem_cons.mp hy with rfl | hy
      · exact ⟨rfl, ht t List.mem_cons_self⟩
      · exact hall y hy

theorem pivotMigrations_ok (h : Pass.pivotMigrations.body d = .ok () e) :
    ∃ pivots, Appends pivots d e ∧ ∀ y ∈ pivots, y.2.table = y.1 ∧ IsGuessed y.2 := by
  obtain ⟨ts, c, hi, h⟩ := Resolve.bind_run_ok.mp h
  obtain ⟨hts, rfl⟩ := Resolve.inspect_run_ok.mp hi
  exact addPivotTable_forM (pivotTables_isGuessed hts) h

/-! ## All tables -/

/-- What the table passes make: the declared tables, those of models, and those of pivots that nothing else defines. -/
theorem tables_ok (hd : d.migrations = .empty) (hn : (d.models.values.map Model.table).Nodup)
    (h : Completes [.explicitMigrations, .modelMigrations, .pivotMigrations] d e) :
    ∃ explicit pivots, ExplicitTables d explicit ∧ (∀ y ∈ pivots, y.2.table = y.1 ∧ IsGuessed y.2) ∧
      Appends (explicit ++ ((d.models.values.filter (·.migration)).map fun m => (m.table, modelMigration m)) ++ pivots) d e := by
  obtain ⟨d₁, h₁, d₂, h₂, d₃, h₃, rfl⟩ := h
  obtain ⟨explicit, hadd₁, hexp⟩ := explicitMigrations_ok hd h₁
  obtain rfl := Resolve.modify_run_ok.mp h₂
  obtain ⟨pivots, hadd₃, hpiv⟩ := pivotMigrations_ok h₃
  have hmodels : d₁.models = d.models := by rw [hadd₁.rest]
  have hadd₂ := modelMigrations_ok (nodup_tables hd hn h₁)
  rw [hmodels] at hadd₂
  refine ⟨explicit, pivots, hexp, hpiv, ?_⟩
  rw [hmodels] at hadd₃
  exact (hadd₁.trans hadd₂).trans hadd₃

/-! ## Faults -/

theorem failsInSchema_explicitMigrations : Resolve.FailsInSchema Pass.explicitMigrations.body :=
  .bind (.inspect _) fun _ => .forM fun _ _ => .update _

theorem failsInSchema_modelMigrations : Resolve.FailsInSchema Pass.modelMigrations.body :=
  .modify _

theorem failsInSchema_pivotMigrations : Resolve.FailsInSchema Pass.pivotMigrations.body :=
  .bind (.inspect _) fun _ => .forM fun _ _ => .update _

end Schemata.Resolution
