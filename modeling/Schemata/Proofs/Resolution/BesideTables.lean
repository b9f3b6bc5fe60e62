import Schemata.Proofs.Resolution.BesidePasses
import Schemata.Proofs.Resolution.Pipeline
import Schemata.Proofs.Resolution.PivotTables

/-!
# Tables of drafts side by side

A model whose table is that of no other gets its table after those of the other models. No other table is changed, and the further
files are those of both drafts.
-/

namespace Schemata

theorem eraseDups_filter (p : String → Bool) : ∀ names : List String, (names.filter p).eraseDups = names.eraseDups.filter p
  | [] => rfl
  | name :: rest => by
    have hrest := eraseDups_filter p (rest.filter (!· == name))
    rw [List.eraseDups_cons, List.filter_cons, List.filter_cons, ← hrest, List.filter_filter]
    split
    · rw [List.eraseDups_cons, List.filter_filter]
      simp only [Bool.and_comm]
    · rename_i hp
      refine congrArg List.eraseDups (List.filter_congr fun other _ => ?_)
      by_cases h : other = name
      · simp [h, hp]
      · simp [h]
termination_by names => names.length
decreasing_by exact Nat.lt_succ_of_le (List.length_filter_le _ _)

/-- Names without repetition, after others without repetition. -/
theorem eraseDups_append (first second : List String) :
    (first ++ second).eraseDups = first.eraseDups ++ second.eraseDups.filter (!first.eraseDups.contains ·) := by
  have hmem : ∀ name, first.eraseDups.contains name = first.contains name := fun name => by
    simp [List.mem_eraseDups]
  rw [List.eraseDups_append]
  unfold List.removeAll
  rw [eraseDups_filter]
  simp only [hmem, List.elem_eq_contains]

/-- The further files of some models and of others after them. Traits and casts that both need are there once. -/
structure Artifacts.Joins (o m n : Artifacts) : Prop where
  observers : o.observers = m.observers ++ n.observers
  seeders : o.seeders = m.seeders ++ n.seeders
  globalScopes : o.globalScopes.Joins m.globalScopes n.globalScopes
  quickTraits : o.quickTraits = m.quickTraits ++ n.quickTraits.filter (!m.quickTraits.contains ·)
  quickCasts : o.quickCasts = m.quickCasts ++ n.quickCasts.filter (!m.quickCasts.contains ·)
  factories : o.factories.Joins m.factories n.factories

namespace Resolution

variable {keys : List String} {d a b e a' : Draft}

/-! ## Declared tables -/

theorem Draft.Beside.withMigrations (h : d.Beside keys a b) {m n o : OrderedMap Migration} (ho : o.Encloses m n) :
    Draft.Beside keys { d with migrations := m } { a with migrations := n } { b with migrations := o } :=
  ⟨h.settings, h.tables, h.declarations, h.models, ho, h.keyed, h.known, h.declared, h.added, h.exact, h.noLines, h.noRelations⟩

theorem frames_addDeclared {table : String} {s : MigrationDeclaration} (ha : a.migrations = .empty)
    (htable : ∀ n ∈ a.models.values, n.table ≠ table) : Frames keys a (.update (addDeclared table s)) := by
  refine .update fun d b e h hrun => ?_
  obtain ⟨hmodels, m, hm, rfl⟩ := addDeclared_ok hrun
  have hsame := (OrderedMap.Encloses.of_empty ha).mp h.migrations
  have hnone : b.models.values.find? (fun m => m.migration && m.table == table) = none := by
    refine List.find?_eq_none.mpr fun o ho => ?_
    rw [h.models.values] at ho
    rcases List.mem_append.mp ho with ho | ho
    · simpa using hmodels o ho
    · simpa using fun _ => htable o ho
  refine ⟨addMigration b m, ?_, h.withMigrations ((OrderedMap.Encloses.of_empty ha).mpr (by rw [hsame]))⟩
  unfold addDeclared
  rw [hnone]
  exact bind_eq_ok.mpr ⟨m, hm, rfl⟩

/-- Declared tables stay, and none of them is that of a model beside. -/
theorem beside_explicitMigrations (h : d.Beside keys a b) (hd : d.migrations = .empty) (ha : a.migrations = .empty)
    (hrun : Pass.explicitMigrations.body d = .ok () e) (htable : ∀ n ∈ a.models.values, n.table ∉ e.migrations.keys) :
    ∃ c, Pass.explicitMigrations.body b = .ok () c ∧ e.Beside keys a c := by
  obtain ⟨ds, _, hi, hrun⟩ := Resolve.bind_run_ok.mp hrun
  obtain ⟨hds, rfl⟩ := Resolve.inspect_run_ok.mp hi
  obtain ⟨explicit, hadd, hall, _⟩ := addDeclared_forM (by rw [hd]; exact ds.nodup) hrun
  have hkeys : e.migrations.keys = ds.keys := by
    rw [hadd.keys, hd, OrderedMap.keys_empty, List.nil_append, map_eq_of_forall₂ And.left hall]
    rfl
  have hframes : Frames keys a (ds.entries.forM fun x => Resolve.update (addDeclared x.1 x.2)) :=
    .forM fun x hx => frames_addDeclared ha fun n hn heq => htable n hn (hkeys ▸ heq ▸ List.mem_map_of_mem hx)
  obtain ⟨c, hc, hbeside⟩ := hframes h hrun
  have hread : b.schema.migrationDeclarations = .ok ds := by
    unfold SchemaDeclaration.migrationDeclarations at hds ⊢
    rw [h.tables]
    exact hds
  exact ⟨c, Resolve.bind_run_ok.mpr ⟨ds, b, Resolve.inspect_run_ok.mpr ⟨hread, rfl⟩, hc⟩, hbeside⟩

/-- A schema without tables has none declared. -/
theorem explicitMigrations_of_empty (hs : a.schema.migrations = .empty) (h : Pass.explicitMigrations.body a = .ok () a') :
    a' = a := by
  obtain ⟨ds, _, hi, h⟩ := Resolve.bind_run_ok.mp h
  obtain ⟨hds, rfl⟩ := Resolve.inspect_run_ok.mp hi
  have hnone : ds.keys = [] := (migrationDeclarations_keys hds).trans (by rw [hs]; rfl)
  rw [List.map_eq_nil_iff.mp hnone] at h
  exact (Resolve.forM_nil_run_ok.mp h).symm

/-! ## Tables of models -/

theorem beside_modelMigrations (h : d.Beside keys a b) (ha : a.migrations = .empty)
    (hd : (d.migrations.keys ++ (d.models.values.filter (·.migration)).map Model.table).Nodup)
    (hn : (a.models.values.map Model.table).Nodup) (hrun : Pass.modelMigrations.body d = .ok () e)
    (hrun' : Pass.modelMigrations.body a = .ok () a') (htable : ∀ n ∈ a.models.values, n.table ∉ e.migrations.keys) :
    ∃ c, Pass.modelMigrations.body b = .ok () c ∧ e.Beside keys a' c ∧
      a'.migrations.entries = (a.models.values.filter (·.migration)).map fun m => (m.table, modelMigration m) := by
  have hown : ((a.models.values.filter (·.migration)).map Model.table).Nodup := ((List.filter_sublist).map Model.table).nodup hn
  have hadd := modelMigrations_ok hd
  rw [Resolve.modify_run_ok.mp hrun] at hadd
  have hadd' := modelMigrations_ok (d := a) (by rw [ha]; exact hown)
  rw [Resolve.modify_run_ok.mp hrun'] at hadd'
  have hkeys := hadd.keys
  rw [List.map_map] at hkeys
  have hsame := (OrderedMap.Encloses.of_empty ha).mp h.migrations
  have hmodels : b.models.values.filter (·.migration) =
      d.models.values.filter (·.migration) ++ a.models.values.filter (·.migration) := by
    rw [h.models.values, List.filter_append]
  have hboth : (b.migrations.keys ++ (b.models.values.filter (·.migration)).map Model.table).Nodup := by
    rw [hsame, hmodels, List.map_append, ← List.append_assoc]
    refine List.nodup_append.mpr ⟨hd, hown, ?_⟩
    rintro t ht _ hat rfl
    obtain ⟨n, hn, rfl⟩ := List.mem_map.mp hat
    exact htable n (List.mem_filter.mp hn).1 (hkeys ▸ ht)
  have hadd'' := modelMigrations_ok hboth
  refine ⟨_, Resolve.modify_run_ok.mpr rfl, ?_, ?_⟩
  · rw [hadd''.rest, hadd'.rest, hadd.rest]
    refine h.withMigrations ⟨e.migrations.entries, [], (List.append_nil _).symm, ?_⟩
    rw [hadd''.entries, hadd'.entries, hadd.entries, hmodels, hsame, ha]
    simp
  · rw [hadd'.entries, ha]
    rfl

/-! ## Tables of pivots -/

/-- Models without relations need no tables for pivots. -/
theorem pivotRows_of_noRelations {models : List Model} (h : ∀ m ∈ models, m.relations = .empty) (d : Draft) :
    (models.mapM fun owner => owner.relations.values.mapM (pivotRow d owner)) = .ok (models.map fun _ => []) := by
  refine mapM_eq_ok.mpr (List.forall₂_map_right_iff.mpr (List.forall₂_same.mpr fun m hm => ?_))
  rw [h m hm]
  rfl

theorem pivotTables_beside (h : d.Beside keys a b) {ts : List (RelationName × Migration)} (hts : pivotTables d = .ok ts) :
    pivotTables b = .ok ts := by
  obtain ⟨tables, htables, rfl⟩ := pivotTables_iff.mp hts
  have hsteady : Steady fun c => d.models.values.mapM fun owner => owner.relations.values.mapM (pivotRow c owner) :=
    .mapM (fun owner => .mapM (fun r => .bind (steady_pivotTable? owner r) fun found => .const _) _) _
  refine pivotTables_iff.mpr ⟨tables ++ a.models.values.map fun _ => [], ?_, ?_⟩
  · rw [h.models.values]
    exact mapM_append_ok (hsteady h.left htables) (pivotRows_of_noRelations h.noRelations b)
  · rw [List.flatten_append, List.flatten_append]
    simp

theorem frames_addPivotTable {relation : RelationName} {m : Migration} (hm : m.table ∉ a.migrations.keys) :
    Frames keys a (.update (addPivotTable relation m)) := by
  refine .update fun d b e h hrun => ?_
  unfold addPivotTable at hrun ⊢
  rw [h.migrations.get?_of_notMem hm]
  split at hrun
  · rename_i hnone
    obtain rfl := pure_eq_ok.mp hrun
    exact ⟨_, rfl, h.withMigrations (h.migrations.insert (OrderedMap.get?_eq_none_iff.mp hnone) hm m)⟩
  · split at hrun
    · exact absurd hrun throw_ne_ok
    · rename_i hsame
      obtain rfl := pure_eq_ok.mp hrun
      exact ⟨b, if_neg hsame, h⟩

theorem beside_pivotMigrations (h : d.Beside keys a b) (hrun : Pass.pivotMigrations.body d = .ok () e)
    (ha : ∀ t ∈ a.migrations.keys, t ∉ e.migrations.keys) : ∃ c, Pass.pivotMigrations.body b = .ok () c ∧ e.Beside keys a c := by
  obtain ⟨ts, _, hi, hrun⟩ := Resolve.bind_run_ok.mp hrun
  obtain ⟨hts, rfl⟩ := Resolve.inspect_run_ok.mp hi
  have hframes : Frames keys a (ts.forM fun t => Resolve.update (addPivotTable t.1 t.2)) := .forM fun t ht => by
    obtain ⟨other, hother, _⟩ := (standsFor_of_forM hrun).2 t ht
    exact frames_addPivotTable fun hmem => ha t.2.table hmem (OrderedMap.mem_keys_iff.mpr ⟨other, hother⟩)
  obtain ⟨c, hc, hbeside⟩ := hframes h hrun
  exact ⟨c, Resolve.bind_run_ok.mpr ⟨ts, b, Resolve.inspect_run_ok.mpr ⟨pivotTables_beside h hts, rfl⟩, hc⟩, hbeside⟩

theorem pivotMigrations_of_noRelations (ha : ∀ m ∈ a.models.values, m.relations = .empty)
    (h : Pass.pivotMigrations.body a = .ok () a') : a' = a := by
  obtain ⟨ts, _, hi, h⟩ := Resolve.bind_run_ok.mp h
  obtain ⟨hts, rfl⟩ := Resolve.inspect_run_ok.mp hi
  obtain ⟨tables, htables, rfl⟩ := pivotTables_iff.mp hts
  obtain rfl := Except.ok.inj ((pivotRows_of_noRelations ha a).symm.trans htables)
  have hnone : (a.models.values.map fun _ => ([] : List (List (RelationName × Migration)))).flatten.flatten = [] := by simp
  rw [hnone] at h
  exact (Resolve.forM_nil_run_ok.mp h).symm

/-! ## Further files -/

theorem beside_factories (h : d.Beside keys a b) {m n : OrderedMap FactoryDefinition} (hm : factories d = .ok m)
    (hn : factories a = .ok n) : ∃ o, factories b = .ok o ∧ o.Joins m n := by
  obtain ⟨made, hmade, hm⟩ := bind_eq_ok.mp hm
  obtain rfl := pure_eq_ok.mp hm
  obtain ⟨made', hmade', hn⟩ := bind_eq_ok.mp hn
  obtain rfl := pure_eq_ok.mp hn
  have hsteady : ∀ models : List Model, Steady fun c => models.mapM fun m =>
      return (m.key, factoryOf m (← c.declaration m.key)) :=
    fun models => .mapM (fun m => .bind (.declaration m.key) fun s => .const _) models
  have hboth := mapM_append_ok (hsteady _ h.left hmade) (hsteady _ h.right hmade')
  rw [← List.filter_append, ← h.models.values] at hboth
  refine ⟨_, bind_eq_ok.mpr ⟨_, hboth, rfl⟩, OrderedMap.joins_ofList ?_⟩
  have hkeys : (made ++ made').map Prod.fst = (b.models.values.filter fun m => m.factory && !m.isPivot).map Model.key := by
    refine map_eq_of_forall₂ (fun {m x} hx => ?_) (mapM_eq_ok.mp hboth)
    obtain ⟨s, _, hx⟩ := bind_eq_ok.mp hx
    obtain rfl := pure_eq_ok.mp hx
    rfl
  rw [hkeys]
  exact (List.filter_sublist.map Model.key).nodup (h.keyed.map_key ▸ b.models.keys_nodup)

theorem beside_artifacts (h : d.Beside keys a b) (hrun : Pass.artifacts.body d = .ok () e)
    (hrun' : Pass.artifacts.body a = .ok () a') :
    ∃ c, Pass.artifacts.body b = .ok () c ∧ e.Beside keys a' c ∧ c.artifacts.Joins e.artifacts a'.artifacts := by
  obtain ⟨made, hmade, hrun⟩ := bind_eq_ok.mp (Resolve.update_run_ok.mp hrun)
  obtain rfl := pure_eq_ok.mp hrun
  obtain ⟨made', hmade', hrun'⟩ := bind_eq_ok.mp (Resolve.update_run_ok.mp hrun')
  obtain rfl := pure_eq_ok.mp hrun'
  obtain ⟨both, hboth, hfactories⟩ := beside_factories h hmade hmade'
  refine ⟨_, Resolve.update_run_ok.mpr (bind_eq_ok.mpr ⟨both, hboth, rfl⟩), ?_, ?_⟩
  · exact ⟨h.settings, h.tables, h.declarations, h.models, h.migrations, h.keyed, h.known, h.declared, h.added, h.exact,
      h.noLines, h.noRelations⟩
  · have hscopes : (((b.models.values.filter (!·.globalScopes.isEmpty)).map fun m => (m.key, m.globalScopes)).map Prod.fst).Nodup := by
      rw [List.map_map]
      exact (List.filter_sublist.map Model.key).nodup (h.keyed.map_key ▸ b.models.keys_nodup)
    simp only [h.models.values, List.filter_append, List.map_append, List.flatMap_append, eraseDups_append] at hscopes ⊢
    exact ⟨rfl, rfl, OrderedMap.joins_ofList (by simpa using hscopes), rfl, rfl, hfactories⟩

/-! ## Whole runs -/

/-- The table passes of two drafts side by side. No model of the one beside has a table that is made for the other draft. -/
theorem beside_tables (h : d.Beside keys a b) (hd : d.migrations = .empty) (ha : a.migrations = .empty)
    (hs : a.schema.migrations = .empty) (hdt : d.TablesDistinct) (hat : a.TablesDistinct)
    (hrun : Completes [.explicitMigrations, .modelMigrations, .pivotMigrations] d e)
    (hrun' : Completes [.explicitMigrations, .modelMigrations, .pivotMigrations] a a')
    (htable : ∀ n ∈ a.models.values, n.table ∉ e.migrations.keys) :
    ∃ c, Completes [.explicitMigrations, .modelMigrations, .pivotMigrations] b c ∧ e.Beside keys a' c ∧
      a'.migrations.entries = (a.models.values.filter (·.migration)).map fun m => (m.table, modelMigration m) := by
  obtain ⟨d₁, hd₁, d₂, hd₂, d₃, hd₃, rfl⟩ := hrun
  obtain ⟨a₁, ha₁, a₂, ha₂, a₃, ha₃, rfl⟩ := hrun'
  obtain rfl := explicitMigrations_of_empty hs ha₁
  obtain ⟨_, hpivots, _⟩ := pivotMigrations_ok hd₃
  have hlast : ∀ {t}, t ∉ d₃.migrations.keys → t ∉ d₂.migrations.keys := fun ht hmem =>
    ht (by rw [hpivots.keys]; exact List.mem_append_left _ hmem)
  have hnodup := nodup_tables hd hdt hd₁
  have hmodels := modelMigrations_ok hnodup
  rw [Resolve.modify_run_ok.mp hd₂] at hmodels
  have hfirst : ∀ {t}, t ∉ d₂.migrations.keys → t ∉ d₁.migrations.keys := fun ht hmem =>
    ht (by rw [hmodels.keys]; exact List.mem_append_left _ hmem)
  obtain ⟨b₁, hb₁, h₁⟩ := beside_explicitMigrations h hd ha hd₁ fun n hn => hfirst (hlast (htable n hn))
  obtain ⟨b₂, hb₂, h₂, hentries⟩ := beside_modelMigrations h₁ ha hnodup hat hd₂ ha₂ fun n hn => hlast (htable n hn)
  obtain rfl := pivotMigrations_of_noRelations h₂.noRelations ha₃
  obtain ⟨b₃, hb₃, h₃⟩ := beside_pivotMigrations h₂ hd₃ fun t ht => by
    obtain ⟨x, hx, rfl⟩ := List.mem_map.mp ht
    rw [hentries] at hx
    obtain ⟨n, hn, rfl⟩ := List.mem_map.mp hx
    exact htable n (List.mem_filter.mp hn).1
  exact ⟨b₃, ⟨b₁, hb₁, b₂, hb₂, b₃, hb₃, rfl⟩, h₃, hentries⟩

section

variable {settings : Settings} {schema schema' both : SchemaDeclaration}

/-- The drafts through which a run of the standard passes goes: with shells, with models, and with tables. -/
structure Stops (c : Course settings schema) (shelled tabled e : Draft) : Prop where
  shells : Completes [.quickModels, .modelShells] (.start settings schema) shelled
  models : Completes (modelPasses.drop 2 ++ [.finalizeModels]) shelled c.complete
  tables : Completes [.explicitMigrations, .modelMigrations, .pivotMigrations] c.complete tabled
  artifacts : Pass.artifacts.body tabled = .ok () e
  declarations : e.declarations = shelled.declarations
  keys : e.models.keys = shelled.models.keys
  complete : e.models = c.complete.models
  identity : ∀ m ∈ shelled.models.values, ∃ n ∈ e.models.values, SameIdentity m n

/-- The last check of the models changes nothing. -/
theorem Stops.finalizeModels {c : Course settings schema} {shelled tabled e : Draft} (h : Stops c shelled tabled e) :
    Pass.finalizeModels.body c.complete = .ok () c.complete := by
  obtain ⟨_, _, d, hf, hd⟩ := completes_append.mp h.models
  obtain ⟨rfl, _⟩ := finalizeModels_ok hf
  rw [← show d = c.complete from hd]
  exact hf

theorem exists_stops (h : Completes standardPasses (.start settings schema) e) :
    ∃ (c : Course settings schema) (shelled tabled : Draft), Stops c shelled tabled e := by
  rw [standardPasses_eq] at h
  obtain ⟨d, hd, h⟩ := completes_append.mp h
  have hmodels := (settled_of_modelPasses hd h).models
  obtain ⟨c, rfl⟩ := exists_course hd
  obtain ⟨d₁, hf, d₂, h₂, d₃, h₃, d₄, h₄, d₅, h₅, rfl⟩ := h
  obtain ⟨rfl, _⟩ := finalizeModels_ok hf
  obtain ⟨shelled, hshelled, hdeclarations, hkeys, hidentity⟩ := c.exists_shells
  have hsplit : Completes ([.quickModels, .modelShells] ++ modelPasses.drop 2) (.start settings schema) c.complete := hd
  obtain ⟨shelled', hshelled', hrest⟩ := completes_append.mp hsplit
  obtain rfl := hshelled.unique hshelled'
  obtain ⟨_, _, _, _, hadd⟩ := tables_ok (by rw [c.founded.rest]; rfl) c.founded.tables ⟨d₂, h₂, d₃, h₃, d₄, h₄, rfl⟩
  obtain ⟨_, _, h₅'⟩ := bind_eq_ok.mp (Resolve.update_run_ok.mp h₅)
  have he := pure_eq_ok.mp h₅'
  refine ⟨c, shelled, d₄, hshelled, hrest.append (.cons hf rfl), ⟨d₂, h₂, d₃, h₃, d₄, h₄, rfl⟩, h₅, ?_, ?_, hmodels, ?_⟩
  · rw [← he, hadd.rest, ← hdeclarations]
  · rw [hmodels, hkeys]
  · intro m hm
    obtain ⟨k, hk⟩ := OrderedMap.mem_values_iff.mp hm
    obtain ⟨n, hn⟩ := OrderedMap.mem_keys_iff.mp (hkeys ▸ OrderedMap.mem_keys_iff.mpr ⟨m, hk⟩)
    exact ⟨n, hmodels ▸ OrderedMap.mem_values_iff.mpr ⟨k, hn⟩, hidentity k m n hk hn⟩

theorem readFrom_of_completes (h : Completes standardPasses (.start settings schema) e) :
    ReadFrom schema e.declarations ∧ e.models.keys = schema.models.keys := by
  obtain ⟨c, shelled, tabled, hstops⟩ := exists_stops h
  obtain ⟨_, hread, hshelled⟩ := shelled_of_completes hstops.shells
  exact ⟨hstops.declarations ▸ hread, hstops.keys.trans (hshelled.keys.trans hread.keys)⟩

/-- Two schemas whose models may meet resolve side by side as each of them does, if the first names its models by keys and the
other has no relations and no tables but those of its models, which the first does not have. -/
theorem completes_beside (hboth : both.models.Joins schema.models schema'.models) (htables : both.migrations = schema.migrations)
    (hnone : schema'.migrations = .empty) (hd : Completes standardPasses (.start settings schema) e)
    (ha : Completes standardPasses (.start settings schema') a')
    (hmeet : ∀ m ∈ e.models.values, ∀ n ∈ a'.models.values, MayMeet m n)
    (hexact : ∀ l, e.Declares l → l.NamesKeys e.models.keys) (hlines : ∀ k, a'.relationLines k = [])
    (htable : ∀ n ∈ a'.models.values, n.table ∉ e.migrations.keys) :
    ∃ c, Completes standardPasses (.start settings both) c ∧ e.Beside e.models.keys a' c ∧
      c.artifacts.Joins e.artifacts a'.artifacts ∧
      a'.migrations.entries = (a'.models.values.filter (·.migration)).map fun m => (m.table, modelMigration m) := by
  obtain ⟨c, d₁, d₂, h⟩ := exists_stops hd
  obtain ⟨c', a₁, a₂, h'⟩ := exists_stops ha
  have hmeet₁ : ∀ m ∈ d₁.models.values, ∀ n ∈ a₁.models.values, MayMeet m n := by
    intro m hm n hn
    obtain ⟨m', hm', hsame⟩ := h.identity m hm
    obtain ⟨n', hn', hsame'⟩ := h'.identity n hn
    have hmay := hmeet m' hm' n' hn'
    rw [MayMeet, hsame.className, hsame.table, hsame'.className, hsame'.table] at hmay
    exact hmay
  have hexact₁ : ∀ l, d₁.Declares l → l.NamesKeys d₁.models.keys := by
    unfold Draft.Declares
    rw [← h.keys, ← h.declarations]
    exact hexact
  have hlines₁ : ∀ k, a₁.relationLines k = [] := by
    unfold Draft.relationLines
    rw [← h'.declarations]
    exact hlines
  obtain ⟨b₁, hb₁, hbeside₁⟩ := beside_shells hboth htables h.shells h'.shells hmeet₁ hexact₁ hlines₁
  obtain ⟨b₂, hb₂, hbeside₂⟩ := completes_parallel parallel_of_mem hbeside₁ h.models h'.models
  have hempty : c'.complete.schema.migrations = .empty := by
    rw [c'.founded.rest]
    exact hnone
  have htable₂ : ∀ n ∈ c'.complete.models.values, n.table ∉ d₂.migrations.keys := by
    obtain ⟨_, _, hcollect⟩ := bind_eq_ok.mp (Resolve.update_run_ok.mp h.artifacts)
    have hmigrations : e.migrations = d₂.migrations := by rw [← pure_eq_ok.mp hcollect]
    rw [← h'.complete, ← hmigrations]
    exact htable
  obtain ⟨b₃, hb₃, hbeside₃, hentries⟩ := beside_tables hbeside₂ (by rw [c.founded.rest]; rfl) (by rw [c'.founded.rest]; rfl) hempty
    c.founded.tables c'.founded.tables h.tables h'.tables htable₂
  obtain ⟨b, hb, hbeside, hjoins⟩ := beside_artifacts hbeside₃ h.artifacts h'.artifacts
  have hadded : a'.migrations = a₂.migrations := by
    obtain ⟨_, _, hcollect⟩ := bind_eq_ok.mp (Resolve.update_run_ok.mp h'.artifacts)
    rw [← pure_eq_ok.mp hcollect]
  exact ⟨b, (hb₁.append hb₂).append (hb₃.append (.cons hb rfl)), h.keys ▸ hbeside, hjoins,
    hadded ▸ h'.complete ▸ hentries⟩

end

end Resolution
end Schemata
