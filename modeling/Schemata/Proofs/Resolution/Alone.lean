import Schemata.Proofs.Resolution.BesidePasses
import Schemata.Proofs.Resolution.PlainLines
import Schemata.Proofs.Resolution.Quickened

/-!
# Runs over one declaration

What the standard passes come to where a schema declares one table, or one model with lines of columns alone and a table for them.
-/

namespace Schemata.Resolution

open Declaration Shorthand

variable {settings : Settings} {schema : SchemaDeclaration} {root : Option String} {key table : String} {value : Yaml} {d e : Draft}
  {lines : OrderedMap (Option String)} {s : ModelDeclaration} {m : Model}

/-! ## A table -/

/-- A schema that declares one table and nothing else. -/
def onlyTable (root : Option String) (table : String) (value : Yaml) : SchemaDeclaration :=
  ⟨root, .empty, .ofList [(table, value)]⟩

theorem migrationDeclarations_onlyTable {ds : OrderedMap MigrationDeclaration} :
    (onlyTable root table value).migrationDeclarations = .ok ds ↔
      ∃ s, MigrationDeclaration.ofYaml table value = .ok s ∧ ds = .ofList [(table, s)] := by
  refine bind_eq_ok.trans ?_
  constructor
  · rintro ⟨read, hread, hds⟩
    obtain ⟨s, hs, rfl⟩ := mapM_keyed_singleton_iff.mp hread
    exact ⟨s, hs, (pure_eq_ok.mp hds).symm⟩
  · rintro ⟨s, hs, rfl⟩
    exact ⟨_, mapM_keyed_singleton_iff.mpr ⟨s, hs, rfl⟩, rfl⟩

theorem explicitMigrations_onlyTable :
    Pass.explicitMigrations.body (.start settings (onlyTable root table value)) = .ok () e ↔
      ∃ s m, MigrationDeclaration.ofYaml table value = .ok s ∧ declaredMigration table s = .ok m ∧
        addMigration (.start settings (onlyTable root table value)) m = e := by
  constructor
  · intro h
    obtain ⟨ds, c, hi, h⟩ := Resolve.bind_run_ok.mp h
    obtain ⟨hds, rfl⟩ := Resolve.inspect_run_ok.mp hi
    obtain ⟨s, hs, rfl⟩ := migrationDeclarations_onlyTable.mp hds
    obtain ⟨c, hadd, h⟩ := Resolve.forM_cons_run_ok.mp h
    obtain rfl := Resolve.forM_nil_run_ok.mp h
    obtain ⟨_, m, hm, rfl⟩ := addDeclared_ok (Resolve.update_run_ok.mp hadd)
    exact ⟨s, m, hs, hm, rfl⟩
  · rintro ⟨s, m, hs, hm, rfl⟩
    refine Resolve.bind_run_ok.mpr ⟨_, _, Resolve.inspect_run_ok.mpr ⟨migrationDeclarations_onlyTable.mpr ⟨s, hs, rfl⟩, rfl⟩,
      Resolve.forM_cons_run_ok.mpr ⟨_, ?_, Resolve.forM_nil_run_ok.mpr rfl⟩⟩
    exact Resolve.update_run_ok.mpr (bind_eq_ok.mpr ⟨m, hm, rfl⟩)

/-- Where there are no models, the passes over them have nothing to do. -/
theorem completes_without_models (migrations : OrderedMap Yaml) : Completes (modelPasses ++ [.finalizeModels])
    (.start settings ⟨root, .empty, migrations⟩) (.start settings ⟨root, .empty, migrations⟩) := by
  refine .of_idle ?_
  unfold modelPasses
  simp only [List.cons_append, List.nil_append, List.forall_mem_cons]
  exact ⟨rfl, rfl, rfl, rfl, rfl, rfl, rfl, rfl, rfl, rfl, rfl, rfl, rfl, rfl, rfl, List.forall_mem_nil _⟩

theorem exists_completes_without_models (migrations : OrderedMap Yaml) (m : Migration) :
    ∃ e, Completes [.modelMigrations, .pivotMigrations, .artifacts] (addMigration (.start settings ⟨root, .empty, migrations⟩) m) e ∧
      e.migrations.entries = [(m.table, m)] :=
  ⟨_, ⟨_, rfl, _, rfl, _, rfl, rfl⟩, rfl⟩

theorem completes_onlyTable : Completes standardPasses (.start settings (onlyTable root table value)) e ↔
    ∃ s m, MigrationDeclaration.ofYaml table value = .ok s ∧ declaredMigration table s = .ok m ∧
      Completes [.modelMigrations, .pivotMigrations, .artifacts] (addMigration (.start settings (onlyTable root table value)) m) e := by
  have hpasses : standardPasses = (modelPasses ++ [.finalizeModels]) ++
      [.explicitMigrations, .modelMigrations, .pivotMigrations, .artifacts] := rfl
  rw [hpasses, completes_append]
  constructor
  · rintro ⟨c, hmodels, b, hexplicit, h⟩
    obtain rfl := hmodels.unique (completes_without_models _)
    obtain ⟨s, m, hs, hm, rfl⟩ := explicitMigrations_onlyTable.mp hexplicit
    exact ⟨s, m, hs, hm, h⟩
  · rintro ⟨s, m, hs, hm, h⟩
    exact ⟨_, completes_without_models _, _, explicitMigrations_onlyTable.mpr ⟨s, m, hs, hm, rfl⟩, h⟩

/-! ## A model -/

/-- A schema that declares one model and nothing else. -/
def onlyModel (root : Option String) (key : String) (value : Yaml) : SchemaDeclaration :=
  ⟨root, .ofList [(key, value)], .empty⟩

/-- A draft of one model. -/
def alone (settings : Settings) (schema : SchemaDeclaration) (key : String) (s : ModelDeclaration) (m : Model) : Draft :=
  { Draft.start settings schema with declarations := .ofList [(key, s)], models := .ofList [(key, m)] }

theorem get?_alone : (alone settings schema key s m).models.get? key = some m :=
  OrderedMap.get?_eq_some_iff.mpr List.mem_cons_self

theorem declaration_alone : (alone settings schema key s m).declaration key = .ok s :=
  Draft.declaration_eq_ok.mpr (OrderedMap.get?_eq_some_iff.mpr List.mem_cons_self)

theorem setModel_alone (n : Model) : (alone settings schema key s m).setModel key n = alone settings schema key s n := by
  have hmodels : ((OrderedMap.ofList [(key, m)]).modify key fun _ => n) = OrderedMap.ofList [(key, n)] := by
    refine OrderedMap.ext ?_
    change [(key, if key = key then n else m)] = [(key, n)]
    rw [if_pos rfl]
  exact congrArg (fun models => { alone settings schema key s n with models }) hmodels

theorem lines_alone (hplain : Plain s.columns) : ∀ l ∈ (alone settings schema key s m).lines, DeclaredRelation.kindOf? l.call = none := by
  intro l hl
  obtain ⟨⟨_, _⟩, hx, hmem⟩ := List.mem_flatMap.mp hl
  obtain ⟨rfl, rfl⟩ := Prod.mk.inj (List.mem_singleton.mp hx)
  obtain ⟨⟨name, line⟩, hline, hmade⟩ := List.mem_filterMap.mp hmem
  obtain ⟨text, rfl, rfl⟩ := Option.map_eq_some_iff.mp hmade
  exact hplain (name, some text) hline

/-! ### Shells -/

/-- The shell of a model with a table of its own. -/
def tableShell (settings : Settings) (key table : String) : Model :=
  { identity settings key with
    table, type := .plain, observer := false, seeder := false, migration := true, autoId := false, factory := true,
    factoryStates := .empty }

theorem completes_shells_onlyModel : Completes [.quickModels, .modelShells] (.start settings (onlyModel root key value)) d ↔
    ∃ s m, modelDeclaration key value = .ok s ∧ modelShell settings [] key s = .ok m ∧
      d = alone settings (onlyModel root key value) key s m := by
  rw [completes_shells_iff]
  constructor
  · rintro ⟨read, shells, hread, hshells, _, rfl⟩
    obtain ⟨s, hs, rfl⟩ := mapM_keyed_singleton_iff.mp hread
    obtain ⟨m, hm, rfl⟩ := mapM_singleton_iff.mp hshells
    refine ⟨s, m, hs, hm, ?_⟩
    rw [List.map_singleton, (modelShell_ok hm).1.key]
    rfl
  · rintro ⟨s, m, hs, hm, rfl⟩
    refine ⟨_, _, mapM_keyed_singleton_iff.mpr ⟨s, hs, rfl⟩, mapM_singleton_iff.mpr ⟨m, hm, rfl⟩, List.pairwise_singleton _ _, ?_⟩
    rw [List.map_singleton, (modelShell_ok hm).1.key]
    rfl

theorem completes_shells_ofTable (hread : modelDeclaration key value = .ok (ofTable lines table)) (hplain : Plain lines) :
    Completes [.quickModels, .modelShells, .relationReservations] (.start settings (onlyModel root key value))
      (alone settings (onlyModel root key value) key (ofTable lines table) (tableShell settings key table)) := by
  refine .append (completes_shells_onlyModel.mpr ⟨_, _, hread, rfl, rfl⟩) (.cons (Resolve.modify_run_ok.mpr ?_) rfl)
  unfold reserveRelations
  rw [List.filter_eq_nil_iff.mpr fun l hl => by simp [lines_alone hplain l hl]]
  rfl

/-! ### Columns -/

/-- A pass over one thing is a step over it. -/
theorem run_of_one {α : Type} {f : Draft → List α} {g : α → Resolve Unit} {x : α} (h : f d = [x]) :
    (do (f (← get)).forM g : Resolve Unit) d = .ok () e ↔ g x d = .ok () e := by
  constructor
  · intro hrun
    obtain ⟨_, _, hg, hrun⟩ := Resolve.bind_run_ok.mp hrun
    obtain ⟨rfl, rfl⟩ := Resolve.get_run_ok.mp hg
    rw [h] at hrun
    obtain ⟨c, hx, hrun⟩ := Resolve.forM_cons_run_ok.mp hrun
    obtain rfl := Resolve.forM_nil_run_ok.mp hrun
    exact hx
  · intro hx
    refine Resolve.bind_run_ok.mpr ⟨d, d, Resolve.get_run_ok.mpr ⟨rfl, rfl⟩, ?_⟩
    rw [h]
    exact Resolve.forM_cons_run_ok.mpr ⟨e, hx, Resolve.forM_nil_run_ok.mpr rfl⟩

/-- The model of a declared table, with its columns and what follows from them. -/
def tableModel (settings : Settings) (key table : String) (lines : OrderedMap (Option String)) : Model :=
  derived (ofTable lines table) (((columnsOf lines).values.find? Column.isPrimary).map PrimaryKey.ofColumn)
    { tableShell settings key table with columns := filled lines }

theorem derives_shell_iff (hplain : Plain lines) {primary : Option PrimaryKey} :
    Derives key (ofTable lines table) { tableShell settings key table with columns := filled lines } primary ↔
      Creatable (columnsOf lines).values ∧ primary = ((columnsOf lines).values.find? Column.isPrimary).map PrimaryKey.ofColumn := by
  have hprimary : primaryKey (ofTable lines table) { tableShell settings key table with columns := filled lines } =
      .ok (((filled lines).values.find? Column.isPrimary).map PrimaryKey.ofColumn) := primaryKey_eq rfl _
  rw [creatable_iff (.model key), forall_columnsOf (P := fun c => c.methods.IndexedOnce), ← values_filled]
  constructor
  · intro h
    refine ⟨⟨fun x hx => ?_, h.autoIncrement, h.physical⟩, Except.ok.inj (h.primary.symm.trans hprimary)⟩
    obtain ⟨_, hcolumn⟩ := (h.lines x hx).resolve_left (by simp [hplain x hx])
    obtain ⟨hindexed, rfl⟩ := Column.declared_iff.mp hcolumn
    exact hindexed
  · rintro ⟨⟨hindexed, hauto, hphysical⟩, rfl⟩
    exact ⟨fun x hx => .inr ⟨_, Column.declared_iff.mpr ⟨hindexed x hx, rfl⟩⟩, hauto, hphysical, hprimary⟩

theorem columns_alone (hplain : Plain lines) :
    Pass.columns.body (alone settings schema key (ofTable lines table) (tableShell settings key table)) = .ok () e ↔
      Creatable (columnsOf lines).values ∧ alone settings schema key (ofTable lines table) (tableModel settings key table lines) = e := by
  have hfold : withLines (tableShell settings key table) (ofTable lines table).columns.entries =
      { tableShell settings key table with columns := filled lines } := withLines_plain hplain rfl
  refine (run_of_one (x := (key, ofTable lines table)) rfl).trans ?_
  dsimp only
  rw [declareColumns_iff get?_alone, hfold]
  simp only [derives_shell_iff hplain, setModel_alone]
  constructor
  · rintro ⟨_, ⟨hcreatable, rfl⟩, rfl⟩
    exact ⟨hcreatable, rfl⟩
  · rintro ⟨hcreatable, rfl⟩
    exact ⟨_, ⟨hcreatable, rfl⟩, rfl⟩

/-! ### Relations -/

/-- A pass over relation lines has nothing to do where there are none. -/
theorem run_of_no_lines {read : Draft → Except SchemaFault (List DeclaredRelation)} {f : DeclaredRelation → Resolve Unit}
    (h : read d = .ok []) : (do (← Resolve.inspect read).forM f) d = .ok () d :=
  Resolve.bind_run_ok.mpr ⟨[], d, Resolve.inspect_run_ok.mpr ⟨h, rfl⟩, Resolve.forM_nil_run_ok.mpr rfl⟩

theorem completes_links_of_plain (h : ∀ l ∈ d.lines, DeclaredRelation.kindOf? l.call = none) :
    Completes [.belongsTo, .belongsToMany, .hasOneOrMany, .hasOneOrManyThrough, .morphTo, .morphOneOrMany, .morphToMany] d d := by
  have hnone : ∀ kind, d.declaredRelations kind = .ok [] := by
    intro kind
    unfold Draft.declaredRelations
    rw [List.filter_eq_nil_iff.mpr fun l hl => by simp [h l hl]]
    rfl
  have hboth : ∀ first second, d.declaredRelationsOf first second = .ok [] := fun first second =>
    bind_eq_ok.mpr ⟨[], hnone first, bind_eq_ok.mpr ⟨[], hnone second, rfl⟩⟩
  refine .of_idle ?_
  simp only [List.forall_mem_cons]
  exact ⟨run_of_no_lines (hnone _), run_of_no_lines (hnone _), run_of_no_lines (hboth _ _), run_of_no_lines (hboth _ _),
    run_of_no_lines (hnone _), run_of_no_lines (hboth _ _), run_of_no_lines (hboth _ _), List.forall_mem_nil _⟩

/-! ### Attributes and completion -/

/-- The model of a declared table once its attributes are known. -/
def finished (settings : Settings) (key table : String) (lines : OrderedMap (Option String)) : Model :=
  withAttributes (ofTable lines table) (tableModel settings key table lines)

/-- The only names to be known are those of timestamps, and they follow from columns. -/
theorem knows_tableModel : Knows (ofTable lines table) (tableModel settings key table lines) where
  hidden _ h := absurd h List.not_mem_nil
  fillable _ h := by cases h
  route _ h := by cases h
  timestamps t ht := by
    have htimes : (tableModel settings key table lines).timestamps =
        if (filled lines).values.any Column.isTimestamps then some .conventional else none :=
      timestamps_eq (s := ofTable lines table) rfl { tableShell settings key table with columns := filled lines }
    rw [htimes] at ht
    split at ht
    · rename_i hany
      obtain ⟨c, hc, hstamps⟩ := List.any_eq_true.mp hany
      obtain rfl := Option.mem_some.mp ht
      have hnames : c.physicalNames = [Timestamps.conventional.createdAt, Timestamps.conventional.updatedAt] := by
        unfold Column.physicalNames
        rw [if_pos hstamps]
        rfl
      exact ⟨List.mem_flatMap.mpr ⟨c, hc, hnames ▸ List.mem_cons_self⟩,
        List.mem_flatMap.mpr ⟨c, hc, hnames ▸ List.mem_cons_of_mem _ List.mem_cons_self⟩⟩
    · cases ht
  casts _ h := absurd h List.not_mem_nil
  indexes _ h := absurd h List.not_mem_nil

theorem modelAttributes_alone :
    Pass.modelAttributes.body (alone settings schema key (ofTable lines table) (tableModel settings key table lines)) =
      .ok () (alone settings schema key (ofTable lines table) (finished settings key table lines)) := by
  refine (run_of_one (x := key) rfl).mpr (Resolve.update_run_ok.mpr ?_)
  refine resolveAttributes_ok_iff.mpr ⟨_, _, Draft.declaration_eq_ok.mp declaration_alone, get?_alone,
    checkAttributes_of_knows knows_tableModel, rfl, ?_⟩
  rw [Draft.modifyModel_eq get?_alone, setModel_alone]
  rfl

theorem checkComplete_finished (hcreatable : Creatable (columnsOf lines).values) :
    checkComplete (finished settings key table lines) = .ok () := by
  have hpending : (finished settings key table lines).columns.pendingKeys = [] := pendingKeys_filled
  have hphysical : checkPhysical (.model key) (filled lines).values = .ok () := by
    rw [values_filled]
    exact ((creatable_iff (.model key)).mp hcreatable).2.2
  unfold checkComplete
  rw [hpending]
  change (checkPhysical (.model key) (filled lines).values).mapError Fault.schema = .ok ()
  rw [hphysical]
  rfl

theorem finalizeModels_alone (h : checkComplete m = .ok ()) :
    Pass.finalizeModels.body (alone settings schema key s m) = .ok () (alone settings schema key s m) := by
  have hall : (alone settings schema key s m).models.values.forM checkComplete = .ok () :=
    bind_eq_ok.mpr ⟨(), h, rfl⟩
  rw [finalizeModels_run, hall]

/-- The passes over a model with columns do not fail, and add attributes. -/
theorem completes_finished (hplain : Plain lines) (hcreatable : Creatable (columnsOf lines).values) :
    Completes [.belongsTo, .belongsToMany, .hasOneOrMany, .hasOneOrManyThrough, .morphTo, .morphOneOrMany, .morphToMany, .pivotModels,
        .morphColumns, .modelAttributes, .finalizeModels]
      (alone settings schema key (ofTable lines table) (tableModel settings key table lines))
      (alone settings schema key (ofTable lines table) (finished settings key table lines)) := by
  let d := alone settings schema key (ofTable lines table) (tableModel settings key table lines)
  have hpivot : Pass.pivotModels.body d = .ok () d := rfl
  have hmorph : Pass.morphColumns.body d = .ok () d := rfl
  exact .append (completes_links_of_plain (lines_alone hplain)) <| .cons hpivot <| .cons hmorph <| .cons modelAttributes_alone <|
    .cons (finalizeModels_alone (checkComplete_finished hcreatable)) rfl

/-! ### The table -/

theorem modelMigration_finished : modelMigration (finished settings key table lines) =
    { Migration.ofTable table with columns := columnsOf lines, model := some key } := by
  have hcolumns : (finished settings key table lines).columns.resolved = (columnsOf lines).entries := resolved_filled
  unfold modelMigration
  rw [hcolumns, OrderedMap.ofList_entries]
  rfl

theorem exists_completes_finished : ∃ e, Completes [.explicitMigrations, .modelMigrations, .pivotMigrations, .artifacts]
      (alone settings (onlyModel root key value) key (ofTable lines table) (finished settings key table lines)) e ∧
      e.migrations.entries = [(table, { Migration.ofTable table with columns := columnsOf lines, model := some key })] := by
  let m := finished settings key table lines
  let d := alone settings (onlyModel root key value) key (ofTable lines table) m
  let c := addMigration d (modelMigration m)
  have hexplicit : Pass.explicitMigrations.body d = .ok () d := rfl
  have hmodel : Pass.modelMigrations.body d = .ok () c := rfl
  have hpivot : Pass.pivotMigrations.body c = .ok () c := rfl
  have hdeclaration : d.declaration key = .ok (ofTable lines table) := declaration_alone
  have hfactories : factories c = .ok (.ofList [(key, factoryOf m (ofTable lines table))]) :=
    bind_eq_ok.mpr ⟨_, mapM_singleton_iff.mpr ⟨_, bind_eq_ok.mpr ⟨_, hdeclaration, rfl⟩, rfl⟩, rfl⟩
  have hartifacts : ∃ e, Pass.artifacts.body c = .ok () e ∧ e.migrations = c.migrations :=
    ⟨_, Resolve.update_run_ok.mpr (bind_eq_ok.mpr ⟨_, hfactories, rfl⟩), rfl⟩
  obtain ⟨e, he, hmigrations⟩ := hartifacts
  have hmade : modelMigration m = { Migration.ofTable table with columns := columnsOf lines, model := some key } :=
    modelMigration_finished
  refine ⟨e, .cons hexplicit <| .cons hmodel <| .cons hpivot <| .cons he rfl, ?_⟩
  rw [hmigrations, ← hmade]
  rfl

theorem exists_modelDeclaration_of_completes (h : Completes standardPasses (.start settings (onlyModel root key value)) e) :
    ∃ s, modelDeclaration key value = .ok s := by
  obtain ⟨_, hquick, _⟩ := h
  obtain ⟨_, hread, _⟩ := quickModels_iff.mp hquick
  obtain ⟨s, hs, _⟩ := mapM_keyed_singleton_iff.mp hread
  exact ⟨s, hs⟩

theorem completes_onlyModel (hread : modelDeclaration key value = .ok (ofTable lines table)) (hplain : Plain lines) :
    Completes standardPasses (.start settings (onlyModel root key value)) e ↔ Creatable (columnsOf lines).values ∧
      Completes [.explicitMigrations, .modelMigrations, .pivotMigrations, .artifacts]
        (alone settings (onlyModel root key value) key (ofTable lines table) (finished settings key table lines)) e := by
  -- Only the pass of columns may fail, so the run is cut before and behind it.
  have hpasses : standardPasses = [Pass.quickModels, .modelShells, .relationReservations] ++ ([Pass.columns] ++
      ([Pass.belongsTo, .belongsToMany, .hasOneOrMany, .hasOneOrManyThrough, .morphTo, .morphOneOrMany, .morphToMany, .pivotModels,
        .morphColumns, .modelAttributes, .finalizeModels] ++
      [Pass.explicitMigrations, .modelMigrations, .pivotMigrations, .artifacts])) := rfl
  have hshell : Completes [.quickModels, .modelShells, .relationReservations] (.start settings (onlyModel root key value))
      (alone settings (onlyModel root key value) key (ofTable lines table) (tableShell settings key table)) :=
    completes_shells_ofTable hread hplain
  rw [hpasses, completes_append]
  constructor
  · rintro ⟨c, hc, h⟩
    obtain rfl := hc.unique hshell
    obtain ⟨_, ⟨_, hcolumns, rfl⟩, h⟩ := completes_append.mp h
    obtain ⟨hcreatable, rfl⟩ := (columns_alone hplain).mp hcolumns
    obtain ⟨_, hfinished, h⟩ := completes_append.mp h
    obtain rfl := hfinished.unique (completes_finished hplain hcreatable)
    exact ⟨hcreatable, h⟩
  · rintro ⟨hcreatable, h⟩
    exact ⟨_, hshell, .append (.cons ((columns_alone hplain).mpr ⟨hcreatable, rfl⟩) rfl)
      (.append (completes_finished hplain hcreatable) h)⟩

end Schemata.Resolution
