import Schemata.Proofs.Column
import Schemata.Proofs.Resolution.QuickLines
import Schemata.Proofs.Resolution.Tables

/-!
# Lines of columns alone

Where no line is that of a relation, each makes its column at once: the lines of a declared table and those of a model come to the same
columns, which have to pass the same checks.
-/

namespace Schemata.Resolution

open Declaration Shorthand

/-- None of the lines is that of a relation. -/
def Plain (lines : OrderedMap (Option String)) : Prop :=
  ∀ x ∈ lines.entries, DeclaredRelation.kindOf? (Call.ofLine x.2) = none

instance (lines : OrderedMap (Option String)) : Decidable (Plain lines) :=
  inferInstanceAs (Decidable (∀ x ∈ lines.entries, DeclaredRelation.kindOf? (Call.ofLine x.2) = none))

/-- The columns that lines make. -/
def columnsOf (lines : OrderedMap (Option String)) : OrderedMap Column :=
  lines.mapEntries fun name line => Column.ofLine name (Call.ofLine line)

variable {lines : OrderedMap (Option String)} {columns : List (Yaml × Yaml)} {key table : String}

theorem forall_columnsOf {P : Column → Prop} : (∀ c ∈ (columnsOf lines).values, P c) ↔
    ∀ x ∈ lines.entries, P (Column.ofLine x.1 (Call.ofLine x.2)) := by
  unfold columnsOf OrderedMap.values OrderedMap.mapEntries
  simp only [List.map_map, List.forall_mem_map, Function.comp]

/-! ## Declared tables -/

theorem tableColumn_iff {name : String} {line : Option String} (hplain : DeclaredRelation.kindOf? (Call.ofLine line) = none)
    {c : Column} : tableColumn table name line = .ok c ↔ c.methods.IndexedOnce ∧ c = Column.ofLine name (Call.ofLine line) := by
  unfold tableColumn
  dsimp only
  rw [hplain, if_neg (by simp)]
  exact Column.declared_iff

theorem tableColumns_iff (hplain : Plain lines) {read : List (String × Column)} :
    (lines.entries.mapM fun (name, line) => return (name, ← tableColumn table name line)) = .ok read ↔
      (∀ c ∈ (columnsOf lines).values, c.methods.IndexedOnce) ∧ read = (columnsOf lines).entries := by
  rw [forall_columnsOf (P := fun c => c.methods.IndexedOnce)]
  refine mapM_eq_map_iff fun x hx y => ?_
  simp only [bind_eq_ok, tableColumn_iff (hplain x hx), pure_eq_ok]
  constructor
  · rintro ⟨_, ⟨hindexed, rfl⟩, rfl⟩
    exact ⟨hindexed, rfl⟩
  · rintro ⟨hindexed, rfl⟩
    exact ⟨_, ⟨hindexed, rfl⟩, rfl⟩

/-- Lines without relations define a table if their columns can be created. -/
theorem declaredMigration_iff (hplain : Plain lines) {m : Migration} :
    declaredMigration table { MigrationDeclaration.empty with columns := lines } = .ok m ↔
      Creatable (columnsOf lines).values ∧ m = { Migration.ofTable table with columns := columnsOf lines } := by
  rw [creatable_iff (.migration table)]
  unfold declaredMigration
  rw [bind_eq_ok]
  constructor
  · rintro ⟨read, hread, h⟩
    obtain ⟨hindexed, rfl⟩ := (tableColumns_iff hplain).mp hread
    dsimp only at h
    rw [foldl_addColumn_entries] at h
    obtain ⟨_, hauto, h⟩ := bind_eq_ok.mp h
    obtain ⟨_, hphysical, h⟩ := bind_eq_ok.mp h
    exact ⟨⟨hindexed, hauto, hphysical⟩, (pure_eq_ok.mp h).symm⟩
  · rintro ⟨⟨hindexed, hauto, hphysical⟩, rfl⟩
    refine ⟨_, (tableColumns_iff hplain).mpr ⟨hindexed, rfl⟩, ?_⟩
    dsimp only
    rw [foldl_addColumn_entries]
    exact bind_eq_ok.mpr ⟨(), hauto, bind_eq_ok.mpr ⟨(), hphysical, rfl⟩⟩

/-! ## Models -/

/-- The columns of lines, each in its place. -/
def filled (lines : OrderedMap (Option String)) : Slots Column :=
  ⟨(columnsOf lines).mapEntries fun _ c => .resolved c⟩

theorem resolved_filled : (filled lines).resolved = (columnsOf lines).entries := by
  unfold filled Slots.resolved OrderedMap.mapEntries
  simp [List.filterMap_map, Slot.value?]

theorem values_filled : (filled lines).values = (columnsOf lines).values := by
  unfold Slots.values OrderedMap.values
  rw [resolved_filled]

theorem pendingKeys_filled : (filled lines).pendingKeys = [] := by
  refine List.map_eq_nil_iff.mpr (List.filter_eq_nil_iff.mpr fun x hx => ?_)
  obtain ⟨c, _, rfl⟩ := List.mem_map.mp hx
  simp [Slot.isPending]

theorem withLines_plain (hplain : Plain lines) {m : Model} (hm : m.columns = .empty) :
    withLines m lines.entries = { m with columns := filled lines } := by
  obtain ⟨columns, hfold, hentries⟩ := withLines_eq lines.entries m (by rw [hm]; exact lines.nodup)
  have hline : ∀ x ∈ lines.entries, (columnSlot? x.1 x.2).map (x.1, ·) =
      some (x.1, .resolved (Column.ofLine x.1 (Call.ofLine x.2))) := by
    intro x hx
    unfold columnSlot?
    rw [hplain x hx]
    rfl
  have hslots : columnSlots lines.entries = (filled lines).map.entries := by
    unfold columnSlots
    rw [List.filterMap_congr hline, List.filterMap_eq_map']
    unfold filled columnsOf OrderedMap.mapEntries
    simp only [List.map_map, Function.comp_def]
  rw [hfold]
  have hcolumns : columns = filled lines := by
    obtain ⟨entries⟩ := columns
    refine congrArg Slots.mk (OrderedMap.ext (hentries.trans ?_))
    rw [hm, hslots]
    rfl
  rw [hcolumns]

/-! ## Reading -/

/-- A declaration of columns and a table. -/
def ofTable (lines : OrderedMap (Option String)) (table : String) : ModelDeclaration :=
  { ofColumns lines with table := some table }

/-- The block that declares columns and the table that they are in. -/
def tableBlock (columns : List (Yaml × Yaml)) (table : String) : Yaml :=
  .map [(.str "columns", .map columns), (.str "table", .str table)]

theorem modelDeclaration_tableBlock (hne : columns ≠ []) {s : ModelDeclaration} :
    modelDeclaration key (tableBlock columns table) = .ok s ↔ ∃ lines, columnLines (.map columns) = .ok lines ∧ ofTable lines table = s := by
  have hentry : Yaml.entry? [(.str "columns", .map columns), (.str "table", .str table)] "columns" = some (.map columns) := rfl
  have hblock : modelDeclaration key (tableBlock columns table) =
      (ModelDeclaration.read (tableBlock columns table)).mapError (.invalidModel key) := by
    unfold modelDeclaration tableBlock
    dsimp only
    rw [hentry]
    cases columns with
    | nil => exact absurd rfl hne
    | cons => rfl
  have hread : ModelDeclaration.read (tableBlock columns table) = (ofTable · table) <$> columnLines (.map columns) := by
    change (ModelDeclaration.readField .empty "columns" (.map columns) >>= fun s => pure { s with table := some table }) = _
    unfold ModelDeclaration.readField
    dsimp only
    cases columnLines (.map columns) <;> rfl
  rw [hblock, mapError_eq_ok, hread, map_eq_ok]

theorem migrationDeclaration_columnsBlock {s : MigrationDeclaration} : MigrationDeclaration.ofYaml table (columnsBlock columns) = .ok s ↔
    ∃ lines, columnLines (.map columns) = .ok lines ∧ { MigrationDeclaration.empty with columns := lines } = s := by
  have hread : MigrationDeclaration.ofYaml table (columnsBlock columns) =
      ((fun lines => { MigrationDeclaration.empty with columns := lines }) <$> columnLines (.map columns)).mapError
        (.invalidMigration table) := by
    change (MigrationDeclaration.readField .empty "columns" (.map columns) >>= fun s => pure s).mapError _ = _
    unfold MigrationDeclaration.readField
    dsimp only
    cases columnLines (.map columns) <;> rfl
  rw [hread, mapError_eq_ok, map_eq_ok]

end Schemata.Resolution
