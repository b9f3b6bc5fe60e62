import Schemata.Proofs.Resolution.Alone
import Schemata.Proofs.Resolved.Basic

/-!
# Two forms of a table

The same lines may define a table by themselves or through a model of it. Where none of them is that of a relation, it makes no
difference to the columns of the table.
-/

namespace Schemata.Resolved

open Declaration Resolution

variable {settings : Settings} {root : Option String} {key table : String} {columns : List (Yaml × Yaml)}
  {lines : OrderedMap (Option String)} {s : Resolved}

/-! ## By itself -/

theorem table_of_resolve (hplain : ∀ lines, columnLines (.map columns) = .ok lines → Plain lines)
    (h : resolve settings (onlyTable root table (columnsBlock columns)) = .ok s) :
    ∃ lines, columnLines (.map columns) = .ok lines ∧ Creatable (columnsOf lines).values ∧
      s.migrations.entries = [(table, { Migration.ofTable table with columns := columnsOf lines })] := by
  obtain ⟨e, he, rfl⟩ := completes_of_resolve h
  obtain ⟨_, _, hread, hm, he⟩ := completes_onlyTable.mp he
  obtain ⟨lines, hlines, rfl⟩ := migrationDeclaration_columnsBlock.mp hread
  obtain ⟨hcreatable, rfl⟩ := (declaredMigration_iff (hplain lines hlines)).mp hm
  obtain ⟨b, hb, hentries⟩ := exists_completes_without_models _ _
  obtain rfl := he.unique hb
  exact ⟨lines, hlines, hcreatable, hentries⟩

theorem exists_resolve_table (hv : (root.elim settings settings.withNamespace).validate = .ok ())
    (hlines : columnLines (.map columns) = .ok lines) (hplain : Plain lines) (hcreatable : Creatable (columnsOf lines).values) :
    ∃ s, resolve settings (onlyTable root table (columnsBlock columns)) = .ok s := by
  obtain ⟨e, he, _⟩ := exists_completes_without_models _ _
  exact ⟨_, resolve_of_completes hv (completes_onlyTable.mpr ⟨_, _, migrationDeclaration_columnsBlock.mpr ⟨lines, hlines, rfl⟩,
    (declaredMigration_iff hplain).mpr ⟨hcreatable, rfl⟩, he⟩)⟩

/-! ## Through a model -/

theorem model_of_resolve (hne : columns ≠ []) (hplain : ∀ lines, columnLines (.map columns) = .ok lines → Plain lines)
    (h : resolve settings (onlyModel root key (tableBlock columns table)) = .ok s) :
    ∃ lines, columnLines (.map columns) = .ok lines ∧ Creatable (columnsOf lines).values ∧
      s.migrations.entries = [(table, { Migration.ofTable table with columns := columnsOf lines, model := some key })] := by
  obtain ⟨e, he, rfl⟩ := completes_of_resolve h
  obtain ⟨s, hread⟩ := exists_modelDeclaration_of_completes he
  obtain ⟨lines, hlines, rfl⟩ := (modelDeclaration_tableBlock hne).mp hread
  obtain ⟨hcreatable, he⟩ := (completes_onlyModel hread (hplain lines hlines)).mp he
  obtain ⟨b, hb, hentries⟩ := exists_completes_finished
  obtain rfl := he.unique hb
  exact ⟨lines, hlines, hcreatable, hentries⟩

theorem exists_resolve_model (hv : (root.elim settings settings.withNamespace).validate = .ok ())
    (hne : columns ≠ []) (hlines : columnLines (.map columns) = .ok lines) (hplain : Plain lines)
    (hcreatable : Creatable (columnsOf lines).values) : ∃ s, resolve settings (onlyModel root key (tableBlock columns table)) = .ok s := by
  obtain ⟨e, he, _⟩ := exists_completes_finished
  exact ⟨_, resolve_of_completes hv ((completes_onlyModel ((modelDeclaration_tableBlock hne).mpr ⟨lines, hlines, rfl⟩) hplain).mpr
    ⟨hcreatable, he⟩)⟩

/-! ## Both forms -/

/-- A table of plain lines can be created by itself if it can be created through a model, with the same columns under the same names in
the same order. -/
theorem table_forms_agree (hne : columns ≠ []) (hplain : ∀ lines, columnLines (.map columns) = .ok lines → Plain lines) :
    ((∃ s, resolve settings (onlyTable root table (columnsBlock columns)) = .ok s) ↔
      ∃ t, resolve settings (onlyModel root key (tableBlock columns table)) = .ok t) ∧
    ∀ s t, resolve settings (onlyTable root table (columnsBlock columns)) = .ok s →
      resolve settings (onlyModel root key (tableBlock columns table)) = .ok t →
      ∃ m n, s.migrations.entries = [(table, m)] ∧ t.migrations.entries = [(table, n)] ∧ m.columns = n.columns := by
  refine ⟨⟨?_, ?_⟩, fun s t hs ht => ?_⟩
  · rintro ⟨s, hs⟩
    obtain ⟨lines, hlines, hcreatable, _⟩ := table_of_resolve hplain hs
    have hvalid : (root.elim settings settings.withNamespace).validate = .ok () := validate_of_resolve_ok hs
    exact exists_resolve_model hvalid hne hlines (hplain lines hlines) hcreatable
  · rintro ⟨t, ht⟩
    obtain ⟨lines, hlines, hcreatable, _⟩ := model_of_resolve hne hplain ht
    have hvalid : (root.elim settings settings.withNamespace).validate = .ok () := validate_of_resolve_ok ht
    exact exists_resolve_table hvalid hlines (hplain lines hlines) hcreatable
  · obtain ⟨lines, hlines, _, hs⟩ := table_of_resolve hplain hs
    obtain ⟨lines', hlines', _, ht⟩ := model_of_resolve hne hplain ht
    obtain rfl := Except.ok.inj (hlines.symm.trans hlines')
    exact ⟨_, _, hs, ht, rfl⟩

/-- Columns with qualifiers, without a line, and for more than one physical column. -/
def articleColumns : List (Yaml × Yaml) :=
  [(.str "id", .str "bigIncrements"), (.str "title", .str "string:120 unique"), (.str "rating", .str "decimal:3,1 nullable index"),
    (.str "subject", .str "nullableMorphs"), (.str "softDeletes", .null), (.str "timestamps", .null)]

theorem articleColumns_plain (lines : OrderedMap (Option String)) (h : columnLines (.map articleColumns) = .ok lines) : Plain lines := by
  have hall : (columnLines (.map articleColumns)).toOption.any (fun lines => decide (Plain lines)) = true := by decide +kernel
  rw [h] at hall
  exact of_decide_eq_true hall

theorem articles_forms_agree : ∃ s t m n,
    resolve .standard (onlyTable none "articles" (columnsBlock articleColumns)) = .ok s ∧
    resolve .standard (onlyModel none "Article" (tableBlock articleColumns "articles")) = .ok t ∧
    s.migrations.entries = [("articles", m)] ∧ t.migrations.entries = [("articles", n)] ∧ m.columns = n.columns ∧
    m.columns.keys = ["id", "title", "rating", "subject", "softDeletes", "timestamps"] := by
  have hne : articleColumns ≠ [] := List.cons_ne_nil _ _
  have hresolves : (resolve .standard (onlyTable none "articles" (columnsBlock articleColumns))).toOption.any (fun s =>
      s.migrations.values.all fun m => m.columns.keys = ["id", "title", "rating", "subject", "softDeletes", "timestamps"]) = true := by
    decide +kernel
  obtain ⟨s, hs, hkeys⟩ := exists_resolved_of_any hresolves
  obtain ⟨hboth, hagree⟩ := table_forms_agree hne articleColumns_plain
  obtain ⟨t, ht⟩ := hboth.mp ⟨s, hs⟩
  obtain ⟨m, n, hm, hn, hcolumns⟩ := hagree s t hs ht
  have hin : m ∈ s.migrations.values := List.mem_map.mpr ⟨_, hm ▸ List.mem_cons_self, rfl⟩
  exact ⟨s, t, m, n, hs, ht, hm, hn, hcolumns, of_decide_eq_true (List.all_eq_true.mp hkeys m hin)⟩

end Schemata.Resolved
