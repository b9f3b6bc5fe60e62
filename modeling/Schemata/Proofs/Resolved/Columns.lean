import Schemata.Proofs.Resolved.Tables

/-!
# Columns of a resolved schema

The columns of each model, and those of the table that is its own, can stand in one table.
-/

namespace Schemata.Resolved

open Resolution

variable {settings : Settings} {schema : SchemaDeclaration} {s : Resolved}

/-- The table of a model is its own alone. -/
theorem eq_modelMigration {d e : Draft} (hd : Settled settings schema d e) {k : String} {m : Model}
    (hm : d.models.get? k = some m) {t : Migration} (ht : t ∈ e.migrations.values) (hk : t.model = some k) :
    t = modelMigration m := by
  obtain ⟨explicit, pivots, hexp, hpiv, hentries⟩ := hd.tables
  obtain ⟨x, hx, rfl⟩ := List.mem_map.mp ht
  rw [hentries] at hx
  rcases List.mem_append.mp hx with hx | hx
  · rcases List.mem_append.mp hx with hx | hx
    · obtain ⟨_, _, _, hall⟩ := hexp.declared
      obtain ⟨y, _, _, hdecl⟩ := mem_of_forall₂ hall hx
      rw [(declaredMigration_ok hdecl).2.2] at hk
      cases hk
    · obtain ⟨n, hn, rfl⟩ := List.mem_map.mp hx
      obtain ⟨j, hj⟩ := OrderedMap.mem_values_iff.mp (List.mem_filter.mp hn).1
      have hjk : j = k := (hd.founded.sound.keyed j n hj).symm.trans (Option.some_inj.mp hk)
      obtain rfl := Option.some_inj.mp (hm.symm.trans (hjk ▸ hj))
      rfl
  · rw [(hpiv x hx).2.2] at hk
    cases hk

theorem get?_modelMigration {d e : Draft} (hd : Settled settings schema d e) {m : Model} (hm : m ∈ d.models.values)
    (hmig : m.migration = true) : e.migrations.get? m.table = some (modelMigration m) := by
  obtain ⟨explicit, pivots, _, _, hentries⟩ := hd.tables
  rw [OrderedMap.get?_eq_some_iff, hentries]
  refine List.mem_append_left _ (List.mem_append_right _ ?_)
  exact List.mem_map.mpr ⟨m, List.mem_filter.mpr ⟨hm, hmig⟩, rfl⟩

/-- The columns of a resolved model have distinct physical names, at most one primary key, at most one column that the
database assigns, and no column with two indexes; and so have the columns of the model's own table, which are the same. -/
theorem columns_creatable (h : resolve settings schema = .ok s) {k : String} {m : Model} (hm : s.models.get? k = some m) :
    Creatable m.columns.values ∧
    (m.migration = true → ∃ t, s.migrations.get? m.table = some t ∧ t.model = some k) ∧
    ∀ t ∈ s.migrations.values, t.model = some k → t.columns.values = m.columns.values ∧ Creatable t.columns.values := by
  obtain ⟨d, e, hd, rfl⟩ := resolve_ok h
  have hm' : d.models.get? k = some m := hd.models ▸ hm
  have hv : m ∈ d.models.values := OrderedMap.mem_values_iff.mpr ⟨k, hm'⟩
  have hc : Creatable m.columns.values := creatable_of_checked hd.founded.sound hm' (hd.checked m hv)
  refine ⟨hc, fun hmig => ⟨modelMigration m, get?_modelMigration hd hv hmig, ?_⟩, fun t ht hk => ?_⟩
  · exact congrArg some (hd.founded.sound.keyed k m hm')
  · obtain rfl := eq_modelMigration hd hm' ht hk
    rw [values_modelMigration]
    exact ⟨rfl, hc⟩

theorem blog_columns_creatable : ∃ s m t, resolve .standard blog = .ok s ∧ s.models.get? "Image" = some m ∧
    s.migrations.get? "images" = some t ∧ t.columns.values = m.columns.values ∧ Creatable t.columns.values ∧
    m.physicalNames = ["id", "imageable_type", "imageable_id", "url", "created_at", "updated_at"] := by
  have himage : (resolve .standard blog).toOption.any (fun s => (s.models.get? "Image").any fun m =>
      m.table = "images" ∧ m.migration = true ∧
        m.physicalNames = ["id", "imageable_type", "imageable_id", "url", "created_at", "updated_at"]) = true := by
    decide +kernel
  obtain ⟨s, h, hs⟩ := exists_resolved_of_any himage
  obtain ⟨m, hm, hp⟩ := exists_of_any hs
  obtain ⟨htable, hmig, hnames⟩ := of_decide_eq_true hp
  obtain ⟨_, hown, hall⟩ := columns_creatable h hm
  obtain ⟨t, ht, hk⟩ := hown hmig
  obtain ⟨hv, hc⟩ := hall t (OrderedMap.mem_values_iff.mpr ⟨m.table, ht⟩) hk
  exact ⟨s, m, t, h, hm, htable ▸ ht, hv, hc, hnames⟩

end Schemata.Resolved
