import Schemata.Proofs.Resolved.Basic

/-!
# Table definitions of a resolved schema

No definition is lost or overwritten: declared tables come first, then those of models, then those of pivots.
-/

namespace Schemata.Resolved

open Resolution

variable {settings : Settings} {schema : SchemaDeclaration} {s : Resolved}

theorem entries_modelMigration (m : Model) : (modelMigration m).columns.entries = m.columns.resolved :=
  OrderedMap.entries_ofList m.columns.keys_resolved_nodup

theorem values_modelMigration (m : Model) : (modelMigration m).columns.values = m.columns.values := by
  unfold OrderedMap.values
  rw [entries_modelMigration]
  rfl

/-- The definitions of a resolved schema are those of declared tables, of models and of guessed pivots, in this order and each
under the name of its table, and no two groups share a name. -/
theorem migrations_disjoint_union (h : resolve settings schema = .ok s) : ∃ declarations explicit pivots,
    schema.migrationDeclarations = .ok declarations ∧ declarations.keys = schema.migrations.keys ∧
    List.Forall₂ (fun x y => y.1 = x.1 ∧ declaredMigration x.1 x.2 = .ok y.2) declarations.entries explicit ∧
    s.migrations.entries =
      explicit ++ (s.models.values.filter (·.migration)).map (fun m => (m.table, modelMigration m)) ++ pivots ∧
    (explicit.map Prod.fst ++ (s.models.values.filter (·.migration)).map Model.table ++ pivots.map Prod.fst).Nodup ∧
    (∀ x ∈ s.migrations.entries, x.2.table = x.1) ∧
    (∀ x ∈ explicit, x.2.fromGuessedPivot = false) ∧ (∀ x ∈ pivots, x.2.fromGuessedPivot = true) ∧
    ∀ m ∈ s.models.values,
      (modelMigration m).columns.entries.map (fun (n, c) => (n, some c)) = m.columns.toList ∧
      (modelMigration m).indexes = m.indexes ∧ (modelMigration m).model = some m.key ∧
      (modelMigration m).fromGuessedPivot = false := by
  obtain ⟨d, e, hd, rfl⟩ := resolve_ok h
  obtain ⟨explicit, pivots, hexp, hpiv, hentries⟩ := hd.tables
  obtain ⟨declarations, hdecl, hkeys, hall⟩ := hexp.declared
  have hschema : d.schema = schema := by rw [hd.founded.rest]; rfl
  have hmodels : (ofDraft e).models = d.models := hd.models
  rw [hschema] at hdecl hkeys
  rw [hmodels]
  have hdeclared : ∀ x ∈ explicit, x.2.table = x.1 ∧ x.2.fromGuessedPivot = false := by
    intro x hx
    obtain ⟨y, _, hk, hm⟩ := mem_of_forall₂ hall hx
    obtain ⟨ht, hg, _⟩ := declaredMigration_ok hm
    exact ⟨ht.trans hk.symm, hg⟩
  refine ⟨declarations, explicit, pivots, hdecl, hkeys, hall, hentries, ?_, ?_, fun x hx => (hdeclared x hx).2,
    fun x hx => (hpiv x hx).2.1, ?_⟩
  · have hn := e.migrations.nodup
    rw [hentries] at hn
    simpa [Function.comp_def] using hn
  · intro x hx
    change x ∈ e.migrations.entries at hx
    rw [hentries] at hx
    rcases List.mem_append.mp hx with hx | hx
    · rcases List.mem_append.mp hx with hx | hx
      · exact (hdeclared x hx).1
      · obtain ⟨m, _, rfl⟩ := List.mem_map.mp hx
        rfl
    · exact (hpiv x hx).1
  · intro m hm
    obtain ⟨hc, _, _⟩ := checkComplete_ok (hd.checked m hm)
    refine ⟨?_, rfl, rfl, rfl⟩
    rw [entries_modelMigration, Slots.toList_eq hc]

theorem blog_migrations_disjoint_union : ∃ s explicit pivots, resolve .standard blog = .ok s ∧
    s.migrations.entries =
      explicit ++ (s.models.values.filter (·.migration)).map (fun m => (m.table, modelMigration m)) ++ pivots ∧
    explicit.map Prod.fst = ["sessions"] ∧ pivots.map Prod.fst = ["post_tag"] := by
  let models := ["users", "posts", "comments", "roles", "memberships", "tags", "images"]
  have hblog : (resolve .standard blog).toOption.any (fun s => s.migrations.keys = ["sessions"] ++ models ++ ["post_tag"] ∧
      (s.models.values.filter (·.migration)).map Model.table = models) = true := by decide +kernel
  obtain ⟨s, h, hs⟩ := exists_resolved_of_any hblog
  obtain ⟨hkeys, htables⟩ := of_decide_eq_true hs
  obtain ⟨declarations, explicit, pivots, _, hdecl, hall, hentries, _⟩ := migrations_disjoint_union h
  have hexplicit : explicit.map Prod.fst = ["sessions"] :=
    (map_eq_of_forall₂ And.left hall).trans (hdecl.trans (by decide +kernel))
  have hpivots : ["sessions"] ++ models ++ pivots.map Prod.fst = ["sessions"] ++ models ++ ["post_tag"] := by
    rw [← hkeys, ← hexplicit, ← htables]
    unfold OrderedMap.keys
    rw [hentries]
    simp [Function.comp_def]
  exact ⟨s, explicit, pivots, h, hentries, hexplicit, List.append_cancel_left hpivots⟩

end Schemata.Resolved
