import Schemata.Proofs.Resolution.PivotTables
import Schemata.Proofs.Resolved.Tables

/-!
# Tables of pivots of a resolved schema

A relation that is linked through a table finds the table defined: by the schema, by the model that has it, or for pivots.
-/

namespace Schemata.Resolved

open Resolution

variable {settings : Settings} {schema : SchemaDeclaration} {s : Resolved}

/-- The last pass of tables starts from the models of a resolved schema, and ends with its definitions. -/
theorem exists_pivotMigrations (h : resolve settings schema = .ok s) : ∃ d e,
    Completes (modelPasses ++ [.finalizeModels, .explicitMigrations, .modelMigrations])
      (.start (settingsFor settings schema) schema) d ∧
    Pass.pivotMigrations.body d = .ok () e ∧ d.models = s.models ∧ e.migrations = s.migrations := by
  obtain ⟨_, hc, rfl⟩ := completes_of_resolve h
  have hpasses : standardPasses = (modelPasses ++ [.finalizeModels, .explicitMigrations, .modelMigrations]) ++
      [.pivotMigrations, .artifacts] := rfl
  rw [hpasses] at hc
  obtain ⟨d, hd, e, he, f, hf, rfl⟩ := completes_append.mp hc
  obtain ⟨pivots, hadd, _⟩ := pivotMigrations_ok he
  obtain ⟨artifacts, _, hf⟩ := bind_eq_ok.mp (Resolve.update_run_ok.mp hf)
  obtain rfl := pure_eq_ok.mp hf
  exact ⟨d, e, hd, he, by rw [ofDraft, hadd.rest], rfl⟩

/-- What defines the table that a relation needs, if no declared table does. The model that has the table has its own columns in
it; a definition that was made for pivots has the columns that are needed. -/
inductive DefinedFor (s : Resolved) (needs : Needs) : Migration → Prop
  | ofModel {o : Model} : o ∈ s.models.values → o.migration = true → o.table = needs.table →
      (modelMigration o).physicalNames.Nodup → DefinedFor s needs (modelMigration o)
  | ofPivots {entry : Migration} : (∀ o ∈ s.models.values, o.migration = true → o.table ≠ needs.table) →
      entry.fromGuessedPivot = true →
      (needs.Apart → entry.physicalNames.Nodup ∧ entry.physicalNames.Perm needs.names) → DefinedFor s needs entry

/-- What a relation needs has names of its own, if it keeps apart: the two keys of a `belongsToMany` differ. -/
theorem names_nodup_of_apart (h : resolve settings schema = .ok s) {k n : String} {m : Model} {r : Relation} {needs : Needs}
    (hm : s.models.get? k = some m) (hr : m.relations.get? n = some r)
    (hneeds : Needs.ofLink? s.models m r.link = some needs) (ha : needs.Apart) : needs.names.Nodup := by
  have pair : ∀ {key name : String} {o : Model} {table : String}, (⟨table, [(key, o)], some name⟩ : Needs).Apart →
      (⟨table, [(key, o)], some name⟩ : Needs).names.Nodup := by
    intro key name o table ha
    have hclear := ha.pair name rfl (key, o) (List.mem_singleton_self _)
    have hne : name ++ "_type" ≠ name ++ "_id" := fun heq => absurd ((String.append_right_inj name).mp heq) (by decide)
    simp only [List.mem_cons, List.not_mem_nil, or_false, not_or] at hclear
    simp [Needs.names, hclear, hne]
  cases hl : r.link with
  | belongsToMany l =>
    obtain ⟨c, hmodels, _⟩ := exists_course_of_resolve h
    rw [hl] at hneeds
    obtain ⟨target, _, rfl⟩ := Option.map_eq_some_iff.mp hneeds
    obtain ⟨_, _, _, hlinked, _⟩ := c.exists_manyLink (hmodels ▸ hm) hr hl
    have hne := manyLink_keys_ne hlinked.made
    simpa [Needs.names] using hne
  | morphToMany l =>
    rw [hl] at hneeds
    obtain ⟨target, _, rfl⟩ := Option.map_eq_some_iff.mp hneeds
    exact pair ha
  | morphedByMany l =>
    rw [hl] at hneeds
    obtain rfl := Option.some_inj.mp hneeds
    exact pair ha
  | _ => rw [hl] at hneeds; cases hneeds

/-- Every relation that is linked through a table, but not that of a pivot model, finds its table defined, however many relations
share it. -/
theorem pivot_tables_defined (h : resolve settings schema = .ok s) {k n : String} {m : Model} {r : Relation}
    (hm : s.models.get? k = some m) (hr : m.relations.get? n = some r) (hk : r.kind.requiresPivot = true)
    (hp : r.link.pivot? = none) : ∃ needs, Needs.ofLink? s.models m r.link = some needs ∧
      (needs.table ∉ schema.migrations.keys →
        ∃ entry, s.migrations.get? needs.table = some entry ∧ DefinedFor s needs entry) := by
  obtain ⟨d, e, _, hrun, hmodels, hmigrations⟩ := exists_pivotMigrations h
  obtain ⟨needs, entry, hneeds, hentry, hpivots⟩ := exists_pivotTable hrun (hmodels ▸ hm) hr hp hk
  rw [hmodels] at hneeds
  rw [hmigrations] at hentry
  refine ⟨needs, hneeds, fun hundeclared => ⟨entry, hentry, ?_⟩⟩
  obtain ⟨declarations, explicit, pivots, _, hkeys, hall, hentries, hnames, _, hexplicit, hguessed, _⟩ :=
    migrations_disjoint_union h
  have hmem := OrderedMap.get?_eq_some_iff.mp hentry
  rw [hentries] at hmem
  rcases List.mem_append.mp hmem with hmem | hmem
  · rcases List.mem_append.mp hmem with hmem | hmem
    · obtain ⟨x, hx, hname, _⟩ := mem_of_forall₂ hall hmem
      have hdeclared : needs.table ∈ declarations.keys := List.mem_map.mpr ⟨x, hx, hname.symm⟩
      exact absurd (hkeys ▸ hdeclared) hundeclared
    · obtain ⟨o, ho, heq⟩ := List.mem_map.mp hmem
      obtain ⟨htable, rfl⟩ := Prod.mk.inj heq
      obtain ⟨ho, hmig⟩ := List.mem_filter.mp ho
      obtain ⟨c, _, hchecked⟩ := exists_course_of_resolve h
      obtain ⟨_, _, hphysical⟩ := checkComplete_ok (hchecked o ho)
      obtain ⟨hn, _⟩ := checkPhysicalAfter_ok List.nodup_nil hphysical
      refine .ofModel ho hmig htable ?_
      rw [Migration.physicalNames, values_modelMigration]
      simpa using hn
  · refine .ofPivots (fun o ho hmig htable => ?_) (hguessed _ hmem) fun ha => ?_
    · have htwice := (List.nodup_append.mp hnames).2.2 needs.table
        (List.mem_append_right _ (List.mem_map.mpr ⟨o, List.mem_filter.mpr ⟨ho, hmig⟩, htable⟩)) needs.table
        (List.mem_map.mpr ⟨_, hmem, rfl⟩)
      exact htwice rfl
    · have hn := names_nodup_of_apart h hm hr hneeds ha
      have hperm := hpivots (hguessed _ hmem) ha hn
      exact ⟨hperm.nodup_iff.mpr hn, hperm⟩

theorem blog_pivot_tables_defined : ∃ s m r entry, resolve .standard blog = .ok s ∧ s.models.get? "Post" = some m ∧
    m.relations.get? "tags" = some r ∧ r.kind = .belongsToMany ∧ s.migrations.get? "post_tag" = some entry ∧
    entry.physicalNames.Nodup ∧ entry.physicalNames.Perm ["post_id", "tag_id"] := by
  have htags : (resolve .standard blog).toOption.any (fun s => (∀ o ∈ s.models.values, o.table ≠ "post_tag") ∧
      (s.models.get? "Post").any fun m => (m.relations.get? "tags").any fun r => r.kind = .belongsToMany ∧
        r.link.pivot? = none ∧ (Needs.ofLink? s.models m r.link).any fun needs => needs.table = "post_tag" ∧
          needs.names = ["post_id", "tag_id"] ∧ (∀ x ∈ needs.keys, SingleKey x.2) ∧ needs.pair = none) = true := by
    decide +kernel
  obtain ⟨s, h, hs⟩ := exists_resolved_of_any htags
  obtain ⟨htables, hpost⟩ := of_decide_eq_true hs
  obtain ⟨m, hm, hp⟩ := exists_of_any hpost
  obtain ⟨r, hr, hp⟩ := exists_of_any hp
  obtain ⟨hkind, hpivot, hp⟩ := of_decide_eq_true hp
  obtain ⟨needs', hneeds', hp⟩ := exists_of_any hp
  obtain ⟨htable, hnames, hsingle, hpair⟩ := of_decide_eq_true hp
  obtain ⟨needs, hneeds, hdefined⟩ := pivot_tables_defined h hm hr (by rw [hkind]; rfl) hpivot
  obtain rfl := Option.some_inj.mp (hneeds'.symm.trans hneeds)
  obtain ⟨entry, hentry, hdefined⟩ := hdefined (htable ▸ by decide)
  cases hdefined with
  | ofModel ho _ ht _ => exact absurd (ht.trans htable) (htables _ ho)
  | ofPivots _ _ hcolumns =>
    obtain ⟨hnodup, hperm⟩ := hcolumns ⟨hsingle, fun name hname => absurd (hpair ▸ hname) nofun⟩
    exact ⟨s, m, r, entry, h, hm, hr, hkind, htable ▸ hentry, hnodup, hnames ▸ hperm⟩

/-- A schema whose tables of pivots are crossed: one is the table of a model, one holds a key that is a pair, and in two the pair
that points at a parent meets the key beside it. -/
def crossed : SchemaDeclaration where
  rootNamespace := none
  models := .ofList [
    ("User", declaredByLines [("name", "string"), ("roles", "belongsToMany"), ("badges", "belongsToMany")]),
    ("Role", declaredByLines [("label", "string")]),
    ("RoleUser", .map [(.str "columns", .map [(.str "note", .str "string")]), (.str "table", .str "role_user")]),
    ("Badge", declaredByLines [("id", "morphs:subject")]),
    ("Post", declaredByLines [("title", "string"), ("marks", "morphToMany:Mark,mark_id"), ("tags", "morphToMany:Tag,tag")]),
    ("Mark", declaredByLines [("label", "string")]),
    ("Tag", .map [(.str "columns", .map [(.str "id", .null), (.str "label", .str "string")]), (.str "table", .str "labels")])]
  migrations := .empty

theorem crossed_lacks_pivot_names : ∃ s user post, resolve .standard crossed = .ok s ∧ crossed.migrations.keys = [] ∧
    s.models.get? "User" = some user ∧ s.models.get? "Post" = some post ∧
    user.relations.values.map (·.link) = [.belongsToMany ⟨"Role", none, "role_user", "user_id", "role_id", []⟩,
      .belongsToMany ⟨"Badge", none, "badge_user", "user_id", "badge_subject", []⟩] ∧
    post.relations.values.map (·.link) = [.morphToMany ⟨"Mark", "mark_id", none, "mark_ids", []⟩,
      .morphToMany ⟨"Tag", "tag", none, "tags", []⟩] ∧
    (s.migrations.get? "role_user").map Migration.physicalNames = some ["note"] ∧
    (s.migrations.get? "badge_user").map Migration.physicalNames =
      some ["badge_subject_type", "badge_subject_id", "user_id"] ∧
    (s.migrations.get? "mark_ids").map Migration.physicalNames = some ["mark_id_type", "mark_id_id"] ∧
    (s.migrations.get? "tags").map Migration.physicalNames = some ["tag_id", "tag_type", "tag_id"] := by
  have hcrossed : (resolve .standard crossed).toOption.any (fun s => (s.models.get? "User").any fun user =>
      (s.models.get? "Post").any fun post =>
        user.relations.values.map (·.link) = [.belongsToMany ⟨"Role", none, "role_user", "user_id", "role_id", []⟩,
          .belongsToMany ⟨"Badge", none, "badge_user", "user_id", "badge_subject", []⟩] ∧
        post.relations.values.map (·.link) = [.morphToMany ⟨"Mark", "mark_id", none, "mark_ids", []⟩,
          .morphToMany ⟨"Tag", "tag", none, "tags", []⟩] ∧
        (s.migrations.get? "role_user").map Migration.physicalNames = some ["note"] ∧
        (s.migrations.get? "badge_user").map Migration.physicalNames =
          some ["badge_subject_type", "badge_subject_id", "user_id"] ∧
        (s.migrations.get? "mark_ids").map Migration.physicalNames = some ["mark_id_type", "mark_id_id"] ∧
        (s.migrations.get? "tags").map Migration.physicalNames = some ["tag_id", "tag_type", "tag_id"]) = true := by
    decide +kernel
  obtain ⟨s, h, hs⟩ := exists_resolved_of_any hcrossed
  obtain ⟨user, huser, hp⟩ := exists_of_any hs
  obtain ⟨post, hpost, hp⟩ := exists_of_any hp
  exact ⟨s, user, post, h, rfl, huser, hpost, of_decide_eq_true hp⟩

end Schemata.Resolved
