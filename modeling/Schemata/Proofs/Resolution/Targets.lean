import Schemata.Proofs.Resolution.KeyColumns

/-!
# Targets at their turns

What the turn of a `belongsTo` line finds of its target: the columns that the target declares and keeps, in order. The places of
the target's own relations, and a key that the target gives up, depend on the turn.
-/

namespace Schemata.Resolution

variable {settings : Settings} {schema : SchemaDeclaration} {k j : String} {m : Model}

/-- What a turn sees of a model: the columns of the model that are no relation's, and none that the model has not, but for a key
that the model gives up. -/
structure Seen (o m : Model) : Prop where
  order : m.columns.keys.Sublist o.columns.keys
  kept {j column} : o.columns.get? j = some column →
    (∃ column', m.columns.get? j = some column' ∧ column'.untagged = column.untagged) ∨ column.name = "id" ∧ GivesUpKey m
  column {j column'} : m.columns.get? j = some column' → m.relations.get? j = none →
    ∃ column, o.columns.get? j = some column ∧ column'.untagged = column.untagged

namespace Course

variable (c : Course settings schema)

/-- Every relation line has its relation in the end. -/
theorem exists_relation (hm : c.complete.models.get? k = some m) {kind : RelationKind}
    (hl : (j, kind) ∈ c.declared.relationLines k) : ∃ r, m.relations.get? j = some r := by
  have hsound := c.founded.sound.model k m hm
  rw [c.edited_declared.relationLines] at hsound
  have hmem : j ∈ m.relations.keys := hsound.names ▸ List.mem_map_of_mem hl
  have hpending : m.relations.pendingKeys = [] := (c.complete_models hm).2
  rcases Slots.mem_keys_iff_pending_or_filled.mp hmem with hp | hr
  · rw [hpending] at hp
    exact absurd hp List.not_mem_nil
  · exact hr

variable {stages stages' : List Stage} {d : Draft} {o : Model} {column : Column}

theorem get?_seen_of_declared (h : Edited stages c.declared d) (h' : Edited stages' d c.complete)
    (ho : d.models.get? k = some o) (hm : c.complete.models.get? k = some m) (hj : m.columns.get? j = some column)
    (hr : m.relations.get? j = none) : ∃ column', o.columns.get? j = some column' ∧ column.untagged = column'.untagged := by
  obtain ⟨y, s, m₀, _, _, hm₀, _, hl, hk, _⟩ := c.exists_kept hm
  have hmem : j ∈ m.columns.keys := Slots.mem_keys_iff.mpr ⟨_, Slots.get?_eq_some_iff.mp hj⟩
  -- A key that is given up has no column in the end.
  have hstays : ¬(j = "id" ∧ GivesUpKey m) := by
    rintro ⟨rfl, hg⟩
    exact (c.stripped hm hg).2 hmem
  rcases Slots.mem_keys_iff_pending_or_filled.mp (hk.keys.subset hmem) with hp | ⟨column₀, hj₀⟩
  · obtain ⟨kind, hline, _⟩ := (c.sound_declared.model k m₀ hm₀).pending hp
    obtain ⟨r, hr'⟩ := c.exists_relation hm hline
    rw [hr] at hr'
    cases hr'
  · obtain ⟨column₂, hj₂, hu₂⟩ := (hk.column hj₀).resolve_right hstays
    obtain rfl := Option.some_inj.mp (hj.symm.trans hj₂)
    obtain ⟨column₁, hj₁, hu₁⟩ := ((h.kept hm₀ ho).column hj₀).resolve_right fun hg =>
      hstays ⟨hg.1, (h'.kept ho hm).givesUp hg.2⟩
    exact ⟨column₁, hj₁, hu₂.trans hu₁.symm⟩

theorem seen {l : DeclaredRelation} {owner target n : Model} (h : c.Owned l d owner target column m)
    (hn : c.complete.models.get? target.key = some n) : Seen target n where
  order := (h.after.kept h.get?_target hn).keys
  kept hj := by
    refine ((h.after.kept h.get?_target hn).column hj).imp_right ?_
    rintro ⟨rfl, hg⟩
    exact ⟨c.name_given_up h.before (by decide) h.get?_target hn hg hj, hg⟩
  column := c.get?_seen_of_declared h.before h.after h.get?_target hn

end Course

end Schemata.Resolution
