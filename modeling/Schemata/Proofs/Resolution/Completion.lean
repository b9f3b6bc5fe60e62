import Schemata.Proofs.Resolution.Attributes
import Schemata.Proofs.Resolution.Columns
import Schemata.Proofs.Resolution.Kept
import Schemata.Proofs.Resolution.ManyToMany
import Schemata.Proofs.Resolution.Ownership
import Schemata.Proofs.Resolution.Polymorphic
import Schemata.Resolution.Pipeline

/-!
# Completion of models

When the passes up to the attributes have run, no model has an empty place: each kind of relation line is filled by one pass,
and the place of each key column is filled or given up.
-/

namespace Schemata.Resolution

variable {d e : Draft} {settings : Settings} {schema : SchemaDeclaration}

/-- The passes that make the models, up to the last check. -/
def modelPasses : List Pass :=
  [.quickModels, .modelShells, .relationReservations, .columns, .belongsTo, .belongsToMany, .hasOneOrMany,
   .hasOneOrManyThrough, .morphTo, .morphOneOrMany, .morphToMany, .pivotModels, .morphColumns, .modelAttributes]

/-- No place of a model is empty. -/
def Complete (m : Model) : Prop :=
  m.columns.pendingKeys = [] ∧ m.relations.pendingKeys = []

theorem complete_of_filled {k : String} {m : Model} (hd : d.Sound) (hm : d.models.get? k = some m)
    (filled : ∀ n kind, (n, kind) ∈ d.relationLines k → Filled k n d)
    (belongsTo : ∀ n, (n, .belongsTo) ∈ d.relationLines k → Placed k n d)
    (morphTo : ∀ n, (n, .morphTo) ∈ d.relationLines k → Placed k n d) : Complete m := by
  have hs := hd.model k m hm
  constructor
  · refine List.eq_nil_iff_forall_not_mem.mpr fun n hn => ?_
    obtain ⟨kind, hl, hk⟩ := hs.pending hn
    have hkind : kind = .belongsTo ∨ kind = .morphTo := by cases kind <;> simp_all [RelationKind.needsColumn]
    rcases hkind with rfl | rfl
    · exact belongsTo n hl m hm hn
    · exact morphTo n hl m hm hn
  · refine List.eq_nil_iff_forall_not_mem.mpr fun n hn => ?_
    have hmem : n ∈ (d.relationLines k).map Prod.fst :=
      hs.names ▸ Slots.mem_keys_iff_pending_or_filled.mpr (.inl hn)
    obtain ⟨⟨_, kind⟩, hl, rfl⟩ := List.mem_map.mp hmem
    obtain ⟨r, hr⟩ := Option.isSome_iff_exists.mp (filled _ kind hl m hm)
    rw [Slots.get?_eq_some_iff, Slots.mem_pendingKeys_iff.mp hn] at hr
    cases hr

/-- The draft has been edited in some stages, and the relations of some kinds are all there. -/
def Reaches (stages : List Stage) (kinds : List RelationKind) (d e : Draft) : Prop :=
  Edited stages d e ∧ ∀ k n, ∀ kind ∈ kinds, (n, kind) ∈ d.relationLines k → Filled k n e

theorem Reaches.edited {stages stages' : List Stage} {kinds : List RelationKind} {c : Draft} (h : Reaches stages kinds d c)
    (he : Edited stages' c e) : Reaches (stages ++ stages') kinds d e :=
  ⟨h.1.append he, fun k n kind hk hn => (h.2 k n kind hk hn).edited he⟩

theorem Reaches.trans {stages stages' : List Stage} {first second : List RelationKind} {c : Draft}
    (h : Reaches stages first d c) (h' : Reaches stages' second c e) : Reaches (stages ++ stages') (first ++ second) d e := by
  refine ⟨h.1.append h'.1, fun k n kind hk hn => ?_⟩
  rcases List.mem_append.mp hk with hk | hk
  · exact (h.2 k n kind hk hn).edited h'.1
  · exact h'.2 k n kind hk (h.1.relationLines k ▸ hn)

theorem reaches_joins (hd : d.Sound) (h : Completes [.belongsToMany, .hasOneOrMany, .hasOneOrManyThrough] d e) :
    Reaches [.belongsToMany, .hasOneOrMany, .hasOneOrManyThrough]
      [.belongsToMany, .hasOne, .hasMany, .hasOneThrough, .hasManyThrough] d e := by
  obtain ⟨d₁, h₁, d₂, h₂, d₃, h₃, rfl⟩ := h
  have r₁ : Reaches [.belongsToMany] [.belongsToMany] d d₁ := edited_belongsToMany hd h₁
  have r₂ := r₁.trans (edited_hasOneOrMany (hd.edited r₁.1) h₂)
  exact r₂.trans (edited_hasOneOrManyThrough (hd.edited r₂.1) h₃)

theorem reaches_parents (hd : d.Sound) (h : Completes [.morphOneOrMany, .morphToMany] d e) :
    Reaches [.morphOneOrMany, .morphToMany] [.morphOne, .morphMany, .morphToMany, .morphedByMany] d e := by
  obtain ⟨d₁, h₁, d₂, h₂, rfl⟩ := h
  have r₁ : Reaches [.morphOneOrMany] [.morphOne, .morphMany] d d₁ := edited_morphOneOrMany hd h₁
  exact r₁.trans (edited_morphToMany (hd.edited r₁.1) h₂)

/-! ## The course of the models -/

theorem founded_laid_of_completes
    (h : Completes [.quickModels, .modelShells, .relationReservations, .columns] (.start settings schema) d) :
    Founded settings schema d ∧ ∀ k n, d.models.get? k = some n → ∃ s, d.declarations.get? k = some s ∧ Laid s n := by
  obtain ⟨d₁, h₁, d₂, h₂, d₃, h₃, d₄, h₄, hd⟩ := h
  obtain ⟨hf, hb⟩ := founded_of_completes ⟨d₁, h₁, d₂, h₂, d₃, h₃, rfl⟩
  rw [← hd]
  exact ⟨hf.declared (declared_columns h₄), fun k n hn => laid_columns hf.sound hb h₄ hn⟩

/-- The drafts that the passes of models go through, up to the last check: with the columns that are declared, with the
relations that rest on key columns, with those that have parents of many kinds, and with what follows from all of them. -/
structure Course (settings : Settings) (schema : SchemaDeclaration) where
  declared : Draft
  owned : Draft
  joined : Draft
  pointed : Draft
  linked : Draft
  pivoted : Draft
  paired : Draft
  complete : Draft
  columns : Completes [.quickModels, .modelShells, .relationReservations, .columns] (.start settings schema) declared
  belongsTo : Pass.belongsTo.body declared = .ok () owned
  joins : Completes [.belongsToMany, .hasOneOrMany, .hasOneOrManyThrough] owned joined
  morphTo : Pass.morphTo.body joined = .ok () pointed
  parents : Completes [.morphOneOrMany, .morphToMany] pointed linked
  pivotModels : Pass.pivotModels.body linked = .ok () pivoted
  morphColumns : Pass.morphColumns.body pivoted = .ok () paired
  modelAttributes : Pass.modelAttributes.body paired = .ok () complete

theorem exists_course (h : Completes modelPasses (.start settings schema) d) :
    ∃ c : Course settings schema, c.complete = d := by
  obtain ⟨d₁, h₁, d₂, h₂, d₃, h₃, d₄, h₄, d₅, h₅, d₆, h₆, d₇, h₇, d₈, h₈, d₉, h₉, d₁₀, h₁₀, d₁₁, h₁₁, d₁₂, h₁₂, d₁₃, h₁₃,
    d₁₄, h₁₄, rfl⟩ := h
  exact ⟨⟨d₄, d₅, d₈, d₉, d₁₁, d₁₂, d₁₃, d₁₄, ⟨d₁, h₁, d₂, h₂, d₃, h₃, d₄, h₄, rfl⟩, h₅, ⟨d₆, h₆, d₇, h₇, d₈, h₈, rfl⟩, h₉,
    ⟨d₁₀, h₁₀, d₁₁, h₁₁, rfl⟩, h₁₂, h₁₃, h₁₄⟩, rfl⟩

namespace Course

variable (c : Course settings schema)

theorem exists_shelled : ∃ shelled, Completes [.quickModels, .modelShells] (.start settings schema) shelled ∧
    Completes [.relationReservations, .columns] shelled c.declared := by
  have hsplit : Completes ([.quickModels, .modelShells] ++ [.relationReservations, .columns]) (.start settings schema) c.declared :=
    c.columns
  exact completes_append.mp hsplit

theorem founded_laid : Founded settings schema c.declared ∧
    ∀ k n, c.declared.models.get? k = some n → ∃ s, c.declared.declarations.get? k = some s ∧ Laid s n :=
  founded_laid_of_completes c.columns

theorem sound_declared : c.declared.Sound :=
  c.founded_laid.1.sound

theorem reaches_owned : Edited [.belongsTo] c.declared c.owned ∧
    ∀ k n, (n, .belongsTo) ∈ c.declared.relationLines k → Filled k n c.owned ∧ Placed k n c.owned :=
  edited_belongsTo c.sound_declared (awaits_of_laid c.founded_laid.2 rfl) c.belongsTo

theorem sound_owned : c.owned.Sound :=
  c.sound_declared.edited c.reaches_owned.1

theorem reaches_joined : Reaches [.belongsToMany, .hasOneOrMany, .hasOneOrManyThrough]
    [.belongsToMany, .hasOne, .hasMany, .hasOneThrough, .hasManyThrough] c.owned c.joined :=
  reaches_joins c.sound_owned c.joins

theorem sound_joined : c.joined.Sound :=
  c.sound_owned.edited c.reaches_joined.1

theorem reaches_pointed : Reaches [.morphTo] [.morphTo] c.joined c.pointed :=
  edited_morphTo c.morphTo

theorem sound_pointed : c.pointed.Sound :=
  c.sound_joined.edited c.reaches_pointed.1

theorem reaches_linked : Reaches [.morphOneOrMany, .morphToMany] [.morphOne, .morphMany, .morphToMany, .morphedByMany]
    c.pointed c.linked :=
  reaches_parents c.sound_pointed c.parents

theorem sound_linked : c.linked.Sound :=
  c.sound_pointed.edited c.reaches_linked.1

theorem edited_pivoted : Edited [.pivotModels] c.linked c.pivoted :=
  edited_pivotModels c.pivotModels

theorem sound_pivoted : c.pivoted.Sound :=
  c.sound_linked.edited c.edited_pivoted

/-- The relations of all kinds but `belongsTo` are there once the passes of relations are through. -/
theorem reaches_pivoted : Reaches [.belongsToMany, .hasOneOrMany, .hasOneOrManyThrough, .morphTo, .morphOneOrMany,
    .morphToMany, .pivotModels] [.belongsToMany, .hasOne, .hasMany, .hasOneThrough, .hasManyThrough, .morphTo, .morphOne,
    .morphMany, .morphToMany, .morphedByMany] c.owned c.pivoted :=
  ((c.reaches_joined.trans c.reaches_pointed).trans c.reaches_linked).edited c.edited_pivoted

theorem awaits_pivoted : c.pivoted.Awaits .morphTo := by
  have h := c.reaches_owned.1.append c.reaches_pivoted.1
  exact (awaits_of_laid c.founded_laid.2 rfl).edited c.sound_declared h (by decide)

theorem reaches_paired : Edited [.morphColumns] c.pivoted c.paired ∧
    ∀ k n, (n, .morphTo) ∈ c.pivoted.relationLines k → Filled k n c.pivoted → Placed k n c.paired :=
  edited_morphColumns c.sound_pivoted c.awaits_pivoted c.morphColumns

theorem edited_complete : Edited [.morphColumns, .modelAttributes] c.pivoted c.complete :=
  c.reaches_paired.1.append (edited_modelAttributes c.modelAttributes)

theorem edited_declared : Edited [.belongsTo, .belongsToMany, .hasOneOrMany, .hasOneOrManyThrough, .morphTo, .morphOneOrMany,
    .morphToMany, .pivotModels, .morphColumns, .modelAttributes] c.declared c.complete :=
  (c.reaches_owned.1.append c.reaches_pivoted.1).append c.edited_complete

theorem founded : Founded settings schema c.complete :=
  c.founded_laid.1.edited c.edited_declared

/-- The shells of the models have kept their identities. -/
theorem exists_shells : ∃ d, Completes [.quickModels, .modelShells] (.start settings schema) d ∧
    c.complete.declarations = d.declarations ∧ c.complete.models.keys = d.models.keys ∧
    ∀ k m n, d.models.get? k = some m → c.complete.models.get? k = some n → SameIdentity m n := by
  obtain ⟨d₂, hshelled, d₃, h₃, d₄, h₄, rfl⟩ := c.exists_shelled
  obtain rfl := Resolve.modify_run_ok.mp h₃
  obtain ⟨hrest, hkeys⟩ := reserveRelations_eq d₂
  have hdeclared := declared_columns h₄
  refine ⟨d₂, hshelled, ?_, ?_, fun k m n hm hn => ?_⟩
  · rw [c.edited_declared.declarations, hdeclared.declarations, hrest]
  · rw [c.edited_declared.keys, hdeclared.keys, hkeys]
  · have hplaces := get?_reserveRelations d₂ k
    rw [hm] at hplaces
    obtain ⟨o, ho, _⟩ := hdeclared.model hplaces
    have hfirst := hdeclared.sameIdentity Declaring.sameIdentity hplaces ho
    have hplaced : SameIdentity m (withPlaces ((d₂.relationLines k).map Prod.fst) m) :=
      ⟨rfl, rfl, rfl, rfl, rfl, rfl, rfl⟩
    exact hplaced.trans (hfirst.trans (c.edited_declared.sameIdentity Edit.sameIdentity ho hn))

/-- Whether a model has a factory is what its declaration says. -/
theorem factory_eq {k : String} {m : Model} {s : ModelDeclaration} (hm : c.complete.models.get? k = some m)
    (hs : c.complete.declarations.get? k = some s) : m.factory = s.factoryEnabled := by
  obtain ⟨d, hshelled, hdeclarations, hkeys, hsame⟩ := c.exists_shells
  obtain ⟨m₀, hm₀⟩ := OrderedMap.mem_keys_iff.mp (hkeys ▸ OrderedMap.mem_keys_iff.mpr ⟨m, hm⟩)
  obtain ⟨s', hs', hshell⟩ := (shelled_of_completes hshelled).2.2.shell k m₀ hm₀
  obtain rfl := Option.some_inj.mp (hs.symm.trans (hdeclarations ▸ hs'))
  exact (hsame k m₀ m hm₀ hm).factory.trans hshell.factory

theorem complete_models {k : String} {m : Model} (hm : c.complete.models.get? k = some m) : Complete m := by
  have r := c.reaches_pivoted.edited c.edited_complete
  have hattributes : Edited [.modelAttributes] c.paired c.complete := edited_modelAttributes c.modelAttributes
  refine complete_of_filled c.founded.sound hm ?_ ?_ ?_
  all_goals rw [c.edited_declared.relationLines]
  · intro n kind hn
    cases kind with
    | belongsTo => exact (c.reaches_owned.2 k n hn).1.edited r.1
    | _ => exact r.2 k n _ (by decide) (c.reaches_owned.1.relationLines k ▸ hn)
  · intro n hn
    exact (c.reaches_owned.2 k n hn).2.edited r.1
  · intro n hn
    have hn : (n, .morphTo) ∈ c.owned.relationLines k := c.reaches_owned.1.relationLines k ▸ hn
    have hf := c.reaches_pivoted.2 k n _ (by decide) hn
    exact (c.reaches_paired.2 k n (c.reaches_pivoted.1.relationLines k ▸ hn) hf).edited hattributes

end Course

theorem founded_of_modelPasses (h : Completes modelPasses (.start settings schema) d) :
    Founded settings schema d ∧ ∀ k m, d.models.get? k = some m → Complete m := by
  obtain ⟨c, rfl⟩ := exists_course h
  exact ⟨c.founded, fun _ _ => c.complete_models⟩

end Schemata.Resolution
