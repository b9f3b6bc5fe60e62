import Schemata.Proofs.Resolution.Draft
import Schemata.Resolution.Attributes
import Schemata.Resolution.Columns
import Schemata.Resolution.ManyToMany
import Schemata.Resolution.Ownership

/-!
# Edits of models

Between the first shells of models and their completion, each pass changes models one by one. What a pass may do to a model
is said once, for the stage that the pass completes, and what holds of a model in between is kept by every such step.
-/

namespace Schemata

/-- The models that a link names. -/
def Link.references : Link → List String
  | .belongsTo l => [l.model]
  | .belongsToMany l => l.model :: l.pivot.toList
  | .hasOne l | .hasMany l => [l.model]
  | .hasOneThrough l | .hasManyThrough l => [l.model, l.through]
  | .morphTo l => l.models
  | .morphOne l | .morphMany l => [l.model]
  | .morphToMany l | .morphedByMany l => l.model :: l.pivot.toList

/-- The models that point at a link. -/
def Link.parents : Link → List String
  | .morphTo l => l.models
  | _ => []

theorem Relation.morphTo?_eq_some_iff {r : Relation} {link : MorphTo} : r.morphTo? = some link ↔ r.link = .morphTo link := by
  unfold morphTo?
  cases r.link <;> simp

theorem Relation.belongsTo?_eq_some_iff {r : Relation} {link : BelongsTo} :
    r.belongsTo? = some link ↔ r.link = .belongsTo link := by
  unfold belongsTo?
  cases r.link <;> simp

theorem Relation.name_mapMorphTo (f : MorphTo → MorphTo) (r : Relation) : (r.mapMorphTo f).name = r.name := by
  unfold mapMorphTo
  cases r.link <;> rfl

theorem Relation.kind_mapMorphTo (f : MorphTo → MorphTo) (r : Relation) : (r.mapMorphTo f).kind = r.kind := by
  unfold mapMorphTo kind
  cases hl : r.link with
  | morphTo l => rfl
  | _ => simp only [hl]

theorem Relation.references_addModel {r : Relation} {keys : List String} {parent : String}
    (h : r.link.references ⊆ keys) (hp : parent ∈ keys) :
    (r.mapMorphTo (·.addModel parent)).link.references ⊆ keys := by
  unfold mapMorphTo
  cases hl : r.link with
  | morphTo l =>
    rw [hl] at h
    have hs : (l.addModel parent).models ⊆ keys := by
      unfold MorphTo.addModel
      split
      · exact h
      · exact List.append_subset.mpr ⟨h, List.cons_subset.mpr ⟨hp, List.nil_subset _⟩⟩
    exact hs
  | _ => simpa only [hl] using h

theorem Relation.nodup_addModel {r : Relation} {parent : String} (h : r.link.parents.Nodup) :
    (r.mapMorphTo (·.addModel parent)).link.parents.Nodup := by
  unfold mapMorphTo
  cases hl : r.link with
  | morphTo l =>
    rw [hl] at h
    change (l.addModel parent).models.Nodup
    unfold MorphTo.addModel
    split
    · exact h
    · rename_i hp
      have hp : parent ∉ l.models := by simpa using hp
      exact List.nodup_append.mpr ⟨h, List.pairwise_singleton _ _, fun a ha b hb heq =>
        hp (List.mem_singleton.mp hb ▸ heq ▸ ha)⟩
  | _ => simpa only [hl] using h

/-- A relation apart from the parents of a `morphTo`. -/
def Relation.withoutParents (r : Relation) : Relation :=
  r.mapMorphTo fun l => { l with models := [] }

theorem Relation.withoutParents_addModel (r : Relation) (parent : String) :
    (r.mapMorphTo (·.addModel parent)).withoutParents = r.withoutParents := by
  unfold withoutParents mapMorphTo
  cases hl : r.link with
  | morphTo l =>
    have ha : { l.addModel parent with models := [] } = { l with models := [] } := by
      unfold MorphTo.addModel
      split <;> rfl
    simp only [ha]
  | _ => simp only [hl]

theorem Relation.exists_morphTo {r r' : Relation} (h : r'.withoutParents = r.withoutParents) {l : MorphTo}
    (hl : r.link = .morphTo l) : ∃ models, r' = { r with link := .morphTo { l with models } } := by
  obtain ⟨name, methods, link⟩ := r
  obtain ⟨name', methods', link'⟩ := r'
  cases hl
  cases link' with
  | morphTo l' =>
    simp only [withoutParents, mapMorphTo, Relation.mk.injEq, Link.morphTo.injEq, MorphTo.mk.injEq, true_and] at h
    obtain ⟨rfl, rfl, hc, hn⟩ := h
    refine ⟨l'.models, ?_⟩
    simp [← hc, ← hn]
  | _ => simp [withoutParents, mapMorphTo] at h

theorem Relation.eq_of_withoutParents {r r' : Relation} (h : r'.withoutParents = r.withoutParents)
    (hk : r.kind ≠ .morphTo) : r' = r := by
  have hself : r.withoutParents = r := by
    unfold withoutParents mapMorphTo
    cases hl : r.link with
    | morphTo l => exact absurd (congrArg Link.kind hl) hk
    | _ => rfl
  cases hl' : r'.link with
  | morphTo l' =>
    obtain ⟨models, rfl⟩ := exists_morphTo h.symm hl'
    exact absurd rfl hk
  | _ => rw [← hself, ← h]; simp [withoutParents, mapMorphTo, hl']

/-- The stage that fills the relations of a kind. -/
def RelationKind.stage : RelationKind → Resolution.Stage
  | .belongsTo => .belongsTo
  | .belongsToMany => .belongsToMany
  | .hasOne | .hasMany => .hasOneOrMany
  | .hasOneThrough | .hasManyThrough => .hasOneOrManyThrough
  | .morphTo => .morphTo
  | .morphOne | .morphMany => .morphOneOrMany
  | .morphToMany | .morphedByMany => .morphToMany

namespace Resolution

/-- What names a model and its table, and whether it has a factory, which no edit changes. -/
structure SameIdentity (m n : Model) : Prop where
  key : n.key = m.key
  className : n.className = m.className
  namespaceName : n.namespaceName = m.namespaceName
  table : n.table = m.table
  migration : n.migration = m.migration
  autoId : n.autoId = m.autoId
  factory : n.factory = m.factory

theorem SameIdentity.refl (m : Model) : SameIdentity m m :=
  ⟨rfl, rfl, rfl, rfl, rfl, rfl, rfl⟩

theorem SameIdentity.symm {m n : Model} (h : SameIdentity m n) : SameIdentity n m :=
  ⟨h.key.symm, h.className.symm, h.namespaceName.symm, h.table.symm, h.migration.symm, h.autoId.symm, h.factory.symm⟩

theorem SameIdentity.trans {m n o : Model} (h : SameIdentity m n) (h' : SameIdentity n o) : SameIdentity m o :=
  ⟨h'.key.trans h.key, h'.className.trans h.className, h'.namespaceName.trans h.namespaceName,
    h'.table.trans h.table, h'.migration.trans h.migration, h'.autoId.trans h.autoId, h'.factory.trans h.factory⟩

/-! ## Steps

The steps of a model are those that its relation lines and the keys of all models allow. -/

section

variable (lines : List (String × RelationKind)) (keys : List String)

/-- What the pass of columns does to a model. -/
inductive Declaring : Model → Model → Prop
  | reserve {m name kind} : (name, kind) ∈ lines → kind.needsColumn = true →
      Declaring m { m with columns := m.columns.reserve name }
  | column {m name column} : (∀ kind, (name, kind) ∉ lines) → column.methods.IndexedOnce →
      Declaring m { m with columns := m.columns.resolve name column }
  | keys {m primary timestamps softDelete} : Declaring m { m with primary, timestamps, softDelete }

/-- A column that is made for the place of a relation line, which waits for it. -/
structure Fits (kind : RelationKind) (m : Model) (name : String) (column : Column) : Prop where
  line : (name, kind) ∈ lines
  pending : m.columns.slot? name = some .pending
  relation : column.relation = some name
  indexedOnce : column.methods.IndexedOnce

/-- What the passes of some stages after that of columns do to a model. -/
inductive Edit (stages : List Stage) : Model → Model → Prop
  | fill {m name methods link} : link.kind.stage ∈ stages → (name, link.kind) ∈ lines → link.references ⊆ keys →
      link.parents = [] →
      Edit stages m { m with relations := m.relations.resolve name ⟨name, methods, link⟩ }
  | addParent {m name parent} : .morphOneOrMany ∈ stages ∨ .morphToMany ∈ stages → parent ∈ keys →
      Edit stages m { m with relations := m.relations.modify name (Relation.mapMorphTo (·.addModel parent)) }
  | claim {m type} : .belongsToMany ∈ stages ∨ .morphToMany ∈ stages → type.isPivot = true → Edit stages m { m with type }
  | placeKey {m name column} : .belongsTo ∈ stages → Fits lines .belongsTo m name column →
      Edit stages m (placeKey name column m)
  | dropAddedKey {m} : .pivotModels ∈ stages → Edit stages m (dropAddedKey m)
  | pair {m name column} : .morphColumns ∈ stages → Fits lines .morphTo m name column →
      Edit stages m { m with columns := m.columns.resolve name column }
  | attributes {m s} : .modelAttributes ∈ stages → Edit stages m (withAttributes s m)

/-- What holds of a model once its relations have their places. -/
structure Sound (m : Model) : Prop where
  names : m.relations.keys = lines.map Prod.fst
  relation {n r} : m.relations.get? n = some r → r.name = n ∧ (n, r.kind) ∈ lines ∧ r.link.references ⊆ keys
  parents {n r} : m.relations.get? n = some r → r.link.parents.Nodup
  column {n c} : m.columns.get? n = some c → c.methods.IndexedOnce
  /-- A column in the place of a relation is marked as the key of one. -/
  tagged {n kind c} : (n, kind) ∈ lines → m.columns.get? n = some c → c.relation.isSome
  pending {n} : n ∈ m.columns.pendingKeys → ∃ kind, (n, kind) ∈ lines ∧ kind.needsColumn = true
  /-- A key that was added is no relation. -/
  addedKey : m.autoId = true → ∀ kind, ("id", kind) ∉ lines

end

variable {lines : List (String × RelationKind)} {keys : List String} {stages : List Stage} {m n : Model}

/-! ## What a step keeps -/

theorem Declaring.sameIdentity (h : Declaring lines m n) : SameIdentity m n := by
  cases h <;> exact ⟨rfl, rfl, rfl, rfl, rfl, rfl, rfl⟩

theorem sameIdentity_placeKey (name : String) (column : Column) (m : Model) : SameIdentity m (placeKey name column m) := by
  unfold placeKey
  split <;> exact ⟨rfl, rfl, rfl, rfl, rfl, rfl, rfl⟩

theorem sameIdentity_dropAddedKey (m : Model) : SameIdentity m (dropAddedKey m) := by
  unfold dropAddedKey
  split <;> exact ⟨rfl, rfl, rfl, rfl, rfl, rfl, rfl⟩

theorem Edit.sameIdentity (h : Edit lines keys stages m n) : SameIdentity m n := by
  cases h with
  | placeKey _ _ => exact sameIdentity_placeKey _ _ m
  | dropAddedKey _ => exact sameIdentity_dropAddedKey m
  | _ => exact ⟨rfl, rfl, rfl, rfl, rfl, rfl, rfl⟩

theorem relations_placeKey (name : String) (column : Column) (m : Model) :
    (placeKey name column m).relations = m.relations := by
  unfold placeKey
  split <;> rfl

theorem relations_dropAddedKey (m : Model) : (dropAddedKey m).relations = m.relations := by
  unfold dropAddedKey
  split <;> rfl

theorem pending_placeKey {name k : String} {column : Column} {m : Model}
    (h : k ∈ (placeKey name column m).columns.pendingKeys) : k ≠ name ∧ k ∈ m.columns.pendingKeys := by
  unfold placeKey at h
  split at h
  · exact Slots.mem_pendingKeys_erase.mp (Slots.mem_pendingKeys_modify.mp h)
  · exact Slots.mem_pendingKeys_resolve.mp h

theorem pending_dropAddedKey {k : String} {m : Model} (h : k ∈ (dropAddedKey m).columns.pendingKeys) :
    k ∈ m.columns.pendingKeys := by
  unfold dropAddedKey at h
  split at h
  · exact (Slots.mem_pendingKeys_erase.mp h).2
  · exact h

theorem Edit.pending (h : Edit lines keys stages m n) {k : String} (hk : k ∈ n.columns.pendingKeys) :
    k ∈ m.columns.pendingKeys := by
  cases h with
  | placeKey _ _ => exact (pending_placeKey hk).2
  | pair _ _ => exact (Slots.mem_pendingKeys_resolve.mp hk).2
  | dropAddedKey _ => exact pending_dropAddedKey hk
  | _ => exact hk

theorem Edit.filled (h : Edit lines keys stages m n) {k : String} (hk : (m.relations.get? k).isSome) :
    (n.relations.get? k).isSome := by
  cases h with
  | fill _ _ _ _ => rw [Slots.get?_resolve]; split <;> simp [hk]
  | addParent _ _ => rw [Slots.get?_modify]; split <;> simp [hk]
  | placeKey _ _ => rw [relations_placeKey]; exact hk
  | dropAddedKey _ => rw [relations_dropAddedKey]; exact hk
  | _ => exact hk

theorem get?_placeKey {name k : String} {column c : Column} {m : Model}
    (h : (placeKey name column m).columns.get? k = some c) :
    c = column ∨ ∃ c₀, m.columns.get? k = some c₀ ∧ (c = c₀ ∨ c = c₀.forRelation name ∧ c₀.name = column.name) := by
  unfold placeKey at h
  split at h
  · rename_i key hkey
    simp only [Slots.get?_modify, Slots.get?_erase] at h
    split at h
    · rename_i heq
      obtain ⟨c₀, hc, rfl⟩ := Option.map_eq_some_iff.mp h
      split at hc
      · exact absurd hc (by simp)
      · obtain ⟨⟨j, found⟩, hfound, rfl⟩ := Option.map_eq_some_iff.mp hkey
        have hget : m.columns.get? j = some found := Slots.mem_resolved_iff.mp (List.mem_of_find?_eq_some hfound)
        obtain rfl := Option.some_inj.mp (hget.symm.trans (heq ▸ hc))
        have hname : j ≠ name ∧ found.name = column.name := by simpa using List.find?_some hfound
        exact .inr ⟨found, hc, .inr ⟨rfl, hname.2⟩⟩
    · split at h
      · exact absurd h (by simp)
      · exact .inr ⟨c, h, .inl rfl⟩
  · rw [Slots.get?_resolve] at h
    split at h
    · exact .inl (Option.some_inj.mp h).symm
    · exact .inr ⟨c, h, .inl rfl⟩

theorem get?_dropAddedKey {k : String} {c : Column} {m : Model} (h : (dropAddedKey m).columns.get? k = some c) :
    m.columns.get? k = some c := by
  unfold dropAddedKey at h
  split at h
  · simp only [Slots.get?_erase] at h
    split at h
    · exact absurd h (by simp)
    · exact h
  · exact h

/-! ## The place of a relation -/

/-- What stands at the place of a relation line: its column, apart from the mark, and its relation, apart from parents. -/
def atPlace (name : String) (m : Model) : Option (Option Column) × Option Relation :=
  ((m.columns.slot? name).map fun slot => slot.value?.map Column.untagged,
    (m.relations.get? name).map Relation.withoutParents)

theorem pending_iff_atPlace {name : String} : m.columns.slot? name = some .pending ↔ (atPlace name m).1 = some none := by
  unfold atPlace
  cases m.columns.slot? name with
  | none => simp
  | some slot => cases slot <;> simp [Slot.value?]

theorem get?_iff_atPlace {name : String} {column : Column} : (atPlace name m).1 = some (some column) ↔
    ∃ c, m.columns.get? name = some c ∧ c.untagged = column := by
  unfold atPlace Slots.get?
  cases m.columns.slot? name with
  | none => simp
  | some slot => cases slot <;> simp [Slot.value?]

theorem atPlace_fill {name k : String} (h : k ≠ name) (r : Relation) :
    atPlace k { m with relations := m.relations.resolve name r } = atPlace k m := by
  unfold atPlace
  rw [Slots.get?_resolve, if_neg h]

theorem atPlace_addParent (name k parent : String) :
    atPlace k { m with relations := m.relations.modify name (Relation.mapMorphTo (·.addModel parent)) } = atPlace k m := by
  unfold atPlace
  rw [Slots.get?_modify]
  split
  · simp only [Option.map_map, Function.comp_def, Relation.withoutParents_addModel]
  · rfl

theorem atPlace_pair {name k : String} (h : k ≠ name) (c : Column) :
    atPlace k { m with columns := m.columns.resolve name c } = atPlace k m := by
  unfold atPlace
  rw [Slots.slot?_resolve, if_neg h]

theorem atPlace_placeKey {name k : String} (h : k ≠ name) (c : Column) : atPlace k (placeKey name c m) = atPlace k m := by
  unfold placeKey
  split
  · unfold atPlace
    rw [Slots.slot?_modify, Slots.slot?_erase, if_neg h]
    split
    · cases m.columns.slot? k with
      | none => rfl
      | some slot => cases slot <;> rfl
    · rfl
  · exact atPlace_pair h c

/-! ## Soundness -/

namespace Sound

theorem resolve_column (hm : Sound lines keys m) {name : String} {column : Column} (hc : column.methods.IndexedOnce)
    (ht : ∀ kind, (name, kind) ∈ lines → column.relation.isSome) :
    Sound lines keys { m with columns := m.columns.resolve name column } where
  names := hm.names
  relation := hm.relation
  parents := hm.parents
  column h := by
    rw [Slots.get?_resolve] at h
    split at h
    · exact Option.some_inj.mp h ▸ hc
    · exact hm.column h
  tagged hl h := by
    rw [Slots.get?_resolve] at h
    split at h
    · rename_i hn
      exact Option.some_inj.mp h ▸ ht _ (hn ▸ hl)
    · exact hm.tagged hl h
  pending h := hm.pending (Slots.mem_pendingKeys_resolve.mp h).2
  addedKey := hm.addedKey

theorem declaring (hm : Sound lines keys m) (h : Declaring lines m n) : Sound lines keys n := by
  cases h with
  | reserve hl hk =>
    refine ⟨hm.names, hm.relation, hm.parents, fun h => hm.column (Slots.get?_reserve _ _ _ ▸ h),
      fun hl h => hm.tagged hl (Slots.get?_reserve _ _ _ ▸ h), fun h => ?_, hm.addedKey⟩
    rcases Slots.mem_pendingKeys_reserve.mp h with h | ⟨rfl, _⟩
    · exact hm.pending h
    · exact ⟨_, hl, hk⟩
  | column hn hc => exact hm.resolve_column hc fun kind hl => absurd hl (hn kind)
  | keys => exact ⟨hm.names, hm.relation, hm.parents, hm.column, hm.tagged, hm.pending, hm.addedKey⟩

theorem edit (hm : Sound lines keys m) (h : Edit lines keys stages m n) : Sound lines keys n := by
  cases h with
  | @fill name _ link _ hl hr hp =>
    refine ⟨?_, fun h => ?_, fun h => ?_, hm.column, hm.tagged, hm.pending, hm.addedKey⟩
    · have hn : name ∈ m.relations.keys := hm.names ▸ List.mem_map_of_mem hl
      rw [Slots.keys_resolve, if_pos hn]
      exact hm.names
    · rw [Slots.get?_resolve] at h
      split at h
      · rename_i hk
        obtain rfl := Option.some_inj.mp h
        exact ⟨hk.symm, hk ▸ hl, hr⟩
      · exact hm.relation h
    · rw [Slots.get?_resolve] at h
      split at h
      · obtain rfl := Option.some_inj.mp h
        exact hp ▸ List.nodup_nil
      · exact hm.parents h
  | addParent _ hp =>
    refine ⟨(Slots.keys_modify _ _ _).trans hm.names, fun h => ?_, fun h => ?_, hm.column, hm.tagged, hm.pending, hm.addedKey⟩
    all_goals
      rw [Slots.get?_modify] at h
      split at h
    · obtain ⟨r, hr, rfl⟩ := Option.map_eq_some_iff.mp h
      obtain ⟨hn, hk, hs⟩ := hm.relation hr
      rw [Relation.name_mapMorphTo, Relation.kind_mapMorphTo]
      exact ⟨hn, hk, Relation.references_addModel hs hp⟩
    · exact hm.relation h
    · obtain ⟨r, hr, rfl⟩ := Option.map_eq_some_iff.mp h
      exact Relation.nodup_addModel (hm.parents hr)
    · exact hm.parents h
  | claim _ _ => exact ⟨hm.names, hm.relation, hm.parents, hm.column, hm.tagged, hm.pending, hm.addedKey⟩
  | @placeKey name column _ hc =>
    refine ⟨?_, fun h => ?_, fun h => ?_, fun h => ?_, fun hl h => ?_, fun h => hm.pending (pending_placeKey h).2, ?_⟩
    · rw [relations_placeKey]; exact hm.names
    · rw [relations_placeKey] at h; exact hm.relation h
    · rw [relations_placeKey] at h; exact hm.parents h
    · rcases get?_placeKey h with rfl | ⟨c₀, h₀, rfl | ⟨rfl, _⟩⟩
      · exact hc.indexedOnce
      · exact hm.column h₀
      · exact (hm.column h₀ : c₀.methods.IndexedOnce)
    · rcases get?_placeKey h with rfl | ⟨c₀, h₀, rfl | ⟨rfl, _⟩⟩
      · simp [hc.relation]
      · exact hm.tagged hl h₀
      · rfl
    · rw [(sameIdentity_placeKey name column m).autoId]; exact hm.addedKey
  | dropAddedKey _ =>
    refine ⟨?_, fun h => ?_, fun h => ?_, fun h => hm.column (get?_dropAddedKey h),
      fun hl h => hm.tagged hl (get?_dropAddedKey h), fun h => hm.pending (pending_dropAddedKey h), ?_⟩
    · rw [relations_dropAddedKey]; exact hm.names
    · rw [relations_dropAddedKey] at h; exact hm.relation h
    · rw [relations_dropAddedKey] at h; exact hm.parents h
    · rw [(sameIdentity_dropAddedKey m).autoId]; exact hm.addedKey
  | pair _ hc => exact hm.resolve_column hc.indexedOnce fun _ _ => by simp [hc.relation]
  | attributes _ => exact ⟨hm.names, hm.relation, hm.parents, hm.column, hm.tagged, hm.pending, hm.addedKey⟩

end Sound

end Resolution

end Schemata
