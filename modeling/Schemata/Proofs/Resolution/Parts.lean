import Schemata.Proofs.Resolution.Normalized
import Schemata.Proofs.Resolution.ReorderedCompletion
import Schemata.Proofs.Resolution.ReorderedOwnership
import Schemata.Proofs.Resolution.ReorderedParents

/-!
# Parts of models

A pass reads some parts of models and writes others. Two drafts agree in a scope if their models have the same in the parts that
belong to it.
-/

namespace Schemata

/-! ## Parts -/

/-- What a pass may read of a model, or write, apart from what it is called. -/
inductive Part
  | type
  /-- Whether the model is a pivot model, whatever its type. -/
  | pivot
  /-- The name to which keys of the model refer. -/
  | keyName
  | keys
  | columns
  /-- The relations of a kind, apart from their parents. -/
  | relations (kind : RelationKind)
  /-- The parents of pointers, in order. -/
  | parents
  /-- The parents of pointers, in any order. -/
  | parentSet
  | attributes
  | autoId
  /-- What the model declares, which stands beside it in the draft. -/
  | declaration
  deriving DecidableEq

namespace Model

variable {m n o : Model} {kind : RelationKind} {name : String}

/-- The relation of a kind that stands under a name, apart from its parents. -/
def shown (m : Model) (kind : RelationKind) (name : String) : Option Relation :=
  ((m.relations.get? name).filter (·.kind = kind)).map Relation.withoutParents

/-- The parents of the pointer that stands under a name. -/
def parentsAt (m : Model) (name : String) : List String :=
  (m.relations.get? name).elim [] (·.link.parents)

/-- What the attributes of a declaration come to. -/
def attributes (m : Model) : Model :=
  { m with
    type := .plain, columns := .empty, relations := .empty, primary := none, timestamps := none, softDelete := none
    autoId := false }

/-- What the model is called, and what of its declaration no pass changes. -/
def bare (m : Model) : Model :=
  { m.attributes with
    fillable := [], hidden := [], append := [], casts := .empty, eager := [], indexes := [], routeKey := none
    localScopes := [], globalScopes := [], traits := [], quickTraits := [], quickCasts := [] }

end Model

/-- Two models have the same in a part. -/
def Part.Same : Part → Model → Model → Prop
  | .type, m, n => n.type = m.type
  | .pivot, m, n => n.isPivot = m.isPivot
  | .keyName, m, n => n.primaryName = m.primaryName
  | .keys, m, n => n.primary = m.primary ∧ n.timestamps = m.timestamps ∧ n.softDelete = m.softDelete
  | .columns, m, n => n.columns = m.columns
  | .relations kind, m, n => ∀ name, n.shown kind name = m.shown kind name
  | .parents, m, n => ∀ name, n.parentsAt name = m.parentsAt name
  | .parentSet, m, n => ∀ name p, p ∈ n.parentsAt name ↔ p ∈ m.parentsAt name
  | .attributes, m, n => n.attributes = m.attributes
  | .autoId, m, n => n.autoId = m.autoId
  | .declaration, _, _ => True

namespace Part.Same

variable {p : Part} {m n o : Model}

theorem refl (p : Part) (m : Model) : p.Same m m := by
  cases p <;> simp [Part.Same]

theorem symm (h : p.Same m n) : p.Same n m := by
  cases p with
  | keys => exact ⟨h.1.symm, h.2.1.symm, h.2.2.symm⟩
  | relations kind => exact fun name => (h name).symm
  | parents => exact fun name => (h name).symm
  | parentSet => exact fun name p => (h name p).symm
  | declaration => trivial
  | _ => exact Eq.symm h

theorem trans (h : p.Same m n) (h' : p.Same n o) : p.Same m o := by
  cases p with
  | keys => exact ⟨h'.1.trans h.1, h'.2.1.trans h.2.1, h'.2.2.trans h.2.2⟩
  | relations kind => exact fun name => (h' name).trans (h name)
  | parents => exact fun name => (h' name).trans (h name)
  | parentSet => exact fun name p => (h' name p).trans (h name p)
  | declaration => trivial
  | _ => exact Eq.trans h' h

end Part.Same

/-- Two models are called the same, have places for the same relations, and have the same in some parts. -/
structure Model.Agrees (S : Part → Prop) (m n : Model) : Prop where
  bare : n.bare = m.bare
  names : n.relations.keys = m.relations.keys
  same {p} : S p → p.Same m n

/-- The relations of all kinds are in a scope. -/
def AllRelations (S : Part → Prop) : Prop :=
  ∀ kind, S (.relations kind)

namespace Model.Agrees

variable {S T : Part → Prop} {m n o : Model} {name : String}

theorem refl (S : Part → Prop) (m : Model) : m.Agrees S m :=
  ⟨rfl, rfl, fun _ => .refl _ m⟩

theorem symm (h : m.Agrees S n) : n.Agrees S m :=
  ⟨h.bare.symm, h.names.symm, fun hp => (h.same hp).symm⟩

theorem trans (h : m.Agrees S n) (h' : n.Agrees S o) : m.Agrees S o :=
  ⟨h'.bare.trans h.bare, h'.names.trans h.names, fun hp => (h.same hp).trans (h'.same hp)⟩

theorem mono (h : m.Agrees T n) (hs : ∀ {p}, S p → T p) : m.Agrees S n :=
  ⟨h.bare, h.names, fun hp => h.same (hs hp)⟩

/-- What is read off a model that is stripped of all parts. -/
theorem congr_bare {β : Type} (h : m.Agrees S n) {g : Model → β} (hg : ∀ m, g m.bare = g m) : g n = g m := by
  rw [← hg, h.bare, hg]

theorem key (h : m.Agrees S n) : n.key = m.key :=
  h.congr_bare fun _ => rfl

theorem className (h : m.Agrees S n) : n.className = m.className :=
  h.congr_bare fun _ => rfl

theorem table (h : m.Agrees S n) : n.table = m.table :=
  h.congr_bare fun _ => rfl

theorem migration (h : m.Agrees S n) : n.migration = m.migration :=
  h.congr_bare fun _ => rfl

/-! ### Relations -/

/-- What is found under the names of a model in turn. -/
theorem values_filterMap {β : Type} (m : Model) (f : Relation → Option β) :
    m.relations.values.filterMap f = m.relations.keys.filterMap fun name => (m.relations.get? name).bind f := by
  unfold Slots.values Slots.resolved Slots.keys Slots.get? Slots.slot? OrderedMap.keys
  rw [List.filterMap_map, List.filterMap_map, List.filterMap_filterMap]
  refine List.filterMap_congr fun x hx => ?_
  have hslot : m.relations.map.get? x.1 = some x.2 := OrderedMap.get?_eq_some_iff.mpr hx
  dsimp only [Function.comp]
  rw [hslot, Option.bind_some]
  cases x.2 <;> rfl

theorem bind_shown {β : Type} {kind : RelationKind} {f : Relation → Option β} (hf : ∀ r, r.kind ≠ kind → f r = none)
    (m : Model) (name : String) (hw : ∀ r : Relation, f r.withoutParents = f r) :
    (m.relations.get? name).bind f = (m.shown kind name).bind f := by
  unfold shown
  cases m.relations.get? name with
  | none => rfl
  | some r =>
    by_cases hk : r.kind = kind
    · simp [Option.filter, hk, hw]
    · simp [Option.filter, hk, hf r hk]

/-- The relations of a kind, read apart from their parents, are the same in turn. -/
theorem values_congr {β : Type} {kind : RelationKind} (h : m.Agrees S n) (hS : S (.relations kind)) {f : Relation → Option β}
    (hf : ∀ r, r.kind ≠ kind → f r = none) (hw : ∀ r : Relation, f r.withoutParents = f r) :
    n.relations.values.filterMap f = m.relations.values.filterMap f := by
  rw [values_filterMap, values_filterMap, h.names]
  refine List.filterMap_congr fun name _ => ?_
  rw [bind_shown hf n name hw, bind_shown hf m name hw, h.same hS name]

theorem belongsToRelations (h : m.Agrees S n) (hS : S (.relations .belongsTo)) : n.belongsToRelations = m.belongsToRelations := by
  refine h.values_congr hS (fun r hr => ?_) fun r => ?_
  · obtain ⟨name, methods, link⟩ := r
    cases link <;> first | rfl | exact absurd rfl hr
  · obtain ⟨name, methods, link⟩ := r
    cases link <;> rfl

theorem belongsTo? (h : m.Agrees S n) (hS : S (.relations .belongsTo)) (target : String) :
    n.belongsTo? target = m.belongsTo? target := by
  unfold Model.belongsTo?
  rw [h.belongsToRelations hS]

theorem morphToRelations (h : m.Agrees S n) (hS : S (.relations .morphTo)) :
    n.morphToRelations.map barePointer = m.morphToRelations.map barePointer := by
  unfold Model.morphToRelations
  rw [List.map_filterMap, List.map_filterMap]
  refine h.values_congr hS (fun r hr => ?_) fun r => ?_
  · obtain ⟨name, methods, link⟩ := r
    cases link <;> first | rfl | exact absurd rfl hr
  · obtain ⟨name, methods, link⟩ := r
    cases link <;> rfl

theorem isEmpty_morphToRelations (h : m.Agrees S n) (hS : S (.relations .morphTo)) :
    n.morphToRelations.isEmpty = m.morphToRelations.isEmpty := by
  rw [← List.isEmpty_map (f := barePointer), h.morphToRelations hS, List.isEmpty_map]

/-- The relations of all kinds are the same apart from parents. -/
theorem relation? (h : m.Agrees S n) (hS : AllRelations S) (name : String) :
    (n.relations.get? name).map Relation.withoutParents = (m.relations.get? name).map Relation.withoutParents := by
  have hsame := fun kind => h.same (hS kind) name
  unfold shown at hsame
  cases hm : m.relations.get? name with
  | none =>
    cases hn : n.relations.get? name with
    | none => rfl
    | some r =>
      have hr := hsame r.kind
      simp [hm, hn, Option.filter] at hr
  | some r =>
    have hr := hsame r.kind
    rw [hm] at hr
    cases hn : n.relations.get? name with
    | none => simp [hn, Option.filter] at hr
    | some r' =>
      rw [hn] at hr
      by_cases hk : r'.kind = r.kind
      · simpa [Option.filter, hk] using hr
      · simp [Option.filter, hk] at hr

theorem values_withoutParents (h : m.Agrees S n) (hS : AllRelations S) :
    n.relations.values.map Relation.withoutParents = m.relations.values.map Relation.withoutParents := by
  rw [← List.filterMap_eq_map, values_filterMap, values_filterMap, h.names]
  refine List.filterMap_congr fun name _ => ?_
  have hname := h.relation? hS name
  rwa [Option.map_eq_bind, Option.map_eq_bind] at hname

theorem isSome_relation? (h : m.Agrees S n) (hS : AllRelations S) (name : String) :
    (n.relation? name).isSome = (m.relation? name).isSome := by
  have hname := congrArg Option.isSome (h.relation? hS name)
  rwa [Option.isSome_map, Option.isSome_map] at hname

theorem pendingKeys (h : m.Agrees S n) (hS : AllRelations S) : n.relations.pendingKeys = m.relations.pendingKeys := by
  have hpending : ∀ o : Model, o.relations.pendingKeys = o.relations.keys.filter fun name => (o.relations.get? name).isNone := by
    intro o
    unfold Slots.pendingKeys Slots.keys OrderedMap.keys
    rw [List.filter_map]
    refine congrArg (List.map Prod.fst) (List.filter_congr fun x hx => ?_)
    have hslot : o.relations.slot? x.1 = some x.2 := OrderedMap.get?_eq_some_iff.mpr hx
    unfold Slots.get?
    dsimp only [Function.comp]
    rw [hslot, Option.bind_some]
    cases x.2 <;> rfl
  rw [hpending, hpending, h.names]
  refine List.filter_congr fun name _ => ?_
  have hname := h.isSome_relation? hS name
  unfold Model.relation? at hname
  rw [← Option.not_isSome, hname, Option.not_isSome]

/-! ### Keys -/

theorem foreignMethod (h : m.Agrees S n) (hk : S .keys) (hc : S .columns) : n.foreignMethod = m.foreignMethod := by
  have hcolumns : n.columns = m.columns := h.same hc
  unfold Model.foreignMethod Model.primaryColumn? Model.columnNamed? Model.hasUuidKey
  rw [(h.same hk).1, hcolumns]

theorem keyShape (h : m.Agrees S n) (hk : S .keys) : Resolution.KeyShape.of n = Resolution.KeyShape.of m := by
  unfold Resolution.KeyShape.of Model.hasAutoIncrementKey Model.hasUuidKey
  rw [(h.same hk).1]

end Model.Agrees

/-- Relations that are the same but for their parents are the same if their parents are. -/
theorem Relation.eq_of_parents {r r' : Relation} (h : r'.withoutParents = r.withoutParents) (hp : r'.link.parents = r.link.parents) :
    r' = r := by
  obtain ⟨name, methods, link⟩ := r
  obtain ⟨name', methods', link'⟩ := r'
  cases link with
  | morphTo l =>
    cases link' with
    | morphTo l' =>
      cases l
      cases l'
      simp_all [Relation.withoutParents, Relation.mapMorphTo, Link.parents]
    | _ => simp_all [Relation.withoutParents, Relation.mapMorphTo]
  | _ => cases link' <;> simp_all [Relation.withoutParents, Relation.mapMorphTo]

/-- Models that have the same in all parts but one differ in whether their keys were added, if at all. -/
theorem Model.Agrees.eq_of_all {S : Part → Prop} {m n : Model} (h : m.Agrees S n) (hS : ∀ p, p ≠ .autoId → S p) :
    n = { m with autoId := n.autoId } := by
  have hrelations : n.relations = m.relations := Slots.eq_of_get? h.names fun name => by
    have hname := h.relation? (fun kind => hS _ (by simp)) name
    have hparents : n.parentsAt name = m.parentsAt name := h.same (hS .parents (by simp)) name
    unfold Model.parentsAt at hparents
    cases hm : m.relations.get? name with
    | none => simpa [hm] using hname
    | some r =>
      rw [hm] at hname hparents
      obtain ⟨r', hr', heq⟩ := Option.map_eq_some_iff.mp hname
      rw [hr'] at hparents ⊢
      exact congrArg some (Relation.eq_of_parents heq hparents)
  have htype : n.type = m.type := h.same (hS .type (by simp))
  have hcolumns : n.columns = m.columns := h.same (hS .columns (by simp))
  have hattributes : n.attributes = m.attributes := h.same (hS .attributes (by simp))
  obtain ⟨hprimary, htimestamps, hdelete⟩ := h.same (hS .keys (by simp))
  cases m
  cases n
  simp only [Model.attributes, Model.mk.injEq] at *
  simp_all

namespace Resolution

/-! ## Changes

What a pass writes into a part follows from what stands in that part, so that models agree as before. -/

section

variable {S : Part → Prop} {m n : Model} {k : String}

theorem Model.shown_resolve (m : Model) (kind : RelationKind) (name j : String) (r : Relation) :
    { m with relations := m.relations.resolve name r }.shown kind j =
      if j = name then (if r.kind = kind then some r.withoutParents else none) else m.shown kind j := by
  unfold Model.shown
  rw [Slots.get?_resolve]
  split
  · by_cases hk : r.kind = kind <;> simp [Option.filter, hk]
  · rfl

theorem Model.parentsAt_resolve (m : Model) (name j : String) (r : Relation) :
    { m with relations := m.relations.resolve name r }.parentsAt j = if j = name then r.link.parents else m.parentsAt j := by
  unfold Model.parentsAt
  rw [Slots.get?_resolve]
  split <;> rfl

theorem agrees_resolve (h : m.Agrees S n) (name : String) (r : Relation) :
    Model.Agrees S { m with relations := m.relations.resolve name r } { n with relations := n.relations.resolve name r } where
  bare := h.bare
  names := by rw [Slots.keys_resolve, Slots.keys_resolve, h.names]
  same {p} hp := by
    have hsame := h.same hp
    cases p with
    | relations kind =>
      intro j
      rw [Model.shown_resolve, Model.shown_resolve, hsame j]
    | parents =>
      intro j
      rw [Model.parentsAt_resolve, Model.parentsAt_resolve, hsame j]
    | parentSet =>
      intro j q
      rw [Model.parentsAt_resolve, Model.parentsAt_resolve]
      split
      · rfl
      · exact hsame j q
    | _ => exact hsame

theorem agrees_reserve (h : m.Agrees S n) (name : String) :
    Model.Agrees S { m with relations := m.relations.reserve name } { n with relations := n.relations.reserve name } := by
  have hsame : ∀ (p : Part) (o : Model), p.Same { o with relations := o.relations.reserve name } o := by
    intro p o
    have hself := Part.Same.refl p o
    cases p with
    | relations kind => exact fun j => by unfold Model.shown; rw [Slots.get?_reserve]
    | parents => exact fun j => by unfold Model.parentsAt; rw [Slots.get?_reserve]
    | parentSet => exact fun j q => by unfold Model.parentsAt; rw [Slots.get?_reserve]
    | _ => exact hself
  refine ⟨h.bare, ?_, fun {p} hp => ((hsame p m).trans (h.same hp)).trans (hsame p n).symm⟩
  rw [Slots.keys_reserve, Slots.keys_reserve, h.names]

theorem agrees_fillPlace (h : m.Agrees S n) (l : DeclaredRelation) (link : Link) :
    (fillPlace l link k m).Agrees S (fillPlace l link k n) := by
  unfold fillPlace
  split
  · exact agrees_resolve h _ _
  · exact h

theorem agrees_claimType (h : m.Agrees S n) (pivot : Option String) (type : ModelType) :
    (claimType pivot type k m).Agrees S (claimType pivot type k n) := by
  unfold claimType
  split
  · refine ⟨h.bare, h.names, fun {p} hp => ?_⟩
    cases p with
    | type => rfl
    | pivot => rfl
    | _ => exact h.same hp
  · exact h

/-- The parents of a link that has learned of another. -/
def learned (parent : String) (parents : List String) : List String :=
  if parents.contains parent then parents else parents ++ [parent]

theorem mem_learned {parent p : String} {parents : List String} : p ∈ learned parent parents ↔ p = parent ∨ p ∈ parents := by
  unfold learned
  split
  · rename_i h
    exact ⟨.inr, fun hp => hp.elim (fun heq => heq ▸ List.contains_iff_mem.mp h) id⟩
  · rw [List.mem_append, List.mem_singleton, or_comm]

theorem parents_addModel (parent : String) (r : Relation) : (r.mapMorphTo (·.addModel parent)).link.parents =
    if r.kind = .morphTo then learned parent r.link.parents else r.link.parents := by
  obtain ⟨name, methods, link⟩ := r
  cases link with
  | morphTo l =>
    unfold Relation.mapMorphTo MorphTo.addModel learned Relation.kind Link.kind Link.parents
    dsimp only
    split <;> simp_all
  | _ => rfl

theorem Model.shown_addModel (m : Model) (kind : RelationKind) (name j parent : String) :
    { m with relations := m.relations.modify name (Relation.mapMorphTo (·.addModel parent)) }.shown kind j = m.shown kind j := by
  unfold Model.shown
  rw [Slots.get?_modify]
  split
  · cases m.relations.get? j with
    | none => rfl
    | some r => by_cases hk : r.kind = kind <;> simp [Option.filter, Relation.kind_mapMorphTo, Relation.withoutParents_addModel, hk]
  · rfl

/-- Whether a pointer stands under a name. -/
def Model.pointsAt (m : Model) (name : String) : Prop :=
  ∃ r, m.relations.get? name = some r ∧ r.kind = .morphTo

open Classical in
theorem Model.parentsAt_addModel (m : Model) (name j parent : String) :
    { m with relations := m.relations.modify name (Relation.mapMorphTo (·.addModel parent)) }.parentsAt j =
      if j = name ∧ Model.pointsAt m name then learned parent (m.parentsAt j) else m.parentsAt j := by
  unfold Model.parentsAt Model.pointsAt
  rw [Slots.get?_modify]
  by_cases hj : j = name
  · subst hj
    cases m.relations.get? j with
    | none => simp
    | some r => simp [parents_addModel]
  · simp [hj]

theorem Model.pointsAt_iff_shown (m : Model) (name : String) : Model.pointsAt m name ↔ (m.shown .morphTo name).isSome := by
  unfold Model.pointsAt Model.shown
  cases m.relations.get? name with
  | none => simp
  | some r => by_cases hk : r.kind = .morphTo <;> simp [Option.filter, hk]

theorem agrees_addModel (h : m.Agrees S n) (hS : S (.relations .morphTo)) (name parent : String) :
    Model.Agrees S { m with relations := m.relations.modify name (Relation.mapMorphTo (·.addModel parent)) }
      { n with relations := n.relations.modify name (Relation.mapMorphTo (·.addModel parent)) } where
  bare := h.bare
  names := by rw [Slots.keys_modify, Slots.keys_modify, h.names]
  same {p} hp := by
    have hsame := h.same hp
    have hpoints : Model.pointsAt n name ↔ Model.pointsAt m name := by
      rw [Model.pointsAt_iff_shown, Model.pointsAt_iff_shown, h.same hS name]
    cases p with
    | relations kind =>
      intro j
      rw [Model.shown_addModel, Model.shown_addModel, hsame j]
    | parents =>
      intro j
      rw [Model.parentsAt_addModel, Model.parentsAt_addModel, hsame j, hpoints]
    | parentSet =>
      intro j q
      rw [Model.parentsAt_addModel, Model.parentsAt_addModel, hpoints]
      split
      · rw [mem_learned, mem_learned, hsame j q]
      · exact hsame j q
    | _ => exact hsame

/-- The first pointer of which the columns have the given name. -/
def pointerNamed? (columnName : String) (m : Model) : Option String :=
  (m.relations.keys.filter fun name =>
    (m.shown .morphTo name).any fun r => r.morphTo?.any (·.columnName == columnName)).head?

theorem addParent_eq (columnName parent : String) (m : Model) : addParent columnName parent m =
    (pointerNamed? columnName m).elim m fun name =>
      { m with relations := m.relations.modify name (Relation.mapMorphTo (·.addModel parent)) } := by
  have hfound : (m.relations.resolved.find? fun x => x.2.morphTo?.any (·.columnName == columnName)).map Prod.fst =
      pointerNamed? columnName m := by
    refine (m.relations.find?_resolved fun r => r.morphTo?.any (·.columnName == columnName)).trans ?_
    unfold pointerNamed? Model.shown
    refine congrArg List.head? (List.filter_congr fun name _ => ?_)
    cases m.relations.get? name with
    | none => rfl
    | some r =>
      obtain ⟨name, methods, link⟩ := r
      cases link <;> rfl
  unfold addParent
  split
  · rename_i hfind
    rw [hfound.symm.trans (congrArg (Option.map Prod.fst) hfind)]
    rfl
  · rename_i hfind
    rw [hfound.symm.trans (congrArg (Option.map Prod.fst) hfind)]
    rfl

theorem pointerNamed?_agrees (h : m.Agrees S n) (hS : S (.relations .morphTo)) (columnName : String) :
    pointerNamed? columnName n = pointerNamed? columnName m := by
  unfold pointerNamed?
  simp only [h.names, h.same hS _]

theorem agrees_addParent (h : m.Agrees S n) (hS : S (.relations .morphTo)) (columnName parent : String) :
    (addParent columnName parent m).Agrees S (addParent columnName parent n) := by
  rw [addParent_eq, addParent_eq, pointerNamed?_agrees h hS]
  cases pointerNamed? columnName m with
  | none => exact h
  | some name => exact agrees_addModel h hS name parent

theorem agrees_joinParent (h : m.Agrees S n) (hS : S (.relations .morphTo)) (place : MorphOneOrMany) (parent : String) :
    (joinParent place parent k m).Agrees S (joinParent place parent k n) := by
  unfold joinParent
  split
  · exact agrees_addModel h hS _ _
  · exact h

theorem agrees_joinPivot (h : m.Agrees S n) (hS : S (.relations .morphTo)) (l : DeclaredRelation) (link : MorphToMany) :
    (joinPivot l link k m).Agrees S (joinPivot l link k n) := by
  unfold joinPivot
  split
  · exact agrees_addParent h hS _ _
  · exact h

theorem agrees_columns (h : m.Agrees S n) (f : Slots Column → Slots Column) :
    Model.Agrees S { m with columns := f m.columns } { n with columns := f n.columns } := by
  refine ⟨h.bare, h.names, fun {p} hp => ?_⟩
  have hsame := h.same hp
  cases p with
  | columns => exact congrArg f hsame
  | _ => exact hsame

theorem placeKey_eq (relation : String) (column : Column) (m : Model) :
    placeKey relation column m = { m with columns := (placeKey relation column m).columns } := by
  unfold placeKey
  split <;> rfl

theorem columns_placeKey_congr (h : n.columns = m.columns) (relation : String) (column : Column) :
    (placeKey relation column n).columns = (placeKey relation column m).columns := by
  unfold placeKey declaredKey?
  rw [h]
  split <;> rfl

theorem agrees_placeKey (h : m.Agrees S n) (relation : String) (column : Column) :
    (placeKey relation column m).Agrees S (placeKey relation column n) := by
  refine ⟨?_, ?_, fun {p} hp => ?_⟩
  · rw [placeKey_eq relation column m, placeKey_eq relation column n]
    exact h.bare
  · rw [relations_placeKey, relations_placeKey, h.names]
  · have hsame := h.same hp
    cases p with
    | columns => exact columns_placeKey_congr hsame relation column
    | _ =>
      rw [placeKey_eq relation column m, placeKey_eq relation column n]
      exact hsame

theorem agrees_owned (h : m.Agrees S n) (l : DeclaredRelation) (key : String) (column : Column) :
    (owned l key column k m).Agrees S (owned l key column k n) := by
  unfold owned
  refine agrees_fillPlace ?_ l _
  split
  · exact agrees_placeKey h _ _
  · exact h

/-- Keys are given up alike where both models are pivot models with an added key, or neither is. -/
theorem agrees_dropAddedKey (h : m.Agrees S n) (hg : GivesUpKey n ↔ GivesUpKey m) :
    (dropAddedKey m).Agrees S (dropAddedKey n) := by
  have hcond : (n.isPivot && n.autoId) = (m.isPivot && m.autoId) := by
    rw [Bool.eq_iff_iff, Bool.and_eq_true, Bool.and_eq_true]
    exact hg
  unfold dropAddedKey
  rw [hcond]
  split
  · refine ⟨h.bare, h.names, fun {p} hp => ?_⟩
    have hsame := h.same hp
    cases p with
    | columns => exact congrArg (Slots.erase · "id") hsame
    | keyName => rfl
    | keys => exact ⟨rfl, hsame.2⟩
    | _ => exact hsame
  · exact h

theorem agrees_withAttributes (h : m.Agrees S n) (hc : S .columns) (s : ModelDeclaration) :
    (withAttributes s m).Agrees S (withAttributes s n) := by
  have hcolumns : n.columns = m.columns := h.same hc
  refine ⟨h.bare, h.names, fun {p} hp => ?_⟩
  cases p with
  | attributes =>
    have hfillable : ∀ hidden, defaultFillable n hidden = defaultFillable m hidden := by
      unfold defaultFillable
      rw [hcolumns]
      exact fun _ => rfl
    have hcasts : castsOf n s.casts = castsOf m s.casts := by
      unfold castsOf
      rw [hcolumns]
    have hattributes : ∀ o : Model, (withAttributes s o).attributes = { o.bare with
        hidden := s.hidden.eraseDups, append := s.append.eraseDups, casts := castsOf o s.casts, routeKey := s.route
        fillable := (s.fillable.getD (defaultFillable o s.hidden)).eraseDups, traits := s.traits
        quickTraits := s.traits.filter fun name => !name.toList.contains '\\'
        quickCasts := (s.casts.values.filter isQuickClass).eraseDups, indexes := s.indexes.map declaredIndex
        eager := s.eager, localScopes := s.localScopes, globalScopes := s.scopes } := fun _ => rfl
    change (withAttributes s n).attributes = (withAttributes s m).attributes
    rw [hattributes, hattributes, h.bare, hfillable, hcasts]
  | _ => exact h.same hp

end

/-! ## Drafts that agree -/

/-- The relation lines of all models. -/
def Draft.relational (d : Draft) : List DeclaredLine :=
  d.lines.filter fun l => (DeclaredRelation.kindOf? l.call).isSome

/-- Drafts of the same tables and relation lines, whose models agree in the parts that are in the scope of their keys. -/
structure Draft.Agrees (S : String → Part → Prop) (d e : Draft) : Prop where
  settings : e.settings = d.settings
  tables : e.schema.migrations = d.schema.migrations
  lines : e.relational = d.relational
  line (k name) : e.declaredRelation? k name = d.declaredRelation? k name
  declared : e.declarations.keys = d.declarations.keys
  declarations {k} : S k .declaration → (e.declarations.get? k).map unadded = (d.declarations.get? k).map unadded
  keys : e.models.keys = d.models.keys
  models {k m n} : d.models.get? k = some m → e.models.get? k = some n → m.Agrees (S k) n
  migrations : e.migrations = d.migrations

namespace Draft.Agrees

variable {β : Type} {S T : String → Part → Prop} {d e : Draft} {k : String} {m n : Model}

theorem refl (S : String → Part → Prop) (d : Draft) : d.Agrees S d where
  settings := rfl
  tables := rfl
  lines := rfl
  line _ _ := rfl
  declared := rfl
  declarations _ := rfl
  keys := rfl
  models hm hn := Option.some_inj.mp (hm.symm.trans hn) ▸ .refl _ _
  migrations := rfl

theorem symm (h : d.Agrees S e) : e.Agrees S d where
  settings := h.settings.symm
  tables := h.tables.symm
  lines := h.lines.symm
  line k name := (h.line k name).symm
  declared := h.declared.symm
  declarations hk := (h.declarations hk).symm
  keys := h.keys.symm
  models hn hm := (h.models hm hn).symm
  migrations := h.migrations.symm

theorem exists_model (h : d.Agrees S e) (hm : d.models.get? k = some m) : ∃ n, e.models.get? k = some n ∧ m.Agrees (S k) n := by
  obtain ⟨n, hn⟩ := OrderedMap.mem_keys_iff.mp (h.keys ▸ OrderedMap.mem_keys_iff.mpr ⟨m, hm⟩)
  exact ⟨n, hn, h.models hm hn⟩

theorem trans {c : Draft} (h : d.Agrees S c) (h' : c.Agrees S e) : d.Agrees S e where
  settings := h'.settings.trans h.settings
  tables := h'.tables.trans h.tables
  lines := h'.lines.trans h.lines
  line k name := (h'.line k name).trans (h.line k name)
  declared := h'.declared.trans h.declared
  declarations hk := (h'.declarations hk).trans (h.declarations hk)
  keys := h'.keys.trans h.keys
  models hm hn := by
    obtain ⟨o, ho, hmo⟩ := h.exists_model hm
    exact hmo.trans (h'.models ho hn)
  migrations := h'.migrations.trans h.migrations

theorem mono (h : d.Agrees T e) (hS : ∀ {k p}, S k p → T k p) : d.Agrees S e :=
  { h with
    declarations := fun hk => h.declarations (hS hk)
    models := fun hm hn => (h.models hm hn).mono hS }

variable (h : d.Agrees S e)
include h

/-! ### Look-ups -/

/-- What is read off models alike is the same in both drafts. -/
theorem map_eq {g : Model → β} (hg : ∀ {k m n}, m.Agrees (S k) n → g n = g m) (k : String) :
    (e.models.get? k).map g = (d.models.get? k).map g := by
  cases hm : d.models.get? k with
  | none =>
    have hk : k ∉ e.models.keys := h.keys ▸ OrderedMap.get?_eq_none_iff.mp hm
    rw [OrderedMap.get?_eq_none_iff.mpr hk]
  | some m =>
    obtain ⟨n, hn, hmn⟩ := h.exists_model hm
    rw [hn]
    exact congrArg some (hg hmn)

theorem values_eq {g : Model → β} (hg : ∀ {k m n}, m.Agrees (S k) n → g n = g m) :
    e.models.values.map g = d.models.values.map g :=
  OrderedMap.map_values_eq h.keys fun _ _ _ hm hn => hg (h.models hm hn)

theorem model_bind_of {f g : Model → Except SchemaFault β} (hg : ∀ {k m n}, m.Agrees (S k) n → g n = f m) (k : String) :
    (e.model k >>= g) = (d.model k >>= f) := by
  unfold Draft.model
  cases hm : d.models.get? k with
  | none =>
    have hk : k ∉ e.models.keys := h.keys ▸ OrderedMap.get?_eq_none_iff.mp hm
    rw [OrderedMap.get?_eq_none_iff.mpr hk]
    rfl
  | some m =>
    obtain ⟨n, hn, hmn⟩ := h.exists_model hm
    rw [hn]
    exact hg hmn

theorem model_bind {g : Model → Except SchemaFault β} (hg : ∀ {k m n}, m.Agrees (S k) n → g n = g m) (k : String) :
    (e.model k >>= g) = (d.model k >>= g) :=
  h.model_bind_of hg k

theorem model_map {g : Model → β} (hg : ∀ {k m n}, m.Agrees (S k) n → g n = g m) (k : String) :
    g <$> e.model k = g <$> d.model k := by
  have hbind := h.model_bind (g := fun m => pure (g m)) (fun hmn => congrArg pure (hg hmn)) k
  simpa only [← map_eq_pure_bind] using hbind

theorem findModel? : e.findModel? = d.findModel? :=
  findModel?_of_values h.keys (h.values_eq fun hmn => Prod.ext hmn.className hmn.key)

/-! ### Lines -/

theorem declaredRelations (kind : RelationKind) : e.declaredRelations kind = d.declaredRelations kind := by
  have hfilter : ∀ c : Draft, (c.lines.filter fun l => DeclaredRelation.kindOf? l.call = some kind) =
      c.relational.filter fun l => DeclaredRelation.kindOf? l.call = some kind := by
    intro c
    unfold relational
    rw [List.filter_filter]
    refine List.filter_congr fun l _ => ?_
    by_cases hk : DeclaredRelation.kindOf? l.call = some kind <;> simp [hk]
  unfold Draft.declaredRelations
  rw [hfilter, hfilter, h.lines]

theorem declaredRelationsOf (first second : RelationKind) : e.declaredRelationsOf first second = d.declaredRelationsOf first second := by
  unfold Draft.declaredRelationsOf
  rw [h.declaredRelations, h.declaredRelations]

/-! ### Changes -/

/-- The models of each draft may change in their own way. -/
theorem mapBoth {v w : String → Model → Model} (hw : ∀ {k m n}, d.models.get? k = some m → e.models.get? k = some n →
    m.Agrees (S k) n → (v k m).Agrees (S k) (w k n)) : (d.mapModels v).Agrees S (e.mapModels w) :=
  { h with
    keys := (OrderedMap.keys_mapEntries ..).trans (h.keys.trans (OrderedMap.keys_mapEntries ..).symm)
    models := fun {k m n} hm hn => by
      rw [get?_mapModels] at hm hn
      obtain ⟨m₀, hm₀, rfl⟩ := Option.map_eq_some_iff.mp hm
      obtain ⟨n₀, hn₀, rfl⟩ := Option.map_eq_some_iff.mp hn
      exact hw hm₀ hn₀ (h.models hm₀ hn₀) }

theorem mapModels {w : String → Model → Model} (hw : ∀ {k m n}, m.Agrees (S k) n → (w k m).Agrees (S k) (w k n)) :
    (d.mapModels w).Agrees S (e.mapModels w) :=
  h.mapBoth fun _ _ hmn => hw hmn

theorem modifyModel {f : Model → Model} (hf : ∀ {m n}, m.Agrees (S k) n → (f m).Agrees (S k) (f n)) :
    (d.modifyModel k f).Agrees S (e.modifyModel k f) := by
  refine h.mapModels fun {j m n} hmn => ?_
  split
  · rename_i hj
    subst hj
    exact hf hmn
  · exact hmn

end Draft.Agrees

end Resolution

end Schemata
