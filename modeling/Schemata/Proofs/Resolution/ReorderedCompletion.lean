import Schemata.Proofs.Resolution.Attributes
import Schemata.Proofs.Resolution.Parents
import Schemata.Proofs.Resolution.ReorderedRelations

/-!
# Models completed in another order

What completes a model is read off its own columns, the keys of the parents of its pointers and the relations of other models. None
of this changes from turn to turn, and the parents of a pointer count as a set.
-/

namespace Schemata.Resolution

open Resolve

variable {d e d' : Draft} {k : String} {m n : Model}

/-! ## Pivot models -/

theorem withoutParents_dropAddedKey (m : Model) : (dropAddedKey m).withoutParents = dropAddedKey m.withoutParents := by
  unfold dropAddedKey
  split <;> rename_i h
  · exact (if_pos h).symm
  · exact (if_neg h).symm

theorem checkPivot_withoutParents (d : Draft) (owner : String) (r : Relation) :
    checkPivot d owner r.withoutParents = checkPivot d owner r := by
  obtain ⟨name, methods, link⟩ := r
  cases link <;> rfl

theorem checkPivot_congr (h : d.SameOutlines e) (owner : String) (r : Relation) : checkPivot e owner r = checkPivot d owner r := by
  unfold checkPivot
  cases r.link.pivot? with
  | none => rfl
  | some key =>
    refine h.model_bind (fun m => ?_) key
    have hpointers : m.outline.morphToRelations.isEmpty = m.morphToRelations.isEmpty := by
      rw [m.morphToRelations_outline, List.isEmpty_map]
    simp only [hpointers, m.belongsTo?_outline]

theorem exists_relation_of_withoutParents (h : n.withoutParents = m.withoutParents) {r : Relation} (hr : r ∈ n.relations.values) :
    ∃ r' ∈ m.relations.values, r'.withoutParents = r.withoutParents := by
  have hvalues : n.relations.values.map Relation.withoutParents = m.relations.values.map Relation.withoutParents := by
    rw [← Slots.values_mapValues, ← Slots.values_mapValues]
    exact congrArg (fun o : Model => o.relations.values) h
  have hmem := List.mem_map_of_mem (f := Relation.withoutParents) hr
  rw [hvalues] at hmem
  exact List.mem_map.mp hmem

/-- The added keys are given up, and the same checks are made, in any order. -/
theorem reordered_pivotModels (h : d.Alike d') (hrun : Pass.pivotModels.body d = .ok () e) :
    ∃ e', Pass.pivotModels.body d' = .ok () e' ∧ e.Alike e' := by
  obtain ⟨rfl, hchecked⟩ := pivotModels_ok hrun
  have halike : (d.mapModels fun _ m => dropAddedKey m).Alike (d'.mapModels fun _ m => dropAddedKey m) := by
    refine h.mapModels fun k m n hmn => ?_
    rw [withoutParents_dropAddedKey, hmn, withoutParents_dropAddedKey]
  refine ⟨_, bind_run_ok.mpr ⟨(), _, modify_run_ok.mpr rfl, inspect_run_ok.mpr ⟨?_, rfl⟩⟩, halike⟩
  refine forM_eq_ok.mpr fun n hn => forM_eq_ok.mpr fun r hr => ?_
  obtain ⟨k, hn⟩ := OrderedMap.mem_values_iff.mp hn
  obtain ⟨m, hm, hmn⟩ := halike.symm.exists_model hn
  obtain ⟨r', hr', hrr'⟩ := exists_relation_of_withoutParents hmn.symm hr
  have hkey : m.key = n.key := Model.congr_withoutParents (fun _ => rfl) hmn
  have hok := forM_eq_ok.mp (forM_eq_ok.mp hchecked m (OrderedMap.mem_values_iff.mpr ⟨k, hm⟩)) r' hr'
  change checkPivot (d'.mapModels fun _ m => dropAddedKey m) n.key r = _
  rw [checkPivot_congr halike.sameOutlines, ← checkPivot_withoutParents, ← hrr', checkPivot_withoutParents, ← hkey]
  exact hok

/-! ## Pointers -/

/-- The column pair of a pointer follows from its line and from the keys of its parents, in whatever order they come. -/
theorem resolveMorphColumns_iff {relation : String} {link : MorphTo} : resolveMorphColumns k relation link d = .ok e ↔
    ∃ shape found column, Agree d.models link.models shape ∧ d.declaredRelation? k relation = .ok found ∧
      column = morphColumn relation link shape (found.elim .empty (·.columnMethods)) ∧
      e = d.modifyModel k fun m => { m with columns := m.columns.resolve relation column } := by
  constructor
  · intro h
    obtain ⟨parents, shape, found, column, hne, hp, hs, hf, hcolumn, rfl⟩ := resolveMorphColumns_ok_iff.mp h
    exact ⟨shape, found, column, agree_of_commonShape? hne hp hs, hf, hcolumn, rfl⟩
  · rintro ⟨shape, found, _, hagree, hf, rfl, rfl⟩
    obtain ⟨parents, hp⟩ : ∃ parents, link.models.mapM d.model = .ok parents := by
      refine exists_mapM fun p hp => ?_
      obtain ⟨m, hm, _⟩ := hagree.shape p hp
      exact ⟨m, Draft.model_eq_ok.mpr hm⟩
    have hall := mapM_eq_ok.mp hp
    have hs : commonShape? parents = some shape := by
      refine commonShape?_eq_some_iff.mpr ⟨?_, hagree.usable, fun m hm => ?_⟩
      · rintro rfl
        exact hagree.nonempty (List.forall₂_nil_right_iff.mp hall)
      · obtain ⟨p, hp, hmodel⟩ := mem_of_forall₂ hall hm
        obtain ⟨m', hm', hshape⟩ := hagree.shape p hp
        obtain rfl := Option.some_inj.mp ((Draft.model_eq_ok.mp hmodel).symm.trans hm')
        exact hshape
    exact resolveMorphColumns_ok_iff.mpr ⟨parents, shape, found, _, hagree.nonempty, hp, hs, hf, rfl, rfl⟩

/-- The parents of pointers are the same, in any order. -/
def Draft.SameParents (d e : Draft) : Prop :=
  ∀ ⦃place t t'⦄, (place, t) ∈ d.pointers → (place, t') ∈ e.pointers → ∀ p, p ∈ t'.models ↔ p ∈ t.models

/-- Pointers that are the same up to the order of their parents. -/
structure SamePointer (x y : RelationName × MorphTo) : Prop where
  place : y.1 = x.1
  columnName : y.2.columnName = x.2.columnName
  nullable : y.2.nullable = x.2.nullable
  parents : ∀ p, p ∈ y.2.models ↔ p ∈ x.2.models

theorem Agree.of_mem_iff {models : OrderedMap Model} {parents parents' : List String} {shape : KeyShape}
    (h : ∀ p, p ∈ parents' ↔ p ∈ parents) (ha : Agree models parents shape) : Agree models parents' shape where
  nonempty := by
    obtain ⟨p, hp⟩ := List.exists_mem_of_ne_nil parents ha.nonempty
    exact List.ne_nil_of_mem ((h p).mpr hp)
  usable := ha.usable
  shape p hp := ha.shape p ((h p).mp hp)

theorem SamePointer.resolveMorphColumns {x y : RelationName × MorphTo} (h : SamePointer x y)
    (hx : resolveMorphColumns x.1.model x.1.name x.2 d = .ok e) : resolveMorphColumns y.1.model y.1.name y.2 d = .ok e := by
  obtain ⟨shape, found, column, hagree, hf, hcolumn, rfl⟩ := resolveMorphColumns_iff.mp hx
  rw [h.place]
  refine resolveMorphColumns_iff.mpr ⟨shape, found, column, hagree.of_mem_iff h.parents, hf, ?_, rfl⟩
  unfold morphColumn
  rw [h.columnName, h.nullable]
  exact hcolumn

/-- The pointers of a model. -/
def pointersOf (k : String) (m : Model) : List (RelationName × MorphTo) :=
  m.morphToRelations.map fun (r, link) => (⟨k, r.name⟩, link)

theorem model_of_mem_pointersOf {x : RelationName × MorphTo} (hx : x ∈ pointersOf k m) : x.1.model = k := by
  obtain ⟨_, _, rfl⟩ := List.mem_map.mp hx
  rfl

theorem Draft.Keyed.pointers_eq (hd : d.Keyed) : d.pointers = d.models.entries.flatMap fun (k, m) => pointersOf k m := by
  unfold Draft.pointers OrderedMap.values
  rw [List.flatMap_map]
  refine List.flatMap_congr fun (k, m) hm => ?_
  have hkey : m.key = k := hd k m (OrderedMap.get?_eq_some_iff.mpr hm)
  unfold pointersOf
  rw [hkey]

/-- The pointers of models that are the same apart from parents come in the same order. -/
theorem Draft.SameParents.forall₂_pointersOf (h : d.SameParents d') (hd : d.Keyed) (hd' : d'.Keyed) (hm : d.models.get? k = some m)
    (hn : d'.models.get? k = some n) (hmn : n.withoutParents = m.withoutParents) :
    List.Forall₂ SamePointer (pointersOf k m) (pointersOf k n) := by
  have hbare : m.morphToRelations.map barePointer = n.morphToRelations.map barePointer := by
    rw [← m.morphToRelations_outline, ← n.morphToRelations_outline, Model.outline_congr hmn]
  have hpairs : List.Forall₂ (fun x y => barePointer x = barePointer y) m.morphToRelations n.morphToRelations :=
    List.forall₂_map_left_iff.mp (List.forall₂_map_right_iff.mp (List.forall₂_eq_eq_eq ▸ hbare))
  have hmem : ∀ {c : Draft} {o}, c.Keyed → c.models.get? k = some o → ∀ x ∈ pointersOf k o, x ∈ c.pointers := fun hc ho x hx =>
    hc.pointers_eq ▸ List.mem_flatMap.mpr ⟨(k, _), OrderedMap.get?_eq_some_iff.mp ho, hx⟩
  refine List.forall₂_iff_zip.mpr ⟨?_, fun {x y} hxy => ?_⟩
  · simpa [pointersOf] using hpairs.length_eq
  · obtain ⟨hx, hy⟩ := List.of_mem_zip hxy
    unfold pointersOf at hxy
    rw [List.zip_map] at hxy
    obtain ⟨⟨a, b⟩, hab, heq⟩ := List.mem_map.mp hxy
    obtain ⟨rfl, rfl⟩ := Prod.mk.inj heq
    obtain ⟨hr, ht⟩ := Prod.mk.inj ((List.forall₂_iff_zip.mp hpairs).2 hab)
    have hname : b.1.name = a.1.name :=
      (Relation.name_mapMorphTo _ b.1).symm.trans ((congrArg Relation.name hr.symm).trans (Relation.name_mapMorphTo _ a.1))
    have hplace : (⟨k, b.1.name⟩ : RelationName) = ⟨k, a.1.name⟩ := congrArg (RelationName.mk k) hname
    obtain ⟨_, hcolumn, hnullable⟩ := MorphTo.mk.inj ht
    refine ⟨hplace, hcolumn.symm, hnullable.symm, fun p => ?_⟩
    exact h (hmem hd hm _ hx) (hplace ▸ hmem hd' hn _ hy) p

/-- A turn puts a column pair that the keys of the parents ask for. -/
def PutsPair (x : RelationName × MorphTo) (d : Draft) (w : String → Model → Model) : Prop :=
  ∃ shape found column, Agree d.models x.2.models shape ∧ d.declaredRelation? x.1.model x.1.name = .ok found ∧
    column = morphColumn x.1.name x.2 shape (found.elim .empty (·.columnMethods)) ∧
    w = fun k m => if k = x.1.model then { m with columns := m.columns.resolve x.1.name column } else m

theorem agree_congr {models models' : OrderedMap Model} {parents : List String} {shape : KeyShape}
    (h : ∀ k, (models'.get? k).map KeyShape.of = (models.get? k).map KeyShape.of) (ha : Agree models parents shape) :
    Agree models' parents shape where
  nonempty := ha.nonempty
  usable := ha.usable
  shape p hp := by
    obtain ⟨m, hm, hs⟩ := ha.shape p hp
    have hp := h p
    rw [hm] at hp
    obtain ⟨n, hn, heq⟩ := Option.map_eq_some_iff.mp hp
    exact ⟨n, hn, heq.trans hs⟩

theorem putsPair_congr {x : RelationName × MorphTo} {w : String → Model → Model}
    (h : ∀ k, (e.models.get? k).map KeyShape.of = (d.models.get? k).map KeyShape.of)
    (hs : ∀ k, e.declarations.get? k = d.declarations.get? k) : PutsPair x e w ↔ PutsPair x d w := by
  have hline : e.declaredRelation? x.1.model x.1.name = d.declaredRelation? x.1.model x.1.name := by
    unfold Draft.declaredRelation? Draft.declaration
    rw [hs]
  have hagree : ∀ shape, Agree e.models x.2.models shape ↔ Agree d.models x.2.models shape := fun shape =>
    ⟨agree_congr fun k => (h k).symm, agree_congr h⟩
  unfold PutsPair
  simp only [hline, hagree]

theorem plans_resolveMorphColumns : Plans (fun x : RelationName × MorphTo => x.1.model) (fun _ _ => True)
    (fun x => .update (resolveMorphColumns x.1.model x.1.name x.2)) PutsPair where
  run {x d e} := by
    refine update_run_ok.trans (resolveMorphColumns_iff.trans ?_)
    constructor
    · rintro ⟨shape, found, column, hagree, hf, hcolumn, rfl⟩
      exact ⟨_, ⟨shape, found, column, hagree, hf, hcolumn, rfl⟩, rfl⟩
    · rintro ⟨_, ⟨shape, found, column, hagree, hf, hcolumn, rfl⟩, rfl⟩
      exact ⟨shape, found, column, hagree, hf, hcolumn, rfl⟩
  perm _ _ := trivial
  keep _ _ := trivial
  blind := by
    rintro x d _ ⟨_, _, column, _, _, _, rfl⟩ k m n h
    dsimp only
    split
    · exact congrArg (fun o : Model => { o with columns := o.columns.resolve x.1.name column }) h
    · exact h
  alike _ _ h := (putsPair_congr (h.sameOutlines.map_eq fun _ => rfl) h.declarations).mpr
  apart := by
    rintro x y rest d _ w' _ _ ⟨_, _, column, _, _, _, rfl⟩
    refine putsPair_congr (fun k => ?_) fun _ => rfl
    rw [Draft.get?_mapModels]
    cases d.models.get? k with
    | none => rfl
    | some m =>
      refine congrArg some ?_
      dsimp only
      split <;> rfl
  swap := by
    rintro x y rest d _ _ hne _ ⟨_, _, column, _, _, _, rfl⟩ ⟨_, _, column', _, _, _, rfl⟩ k m _
    dsimp only
    by_cases hk : k = x.1.model
    · rw [if_neg fun h => hne (hk.symm.trans h), if_neg fun h => hne (hk.symm.trans h)]
    · rw [if_neg hk, if_neg hk]

theorem forM_of_forall₂ {α β : Type} {R : α → β → Prop} {f : α → Resolve Unit} {g : β → Resolve Unit}
    (hfg : ∀ {x y d e}, R x y → f x d = .ok () e → g y d = .ok () e) {xs : List α} {ys : List β} (h : List.Forall₂ R xs ys)
    (hf : xs.forM f d = .ok () e) : ys.forM g d = .ok () e := by
  induction h generalizing d with
  | nil => exact hf
  | cons hxy _ ih =>
    obtain ⟨c, hx, hrest⟩ := forM_cons_run_ok.mp hf
    exact forM_cons_run_ok.mpr ⟨c, hfg hxy hx, ih hrest⟩

/-- The pointers of the model of a key. -/
def Draft.pointersAt (d : Draft) (k : String) : List (RelationName × MorphTo) :=
  (d.models.get? k).elim [] (pointersOf k)

theorem model_of_mem_pointersAt {x : RelationName × MorphTo} (hx : x ∈ d.pointersAt k) : x.1.model = k := by
  unfold Draft.pointersAt at hx
  cases hm : d.models.get? k with
  | none =>
    rw [hm] at hx
    exact absurd hx List.not_mem_nil
  | some m =>
    rw [hm] at hx
    exact model_of_mem_pointersOf hx

/-- The pointers of one draft come in the order of another as those of each model. -/
theorem regrouped_pointers (hd : d.Keyed) (h : d.Alike d') : Regrouped (fun x : RelationName × MorphTo => x.1.model) d.pointers
    (d'.models.entries.flatMap fun x => d.pointersAt x.1) := by
  intro k
  rw [d'.models.filter_flatMap (g := fun k _ => d.pointersAt k) fun _ _ _ => model_of_mem_pointersAt, hd.pointers_eq,
    d.models.filter_flatMap (g := pointersOf) fun _ _ _ => model_of_mem_pointersOf]
  have hk := h.models k
  cases hm : d.models.get? k with
  | none =>
    rw [hm] at hk
    rw [Option.map_eq_none_iff.mp hk]
    rfl
  | some m =>
    obtain ⟨n, hn, _⟩ := h.exists_model hm
    rw [hn, Draft.pointersAt, hm]
    rfl

theorem Draft.SameParents.forall₂_pointers (hp : d.SameParents d') (hd : d.Keyed) (hd' : d'.Keyed) (h : d.Alike d') :
    List.Forall₂ SamePointer (d'.models.entries.flatMap fun x => d.pointersAt x.1) d'.pointers := by
  rw [hd'.pointers_eq]
  refine List.rel_flatten (List.forall₂_map_left_iff.mpr (List.forall₂_map_right_iff.mpr (List.forall₂_same.mpr fun x hx => ?_)))
  have hn := OrderedMap.get?_eq_some_iff.mpr hx
  obtain ⟨m, hm, hmn⟩ := h.symm.exists_model hn
  rw [Draft.pointersAt, hm]
  exact hp.forall₂_pointersOf hd hd' hm hn hmn.symm

/-- Pointers get the same column pairs in any order, since only the keys of their parents count. -/
theorem reordered_morphColumns (hd : d.Keyed) (hd' : d'.Keyed) (h : d.Alike d') (hp : d.SameParents d')
    (hrun : Pass.morphColumns.body d = .ok () e) : ∃ e', Pass.morphColumns.body d' = .ok () e' ∧ e.Alike e' := by
  rw [morphColumns_run] at hrun
  obtain ⟨e', he', halike⟩ :=
    plans_resolveMorphColumns.commutes.forM_regrouped (regrouped_pointers hd h) trivial trivial h hrun
  refine ⟨e', ?_, halike⟩
  rw [morphColumns_run]
  exact forM_of_forall₂ (fun hxy hx => update_run_ok.mpr (hxy.resolveMorphColumns (update_run_ok.mp hx)))
    (hp.forall₂_pointers hd hd' h) he'

/-! ## Attributes -/

theorem isSome_relation?_withoutParents (m : Model) (name : String) :
    (m.withoutParents.relation? name).isSome = (m.relation? name).isSome := by
  unfold Model.relation? Model.withoutParents
  rw [Slots.get?_mapValues, Option.isSome_map]

theorem checkAttributes_withoutParents (m : Model) (s : ModelDeclaration) :
    checkAttributes m.withoutParents s = checkAttributes m s := by
  unfold checkAttributes
  simp only [isSome_relation?_withoutParents]
  rfl

theorem Relation.model?_withoutParents (r : Relation) : r.withoutParents.link.model? = r.link.model? := by
  obtain ⟨name, methods, link⟩ := r
  cases link <;> rfl

/-- A path goes the same way in models whose relations are the same apart from parents. -/
theorem followPath_congr
    (h : ∀ k, (e.models.get? k).map (·.withoutParents.relations) = (d.models.get? k).map (·.withoutParents.relations))
    (key path current : String) (segments : List String) :
    followPath e key path current segments = followPath d key path current segments := by
  induction segments generalizing current with
  | nil => rfl
  | cons segment rest ih =>
    have hcurrent := h current
    unfold followPath Draft.model
    cases hm : d.models.get? current with
    | none =>
      rw [hm] at hcurrent
      rw [Option.map_eq_none_iff.mp hcurrent]
      rfl
    | some m =>
      rw [hm] at hcurrent
      obtain ⟨n, hn, heq⟩ := Option.map_eq_some_iff.mp hcurrent
      rw [hn]
      have hrelation : (n.relation? segment).map Relation.withoutParents = (m.relation? segment).map Relation.withoutParents := by
        unfold Model.relation?
        rw [← Slots.get?_mapValues, ← Slots.get?_mapValues]
        exact congrArg (Slots.get? · segment) heq
      dsimp only [bind, Except.bind, pure, Except.pure]
      cases hr : m.relation? segment with
      | none =>
        rw [hr] at hrelation
        rw [Option.map_eq_none_iff.mp hrelation]
      | some r =>
        rw [hr] at hrelation
        obtain ⟨r', hr', hrr'⟩ := Option.map_eq_some_iff.mp hrelation
        rw [hr']
        dsimp only
        rw [← Relation.model?_withoutParents r', hrr', Relation.model?_withoutParents r]
        cases r.link.model? with
        | none => rfl
        | some next => exact ih next

theorem checkEager_congr
    (h : ∀ k, (e.models.get? k).map (·.withoutParents.relations) = (d.models.get? k).map (·.withoutParents.relations))
    (key : String) (paths : List String) : checkEager e key paths = checkEager d key paths := by
  unfold checkEager
  simp only [followPath_congr h]

/-- A turn gives a model the attributes of its declaration, once they are checked. -/
def PutsAttributes (key : String) (d : Draft) (w : String → Model → Model) : Prop :=
  ∃ s m, d.declarations.get? key = some s ∧ d.models.get? key = some m ∧ checkAttributes m s = .ok () ∧
    checkEager d key s.eager = .ok () ∧ w = fun k m => if k = key then withAttributes s m else m

theorem plans_resolveAttributes : Plans (fun key : String => key) (fun _ _ => True)
    (fun key => .update (resolveAttributes key)) PutsAttributes where
  run {key d e} := by
    refine update_run_ok.trans (resolveAttributes_ok_iff.trans ?_)
    constructor
    · rintro ⟨s, m, hs, hm, hcheck, heager, rfl⟩
      exact ⟨_, ⟨s, m, hs, hm, hcheck, heager, rfl⟩, rfl⟩
    · rintro ⟨_, ⟨s, m, hs, hm, hcheck, heager, rfl⟩, rfl⟩
      exact ⟨s, m, hs, hm, hcheck, heager, rfl⟩
  perm _ _ := trivial
  keep _ _ := trivial
  blind := by
    rintro key d _ ⟨s, _, _, _, _, _, rfl⟩ k m n h
    dsimp only
    split
    · have hwith : ∀ o, (withAttributes s o).withoutParents = withAttributes s o.withoutParents := fun _ => rfl
      rw [hwith, h, hwith]
    · exact h
  alike := by
    rintro key rest rest' d d' _ _ _ h ⟨s, m, hs, hm, hcheck, heager, rfl⟩
    obtain ⟨n, hn, hmn⟩ := h.exists_model hm
    have hrelations : ∀ k, (d'.models.get? k).map (·.withoutParents.relations) =
        (d.models.get? k).map (·.withoutParents.relations) := by
      intro k
      have hk := congrArg (Option.map Model.relations) (h.models k)
      rwa [Option.map_map, Option.map_map] at hk
    refine ⟨s, n, (h.declarations key).trans hs, hn, ?_, (checkEager_congr hrelations key _).trans heager, rfl⟩
    rw [← checkAttributes_withoutParents, hmn, checkAttributes_withoutParents]
    exact hcheck
  apart := by
    rintro key key' rest d _ w' hne _ ⟨s, _, _, _, _, _, rfl⟩
    have hown : (d.mapModels fun k m => if k = key then withAttributes s m else m).models.get? key' = d.models.get? key' := by
      rw [Draft.get?_mapModels]
      simp only [if_neg hne.symm, Option.map_id']
    have heager := checkEager_congr (d := d) (e := d.mapModels fun k m => if k = key then withAttributes s m else m)
      (fun k => by
        rw [Draft.get?_mapModels, Option.map_map]
        refine congrArg (Option.map · _) (funext fun m => ?_)
        dsimp only [Function.comp]
        split <;> rfl) key'
    simp only [PutsAttributes, hown, heager]
    rfl
  swap := by
    rintro key key' rest d _ _ hne _ ⟨s, _, _, _, _, _, rfl⟩ ⟨s', _, _, _, _, _, rfl⟩ k m _
    dsimp only
    by_cases hk : k = key
    · rw [if_neg fun h => hne (hk.symm.trans h), if_neg fun h => hne (hk.symm.trans h)]
    · rw [if_neg hk, if_neg hk]

theorem reordered_modelAttributes (h : d.Alike d') (hrun : Pass.modelAttributes.body d = .ok () e) :
    ∃ e', Pass.modelAttributes.body d' = .ok () e' ∧ e.Alike e' := by
  rw [modelAttributes_run] at hrun
  have hregrouped : Regrouped (fun key : String => key) d.models.keys d'.models.keys :=
    .of_perm (by simpa using d.models.keys_nodup) h.keys_perm
  obtain ⟨e', he', halike⟩ := plans_resolveAttributes.commutes.forM_regrouped hregrouped trivial trivial h hrun
  exact ⟨e', he', halike⟩

/-! ## Completion -/

theorem checkComplete_withoutParents (m : Model) : checkComplete m.withoutParents = checkComplete m := by
  have hpending : m.withoutParents.relations.pendingKeys = m.relations.pendingKeys := by
    unfold Model.withoutParents Slots.mapValues Slots.pendingKeys OrderedMap.mapEntries
    simp only [List.filter_map, List.map_map]
    refine congrArg (List.map Prod.fst) (List.filter_congr fun x _ => ?_)
    obtain ⟨k, slot⟩ := x
    cases slot <;> rfl
  unfold checkComplete
  rw [hpending]
  rfl

theorem reordered_finalizeModels (h : d.Alike d') (hrun : Pass.finalizeModels.body d = .ok () e) :
    ∃ e', Pass.finalizeModels.body d' = .ok () e' ∧ e.Alike e' := by
  obtain ⟨rfl, hchecked⟩ := finalizeModels_ok hrun
  have hall : d'.models.values.forM checkComplete = .ok () := by
    refine forM_eq_ok.mpr fun n hn => ?_
    obtain ⟨k, hn⟩ := OrderedMap.mem_values_iff.mp hn
    obtain ⟨m, hm, hmn⟩ := h.symm.exists_model hn
    rw [← Model.congr_withoutParents checkComplete_withoutParents hmn]
    exact hchecked m (OrderedMap.mem_values_iff.mpr ⟨k, hm⟩)
  refine ⟨d', ?_, h⟩
  rw [finalizeModels_run, hall]

end Schemata.Resolution
