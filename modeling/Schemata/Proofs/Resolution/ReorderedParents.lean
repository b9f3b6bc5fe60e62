import Schemata.Proofs.Resolution.Polymorphic
import Schemata.Proofs.Resolution.ReorderedRelations

/-!
# Parents in another order

The turns that make parents known leave models as they are apart from parents, so that the pointers have the same parents in any
order of the models, though not in one order.
-/

namespace Schemata.Resolution

open Schemata.Convention Resolve

variable {d e d' : Draft} {l : DeclaredRelation} {k : String} {m : Model}

/-! ## Pointing at a parent of any model -/

/-- The link of a pointer that has no parents yet. -/
def pointerLink (l : DeclaredRelation) : Link :=
  .morphTo ⟨[], (l.argument? 0).getD l.name, l.columnMethods.has "nullable"⟩

theorem plans_resolveMorphTo : Plans DeclaredRelation.model (fun _ _ => True) (fun l => modify (resolveMorphTo l))
    fun l _ w => w = fillPlace l (pointerLink l) where
  run {l d e} := by
    rw [modify_run_ok]
    constructor
    · rintro rfl
      exact ⟨_, rfl, rfl⟩
    · rintro ⟨_, rfl, rfl⟩
      rfl
  perm _ _ := trivial
  keep _ _ := trivial
  blind := by
    rintro l d _ rfl
    exact blind_fillPlace l _
  alike _ _ _ hw := hw
  apart _ _ _ := Iff.rfl
  swap := by
    rintro l l' rest d _ _ hne _ rfl rfl k m _
    rw [fillPlace_comm hne]

theorem reordered_morphTo (h : d.Alike d') (hrun : Pass.morphTo.body d = .ok () e) :
    ∃ e', Pass.morphTo.body d' = .ok () e' ∧ e.Alike e' :=
  reordered_lines Draft.lists_of_declaredRelations (fun hk hr => declaredRelations_regrouped hk hr)
    plans_resolveMorphTo.commutes (fun _ => trivial) (fun _ => trivial) h hrun

/-! ## Parents that point at one pointer -/

def readMorphOne (l : DeclaredRelation) (d : Draft) : Except SchemaFault MorphOneOrMany := do
  let target ← d.target l
  return ⟨target, ← boundMorphTo l (← d.model target)⟩

/-- Makes a parent known to a relation of a model. -/
def joinParent (place : MorphOneOrMany) (parent k : String) (m : Model) : Model :=
  if k = place.model then { m with relations := m.relations.modify place.relationKey (Relation.mapMorphTo (·.addModel parent)) }
  else m

theorem Model.withoutParents_addModel (m : Model) (name parent : String) :
    { m with relations := m.relations.modify name (Relation.mapMorphTo (·.addModel parent)) }.withoutParents =
      m.withoutParents :=
  congrArg (fun relations => { m with relations })
    (Slots.mapValues_modify (fun r => r.withoutParents_addModel parent) m.relations name)

theorem outward_resolveMorphOne : Outward (fun l => .update (resolveMorphOne l)) readMorphOne
    (fun l link k m => fillPlace l (morphLink l link) k (joinParent link l.model k m)) .plain where
  run {l d e} := by
    rw [update_run_ok, resolveMorphOne_ok_iff]
    unfold readMorphOne
    simp only [bind_eq_ok, pure_eq_ok, Draft.model_eq_ok]
    constructor
    · rintro ⟨link, m, ht, hm, hkey, rfl⟩
      exact ⟨link, ⟨link.model, ht, m, hm, link.relationKey, hkey, rfl⟩, Draft.mapModels_mapModels ..⟩
    · rintro ⟨_, ⟨target, ht, m, hm, key, hkey, rfl⟩, rfl⟩
      exact ⟨⟨target, key⟩, m, ht, hm, hkey, (Draft.mapModels_mapModels ..).symm⟩
  reads {l d e} h := by
    unfold readMorphOne
    rw [Draft.target_congr h.find]
    refine congrArg _ (funext fun target => h.models.model_bind (fun m => ?_) target)
    rw [boundMorphTo_outline]
  turns l link := by
    refine ⟨morphLink l link, none, by unfold morphLink; split <;> rfl, fun k m => blind_fillPlace l _ ?_⟩
    unfold joinParent
    split
    · exact Model.withoutParents_addModel m _ _
    · rfl

theorem reordered_morphOneOrMany (hd : d.Sound) (hc : d.ClassesDistinct) (hd' : d'.Sound) (hc' : d'.ClassesDistinct)
    (h : d.Alike d') (hrun : Pass.morphOneOrMany.body d = .ok () e) :
    ∃ e', Pass.morphOneOrMany.body d' = .ok () e' ∧ e.Alike e' :=
  reordered_lines (Draft.lists_of_declaredRelationsOf (by decide)) (fun hk hr => declaredRelationsOf_regrouped hk hr)
    (outward_resolveMorphOne.plans (show ∀ kind ∈ [RelationKind.morphOne, .morphMany], kind.needsColumn = false by decide)
      fun hd hl hk hf => resolveMorphOne_edited hd hl hk (update_run_ok.mp hf)).commutes
    (fun hls => ⟨hd, hc, hls.declares⟩) (fun hls => ⟨hd', hc', hls.declares⟩) h hrun

/-! ## Parents that are linked through a table -/

theorem readLinkMorphs_congr (h : d.SameOutlines e) (l : DeclaredRelation) (target : String) (pivot : Option String) :
    readLinkMorphs l target pivot e = readLinkMorphs l target pivot d := by
  have htable : ∀ key, Model.table <$> e.model key = Model.table <$> d.model key := h.model_map fun _ => rfl
  have hname : ∀ key, (morphName ·.className) <$> e.model key = (morphName ·.className) <$> d.model key :=
    h.model_map fun _ => rfl
  unfold readLinkMorphs
  simp only [htable, hname]

def readMorphs (l : DeclaredRelation) (d : Draft) : Except SchemaFault MorphToMany := do
  let target ← d.target l
  readLinkMorphs l target (← pivotModel? l d) d

/-- Makes the parent of a link known to its pivot model. -/
def joinPivot (l : DeclaredRelation) (link : MorphToMany) (k : String) (m : Model) : Model :=
  if link.pivot = some k then addParent link.relationKey (morphSides l link.model).1 m else m

theorem Model.withoutParents_addParent (columnName parent : String) (m : Model) :
    (addParent columnName parent m).withoutParents = m.withoutParents := by
  unfold addParent
  split
  · exact withoutParents_addModel m _ _
  · rfl

theorem outward_resolveMorphs : Outward resolveMorphs readMorphs
    (fun l link k m => fillPlace l (morphsLink l link) k (joinPivot l link k (claimType link.pivot .morphPivot k m))) .morphPivot where
  run {l d e} := by
    have hjoin : ∀ (c : Draft) (link : MorphToMany), (link.pivot.elim c fun key =>
        c.modifyModel key (addParent link.relationKey (morphSides l link.model).1)) = c.mapModels (joinPivot l link) := by
      intro c link
      unfold joinPivot
      cases link.pivot with
      | none => exact (Draft.mapModels_id fun _ _ => rfl).symm
      | some key =>
        refine congrArg c.mapModels (funext fun k => funext fun m => ?_)
        simp only [Option.some_inj, eq_comm]
    rw [resolveMorphs_ok_iff]
    unfold readMorphs
    simp only [bind_eq_ok, claimPivot_run_ok, linkMorphs_eq, map_eq_ok]
    constructor
    · rintro ⟨target, pivot, _, ht, ⟨hp, rfl⟩, link, hlink, rfl⟩
      have hs := sameOutlines_claimType d pivot .morphPivot
      have hread := (readLinkMorphs_congr hs l target pivot).symm.trans hlink
      obtain ⟨rfl, rfl, _⟩ := readLinkMorphs_ok hlink
      refine ⟨link, ⟨_, ht, _, hp, hread⟩, ?_⟩
      rw [hjoin, Draft.mapModels_mapModels]
      exact Draft.mapModels_mapModels ..
    · rintro ⟨link, ⟨target, ht, pivot, hp, hread⟩, rfl⟩
      have hs := sameOutlines_claimType d pivot .morphPivot
      have hlink := (readLinkMorphs_congr hs l target pivot).trans hread
      obtain ⟨rfl, rfl, _⟩ := readLinkMorphs_ok hlink
      refine ⟨_, _, _, ht, ⟨hp, rfl⟩, link, hlink, ?_⟩
      rw [hjoin, Draft.mapModels_mapModels]
      exact Draft.mapModels_mapModels ..
  reads {l d e} h := by
    unfold readMorphs
    simp only [Draft.target_congr h.find, pivotModel?_congr h.find, readLinkMorphs_congr h.models]
  turns l link := by
    refine ⟨morphsLink l link, link.pivot, by unfold morphsLink; split <;> rfl, fun k m => blind_fillPlace l _ ?_⟩
    unfold joinPivot
    split
    · exact Model.withoutParents_addParent _ _ _
    · rfl

theorem reordered_morphToMany (hd : d.Sound) (hc : d.ClassesDistinct) (hd' : d'.Sound) (hc' : d'.ClassesDistinct)
    (h : d.Alike d') (hrun : Pass.morphToMany.body d = .ok () e) :
    ∃ e', Pass.morphToMany.body d' = .ok () e' ∧ e.Alike e' :=
  reordered_lines (Draft.lists_of_declaredRelationsOf (by decide)) (fun hk hr => declaredRelationsOf_regrouped hk hr)
    (outward_resolveMorphs.plans
      (show ∀ kind ∈ [RelationKind.morphToMany, .morphedByMany], kind.needsColumn = false by decide)
      fun hd hl hk hf => resolveMorphs_edited hd hl hk hf).commutes
    (fun hls => ⟨hd, hc, hls.declares⟩) (fun hls => ⟨hd', hc', hls.declares⟩) h hrun

end Schemata.Resolution
