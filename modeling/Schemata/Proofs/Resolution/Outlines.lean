import Schemata.Proofs.Resolution.Polymorphic
import Schemata.Proofs.Resolution.Reordering

/-!
# What relations read of models

A relation that a turn resolves is read off the identity of models, their keys, and those of their relations that stand in columns.
No such turn changes any of this, so that turns of one pass read the same in any order.
-/

namespace Schemata

/-- A relation as others see it. Those that stand in no column are not seen, and parents are not. -/
def Relation.outline? (r : Relation) : Option Relation :=
  if r.kind.needsColumn then some r.withoutParents else none

theorem Relation.kind_withoutParents (r : Relation) : r.withoutParents.kind = r.kind :=
  r.kind_mapMorphTo _

theorem Relation.withoutParents_withoutParents (r : Relation) : r.withoutParents.withoutParents = r.withoutParents := by
  obtain ⟨name, methods, link⟩ := r
  cases link <;> rfl

theorem Relation.outline?_withoutParents (r : Relation) : r.withoutParents.outline? = r.outline? := by
  unfold outline?
  rw [kind_withoutParents, withoutParents_withoutParents]

theorem Relation.belongsTo?_outline? (r : Relation) :
    (r.outline?.bind fun r => r.belongsTo?.map (r, ·)) = r.belongsTo?.map (r, ·) := by
  obtain ⟨name, methods, link⟩ := r
  cases link <;> rfl

/-- A pointer as it is apart from its parents. -/
def barePointer (x : Relation × MorphTo) : Relation × MorphTo :=
  (x.1.withoutParents, { x.2 with models := [] })

theorem Relation.morphTo?_outline? (r : Relation) :
    (r.outline?.bind fun r => r.morphTo?.map (r, ·)) = (r.morphTo?.map (r, ·)).map barePointer := by
  obtain ⟨name, methods, link⟩ := r
  cases link <;> rfl

/-- A model as relations see it. -/
def Model.outline (m : Model) : Model :=
  { m with
    type := .plain
    relations := ⟨m.relations.map.mapEntries fun _ slot => .ofOption (slot.value?.bind Relation.outline?)⟩ }

namespace Model

variable {m n : Model}

theorem outline_withoutParents (m : Model) : m.withoutParents.outline = m.outline := by
  have hrelations : m.withoutParents.outline.relations = m.outline.relations := by
    unfold outline withoutParents Slots.mapValues
    dsimp only
    rw [OrderedMap.mapEntries_mapEntries]
    refine congrArg (fun h => Slots.mk (m.relations.map.mapEntries h)) (funext fun _ => funext fun slot => ?_)
    cases slot with
    | pending => rfl
    | resolved r => exact congrArg Slot.ofOption r.outline?_withoutParents
  exact congrArg (fun relations => { m with type := .plain, relations }) hrelations

theorem outline_congr (h : n.withoutParents = m.withoutParents) : n.outline = m.outline := by
  rw [← n.outline_withoutParents, h, m.outline_withoutParents]

theorem slot?_outline (m : Model) (name : String) : m.outline.relations.slot? name =
    (m.relations.slot? name).map fun slot => .ofOption (slot.value?.bind Relation.outline?) :=
  m.relations.map.get?_mapEntries _ name

theorem relation?_outline (m : Model) (name : String) : m.outline.relation? name = (m.relation? name).bind Relation.outline? := by
  unfold relation? Slots.get?
  rw [slot?_outline]
  cases m.relations.slot? name with
  | none => rfl
  | some slot =>
    cases slot with
    | pending => rfl
    | resolved r => cases hr : r.outline? <;> simp [Slot.value?, Slot.ofOption, hr]

theorem values_outline (m : Model) : m.outline.relations.values = m.relations.values.filterMap Relation.outline? := by
  unfold outline Slots.values Slots.resolved OrderedMap.mapEntries
  simp only [List.map_filterMap, List.filterMap_map, List.filterMap_filterMap]
  refine congrArg (List.filterMap · _) (funext fun x => ?_)
  obtain ⟨k, slot⟩ := x
  cases slot with
  | pending => rfl
  | resolved r => cases hr : r.outline? <;> simp [Slot.value?, Slot.ofOption, hr]

theorem belongsToRelations_outline (m : Model) : m.outline.belongsToRelations = m.belongsToRelations := by
  unfold belongsToRelations
  rw [values_outline, List.filterMap_filterMap]
  exact congrArg (List.filterMap · _) (funext Relation.belongsTo?_outline?)

theorem belongsTo?_outline (m : Model) (target : String) : m.outline.belongsTo? target = m.belongsTo? target := by
  unfold belongsTo?
  rw [belongsToRelations_outline]

theorem morphToRelations_outline (m : Model) : m.outline.morphToRelations = m.morphToRelations.map barePointer := by
  unfold morphToRelations
  rw [values_outline, List.filterMap_filterMap, List.map_filterMap]
  exact congrArg (List.filterMap · _) (funext Relation.morphTo?_outline?)

end Model

namespace Resolution

theorem boundMorphTo_outline (l : DeclaredRelation) (m : Model) : boundMorphTo l m.outline = boundMorphTo l m := by
  unfold boundMorphTo
  rw [m.morphToRelations_outline]
  cases l.argument? 1 with
  | some name =>
    have hsome : ((m.outline.relation? name).bind Relation.morphTo?).isSome = ((m.relation? name).bind Relation.morphTo?).isSome := by
      rw [m.relation?_outline]
      cases m.relation? name with
      | none => rfl
      | some r =>
        obtain ⟨name, methods, link⟩ := r
        cases link <;> rfl
    dsimp only
    rw [hsome]
    rfl
  | none =>
    dsimp only
    rcases m.morphToRelations with _ | ⟨x, _ | ⟨y, rest⟩⟩
    · rfl
    · exact congrArg Except.ok (Relation.name_mapMorphTo _ x.1)
    · rfl

/-! ## Drafts with the same outlines -/

section

variable {d e : Draft}

/-- Models that relations see alike. -/
def Draft.SameOutlines (d e : Draft) : Prop :=
  ∀ k, (e.models.get? k).map Model.outline = (d.models.get? k).map Model.outline

namespace Draft.SameOutlines

variable (h : d.SameOutlines e)
include h

theorem map_eq {γ : Type} {g : Model → γ} (hg : ∀ m, g m.outline = g m) (k : String) :
    (e.models.get? k).map g = (d.models.get? k).map g := by
  have hmap : ∀ x : Option Model, (x.map Model.outline).map g = x.map g := by
    intro x
    cases x with
    | none => rfl
    | some m => exact congrArg some (hg m)
  rw [← hmap, h, hmap]

/-- What reads of a model what others see of it reads the same in both drafts. -/
theorem model_bind {β : Type} {g : Model → Except SchemaFault β} (hg : ∀ m, g m.outline = g m) (k : String) :
    (e.model k >>= g) = (d.model k >>= g) := by
  have hk := h.map_eq hg k
  unfold Draft.model
  cases hd : d.models.get? k with
  | none =>
    rw [hd] at hk
    rw [Option.map_eq_none_iff.mp hk]
  | some m =>
    rw [hd] at hk
    obtain ⟨n, hn, heq⟩ := Option.map_eq_some_iff.mp hk
    rw [hn]
    exact heq

theorem model_map {β : Type} {g : Model → β} (hg : ∀ m, g m.outline = g m) (k : String) : g <$> e.model k = g <$> d.model k := by
  have hbind := h.model_bind (g := fun m => pure (g m)) (fun m => congrArg pure (hg m)) k
  simpa only [← map_eq_pure_bind] using hbind

theorem findModel? (hd : d.Keyed) (hc : d.ClassesDistinct) : e.findModel? = d.findModel? := by
  refine findModel?_congr (h.map_eq fun _ => rfl) hd (fun k n hn => ?_) hc
  have hk := h.map_eq (g := Model.key) (fun _ => rfl) k
  rw [hn] at hk
  obtain ⟨m, hm, hkey⟩ := Option.map_eq_some_iff.mp hk.symm
  exact hkey.symm.trans (hd k m hm)

end Draft.SameOutlines

theorem Draft.Alike.sameOutlines (h : d.Alike e) : d.SameOutlines e := by
  intro k
  have hmap : ∀ x : Option Model, (x.map Model.withoutParents).map Model.outline = x.map Model.outline := by
    intro x
    cases x with
    | none => rfl
    | some m => exact congrArg some m.outline_withoutParents
  rw [← hmap, h.models, hmap]

/-- Relations see the same of the models of two drafts, and find them by the same references. -/
structure Outlined (d e : Draft) : Prop where
  models : d.SameOutlines e
  find : e.findModel? = d.findModel?

theorem Draft.SameOutlines.outlined (h : d.SameOutlines e) (hd : d.Keyed) (hc : d.ClassesDistinct) : Outlined d e :=
  ⟨h, h.findModel? hd hc⟩

end

end Resolution

end Schemata
