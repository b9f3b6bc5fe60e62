import Schemata.Proofs.Resolution.Parents
import Schemata.Proofs.Resolved.Columns

/-!
# Parents in a resolved schema

The parents of a `morphTo` are the models from which relations lead to it, and no others.
-/

namespace Schemata.Resolved

open Resolution

variable {settings : Settings} {schema : SchemaDeclaration} {s : Resolved}

/-- A model has a relation of a link. -/
def HasLink (s : Resolved) (owner : String) (link : Link) : Prop :=
  ∃ m n r, s.models.get? owner = some m ∧ m.relations.get? n = some r ∧ r.link = link

/-- A parent points at the pointer of a model: by the name of the pointer, or through the model as a pivot and then by the name
of the pointer's column pair, on the side of the parent or on the other side. -/
def PointsAt (s : Resolved) (parent model name columnName : String) : Prop :=
  (∃ l, (HasLink s parent (.morphOne l) ∨ HasLink s parent (.morphMany l)) ∧ l.model = model ∧ l.relationKey = name) ∨
  (∃ l, HasLink s parent (.morphToMany l) ∧ l.pivot = some model ∧ l.relationKey = columnName) ∨
  ∃ owner l, HasLink s owner (.morphedByMany l) ∧ l.model = parent ∧ l.pivot = some model ∧ l.relationKey = columnName

theorem exists_parent?_iff {parent k n columnName : String} {d : Draft} (hs : s.models = d.models) :
    (∃ a j r, d.relation? a j = some r ∧ r.link.parent? a ⟨k, n⟩ columnName = some parent) ↔
      PointsAt s parent k n columnName := by
  have hlink : ∀ {a j r}, d.relation? a j = some r → HasLink s a r.link := by
    intro a j r hr
    obtain ⟨m, hm, hr⟩ := Draft.relation?_eq_some_iff.mp hr
    exact ⟨m, j, r, hs ▸ hm, hr, rfl⟩
  have hrelation : ∀ {a link}, HasLink s a link → ∃ j r, d.relation? a j = some r ∧ r.link = link := by
    rintro a link ⟨m, j, r, hm, hr, hl⟩
    exact ⟨j, r, Draft.relation?_eq_some_iff.mpr ⟨m, hs ▸ hm, hr⟩, hl⟩
  constructor
  · rintro ⟨a, j, r, hr, hp⟩
    have ha := hlink hr
    cases hl : r.link with
    | morphOne l =>
      rw [hl] at ha hp
      obtain ⟨hplace, ha'⟩ := Option.ite_none_right_eq_some.mp hp
      obtain rfl := Option.some_inj.mp ha'
      obtain ⟨rfl, rfl⟩ := RelationName.mk.inj hplace
      exact .inl ⟨l, .inl ha, rfl, rfl⟩
    | morphMany l =>
      rw [hl] at ha hp
      obtain ⟨hplace, ha'⟩ := Option.ite_none_right_eq_some.mp hp
      obtain rfl := Option.some_inj.mp ha'
      obtain ⟨rfl, rfl⟩ := RelationName.mk.inj hplace
      exact .inl ⟨l, .inr ha, rfl, rfl⟩
    | morphToMany l =>
      rw [hl] at ha hp
      obtain ⟨⟨hpivot, hname⟩, ha'⟩ := Option.ite_none_right_eq_some.mp hp
      obtain rfl := Option.some_inj.mp ha'
      exact .inr (.inl ⟨l, ha, hpivot, hname⟩)
    | morphedByMany l =>
      rw [hl] at ha hp
      obtain ⟨⟨hpivot, hname⟩, hmodel⟩ := Option.ite_none_right_eq_some.mp hp
      exact .inr (.inr ⟨a, l, ha, Option.some_inj.mp hmodel, hpivot, hname⟩)
    | _ => rw [hl] at hp; cases hp
  · rintro (⟨l, ha | ha, rfl, rfl⟩ | ⟨l, ha, hpivot, hname⟩ | ⟨a, l, ha, hmodel, hpivot, hname⟩)
    · obtain ⟨j, r, hr, hl⟩ := hrelation ha
      exact ⟨parent, j, r, hr, by rw [hl]; exact if_pos rfl⟩
    · obtain ⟨j, r, hr, hl⟩ := hrelation ha
      exact ⟨parent, j, r, hr, by rw [hl]; exact if_pos rfl⟩
    · obtain ⟨j, r, hr, hl⟩ := hrelation ha
      exact ⟨parent, j, r, hr, by rw [hl]; exact if_pos ⟨hpivot, hname⟩⟩
    · obtain ⟨j, r, hr, hl⟩ := hrelation ha
      exact ⟨a, j, r, hr, by rw [hl]; exact (if_pos ⟨hpivot, hname⟩).trans (congrArg some hmodel)⟩

/-- The parents of a `morphTo` are exactly the models that point at it. -/
theorem parents_point (h : resolve settings schema = .ok s) {k n : String} {m : Model} {r : Relation} {link : MorphTo}
    (hm : s.models.get? k = some m) (hr : m.relations.get? n = some r) (hl : r.link = .morphTo link) (parent : String) :
    parent ∈ link.models ↔ PointsAt s parent k r.name link.columnName := by
  obtain ⟨c, hmodels, hchecked⟩ := exists_course_of_resolve h
  have hnames : ∀ j, NamesDistinct (c.complete.relation? j) := by
    intro j
    cases hj : c.complete.models.get? j with
    | none =>
      intro n n' r r' t t' hr
      unfold Draft.relation? at hr
      rw [hj] at hr
      cases hr
    | some o =>
      have ho : o ∈ s.models.values := OrderedMap.mem_values_iff.mpr ⟨j, hmodels ▸ hj⟩
      rw [Draft.relation?_of_get? hj]
      exact c.namesDistinct hj (creatable_of_checked c.founded.sound hj (hchecked o ho))
  rw [hmodels] at hm
  have hname : r.name = n := ((c.founded.sound.model k m hm).relation hr).1
  have hplace : c.complete.relation? k n = some r := Draft.relation?_eq_some_iff.mpr ⟨m, hm, hr⟩
  rw [hname, (c.known_complete hnames).parents hplace hl]
  exact exists_parent?_iff hmodels

/-- A pivot model whose pointer has parents from both sides of its relations. -/
def tagged : SchemaDeclaration where
  rootNamespace := none
  models := .ofList [
    ("Post", declaredByLines [("title", "string"), ("tags", "morphToMany:Tag,taggable using:Tagging")]),
    ("Video", declaredByLines [("title", "string")]),
    ("Tag", declaredByLines [("label", "string"), ("videos", "morphedByMany:Video,taggable using:Tagging")]),
    ("Tagging", declaredByLines [("tag", "belongsTo"), ("subject", "morphTo:taggable")])]
  migrations := .empty

theorem tagged_parents_point : ∃ s m r link, resolve .standard tagged = .ok s ∧ s.models.get? "Tagging" = some m ∧
    m.relations.get? "subject" = some r ∧ r.link = .morphTo link ∧ link.models = ["Post", "Video"] ∧
    PointsAt s "Post" "Tagging" "subject" "taggable" ∧ PointsAt s "Video" "Tagging" "subject" "taggable" ∧
    ¬PointsAt s "Tag" "Tagging" "subject" "taggable" := by
  have htagging : (resolve .standard tagged).toOption.any (fun s => (s.models.get? "Tagging").any fun m =>
      (m.relations.get? "subject").any fun r => r.name = "subject" ∧
        r.link = .morphTo ⟨["Post", "Video"], "taggable", false⟩) = true := by decide +kernel
  obtain ⟨s, h, hs⟩ := exists_resolved_of_any htagging
  obtain ⟨m, hm, hp⟩ := exists_of_any hs
  obtain ⟨r, hr, hp⟩ := exists_of_any hp
  obtain ⟨hname, hl⟩ := of_decide_eq_true hp
  have hpoint := parents_point h hm hr hl
  rw [hname] at hpoint
  exact ⟨s, m, r, _, h, hm, hr, hl, rfl, (hpoint "Post").mp (by simp), (hpoint "Video").mp (by simp),
    fun htag => absurd ((hpoint "Tag").mpr htag) (by simp)⟩

end Schemata.Resolved
