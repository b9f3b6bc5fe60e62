import Schemata.Proofs.Resolution.PivotTables

/-!
# Reciprocal links

Two models that are linked to each other need one table, which each of them makes up from its own side.
-/

namespace Schemata

theorem Convention.pivotTable_comm (first second : String) : pivotTable first second = pivotTable second first := by
  unfold pivotTable
  dsimp only
  split
  · rename_i hle
    split
    · rename_i hge
      rw [String.le_antisymm hle hge]
    · rfl
  · rename_i hnle
    rw [if_pos ((String.le_total _ _).resolve_left hnle)]

theorem Relation.link_of_kind (r : Relation) :
    (r.kind = .belongsToMany → ∃ link, r.link = .belongsToMany link) ∧
    (r.kind = .morphToMany → ∃ link, r.link = .morphToMany link) ∧
    (r.kind = .morphedByMany → ∃ link, r.link = .morphedByMany link) := by
  unfold kind
  cases r.link <;> simp [Link.kind]

namespace Resolution

open Schemata.Convention

variable {d : Draft} {settings : Settings} {schema : SchemaDeclaration} {l l' : DeclaredRelation} {m m' : Model}
  {r r' : Relation}

/-! ## Tables from both sides -/

theorem manyTable_mirrored {link link' : BelongsToMany} (htable : link'.table = link.table)
    (hforeign : link'.foreignPivotKey = link.relatedPivotKey) (hrelated : link'.relatedPivotKey = link.foreignPivotKey)
    (hne : link.foreignPivotKey ≠ link.relatedPivotKey) (owner target : Model) :
    manyTable link' target owner = manyTable link owner target := by
  have hname : ∀ name o, (pivotColumn name o).name = name := fun _ _ => rfl
  unfold manyTable
  rw [htable, hforeign, hrelated]
  simp only [hname]
  by_cases hle : link.foreignPivotKey ≤ link.relatedPivotKey
  · have hnot : ¬link.relatedPivotKey ≤ link.foreignPivotKey := fun hge => hne (String.le_antisymm hle hge)
    rw [if_pos hle, if_neg hnot]
  · have hge : link.relatedPivotKey ≤ link.foreignPivotKey := (String.le_total _ _).resolve_left hle
    rw [if_neg hle, if_pos hge]

/-- A table that points at a parent is made if the parent has a key that a pointer can hold, whichever side asks for it. -/
theorem exists_morphsTable {link link' : MorphToMany} (htable : link'.table = link.table)
    (hkey : link'.relationKey = link.relationKey) {parent : Model} (h : (KeyShape.of parent).isUsable = true)
    (related : Model) :
    ∃ t, ∀ relation, morphsTable link relation parent related = .ok t ∧ morphsTable link' relation parent related = .ok t := by
  have hshape : parent.hasAutoIncrementKey = true ∨ parent.hasUuidKey = true := Bool.or_eq_true_iff.mp h
  -- The relation that asks is named in a fault alone.
  unfold morphsTable
  rw [htable, hkey]
  cases huuid : parent.hasUuidKey with
  | true => exact ⟨_, fun _ => ⟨rfl, rfl⟩⟩
  | false =>
    have hauto : parent.hasAutoIncrementKey = true := hshape.resolve_right (by simp [huuid])
    rw [hauto]
    exact ⟨_, fun _ => ⟨rfl, rfl⟩⟩

theorem morphsTable_error {parent : Model} (h : (KeyShape.of parent).isUsable = false) (link : MorphToMany)
    (relation : RelationName) (related : Model) :
    morphsTable link relation parent related = .error (.parentWithoutKey parent.key relation) := by
  obtain ⟨hauto, huuid⟩ : parent.hasAutoIncrementKey = false ∧ parent.hasUuidKey = false := Bool.or_eq_false_iff.mp h
  unfold morphsTable
  rw [hauto, huuid]
  rfl

/-- Two relations share a table: it is made up for both of them, and once one of them has added it, each of them finds it
there. -/
structure SharesTable (d : Draft) (m : Model) (r : Relation) (m' : Model) (r' : Relation) (t : Migration) : Prop where
  left : pivotTable? d m r = .ok (some t)
  right : pivotTable? d m' r' = .ok (some t)
  taken {ts : List (RelationName × Migration)} {c e : Draft} : (⟨m.key, r.name⟩, t) ∈ ts ∨ (⟨m'.key, r'.name⟩, t) ∈ ts →
    (ts.forM fun (relation, t) => Resolve.update (addPivotTable relation t)) c = .ok () e →
      addPivotTable ⟨m.key, r.name⟩ t e = .ok e ∧ addPivotTable ⟨m'.key, r'.name⟩ t e = .ok e

theorem sharesTable {t : Migration} (hleft : pivotTable? d m r = .ok (some t)) (hright : pivotTable? d m' r' = .ok (some t)) :
    SharesTable d m r m' r' t := by
  refine ⟨hleft, hright, fun {_ _ e} hmem hrun => ?_⟩
  have hstands : StandsFor e t := by
    rcases hmem with hmem | hmem
    · exact (standsFor_of_forM hrun).2 _ hmem
    · exact (standsFor_of_forM hrun).2 _ hmem
  exact ⟨addPivotTable_of_standsFor hstands _, addPivotTable_of_standsFor hstands _⟩

theorem pivotTable?_belongsToMany {link : BelongsToMany} (hl : r.link = .belongsToMany link) (hp : link.pivot = none)
    (ho : d.models.get? link.model = some m') : pivotTable? d m r = .ok (some (manyTable link m m')) := by
  have htarget : d.model link.model = .ok m' := Draft.model_eq_ok.mpr ho
  simp only [pivotTable?, hl, Link.pivot?, hp, Option.isSome_none, Bool.false_eq_true, if_false, htarget]
  rfl

theorem pivotTable?_morphToMany {link : MorphToMany} (hl : r.link = .morphToMany link) (hp : link.pivot = none)
    (ho : d.models.get? link.model = some m') : pivotTable? d m r = some <$> morphsTable link ⟨m.key, r.name⟩ m m' := by
  have htarget : d.model link.model = .ok m' := Draft.model_eq_ok.mpr ho
  simp only [pivotTable?, hl, Link.pivot?, hp, Option.isSome_none, Bool.false_eq_true, if_false, htarget]
  rfl

theorem pivotTable?_morphedByMany {link : MorphToMany} (hl : r.link = .morphedByMany link) (hp : link.pivot = none)
    (ho : d.models.get? link.model = some m') : pivotTable? d m r = some <$> morphsTable link ⟨m.key, r.name⟩ m' m := by
  have htarget : d.model link.model = .ok m' := Draft.model_eq_ok.mpr ho
  simp only [pivotTable?, hl, Link.pivot?, hp, Option.isSome_none, Bool.false_eq_true, if_false, htarget]
  rfl

/-! ## Links of lines that leave everything to be found -/

/-- Two models are linked to each other through one table, each by the key that the other takes it by. -/
structure ManyMirrored (d : Draft) (m : Model) (r : Relation) (m' : Model) (r' : Relation) (link link' : BelongsToMany)
    (t : Migration) : Prop where
  left : r.link = .belongsToMany link
  right : r'.link = .belongsToMany link'
  table : link'.table = link.table
  foreign : link'.foreignPivotKey = link.relatedPivotKey
  related : link'.relatedPivotKey = link.foreignPivotKey
  shared : SharesTable d m r m' r' t

/-- A parent and another model are linked to each other under one name, and through one table if the parent can be pointed at. -/
structure MorphsMirrored (d : Draft) (m : Model) (r : Relation) (m' : Model) (r' : Relation) (link link' : MorphToMany) :
    Prop where
  left : r.link = .morphToMany link
  right : r'.link = .morphedByMany link'
  table : link'.table = link.table
  relationKey : link'.relationKey = link.relationKey
  shared : (KeyShape.of m).isUsable = true → ∃ t, SharesTable d m r m' r' t
  refused : (KeyShape.of m).isUsable = false → pivotTable? d m r = .error (.parentWithoutKey m.key ⟨m.key, r.name⟩) ∧
    pivotTable? d m' r' = .error (.parentWithoutKey m.key ⟨m'.key, r'.name⟩)

namespace Course

variable (c : Course settings schema) (hline : DeclaredBy schema l) (hm : c.complete.models.get? l.model = some m)
  (hr : m.relations.get? l.name = some r) (hp : l.pivot = none)

section

include hline hm hr hp

/-- A `belongsToMany` that leaves its table, its keys and its pivot model to be found. -/
theorem conventional_many {link : BelongsToMany} (hl : r.link = .belongsToMany link)
    (hnone : ∀ i ∈ [1, 2, 3], l.argument? i = none) : c.complete.target l = .ok link.model ∧ link.pivot = none ∧
      link.foreignPivotKey ≠ link.relatedPivotKey ∧ ∀ o, c.complete.models.get? link.model = some o →
        link.table = pivotTable m.className o.className ∧ link.foreignPivotKey = foreignKey m.className m.primaryName ∧
        link.relatedPivotKey = foreignKey o.className o.primaryName := by
  obtain ⟨l₁, d, target, h, hmodel, hname⟩ := c.exists_manyLink hm hr hl
  obtain rfl := hline.unique (c.declaredBy h.declares) hmodel hname
  obtain ⟨l₂, target, hdeclares, hmodel, hname, htarget, _, _, hforeign, hrelated⟩ := c.exists_linked hm hr hl
  obtain rfl := hline.unique (c.declaredBy hdeclares) hmodel hname
  refine ⟨h.reference, h.without hp, manyLink_keys_ne h.made, fun o ho => ⟨?_, ?_, ?_⟩⟩
  · exact c.guessed_table hm h rfl ho hp (hnone 1 (by simp))
  · rw [hforeign, hnone 2 (by simp)]
    rfl
  · obtain rfl := Option.some_inj.mp (ho.symm.trans htarget)
    rw [hrelated, hnone 3 (by simp)]
    rfl

/-- A link to or from many parents whose line leaves its name and its pivot model to be found. -/
theorem conventional_morphs {link : MorphToMany} {parent related : String} (hl : Morphs l.model link r.link parent related)
    (hnone : l.argument? 1 = none) : c.complete.target l = .ok link.model ∧ link.pivot = none ∧
      link.table = morphTable link.relationKey ∧
      ∀ o, c.complete.models.get? related = some o → link.relationKey = morphName o.className := by
  obtain ⟨l₁, d, h, hmodel, hname⟩ := c.exists_linkMorphs hm hr hl
  obtain rfl := hline.unique (c.declaredBy h.declares) hmodel hname
  refine ⟨h.reference, h.without hp, h.table (h.without hp), fun o ho => ?_⟩
  obtain ⟨o₀, ho₀, hkey⟩ := h.unnamed hnone
  rw [hkey, (c.sameIdentity h.before ho₀ ho).className]

end

variable (hline' : DeclaredBy schema l') (hm' : c.complete.models.get? l'.model = some m')
  (hr' : m'.relations.get? l'.name = some r') (hp' : l'.pivot = none) (hto : c.complete.target l = .ok l'.model)
  (hfro : c.complete.target l' = .ok l.model) (hd : d.models = c.complete.models)
include hline hm hr hp hline' hm' hr' hp' hto hfro hd

theorem manyMirrored (hk : r.kind = .belongsToMany) (hk' : r'.kind = .belongsToMany)
    (hnone : ∀ i ∈ [1, 2, 3], l.argument? i = none) (hnone' : ∀ i ∈ [1, 2, 3], l'.argument? i = none) :
    ∃ link link' t, ManyMirrored d m r m' r' link link' t := by
  obtain ⟨link, hl⟩ := r.link_of_kind.1 hk
  obtain ⟨link', hl'⟩ := r'.link_of_kind.1 hk'
  obtain ⟨htarget, hpivot, hne, hconvention⟩ := c.conventional_many hline hm hr hp hl hnone
  obtain ⟨htarget', hpivot', _, hconvention'⟩ := c.conventional_many hline' hm' hr' hp' hl' hnone'
  have hother : link.model = l'.model := Except.ok.inj (htarget.symm.trans hto)
  have hother' : link'.model = l.model := Except.ok.inj (htarget'.symm.trans hfro)
  obtain ⟨htable, hforeign, hrelated⟩ := hconvention m' (hother ▸ hm')
  obtain ⟨htable', hforeign', hrelated'⟩ := hconvention' m (hother' ▸ hm)
  have table : link'.table = link.table := by rw [htable', htable, pivotTable_comm]
  have foreign := hforeign'.trans hrelated.symm
  have related := hrelated'.trans hforeign.symm
  have hmade : pivotTable? d m r = .ok (some (manyTable link m m')) :=
    pivotTable?_belongsToMany hl hpivot (by rw [hd, hother, hm'])
  have hmade' : pivotTable? d m' r' = .ok (some (manyTable link' m' m)) :=
    pivotTable?_belongsToMany hl' hpivot' (by rw [hd, hother', hm])
  rw [manyTable_mirrored table foreign related hne] at hmade'
  exact ⟨link, link', _, hl, hl', table, foreign, related, sharesTable hmade hmade'⟩

theorem morphsMirrored (hk : r.kind = .morphToMany) (hk' : r'.kind = .morphedByMany) (hnone : l.argument? 1 = none)
    (hnone' : l'.argument? 1 = none) : ∃ link link', MorphsMirrored d m r m' r' link link' := by
  obtain ⟨link, hl⟩ := r.link_of_kind.2.1 hk
  obtain ⟨link', hl'⟩ := r'.link_of_kind.2.2 hk'
  have hsides : Morphs l.model link r.link l.model link.model := hl ▸ .toMany
  have hsides' : Morphs l'.model link' r'.link link'.model l'.model := hl' ▸ .byMany
  obtain ⟨htarget, hpivot, htable, hname⟩ := c.conventional_morphs hline hm hr hp hsides hnone
  obtain ⟨htarget', hpivot', htable', hname'⟩ := c.conventional_morphs hline' hm' hr' hp' hsides' hnone'
  have hother : link.model = l'.model := Except.ok.inj (htarget.symm.trans hto)
  have hother' : link'.model = l.model := Except.ok.inj (htarget'.symm.trans hfro)
  have relationKey : link'.relationKey = link.relationKey := by rw [hname' m' hm', hname m' (hother ▸ hm')]
  have table : link'.table = link.table := by rw [htable', htable, relationKey]
  have hmade : pivotTable? d m r = some <$> morphsTable link ⟨m.key, r.name⟩ m m' :=
    pivotTable?_morphToMany hl hpivot (by rw [hd, hother, hm'])
  have hmade' : pivotTable? d m' r' = some <$> morphsTable link' ⟨m'.key, r'.name⟩ m m' :=
    pivotTable?_morphedByMany hl' hpivot' (by rw [hd, hother', hm])
  refine ⟨link, link', hl, hl', table, relationKey, fun husable => ?_, fun hunusable => ?_⟩
  · obtain ⟨t, ht⟩ := exists_morphsTable table relationKey husable m'
    exact ⟨t, sharesTable (by rw [hmade, (ht _).1]; rfl) (by rw [hmade', (ht _).2]; rfl)⟩
  · exact ⟨by rw [hmade, morphsTable_error hunusable]; rfl, by rw [hmade', morphsTable_error hunusable]; rfl⟩

end Course

end Resolution

end Schemata
