import Schemata.Proofs.Resolution.Parents

/-!
# Links

What the relations of a complete draft have found behind their links: the pointer that a relation from one parent is bound to,
and the pivot model that links two models, with its table and its keys.
-/

namespace Schemata.Resolution

open Schemata.Convention

variable {settings : Settings} {schema : SchemaDeclaration} {k n key : String} {m pivot : Model} {r : Relation}

/-! ## Sides of a link -/

/-- A link of a model to or from many parents: it is between a parent, which may be replaced by others, and the other side. -/
inductive Morphs (owner : String) (link : MorphToMany) : Link → String → String → Prop
  | toMany : Morphs owner link (.morphToMany link) owner link.model
  | byMany : Morphs owner link (.morphedByMany link) link.model owner

namespace Morphs

variable {owner parent related : String} {link : MorphToMany} {l : Link}

theorem kind (h : Morphs owner link l parent related) : l.kind ∈ [RelationKind.morphToMany, .morphedByMany] := by
  cases h <;> simp [Link.kind]

theorem pivot? (h : Morphs owner link l parent related) : l.pivot? = link.pivot := by
  cases h <;> rfl

theorem parent? (h : Morphs owner link l parent related) {place : RelationName} {columnName : String}
    (hp : link.pivot = some place.model) (hn : link.relationKey = columnName) :
    l.parent? owner place columnName = some parent := by
  cases h <;> exact if_pos ⟨hp, hn⟩

theorem pivotSides (h : Morphs owner link l parent related) : pivotSides owner l = [related] ∧ needsMorphTo l = true := by
  cases h <;> exact ⟨rfl, rfl⟩

theorem related_mem (h : Morphs owner link l parent related) : related ∈ owner :: l.references := by
  cases h <;> simp [Link.references]

theorem sides {line : DeclaredRelation} {made : MorphToMany}
    (h : Morphs line.model link (morphsLink line made) parent related) :
    made = link ∧ morphSides line link.model = (parent, related) := by
  unfold morphsLink at h
  unfold morphSides
  split at h <;> cases h
  all_goals exact ⟨rfl, by simp [*]⟩

end Morphs

/-- A model belongs to another, by the relation in a place. -/
def BelongsAt (m : Model) (place : String) (link : BelongsTo) : Prop :=
  ∃ r, m.relations.get? place = some r ∧ r.link = .belongsTo link

theorem exists_belongsAt {side : String} (h : (m.belongsTo? side).isSome) :
    ∃ place link, BelongsAt m place link ∧ link.model = side := by
  obtain ⟨link, hf⟩ := Option.isSome_iff_exists.mp h
  obtain ⟨⟨r, link⟩, hmem, rfl⟩ := List.mem_map.mp (List.mem_of_find?_eq_some hf)
  obtain ⟨place, hplace, hl⟩ := mem_belongsToRelations.mp hmem
  exact ⟨place, link, ⟨r, hplace, hl⟩, by simpa using List.find?_some hf⟩

namespace Course

variable (c : Course settings schema)

/-! ## The passes of links -/

theorem exists_joins : ∃ d, Pass.belongsToMany.body c.owned = .ok () d ∧
    Edited [.hasOneOrMany, .hasOneOrManyThrough, .morphTo, .morphOneOrMany, .morphToMany, .pivotModels, .morphColumns,
      .modelAttributes] d c.complete := by
  obtain ⟨d₁, h₁, d₂, h₂, d₃, h₃, hd⟩ := c.joins
  have s₁ := c.sound_owned.edited (edited_belongsToMany c.sound_owned h₁).1
  have e₂ := (edited_hasOneOrMany s₁ h₂).1
  have e₃ := (edited_hasOneOrManyThrough (s₁.edited e₂) h₃).1
  exact ⟨d₁, h₁, (e₂.append (hd ▸ e₃)).append (c.reaches_pointed.1.append c.edited_pointed)⟩

theorem exists_parents : ∃ d, Pass.morphOneOrMany.body c.pointed = .ok () d ∧ Pass.morphToMany.body d = .ok () c.linked ∧
    d.Sound ∧ Edited [.morphToMany, .pivotModels, .morphColumns, .modelAttributes] d c.complete := by
  obtain ⟨d, hd, e, he, hlinked⟩ := c.parents
  obtain rfl := hlinked
  have hsound := c.sound_pointed.edited (edited_morphOneOrMany c.sound_pointed hd).1
  have hlast := (edited_morphToMany hsound he).1
  exact ⟨d, hd, he, hsound, hlast.append (c.edited_pivoted.append c.edited_complete)⟩

/-! ## Bound pointers -/

/-- A relation from one parent is bound to a pointer of its target, which has the model among its parents. -/
theorem exists_bound (hk : c.complete.Known) (hm : c.complete.models.get? k = some m) (hr : m.relations.get? n = some r)
    {link : MorphOneOrMany} (hl : r.link = .morphOne link ∨ r.link = .morphMany link) : ∃ target p pointer,
      c.complete.models.get? link.model = some target ∧ target.relations.get? link.relationKey = some p ∧
        p.link = .morphTo pointer ∧ k ∈ pointer.models := by
  have hkind : r.kind ∈ [RelationKind.morphOne, .morphMany] := by
    rcases hl with hl | hl <;> simp [Relation.kind, hl, Link.kind]
  have hline : (n, r.kind) ∈ c.pointed.relationLines k := by
    rw [(c.edited_joined.append c.reaches_pointed.1).relationLines]
    exact c.mem_relationLines hm hr
  obtain ⟨d, hd, _, _, hafter⟩ := c.exists_parents
  obtain ⟨_, hall⟩ := turns_morphOneOrMany c.sound_pointed hd
  obtain ⟨l, d₀, d₁, ht, rfl, rfl, hlk⟩ := hall k n _ hkind hline
  obtain ⟨made, found, _, hfound, hbound, rfl⟩ := resolveMorphOne_ok_iff.mp (Resolve.update_run_ok.mp ht.left)
  have hparents : l.kind ∈ [RelationKind.morphOne, .morphMany] := hlk ▸ hkind
  have hmade := kind_morphLink hparents made
  have hr' := ht.relation hafter hmade (by rcases List.mem_pair.mp hparents with h | h <;> rw [hmade, h] <;> decide)
    (by rcases List.mem_pair.mp hparents with h | h <;> rw [hmade, h] <;> decide) hm
  obtain rfl := Option.some_inj.mp (hr.symm.trans hr')
  obtain rfl := morphLink_inj hl
  have hsound : d₀.Sound := c.sound_pointed.edited ht.before
  obtain ⟨p₀, pointer₀, hp₀, hpl₀⟩ := boundMorphTo_ok (hsound.model _ _ hfound) hbound
  have hend := (trans_of (Edited [.morphOneOrMany]) ht.edited ht.after).append hafter
  obtain ⟨target, htarget, _⟩ := hend.model hfound
  obtain ⟨p, pointer, hp, hpl, _⟩ := hend.pointer hsound (by decide) hfound htarget hp₀ hpl₀
  refine ⟨target, p, pointer, htarget, hp, hpl, ?_⟩
  refine (hk.parents (Draft.relation?_eq_some_iff.mpr ⟨target, htarget, hp⟩) hpl).mpr
    ⟨l.model, l.name, _, Draft.relation?_eq_some_iff.mpr ⟨m, hm, hr⟩, ?_⟩
  rw [parent?_morphLink, if_pos rfl]

/-! ## Pivot models -/

/-- A pivot model belongs to the models that it links, and it has a pointer if one of them may be replaced. -/
theorem exists_pivot (hm : c.complete.models.get? k = some m) (hr : m.relations.get? n = some r)
    (hp : r.link.pivot? = some key) : ∃ pivot, c.complete.models.get? key = some pivot ∧
      (needsMorphTo r.link = true → ∃ j p pointer, pivot.relations.get? j = some p ∧ p.link = .morphTo pointer) ∧
      ∀ side ∈ pivotSides k r.link, ∃ place link, BelongsAt pivot place link ∧ link.model = side := by
  obtain ⟨m₀, hm₀, _⟩ := c.edited_complete.back hm
  have hr₀ : m₀.relations.get? n = some r := c.edited_complete.relations (by decide) hm₀ hm ▸ hr
  have hchecked := checkPivots_ok c.sound_pivoted.keyed (pivotModels_ok c.pivotModels).2 hm₀ hr₀
  obtain ⟨pivot₀, hpivot₀, hneeds, hsides⟩ := checkPivot_ok hchecked hp
  obtain ⟨pivot, hpivot, _⟩ := c.edited_complete.model hpivot₀
  have hrelations : pivot.relations = pivot₀.relations := c.edited_complete.relations (by decide) hpivot₀ hpivot
  refine ⟨pivot, hpivot, fun h => ?_, fun side hs => ?_⟩
  · obtain ⟨⟨p, pointer⟩, hmem⟩ := List.exists_mem_of_ne_nil _ (hneeds h)
    obtain ⟨j, hj, hl⟩ := mem_morphToRelations.mp hmem
    exact ⟨j, p, pointer, hrelations ▸ hj, hl⟩
  · obtain ⟨place, link, ⟨p, hp, hl⟩, hmodel⟩ := exists_belongsAt (hsides side hs)
    exact ⟨place, link, ⟨p, hrelations ▸ hp, hl⟩, hmodel⟩

/-- How the link of a `belongsToMany` has come about: its turn has found the target and has claimed the pivot model, and then has
made the link in a draft. -/
structure ManyLinked (l : DeclaredRelation) (d : Draft) (target : Model) (link : BelongsToMany) : Prop where
  declares : c.declared.Declares l
  before : Edited [.belongsTo, .belongsToMany] c.declared d
  reference : c.complete.target l = .ok link.model
  get?_target : d.models.get? link.model = some target
  claimed : ∀ key, link.pivot = some key → Claimed key c.complete
  without : l.pivot = none → link.pivot = none
  made : manyLink d l target link.pivot = .ok link

theorem exists_manyLink (hm : c.complete.models.get? k = some m) (hr : m.relations.get? n = some r) {link : BelongsToMany}
    (hl : r.link = .belongsToMany link) : ∃ l d target, c.ManyLinked l d target link ∧ l.model = k ∧ l.name = n := by
  have hkind : r.kind = .belongsToMany := congrArg Link.kind hl
  have hline : (n, .belongsToMany) ∈ c.owned.relationLines k :=
    c.reaches_owned.1.relationLines k ▸ hkind ▸ c.mem_relationLines hm hr
  obtain ⟨d, hd, hafter⟩ := c.exists_joins
  obtain ⟨_, hall⟩ := turns_belongsToMany c.sound_owned hd
  obtain ⟨l, d₀, d₁, ht, rfl, rfl, hlk⟩ := hall k n _ (List.mem_singleton_self _) hline
  obtain ⟨t, p, d₂, target, made, hreference, hclaim, htarget, hmade, rfl⟩ := resolveMany_ok_iff.mp ht.left
  have hr' := ht.relation hafter hlk.symm (by simp [Link.kind, RelationKind.stage]) (by simp [Link.kind]) hm
  obtain rfl := Option.some_inj.mp (hr.symm.trans hr')
  obtain rfl := Link.belongsToMany.inj hl
  obtain ⟨_, _, hmodel, rfl, _⟩ := manyLink_ok hmade
  have hsound : d₀.Sound := c.sound_owned.edited ht.before
  obtain ⟨hclaimed, hpivot⟩ := claimPivot_edited [.belongsToMany] hsound rfl (by simp) hclaim
  have hlink := manyLink_edited (hsound.edited hclaimed) ((ht.declares.along ht.before).along hclaimed) hlk htarget
    (hclaimed.keys ▸ hpivot) hmade
  have hend := (trans_of (Edited [.belongsToMany]) hlink ht.after).append hafter
  obtain rfl : target.key = t := (hsound.edited hclaimed).keyed t target htarget
  refine ⟨l, d₂, target, ⟨ht.declares.back c.reaches_owned.1, ?_, ?_, hmodel ▸ htarget, ?_, claimPivot_none hclaim, hmade⟩, rfl, rfl⟩
  · exact c.reaches_owned.1.append (trans_of (Edited [.belongsToMany]) ht.before hclaimed)
  · rw [(hclaimed.append hend).target, hreference, hmodel]
  · exact claimed_of_claimPivot rfl hclaim hend

/-- The table of a `belongsToMany` is that of its pivot model unless its line names one. Its keys are those that the line names,
or follow from the classes and the keys of both sides. -/
theorem exists_linked (hm : c.complete.models.get? k = some m) (hr : m.relations.get? n = some r) {link : BelongsToMany}
    (hl : r.link = .belongsToMany link) : ∃ l target, c.declared.Declares l ∧ l.model = k ∧ l.name = n ∧
      c.complete.models.get? link.model = some target ∧ (∀ key, link.pivot = some key → Claimed key c.complete) ∧
      (l.argument? 1 = none → ∀ key pivot, link.pivot = some key → c.complete.models.get? key = some pivot →
        link.table = pivot.table) ∧
      link.foreignPivotKey = (l.argument? 2).getD (foreignKey m.className m.primaryName) ∧
      link.relatedPivotKey = (l.argument? 3).getD (foreignKey target.className target.primaryName) := by
  obtain ⟨l, d, target, h, rfl, rfl⟩ := c.exists_manyLink hm hr hl
  obtain ⟨owner, howner, _, _, htable, hforeign, hrelated, _⟩ := manyLink_ok h.made
  obtain ⟨target', htarget'⟩ := c.exists_complete h.before h.get?_target
  refine ⟨l, target', h.declares, rfl, rfl, htarget', h.claimed, fun hnone key pivot hkey hpivot => ?_, ?_, ?_⟩
  · obtain ⟨pivot₀, hpivot₀, htable⟩ := htable hnone key hkey
    exact htable.trans (c.sameIdentity h.before hpivot₀ hpivot).table.symm
  · rw [hforeign, c.foreignKey_eq h.before (by decide) howner hm]
  · rw [hrelated, c.foreignKey_eq h.before (by decide) h.get?_target htarget']

/-- Where neither a table nor a pivot model is given, the table follows from the classes of both sides. -/
theorem guessed_table (hm : c.complete.models.get? k = some m) {link : BelongsToMany} {l : DeclaredRelation} {d : Draft}
    {target o : Model} (h : c.ManyLinked l d target link) (hk : l.model = k) (ho : c.complete.models.get? link.model = some o)
    (hp : l.pivot = none) (hnone : l.argument? 1 = none) : link.table = pivotTable m.className o.className := by
  have hmade := h.made
  rw [h.without hp] at hmade
  obtain ⟨owner, howner, htable⟩ := manyLink_guessed hmade hnone
  rw [htable, (c.sameIdentity h.before (hk ▸ howner) hm).className, (c.sameIdentity h.before h.get?_target ho).className]

/-- How a link to or from many parents has come about: its turn has found the target and has claimed the pivot model, and then has
made the link in a draft. -/
structure MorphsLinked (l : DeclaredRelation) (d : Draft) (link : MorphToMany) (related : String) : Prop where
  declares : c.declared.Declares l
  before : Edited [.belongsTo, .belongsToMany, .hasOneOrMany, .hasOneOrManyThrough, .morphTo, .morphOneOrMany, .morphToMany]
    c.declared d
  reference : c.complete.target l = .ok link.model
  claimed : ∀ key, link.pivot = some key → Claimed key c.complete
  without : l.pivot = none → link.pivot = none
  named : ∀ name, l.argument? 1 = some name → link.relationKey = name
  unnamed : l.argument? 1 = none → ∃ o, d.models.get? related = some o ∧ link.relationKey = morphName o.className
  table : link.pivot = none → link.table = morphTable link.relationKey

theorem exists_linkMorphs (hm : c.complete.models.get? k = some m) (hr : m.relations.get? n = some r) {link : MorphToMany}
    {parent related : String} (hl : Morphs k link r.link parent related) :
    ∃ l d, c.MorphsLinked l d link related ∧ l.model = k ∧ l.name = n := by
  obtain ⟨d, hd, he, hd', _⟩ := c.exists_parents
  have hbound := (c.edited_joined.append c.reaches_pointed.1).append (edited_morphOneOrMany c.sound_pointed hd).1
  have hline : (n, r.kind) ∈ d.relationLines k := by
    rw [hbound.relationLines]
    exact c.mem_relationLines hm hr
  obtain ⟨_, hall⟩ := turns_morphToMany hd' he
  obtain ⟨l, d₀, d₁, ht, rfl, rfl, hlk⟩ := hall k n _ hl.kind hline
  obtain ⟨target, p, d₂, htarget, hclaim, hlinked⟩ := resolveMorphs_ok_iff.mp ht.left
  have hsound : d₀.Sound := hd'.edited ht.before
  obtain ⟨hclaimed, hpivot⟩ := claimPivot_edited [.morphToMany] hsound rfl (by simp) hclaim
  have hmorphs : l.kind ∈ [RelationKind.morphToMany, .morphedByMany] := hlk ▸ hl.kind
  have hlink := linkMorphs_edited (hsound.edited hclaimed) ((ht.declares.along ht.before).along hclaimed) hmorphs
    (hclaimed.keys ▸ Draft.mem_keys_of_target hsound.keyed htarget) (hclaimed.keys ▸ hpivot) hlinked
  have hend := (trans_of (Edited [.morphToMany]) hlink ht.after).append (c.edited_pivoted.append c.edited_complete)
  obtain ⟨made, rfl, rfl, rfl, hnamed, hunnamed, htable⟩ := linkMorphs_ok hlinked
  have hmade := kind_morphsLink hmorphs made
  have hr' := ht.relation (c.edited_pivoted.append c.edited_complete) hmade
    (by rcases List.mem_pair.mp hmorphs with h | h <;> rw [hmade, h] <;> decide)
    (by rcases List.mem_pair.mp hmorphs with h | h <;> rw [hmade, h] <;> decide) hm
  obtain rfl := Option.some_inj.mp (hr.symm.trans hr')
  obtain ⟨rfl, hsides⟩ := hl.sides
  rw [hsides] at hunnamed
  refine ⟨l, d₂, ⟨ht.declares.back hbound, ?_, ?_, claimed_of_claimPivot rfl hclaim hend, claimPivot_none hclaim, hnamed, hunnamed,
    htable⟩, rfl, rfl⟩
  · exact hbound.append (trans_of (Edited [.morphToMany]) ht.before hclaimed)
  · rw [(hclaimed.append hend).target, htarget]

/-- A link to or from many parents goes by the name that its line gives it, or else by the one that follows from the class of the
side that is not replaced. -/
theorem exists_morphed (hm : c.complete.models.get? k = some m) (hr : m.relations.get? n = some r) {link : MorphToMany}
    {parent related : String} (hl : Morphs k link r.link parent related) : ∃ l o, c.declared.Declares l ∧ l.model = k ∧
      l.name = n ∧ (∀ key, link.pivot = some key → Claimed key c.complete) ∧ c.complete.models.get? related = some o ∧
      link.relationKey = (l.argument? 1).getD (morphName o.className) := by
  obtain ⟨l, d, h, rfl, rfl⟩ := c.exists_linkMorphs hm hr hl
  have hrefs := ((c.founded.sound.model l.model m hm).relation hr).2.2
  obtain ⟨o, ho⟩ := OrderedMap.mem_keys_iff.mp
    (List.cons_subset.mpr ⟨OrderedMap.mem_keys_iff.mpr ⟨m, hm⟩, hrefs⟩ hl.related_mem)
  refine ⟨l, o, h.declares, rfl, rfl, h.claimed, ho, ?_⟩
  cases hg : l.argument? 1 with
  | some name => exact h.named name hg
  | none =>
    obtain ⟨o₀, ho₀, hname⟩ := h.unnamed hg
    exact hname.trans (congrArg morphName (c.sameIdentity h.before ho₀ ho).className.symm)

end Course

end Schemata.Resolution
