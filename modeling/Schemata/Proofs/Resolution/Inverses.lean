import Schemata.Proofs.Resolution.Guesses

/-!
# Inverses

A relation that rests on a key column of another model has found a `belongsTo` there. What models belong to is settled by the pass
of `belongsTo` relations, so that what was found then is there in the end.
-/

namespace Schemata

/-- What a model belongs to, by the places of its relations. -/
def Model.belongings (m : Model) : OrderedMap (Option BelongsTo) :=
  m.relations.map.mapEntries fun _ slot => slot.value?.bind Relation.belongsTo?

theorem Relation.belongsTo?_mapMorphTo (f : MorphTo → MorphTo) (r : Relation) : (r.mapMorphTo f).belongsTo? = r.belongsTo? := by
  obtain ⟨name, methods, link⟩ := r
  cases link <;> rfl

theorem Model.map_snd_belongsToRelations (m : Model) :
    m.belongsToRelations.map Prod.snd = m.relations.resolved.filterMap (·.2.belongsTo?) := by
  unfold belongsToRelations Slots.values
  rw [List.map_filterMap, List.filterMap_map]
  refine congrArg (m.relations.resolved.filterMap ·) (funext fun x => ?_)
  cases hx : x.2.belongsTo? <;> simp [hx]

theorem Model.map_snd_belongsToRelations_eq (m : Model) :
    m.belongsToRelations.map Prod.snd = m.belongings.values.filterMap id := by
  rw [map_snd_belongsToRelations]
  unfold belongings Slots.resolved OrderedMap.values OrderedMap.mapEntries
  simp only [List.filterMap_map, List.filterMap_filterMap, List.map_map]
  refine congrArg (m.relations.map.entries.filterMap ·) (funext fun x => ?_)
  obtain ⟨k, slot⟩ := x
  cases slot <;> rfl

/-- The `belongsTo` that is found is the first one that fits. -/
theorem Model.exists_of_find?_belongsTo {m : Model} {p : BelongsTo → Bool} {link : BelongsTo}
    (h : (m.belongsToRelations.map Prod.snd).find? p = some link) :
    ∃ before n r after, m.relations.resolved = before ++ (n, r) :: after ∧ r.link = .belongsTo link ∧ p link = true ∧
      ∀ x ∈ before, ∀ other, x.2.link = .belongsTo other → p other = false := by
  rw [map_snd_belongsToRelations, List.find?_filterMap] at h
  obtain ⟨⟨n, r⟩, hfound, hlink⟩ := Option.bind_eq_some_iff.mp h
  obtain ⟨hfits, before, after, heq, hbefore⟩ := List.find?_eq_some_iff_append.mp hfound
  refine ⟨before, n, r, after, heq, Relation.belongsTo?_eq_some_iff.mp hlink, ?_, fun x hx other hother => ?_⟩
  · simpa [hlink] using hfits
  · have hne := hbefore x hx
    rw [Relation.belongsTo?_eq_some_iff.mpr hother] at hne
    simpa using hne

namespace Resolution

open Schemata.Convention

variable {d e : Draft} {l : DeclaredRelation} {lines : List (String × RelationKind)} {keys : List String} {stages : List Stage}
  {k : String} {m n : Model}

/-! ## What models belong to -/

theorem Sound.kind_eq (hm : Sound lines keys m) {name : String} {r : Relation} {kind : RelationKind}
    (hr : m.relations.get? name = some r) (hl : (name, kind) ∈ lines) : r.kind = kind := by
  have hn : (lines.map Prod.fst).Nodup := hm.names ▸ m.relations.map.keys_nodup
  have hr := (hm.relation hr).2.1
  rw [← OrderedMap.lookup_eq_some_iff_mem hn] at hr hl
  exact Option.some_inj.mp (hr.symm.trans hl)

/-- A step of a later stage leaves what a model belongs to. -/
theorem Edit.belongings (h : Edit lines keys stages m n) (hs : .belongsTo ∉ stages) (hm : Sound lines keys m) :
    n.belongings = m.belongings := by
  cases h with
  | @fill name methods link hstage hl _ _ =>
    have hkind : link.kind ≠ .belongsTo := fun hk => hs (hk ▸ hstage : RelationKind.stage .belongsTo ∈ stages)
    have hnone : ∀ r : Relation, r.kind = link.kind → r.belongsTo? = none := by
      intro r hr
      cases hb : r.belongsTo? with
      | none => rfl
      | some b => exact absurd (hr.symm.trans (congrArg Link.kind (Relation.belongsTo?_eq_some_iff.mp hb))) hkind
    have hplace : m.belongings.get? name = some none := by
      obtain ⟨slot, hslot⟩ := Slots.mem_keys_iff.mp (hm.names ▸ List.mem_map_of_mem hl : name ∈ m.relations.keys)
      have hget : m.belongings.get? name = (m.relations.slot? name).map fun slot => slot.value?.bind Relation.belongsTo? :=
        m.relations.map.get?_mapEntries _ name
      rw [hget, hslot]
      cases slot with
      | pending => rfl
      | resolved r => exact congrArg some (hnone r (hm.kind_eq (Slots.get?_eq_some_iff.mpr hslot) hl))
    have hinsert := m.relations.map.mapEntries_insert (fun _ slot => slot.value?.bind Relation.belongsTo?) name
      (.resolved ⟨name, methods, link⟩)
    refine hinsert.trans ?_
    change m.belongings.insert name (Relation.belongsTo? _) = _
    rw [hnone ⟨name, methods, link⟩ rfl]
    exact OrderedMap.insert_eq_self hplace
  | @addParent name parent _ _ =>
    unfold Model.belongings Slots.modify OrderedMap.modify
    rw [OrderedMap.mapEntries_mapEntries]
    refine OrderedMap.mapEntries_congr fun place slot _ => ?_
    split
    · cases slot with
      | pending => rfl
      | resolved r => exact r.belongsTo?_mapMorphTo _
    · rfl
  | placeKey _ _ => exact congrArg (fun relations => Model.belongings { m with relations }) (relations_placeKey _ _ _)
  | dropAddedKey _ => exact congrArg (fun relations => Model.belongings { m with relations }) (relations_dropAddedKey _)
  | _ => rfl

theorem Edited.belongsToRelations (h : Edited stages d e) (hs : .belongsTo ∉ stages) (hd : d.Sound) (hm : d.models.get? k = some m)
    (hn : e.models.get? k = some n) : n.belongsToRelations.map Prod.snd = m.belongsToRelations.map Prod.snd := by
  have hkept : Sound (d.relationLines k) d.models.keys n ∧ n.belongings = m.belongings :=
    h.keeps (P := fun o => Sound (d.relationLines k) d.models.keys o ∧ o.belongings = m.belongings)
      (fun hstep hP => ⟨hP.1.edit hstep, (hstep.belongings hs hP.1).trans hP.2⟩) hm hn ⟨hd.model k m hm, rfl⟩
  rw [Model.map_snd_belongsToRelations_eq, Model.map_snd_belongsToRelations_eq, hkept.2]

theorem Edited.belongsTo? (h : Edited stages d e) (hs : .belongsTo ∉ stages) (hd : d.Sound) (hm : d.models.get? k = some m)
    (hn : e.models.get? k = some n) (target : String) : n.belongsTo? target = m.belongsTo? target := by
  unfold Model.belongsTo?
  rw [h.belongsToRelations hs hd hm hn]

/-! ## What turns have found -/

theorem TurnIn.relation_either {stages' : List Stage} {read : Draft → Except SchemaFault (List DeclaredRelation)}
    {f : DeclaredRelation → Resolve Unit} {a b c c' : Draft} (one many : Link)
    (ht : TurnIn stages read f a b l c (c'.resolveRelation l (if l.kind = one.kind then one else many)))
    (h : Edited stages' b e) (hk : l.kind ∈ [one.kind, many.kind])
    (hkinds : ∀ kind ∈ [one.kind, many.kind], kind ≠ .morphTo ∧ kind.stage ∉ stages') (hn : e.models.get? l.model = some n) :
    n.relations.get? l.name = some ⟨l.name, l.methods, if l.kind = one.kind then one else many⟩ := by
  have hkind := Link.kind_either one many hk
  obtain ⟨hpointer, hstage⟩ := hkinds l.kind hk
  exact ht.relation h hkind (hkind.symm ▸ hstage) (hkind.symm ▸ hpointer) hn

/-- Without a key of its own, the link of a `hasOne` or `hasMany` takes the keys of the `belongsTo` that it reads from the other
side. -/
theorem havingLink_inverse {target : Model} {link : HasOneOrMany} (h : havingLink l target = .ok link)
    (hnone : l.argument? 1 = none) : ∃ inverse, target.belongsTo? l.model = some inverse ∧ link.foreignKey = inverse.columnKey ∧
      link.localKey = (l.argument? 2).or inverse.ownerKey := by
  unfold havingLink at h
  rw [hnone] at h
  dsimp only at h
  split at h
  · rename_i inverse hinverse
    obtain rfl := pure_eq_ok.mp h
    exact ⟨inverse, hinverse, rfl, Option.orElse_eq_or⟩
  · exact absurd h throw_ne_ok

/-- A model of one key belongs to that of another. -/
def Draft.Belongs (d : Draft) (source target : String) : Prop :=
  ∃ m, d.models.get? source = some m ∧ (m.belongsTo? target).isSome

theorem checkLink_ok {source target : String} {u : Unit} (h : checkLink d l source target = .ok u) : d.Belongs source target := by
  obtain ⟨m, hm, h⟩ := bind_eq_ok.mp h
  split at h
  · exact absurd h throw_ne_ok
  · rename_i hsome
    exact ⟨m, Draft.model_eq_ok.mp hm, by simpa [Option.isSome_iff_ne_none] using hsome⟩

theorem resolveThrough_chain (h : resolveThrough l d = .ok e) : ∃ link : Through,
    throughPair d l = .ok (link.model, link.through) ∧
      (l.argument? 2 = none → l.argument? 3 = none → d.Belongs link.model link.through ∧ d.Belongs link.through l.model) ∧
      e = d.resolveRelation l (if l.kind = .hasOneThrough then .hasOneThrough link else .hasManyThrough link) := by
  obtain ⟨link, hpair, _, _, hchain, he⟩ := resolveThrough_ok_iff.mp h
  refine ⟨link, hpair, fun hfirst hsecond => ?_, he⟩
  obtain ⟨htarget, hthrough⟩ := hchain hfirst hsecond
  exact ⟨checkLink_ok htarget, checkLink_ok hthrough⟩

theorem Draft.Belongs.edited {source target : String} (h : d.Belongs source target) (he : Edited stages d e) (hd : d.Sound)
    (hs : .belongsTo ∉ stages) : e.Belongs source target := by
  obtain ⟨m, hm, hsome⟩ := h
  obtain ⟨n, hn, _⟩ := he.model hm
  exact ⟨n, hn, he.belongsTo? hs hd hm hn target ▸ hsome⟩

namespace Course

variable {settings : Settings} {schema : SchemaDeclaration} (c : Course settings schema) {name : String} {r : Relation}

theorem exists_having : ∃ d e, Pass.hasOneOrMany.body d = .ok () e ∧ d.Sound ∧
    Edited [.belongsTo, .belongsToMany] c.declared d ∧
    Edited [.hasOneOrManyThrough, .morphTo, .morphOneOrMany, .morphToMany, .pivotModels, .morphColumns, .modelAttributes]
      e c.complete := by
  obtain ⟨d₁, h₁, d₂, h₂, d₃, h₃, hd⟩ := c.joins
  have e₁ := (edited_belongsToMany c.sound_owned h₁).1
  have s₁ := c.sound_owned.edited e₁
  have s₂ := s₁.edited (edited_hasOneOrMany s₁ h₂).1
  have e₃ : Edited [.hasOneOrManyThrough] d₂ c.joined := hd ▸ (edited_hasOneOrManyThrough s₂ h₃).1
  exact ⟨d₁, d₂, h₂, s₁, c.reaches_owned.1.append e₁, e₃.append (c.reaches_pointed.1.append c.edited_pointed)⟩

theorem exists_through : ∃ d, Pass.hasOneOrManyThrough.body d = .ok () c.joined ∧ d.Sound ∧
    Edited [.belongsTo, .belongsToMany, .hasOneOrMany] c.declared d := by
  obtain ⟨d₁, h₁, d₂, h₂, d₃, h₃, hd⟩ := c.joins
  have e₁ := (edited_belongsToMany c.sound_owned h₁).1
  have s₁ := c.sound_owned.edited e₁
  have e₂ := (edited_hasOneOrMany s₁ h₂).1
  exact ⟨d₂, hd ▸ h₃, s₁.edited e₂, (c.reaches_owned.1.append e₁).append e₂⟩

/-- A `hasOne` or `hasMany` whose line names no key has the keys of the first `belongsTo` of its target that points back. -/
theorem exists_inverse (hm : c.complete.models.get? k = some m) (hr : m.relations.get? name = some r) {link : HasOneOrMany}
    (hl : r.link = .hasOne link ∨ r.link = .hasMany link) : ∃ l target, c.declared.Declares l ∧ l.model = k ∧ l.name = name ∧
      c.complete.models.get? link.model = some target ∧ (l.argument? 1 = none → ∃ inverse, target.belongsTo? k = some inverse ∧
        link.foreignKey = inverse.columnKey ∧ link.localKey = (l.argument? 2).or inverse.ownerKey) := by
  have hkind : r.kind ∈ [RelationKind.hasOne, .hasMany] := by
    rcases hl with hl | hl <;> simp [Relation.kind, hl, Link.kind]
  obtain ⟨d, e, hpass, hsound, hbefore, hafter⟩ := c.exists_having
  have hline : (name, r.kind) ∈ d.relationLines k := hbefore.relationLines k ▸ c.mem_relationLines hm hr
  obtain ⟨_, hall⟩ := turns_hasOneOrMany hsound hpass
  obtain ⟨l, d₀, d₁, ht, rfl, rfl, hlk⟩ := hall k name _ hkind hline
  obtain ⟨key, found, made, _, hfound, hmade, rfl⟩ := resolveHaving_ok_iff.mp (Resolve.update_run_ok.mp ht.left)
  have hr' := ht.relation_either (.hasOne made) (.hasMany made) hafter (hlk ▸ hkind)
    (show ∀ kind ∈ [RelationKind.hasOne, .hasMany], _ by decide) hm
  obtain rfl := Option.some_inj.mp (hr.symm.trans hr')
  obtain rfl : made = link := by
    dsimp only at hl
    split at hl <;> rcases hl with hl | hl <;> cases hl <;> rfl
  have hd₀ : d₀.Sound := hsound.edited ht.before
  obtain rfl : made.model = key := (havingLink_model hmade).trans (hd₀.keyed key found hfound)
  have hend := (trans_of (Edited [.hasOneOrMany]) ht.edited ht.after).append hafter
  obtain ⟨target, htarget, _⟩ := hend.model hfound
  refine ⟨l, target, ht.declares.back hbefore, rfl, rfl, htarget, fun hnone => ?_⟩
  obtain ⟨inverse, hinverse, hforeign, hlocal⟩ := havingLink_inverse hmade hnone
  exact ⟨inverse, (hend.belongsTo? (by decide) hd₀ hfound htarget l.model).trans hinverse, hforeign, hlocal⟩

/-- What the line of a through relation has found in its turn is in the relation in the end. -/
theorem exists_turn_through (hm : c.complete.models.get? k = some m) (hr : m.relations.get? name = some r) {link : Through}
    (hl : r.link = .hasOneThrough link ∨ r.link = .hasManyThrough link) : ∃ l d, c.declared.Declares l ∧ l.model = k ∧
      l.name = name ∧ d.Sound ∧ Edited [.hasOneOrManyThrough, .morphTo, .morphOneOrMany, .morphToMany, .pivotModels, .morphColumns,
        .modelAttributes] d c.complete ∧ throughPair d l = .ok (link.model, link.through) ∧
      (l.argument? 2 = none → l.argument? 3 = none → d.Belongs link.model link.through ∧ d.Belongs link.through k) := by
  have hkind : r.kind ∈ [RelationKind.hasOneThrough, .hasManyThrough] := by
    rcases hl with hl | hl <;> simp [Relation.kind, hl, Link.kind]
  obtain ⟨d, hpass, hsound, hbefore⟩ := c.exists_through
  have hafter := c.reaches_pointed.1.append c.edited_pointed
  have hline : (name, r.kind) ∈ d.relationLines k := hbefore.relationLines k ▸ c.mem_relationLines hm hr
  obtain ⟨_, hall⟩ := turns_hasOneOrManyThrough hsound hpass
  obtain ⟨l, d₀, d₁, ht, rfl, rfl, hlk⟩ := hall k name _ hkind hline
  obtain ⟨made, hpair, hchain, rfl⟩ := resolveThrough_chain (Resolve.update_run_ok.mp ht.left)
  have hr' := ht.relation_either (.hasOneThrough made) (.hasManyThrough made) hafter (hlk ▸ hkind)
    (show ∀ kind ∈ [RelationKind.hasOneThrough, .hasManyThrough], _ by decide) hm
  obtain rfl := Option.some_inj.mp (hr.symm.trans hr')
  obtain rfl : made = link := by
    dsimp only at hl
    split at hl <;> rcases hl with hl | hl <;> cases hl <;> rfl
  exact ⟨l, d₀, ht.declares.back hbefore, rfl, rfl, hsound.edited ht.before,
    (trans_of (Edited [.hasOneOrManyThrough]) ht.edited ht.after).append hafter, hpair, hchain⟩

/-- The models of a through relation whose line names no keys form a chain. -/
theorem exists_chain (hm : c.complete.models.get? k = some m) (hr : m.relations.get? name = some r) {link : Through}
    (hl : r.link = .hasOneThrough link ∨ r.link = .hasManyThrough link) : ∃ l, c.declared.Declares l ∧ l.model = k ∧
      l.name = name ∧ (l.argument? 2 = none → l.argument? 3 = none →
        c.complete.Belongs link.model link.through ∧ c.complete.Belongs link.through k) := by
  obtain ⟨l, d, hdeclares, rfl, rfl, hd, hend, _, hchain⟩ := c.exists_turn_through hm hr hl
  refine ⟨l, hdeclares, rfl, rfl, fun hfirst hsecond => ?_⟩
  obtain ⟨htarget, hthrough⟩ := hchain hfirst hsecond
  exact ⟨htarget.edited hend hd (by decide), hthrough.edited hend hd (by decide)⟩

end Course

end Resolution

end Schemata
