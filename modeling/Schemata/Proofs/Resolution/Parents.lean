import Schemata.Proofs.Resolution.Pointers

/-!
# Parents

A pointer has exactly the parents that links make known to it. A turn of a pass fills the place of its line with a link, and
adds to each pointer the parent that the link makes known, so that the two sides grow together.
-/

namespace Schemata

theorem MorphTo.mem_addModel {t : MorphTo} {p q : String} : p ∈ (t.addModel q).models ↔ p ∈ t.models ∨ q = p := by
  unfold addModel
  split
  · rename_i hq
    exact ⟨.inl, fun h => h.elim id fun hp => hp ▸ List.contains_iff_mem.mp hq⟩
  · simp [eq_comm]

theorem MorphTo.columnName_addModel (t : MorphTo) (q : String) : (t.addModel q).columnName = t.columnName := by
  unfold addModel
  split <;> rfl

theorem MorphTo.mem_elim_addModel {t : MorphTo} {x : Option String} {p : String} :
    p ∈ (x.elim t t.addModel).models ↔ p ∈ t.models ∨ x = some p := by
  cases x with
  | none => simp
  | some q => rw [Option.elim_some, mem_addModel, Option.some_inj]

theorem MorphTo.columnName_elim_addModel (t : MorphTo) (x : Option String) :
    (x.elim t t.addModel).columnName = t.columnName := by
  cases x with
  | none => rfl
  | some q => exact t.columnName_addModel q

/-- The parent that a link of a model makes known to the pointer in a place, whose column pair has a name. -/
def Link.parent? (owner : String) (place : RelationName) (columnName : String) : Link → Option String
  | .morphOne l | .morphMany l => if place = ⟨l.model, l.relationKey⟩ then some owner else none
  | .morphToMany l => if l.pivot = some place.model ∧ l.relationKey = columnName then some owner else none
  | .morphedByMany l => if l.pivot = some place.model ∧ l.relationKey = columnName then some l.model else none
  | _ => none

/-- The relation in a place with the parent that a link makes known to it. -/
def Relation.joinedBy (owner : String) (place : RelationName) (link : Link) (r : Relation) : Relation :=
  r.mapMorphTo fun t => (link.parent? owner place t.columnName).elim t t.addModel

theorem Relation.mapMorphTo_congr {f g : MorphTo → MorphTo} {r : Relation} (h : ∀ t, r.link = .morphTo t → f t = g t) :
    r.mapMorphTo f = r.mapMorphTo g := by
  unfold mapMorphTo
  cases hl : r.link with
  | morphTo t => simp only [h t hl]
  | _ => rfl

theorem Relation.mapMorphTo_id (r : Relation) : r.mapMorphTo (fun t => t) = r := by
  obtain ⟨name, methods, link⟩ := r
  cases link <;> rfl

theorem Relation.link_joinedBy {owner : String} {place : RelationName} {link : Link} {r : Relation} {t' : MorphTo}
    (h : (r.joinedBy owner place link).link = .morphTo t') :
    ∃ t, r.link = .morphTo t ∧ t' = (link.parent? owner place t.columnName).elim t t.addModel := by
  obtain ⟨name, methods, l⟩ := r
  cases l with
  | morphTo t => exact ⟨t, rfl, (Link.morphTo.inj h).symm⟩
  | _ => cases h

theorem Relation.parent?_joinedBy (owner a columnName : String) (place place' : RelationName) (link : Link) (r : Relation) :
    (r.joinedBy owner place link).link.parent? a place' columnName = r.link.parent? a place' columnName := by
  obtain ⟨name, methods, l⟩ := r
  cases l <;> rfl

namespace Resolution

variable {c d e : Draft} {l : DeclaredRelation} {link : Link} {k n : String} {m : Model}

/-! ## Relations by their places -/

theorem Draft.relation?_of_get? (h : d.models.get? k = some m) : d.relation? k = m.relation? := by
  funext n
  unfold relation?
  rw [h]
  rfl

theorem Draft.relation?_eq_some_iff {r : Relation} :
    d.relation? k n = some r ↔ ∃ m, d.models.get? k = some m ∧ m.relations.get? n = some r :=
  Option.bind_eq_some_iff

theorem Draft.relation?_modifyModel (d : Draft) (key k n : String) (f : Model → Model) :
    (d.modifyModel key f).relation? k n =
      if k = key then (d.models.get? k).bind fun m => (f m).relation? n else d.relation? k n := by
  unfold relation?
  rw [get?_modifyModel]
  split
  · rw [Option.bind_map]; rfl
  · rfl

theorem Draft.relation?_resolveRelation (h : l.model ∈ d.models.keys) : (d.resolveRelation l link).relation? k n =
    if l.relation = ⟨k, n⟩ then some ⟨l.name, l.methods, link⟩ else d.relation? k n := by
  unfold resolveRelation
  rw [relation?_modifyModel]
  by_cases hk : k = l.model
  · subst hk
    obtain ⟨m, hm⟩ := OrderedMap.mem_keys_iff.mp h
    rw [if_pos rfl, hm, Option.bind_some, relation?_of_get? hm]
    unfold Model.relation?
    rw [Slots.get?_resolve]
    by_cases hn : n = l.name
    · have hplace : l.relation = ⟨l.model, n⟩ := congrArg (RelationName.mk l.model) hn.symm
      rw [if_pos hn, if_pos hplace]
    · rw [if_neg hn, if_neg fun h : l.relation = _ => hn (RelationName.mk.inj h).2.symm]
  · rw [if_neg hk, if_neg fun h : l.relation = _ => hk (RelationName.mk.inj h).1.symm]

theorem Draft.relation?_atPlace (d : Draft) (k n : String) :
    (d.relation? k n).map Relation.withoutParents = (d.atPlace k n).bind Prod.snd := by
  unfold relation? atPlace
  cases d.models.get? k <;> rfl

theorem Draft.relation?_eq_none_of_atPlace (h : c.atPlace k n = d.atPlace k n) (hd : d.relation? k n = none) :
    c.relation? k n = none := by
  have hnone : (c.relation? k n).map Relation.withoutParents = none := by
    rw [relation?_atPlace, h, ← relation?_atPlace, hd, Option.map_none]
  exact Option.map_eq_none_iff.mp hnone

/-- No two pointers of a model have column pairs of one name. -/
def NamesDistinct (relations : String → Option Relation) : Prop :=
  ∀ ⦃n n' r r' t t'⦄, relations n = some r → r.link = .morphTo t → relations n' = some r' → r'.link = .morphTo t' →
    t.columnName = t'.columnName → n = n'

/-! ## Turns -/

/-- A turn fills the place of its line with a link, and adds the parents that the link makes known. -/
def Joins (l : DeclaredRelation) (link : Link) (c d : Draft) : Prop :=
  ∀ k n, d.relation? k n = if l.relation = ⟨k, n⟩ then some ⟨l.name, l.methods, link⟩ else
    (c.relation? k n).map (Relation.joinedBy l.model ⟨k, n⟩ link)

theorem joins_resolveRelation (hl : l.model ∈ d.models.keys)
    (h : ∀ k n, d.relation? k n = (c.relation? k n).map (Relation.joinedBy l.model ⟨k, n⟩ link)) :
    Joins l link c (d.resolveRelation l link) := by
  intro k n
  rw [Draft.relation?_resolveRelation hl, h]

theorem parent?_morphLink (owner columnName : String) (place : RelationName) (l : DeclaredRelation) (link : MorphOneOrMany) :
    (morphLink l link).parent? owner place columnName =
      if place = ⟨link.model, link.relationKey⟩ then some owner else none := by
  unfold morphLink
  split <;> rfl

theorem joins_resolveMorphOne (hl : l.model ∈ d.models.keys) (h : resolveMorphOne l d = .ok e) :
    ∃ link, Joins l link d e ∧ link.kind ≠ .morphTo := by
  obtain ⟨link, _, _, _, _, rfl⟩ := resolveMorphOne_ok_iff.mp h
  refine ⟨morphLink l link, joins_resolveRelation ?_ fun k n => ?_, by unfold morphLink; split <;> exact RelationKind.noConfusion⟩
  · exact (OrderedMap.keys_modify _ _ _).symm ▸ hl
  · unfold Draft.modifyRelation Relation.joinedBy
    simp only [parent?_morphLink, RelationName.mk.injEq]
    rw [Draft.relation?_modifyModel]
    by_cases hk : k = link.model
    · subst hk
      cases hm : d.models.get? link.model with
      | none => simp [Draft.relation?, hm]
      | some m =>
        rw [if_pos rfl, Option.bind_some, Draft.relation?_of_get? hm]
        unfold Model.relation?
        rw [Slots.get?_modify]
        by_cases hn : n = link.relationKey
        · simp [hn]
        · simp [hn, Relation.mapMorphTo_id]
    · simp [hk, Relation.mapMorphTo_id]

theorem parent?_morphsLink (columnName : String) (place : RelationName) (l : DeclaredRelation) (link : MorphToMany) :
    (morphsLink l link).parent? l.model place columnName =
      if link.pivot = some place.model ∧ link.relationKey = columnName then some (morphSides l link.model).1 else none := by
  unfold morphsLink morphSides
  split <;> rfl

theorem relation?_addParent (hm : NamesDistinct m.relation?) (columnName parent : String) :
    (addParent columnName parent m).relation? n = (m.relation? n).map
      (Relation.mapMorphTo fun t => if columnName = t.columnName then t.addModel parent else t) := by
  have hid : (∀ r t, m.relation? n = some r → r.link = .morphTo t → columnName ≠ t.columnName) → m.relation? n =
      (m.relation? n).map (Relation.mapMorphTo fun t => if columnName = t.columnName then t.addModel parent else t) := by
    intro hne
    cases hr : m.relation? n with
    | none => rfl
    | some r =>
      have hsame := Relation.mapMorphTo_congr fun t ht => (if_neg (hne r t hr ht) :
        (if columnName = t.columnName then t.addModel parent else t) = t)
      rw [Option.map_some, hsame, Relation.mapMorphTo_id]
  unfold addParent
  split
  · rename_i key r hf
    have hr : m.relation? key = some r := Slots.mem_resolved_iff.mp (List.mem_of_find?_eq_some hf)
    have hany : r.morphTo?.any (·.columnName == columnName) = true := by simpa using List.find?_some hf
    obtain ⟨t, ht, hname⟩ := exists_of_any hany
    have hl : r.link = .morphTo t := Relation.morphTo?_eq_some_iff.mp ht
    have hname : columnName = t.columnName := (beq_iff_eq.mp hname).symm
    unfold Model.relation? at hr hm hid ⊢
    rw [Slots.get?_modify]
    split
    · rename_i hn
      subst hn
      rw [hr, Option.map_some, Option.map_some]
      refine congrArg some (Relation.mapMorphTo_congr fun t' ht' => ?_)
      obtain rfl := Link.morphTo.inj (hl.symm.trans ht')
      exact (if_pos hname).symm
    · -- The first pointer of the name gets the parent, and there is no second.
      rename_i hn
      exact hid fun r' t' hr' hl' heq => hn (hm hr' hl' hr hl (heq.symm.trans hname))
  · rename_i hf
    refine hid fun r t hr hl heq => List.find?_eq_none.mp hf (n, r) (Slots.mem_resolved_iff.mpr hr) ?_
    simp [Relation.morphTo?, hl, heq]

theorem joins_resolveMorphs (hl : l.model ∈ d.models.keys) (hd : ∀ k, NamesDistinct (d.relation? k))
    (h : resolveMorphs l d = .ok () e) : ∃ link, Joins l link d e ∧ link.kind ≠ .morphTo := by
  obtain ⟨target, pivot, c, _, hc, h⟩ := resolveMorphs_ok_iff.mp h
  obtain ⟨_, rfl⟩ := claimPivot_ok hc
  obtain ⟨link, rfl, rfl, rfl, _⟩ := linkMorphs_ok h
  refine ⟨morphsLink l link, joins_resolveRelation ?_ fun k n => ?_, by unfold morphsLink; split <;> exact RelationKind.noConfusion⟩
  · cases link.pivot with
    | none => exact hl
    | some key => exact ((OrderedMap.keys_modify _ _ _).trans (OrderedMap.keys_modify _ _ _)).symm ▸ hl
  · unfold Relation.joinedBy
    simp only [parent?_morphsLink]
    cases hp : link.pivot with
    | none => simp [Relation.mapMorphTo_id]
    | some key =>
      change ((d.modifyModel key _).modifyModel key _).relation? k n = _
      rw [Draft.relation?_modifyModel, Draft.get?_modifyModel]
      by_cases hk : k = key
      · subst hk
        cases hm : d.models.get? k with
        | none => simp [Draft.relation?, hm]
        | some m =>
          rw [if_pos rfl, if_pos rfl, Option.map_some, Option.bind_some, relation?_addParent, Draft.relation?_of_get? hm]
          · refine congrArg (Option.map · _) (funext fun r => Relation.mapMorphTo_congr fun t _ => ?_)
            by_cases hname : link.relationKey = t.columnName <;> simp [hname]
          · exact Draft.relation?_of_get? hm ▸ hd k
      · rw [if_neg hk, Draft.relation?_modifyModel, if_neg hk]
        simp [Ne.symm hk, Relation.mapMorphTo_id]

/-! ## What a turn keeps -/

/-- The names of pointers are distinct, and a pointer has the parents that links make known to it. -/
structure Draft.Known (d : Draft) : Prop where
  names : ∀ k, NamesDistinct (d.relation? k)
  parents {k n r t p} : d.relation? k n = some r → r.link = .morphTo t →
    (p ∈ t.models ↔ ∃ a j r', d.relation? a j = some r' ∧ r'.link.parent? a ⟨k, n⟩ t.columnName = some p)

theorem Draft.Known.joins (hc : c.Known) (hj : Joins l link c d) (hk : link.kind ≠ .morphTo)
    (hfree : c.relation? l.model l.name = none) : d.Known := by
  have hback : ∀ {k n r' t'}, d.relation? k n = some r' → r'.link = .morphTo t' → ∃ r t, c.relation? k n = some r ∧
      r.link = .morphTo t ∧ t' = (link.parent? l.model ⟨k, n⟩ t.columnName).elim t t.addModel := by
    intro k n r' t' hr hl
    rw [hj] at hr
    split at hr
    · obtain rfl := Option.some_inj.mp hr
      exact absurd (congrArg Link.kind hl) hk
    · obtain ⟨r, hr₀, rfl⟩ := Option.map_eq_some_iff.mp hr
      obtain ⟨t, hl₀, ht⟩ := Relation.link_joinedBy hl
      exact ⟨r, t, hr₀, hl₀, ht⟩
  constructor
  · intro k n n' r r' t t' hr hl hr' hl' hname
    obtain ⟨r₁, t₁, hr₁, hl₁, rfl⟩ := hback hr hl
    obtain ⟨r₂, t₂, hr₂, hl₂, rfl⟩ := hback hr' hl'
    rw [MorphTo.columnName_elim_addModel, MorphTo.columnName_elim_addModel] at hname
    exact hc.names k hr₁ hl₁ hr₂ hl₂ hname
  · intro k n r t p hr hl
    obtain ⟨r₀, t₀, hr₀, hl₀, rfl⟩ := hback hr hl
    rw [MorphTo.mem_elim_addModel, MorphTo.columnName_elim_addModel, hc.parents hr₀ hl₀]
    constructor
    · rintro (⟨a, j, r', hr', hp⟩ | hp)
      · -- The relation that has made the parent known is not in the place that is filled now.
        have hne : l.relation ≠ ⟨a, j⟩ := by
          intro heq
          obtain ⟨rfl, rfl⟩ := RelationName.mk.inj heq
          rw [hfree] at hr'
          cases hr'
        refine ⟨a, j, r'.joinedBy l.model ⟨a, j⟩ link, ?_, ?_⟩
        · rw [hj, if_neg hne, hr', Option.map_some]
        · rw [Relation.parent?_joinedBy]
          exact hp
      · exact ⟨l.model, l.name, ⟨l.name, l.methods, link⟩, (hj _ _).trans (if_pos rfl), hp⟩
    · rintro ⟨a, j, r', hr', hp⟩
      rw [hj] at hr'
      split at hr'
      · rename_i heq
        obtain ⟨rfl, rfl⟩ := RelationName.mk.inj heq
        obtain rfl := Option.some_inj.mp hr'
        exact .inr hp
      · obtain ⟨r'', hr'', rfl⟩ := Option.map_eq_some_iff.mp hr'
        rw [Relation.parent?_joinedBy] at hp
        exact .inl ⟨a, j, r'', hr'', hp⟩

theorem Draft.Known.morphOneOrMany (hd : d.Sound) (hk : d.Known)
    (hfree : ∀ l, d.Declares l → l.kind ∈ [.morphOne, .morphMany] → d.relation? l.model l.name = none)
    (h : Pass.morphOneOrMany.body d = .ok () e) : e.Known := by
  refine holds_of_lines (Draft.lists_of_declaredRelationsOf (by decide))
    (fun hne hf => resolveMorphOne_apart hne (Resolve.update_run_ok.mp hf))
    (fun {l c c'} (hc : Edited [.morphOneOrMany] d c) hknown hl hkind hv hf => ?_) h hk
  have hf := Resolve.update_run_ok.mp hf
  obtain ⟨link, hj, hlink⟩ := joins_resolveMorphOne ((hd.edited hc).mem_keys (hl.along hc).line) hf
  exact ⟨resolveMorphOne_edited (hd.edited hc) (hl.along hc) hkind hf,
    hknown.joins hj hlink (relation?_eq_none_of_atPlace hv (hfree l hl hkind))⟩

theorem Draft.Known.morphToMany (hd : d.Sound) (hk : d.Known)
    (hfree : ∀ l, d.Declares l → l.kind ∈ [.morphToMany, .morphedByMany] → d.relation? l.model l.name = none)
    (h : Pass.morphToMany.body d = .ok () e) : e.Known := by
  refine holds_of_lines (Draft.lists_of_declaredRelationsOf (by decide)) (fun hne hf => resolveMorphs_apart hne hf)
    (fun {l c c'} (hc : Edited [.morphToMany] d c) hknown hl hkind hv hf => ?_) h hk
  obtain ⟨link, hj, hlink⟩ := joins_resolveMorphs ((hd.edited hc).mem_keys (hl.along hc).line) hknown.names hf
  exact ⟨resolveMorphs_edited (hd.edited hc) (hl.along hc) hkind hf,
    hknown.joins hj hlink (relation?_eq_none_of_atPlace hv (hfree l hl hkind))⟩

/-! ## Relations that the passes have made -/

/-- No relation is there yet. -/
def Draft.Unrelated (d : Draft) : Prop :=
  ∀ k n, d.relation? k n = none

section

variable {stages : List Stage}

theorem unrelated_of_laid (h : ∀ k n, d.models.get? k = some n → ∃ s, d.declarations.get? k = some s ∧ Laid s n) :
    d.Unrelated := by
  intro k n
  unfold Draft.relation?
  cases hm : d.models.get? k with
  | none => rfl
  | some m =>
    obtain ⟨_, _, hlaid⟩ := h k m hm
    exact hlaid.relations n

theorem Draft.Unrelated.fresh (hd : d.Unrelated) (h : Edited stages d e) {r : Relation} (hr : e.relation? k n = some r) :
    r.kind.stage ∈ stages ∧ (.morphOneOrMany ∉ stages ∧ .morphToMany ∉ stages → r.link.parents = []) := by
  obtain ⟨m', hm', hr⟩ := Draft.relation?_eq_some_iff.mp hr
  obtain ⟨m, hm, _⟩ := h.back hm'
  exact h.fresh hm hm' (fun j => (congrFun (Draft.relation?_of_get? hm) j).symm.trans (hd k j)) hr

theorem Draft.Unrelated.relation?_eq_none (hd : d.Unrelated) (h : Edited stages d e) (he : e.Sound) (hl : e.Declares l)
    (hs : l.kind.stage ∉ stages) : e.relation? l.model l.name = none := by
  cases hr : e.relation? l.model l.name with
  | none => rfl
  | some r =>
    obtain ⟨m, hm, hrelation⟩ := Draft.relation?_eq_some_iff.mp hr
    have hkind : r.kind = l.kind := Draft.kind_unique ((he.model _ _ hm).relation hrelation).2.1 hl.line
    exact absurd (hkind ▸ (hd.fresh h hr).1) hs

/-- Before the passes of parents there are none, and nothing makes any known. -/
theorem Draft.Unrelated.known (hd : d.Unrelated) (h : Edited stages d e)
    (hs : .morphOneOrMany ∉ stages ∧ .morphToMany ∉ stages) (hnames : ∀ k, NamesDistinct (e.relation? k)) : e.Known := by
  refine ⟨hnames, fun {k n r t p} hr hl => ?_⟩
  have hparents := (hd.fresh h hr).2 hs
  rw [hl] at hparents
  have hparents : t.models = [] := hparents
  refine iff_of_false (by rw [hparents]; exact List.not_mem_nil) ?_
  rintro ⟨a, j, r', hr', hp⟩
  have hstage := (hd.fresh h hr').1
  unfold Relation.kind at hstage
  cases hl' : r'.link <;> rw [hl'] at hstage hp
  all_goals first | cases hp | exact hs.1 hstage | exact hs.2 hstage

/-- After the passes of parents all of them are known. -/
theorem Draft.Unrelated.known_parents {c : Draft} (hd : d.Unrelated) (hsound : d.Sound) (h : Edited stages d c)
    (hs : .morphOneOrMany ∉ stages ∧ .morphToMany ∉ stages) (hnames : ∀ k, NamesDistinct (c.relation? k))
    (hrun : Completes [.morphOneOrMany, .morphToMany] c e) : e.Known := by
  obtain ⟨b, hb, e', he, rfl⟩ := hrun
  have hc : c.Sound := hsound.edited h
  have hbound := h.append (edited_morphOneOrMany hc hb).1
  have hmany : .morphToMany ∉ stages ++ [.morphOneOrMany] := by simpa using hs.2
  have hknown : b.Known := (hd.known h hs hnames).morphOneOrMany hc
    (fun l hl hk => hd.relation?_eq_none h hc hl (by rcases List.mem_pair.mp hk with hk | hk <;> rw [hk] <;> exact hs.1)) hb
  exact hknown.morphToMany (hsound.edited hbound) (fun l hl hk => hd.relation?_eq_none hbound (hsound.edited hbound) hl
    (by rcases List.mem_pair.mp hk with hk | hk <;> rw [hk] <;> exact hmany)) he

/-- Later passes leave the relations as they are. -/
theorem Edited.relation?_eq (h : Edited stages d e) (hs : stages ⊆ [.pivotModels, .morphColumns, .modelAttributes]) (k n : String) :
    e.relation? k n = d.relation? k n := by
  unfold Draft.relation?
  cases hm : e.models.get? k with
  | none =>
    have hk : k ∉ d.models.keys := h.keys ▸ OrderedMap.get?_eq_none_iff.mp hm
    rw [OrderedMap.get?_eq_none_iff.mpr hk]
  | some m =>
    obtain ⟨m₀, hm₀, _⟩ := h.back hm
    rw [hm₀]
    unfold Model.relation?
    rw [Option.bind_some, Option.bind_some, h.relations hs hm₀ hm]

theorem Draft.Known.congr (hd : d.Known) (h : ∀ k n, e.relation? k n = d.relation? k n) : e.Known := by
  constructor
  · intro k
    rw [funext (h k)]
    exact hd.names k
  · intro k n r t p hr hl
    rw [h] at hr
    simp only [h]
    exact hd.parents hr hl

end

/-! ## The course of parents -/

namespace Course

variable {settings : Settings} {schema : SchemaDeclaration} (c : Course settings schema)

/-- Pairs of one name would have physical columns in common. -/
theorem namesDistinct (hm : c.complete.models.get? k = some m) (hc : Creatable m.columns.values) :
    NamesDistinct m.relation? := by
  have hpart : ∀ {n r t}, m.relation? n = some r → r.link = .morphTo t →
      ∃ column, m.columns.get? n = some column ∧ t.columnName ++ "_type" ∈ column.physicalNames := by
    intro n r t hr hl
    obtain ⟨l, shape, hp, rfl, rfl⟩ := c.exists_paired hm hr hl
    obtain ⟨column, hcolumn, hnames⟩ := hp.hasPair
    exact ⟨column, hcolumn, hnames ▸ List.mem_cons_self⟩
  intro n n' r r' t t' hr hl hr' hl' hname
  obtain ⟨column, hcolumn, hmem⟩ := hpart hr hl
  obtain ⟨column', hcolumn', hmem'⟩ := hpart hr' hl'
  exact Slots.eq_of_mem_parts hc.names hcolumn hmem hcolumn' (hname ▸ hmem')

theorem namesDistinct_of_checked (hchecked : ∀ m ∈ c.complete.models.values, checkComplete m = .ok ()) (k : String) :
    NamesDistinct (c.complete.relation? k) := by
  cases hk : c.complete.models.get? k with
  | none =>
    have hnone : ∀ n, c.complete.relation? k n = none := fun n => by rw [Draft.relation?, hk]; rfl
    intro n n' r r' t t' hr
    cases (hnone n).symm.trans hr
  | some m =>
    rw [Draft.relation?_of_get? hk]
    exact c.namesDistinct hk
      (creatable_of_checked c.founded.sound hk (hchecked m (OrderedMap.mem_values_iff.mpr ⟨k, hk⟩)))

/-- Later passes leave the names of pointers as they are, so they are distinct if they are so in the end. -/
theorem namesDistinct_pointed (hnames : ∀ k, NamesDistinct (c.complete.relation? k)) (k : String) :
    NamesDistinct (c.pointed.relation? k) := by
  have hlater : ∀ {n r t}, c.pointed.relation? k n = some r → r.link = .morphTo t →
      ∃ r' t', c.complete.relation? k n = some r' ∧ r'.link = .morphTo t' ∧ t'.columnName = t.columnName := by
    intro n r t hr hl
    obtain ⟨m, hm, hr⟩ := Draft.relation?_eq_some_iff.mp hr
    obtain ⟨m', hm', _⟩ := c.edited_pointed.model hm
    obtain ⟨r', t', hr', ht⟩ := c.edited_pointed.pointer c.sound_pointed (by decide) hm hm' hr hl
    exact ⟨r', t', Draft.relation?_eq_some_iff.mpr ⟨m', hm', hr'⟩, ht⟩
  intro n n' r r' t t' hr hl hr' hl' hname
  obtain ⟨r₁, t₁, hr₁, hl₁, hname₁⟩ := hlater hr hl
  obtain ⟨r₂, t₂, hr₂, hl₂, hname₂⟩ := hlater hr' hl'
  exact hnames k hr₁ hl₁ hr₂ hl₂ (hname₁.trans (hname.trans hname₂.symm))

theorem known_linked (hnames : ∀ k, NamesDistinct (c.complete.relation? k)) : c.linked.Known :=
  (unrelated_of_laid c.founded_laid.2).known_parents c.sound_declared (c.edited_joined.append c.reaches_pointed.1) (by decide)
    (c.namesDistinct_pointed hnames) c.parents

theorem known_complete (hnames : ∀ k, NamesDistinct (c.complete.relation? k)) : c.complete.Known :=
  (c.known_linked hnames).congr ((c.edited_pivoted.append c.edited_complete).relation?_eq (by decide))

end Course

end Resolution

end Schemata
